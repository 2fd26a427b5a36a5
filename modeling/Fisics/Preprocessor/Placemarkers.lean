import Fisics.Preprocessor.Paste

/-!
# Placemarkers

`pastedMacro` is the substitution as C means it: the `##` of a replacement list joins
its own two operands, an empty argument beside it is a placemarker, a `##` from an
argument is a token, and a pasted token is read from the spellings of its operands.
`substituteMacro_pastesAsC` says when `substitute_macro` comes to the same.
-/

namespace Fisics

open Joints (Item chains reread values Tidy)

-- Substitution with placemarkers

section
variable (spell : Token → List Char) (d : MacroDefinition) (callSite : SourceRange)
variable (args : MacroArgPack)

def joinSpelled (left right : SpelledToken) : Option SpelledToken :=
  let origin := pasteOrigin left.1 right.1 callSite
  (relexSingleToken (String.ofList (left.2 ++ right.2)) origin).map fun tok =>
    ({ tok with macroCallSite := origin }, left.2 ++ right.2)

/-- The string that `#` makes is spelled with its quotes. -/
def spelledString (tok : Token) : SpelledToken := (tok, '"' :: (tokenText tok).toList ++ ['"'])

def bodyItem (tok : Token) : Item SpelledToken :=
  if isHashHash tok then .joint else .item (tok, spell tok)

/-- What an operand is replaced by; nothing beside a `##` is a placemarker. -/
def operandItems (besidePaste : Bool) (tokens : List SpelledToken) : List (Item SpelledToken) :=
  if besidePaste && tokens.isEmpty then [.gap] else tokens.map .item

def parameterItems (before : List Token) (name : String) (rest : List Token) :
    Option (Except SubstituteError (List (Item SpelledToken))) :=
  (substituteParameter d callSite args before name rest).map fun r => r.map fun tokens =>
    operandItems (headIs .doubleHash rest || headIs .doubleHash before)
      (tokens.map fun tok => (tok, spell tok))

def pasteItems (vaOpt : List Token → Except SubstituteError (List SpelledToken)) :
    (skip : Nat) → (before : List Token) → List Token →
    Except SubstituteError (List (Item SpelledToken))
  | _, _, [] => .ok []
  | skip + 1, before, tok :: rest => pasteItems vaOpt skip (tok :: before) rest
  | 0, before, tok :: rest =>
    match (if tok.type = .hash then substituteHash d callSite args rest else none) with
    | some string =>
      (pasteItems vaOpt 1 (tok :: before) rest).map ([.item (spelledString string)] ++ ·)
    | none =>
      if tok.type = .identifier then
        match vaOptContents d tok rest with
        | some inside =>
          let besidePaste := headIs .doubleHash (rest.drop (inside.length + 2)) || headIs .doubleHash before
          (if args.variadics.isEmpty then .ok [] else vaOpt inside).bind fun tokens =>
            (pasteItems vaOpt (inside.length + 2) (tok :: before) rest).map
              (operandItems besidePaste tokens ++ ·)
        | none =>
          match parameterItems spell d callSite args before (tokenText tok) rest with
          | some items =>
            items.bind fun items => (pasteItems vaOpt 0 (tok :: before) rest).map (items ++ ·)
          | none => (pasteItems vaOpt 0 (tok :: before) rest).map ([bodyItem spell tok] ++ ·)
      else (pasteItems vaOpt 0 (tok :: before) rest).map ([bodyItem spell tok] ++ ·)

def finishItems (items : List (Item SpelledToken)) : Except SubstituteError (List SpelledToken) :=
  match (chains false [] items).mapM (joinChain (joinSpelled callSite)) with
  | some tokens =>
    .ok (tokens.map fun tok => (completeToken callSite d.definitionRange tok.1, tok.2))
  | none => .error .paste

def pastedBody : (depth : Nat) → List Token → Except SubstituteError (List SpelledToken)
  | 0, _ => .error .paste
  | depth + 1, body =>
    (pasteItems spell d callSite args (pastedBody depth) 0 [] body).bind (finishItems d callSite)

/-- What C makes of a call. -/
def pastedMacro : Except SubstituteError (List SpelledToken) :=
  pastedBody spell d callSite args (d.body.length + 1) d.body

-- Who owns the text of a token

def textOf (tok : Token) : List Char := (tokenText tok).toList

/-- Texts that the lexer does not allocate: punctuators other than `#`, `##` and `/`, and
what stands for a token that could not be read. -/
def staticText (tok : Token) : Bool :=
  let c (i : Nat) := (textOf tok).getD i '\x00'
  [operatorToken (c 0) (c 1) (c 2), punctuationToken (c 0) (c 1) (c 2), some (.divAssign, "/=")].contains
      (some (tok.type, tokenText tok)) ||
    tok.type == .unknown && ["Unterminated string", "Unterminated comment", "Invalid \\x escape",
      "Invalid \\u escape", "Invalid \\U escape", "Invalid escape", "Invalid character literal",
      "Unknown punctuation", "@", "ERROR"].contains (tokenText tok)

/-- What `relex_single_token` reads first. It is freed at once where more tokens follow, else by
the next paste of its chain or with the buffer. -/
def relexFirst (text : List Char) : Token :=
  (getNextToken (initLexer text (some "<macro paste>") false)).1

/-- `< ## <` -/
example : staticText (relexFirst ['<', '<']) = true := by decide

/-- Only on Apple hosts is a text that was not allocated left alone by `safe_free_token_value`. -/
def FreesAllocated (onApple : Bool) (text : α → List Char) (paste : α → α → Option α) : α → List α → Prop
  | _, [] => True
  | left, right :: rest =>
    (onApple = false → staticText (relexFirst (text left ++ text right)) = false) ∧
      ∀ t, paste left right = some t → FreesAllocated onApple text paste t rest

/-- No chain that is reached has a constant's text freed. -/
def ChainsFree (onApple : Bool) (text : α → List Char) (paste : α → α → Option α) (chains : List (List α)) :
    Prop :=
  ∀ before left rest after, chains = before ++ (left :: rest) :: after →
    (before.mapM (joinChain paste)).isSome → FreesAllocated onApple text paste left rest

-- What is claimed of a call

/-- The replacement list, and the contents of each `__VA_OPT__` that is kept. -/
def AtEachLevel (P : List (Item SpelledToken) → Prop) : (depth : Nat) → List Token → Prop
  | 0, _ => True
  | depth + 1, body =>
    (∀ items, pasteItems spell d callSite args (pastedBody spell d callSite args depth) 0 [] body =
      .ok items → P items) ∧
    ∀ tok rest inside, tok :: rest <:+ body → vaOptContents d tok rest = some inside →
      args.variadics.isEmpty = false → AtEachLevel P depth inside

end

def itemTokens (items : List (Item SpelledToken)) : List (Item Token) :=
  items.map (Item.map Prod.fst)

/-- The items as the buffer of `apply_token_paste` has them. -/
def looseItems (items : List (Item SpelledToken)) : List (Item Token) :=
  reread isHashHash (itemTokens items)

/-- The operands that `apply_token_paste` joins are those that the `##` of the
replacement list join. -/
def JoinsItsOwn (items : List (Item SpelledToken)) : Prop :=
  chains false [] (looseItems items) = chains false [] (itemTokens items)

structure PastesAsC (onApple : Bool) (spell : Token → List Char) (d : MacroDefinition) (callSite : SourceRange)
    (args : MacroArgPack) : Prop where
  pairs : AtEachLevel spell d callSite args JoinsItsOwn (d.body.length + 1) d.body
  result : substituteMacro d callSite (some args) =
    (pastedMacro spell d callSite args).map (List.map Prod.fst)
  frees : AtEachLevel spell d callSite args (fun items => ChainsFree onApple textOf
    (fun l r => pasteTokens l r callSite) (chains false [] (looseItems items))) (d.body.length + 1) d.body

-- When it holds

/-- No `##` comes from an argument, and none reaches past a placemarker to a token that
it does not join. -/
def OwnHashesOnly (items : List (Item SpelledToken)) : Prop :=
  (∀ t ∈ values items, t.1.type ≠ .doubleHash) ∧ Tidy .start items

/-- The operands of each paste, and what earlier pastes of the chain made, keep their
spelling as their text. -/
def KeepSpellings (callSite : SourceRange) : SpelledToken → List SpelledToken → Prop
  | _, [] => True
  | left, right :: rest =>
    (tokenText left.1).toList = left.2 ∧ (tokenText right.1).toList = right.2 ∧
      ∀ t, joinSpelled callSite left right = some t → KeepSpellings callSite t rest

structure PastesCleanly (onApple : Bool) (callSite : SourceRange) (items : List (Item SpelledToken)) :
    Prop where
  own : OwnHashesOnly items
  spellings : ∀ left rest, left :: rest ∈ chains false [] items → KeepSpellings callSite left rest
  /-- No comma at the end has a `##` with nothing to join behind it. -/
  comma : (looseItems items).getLast? = some .joint →
    ∀ chain ∈ (chains false [] items).getLast?, ∀ t,
      joinChain (joinSpelled callSite) chain = some t → t.1.type ≠ .comma
  /-- Off Apple hosts no paste reads a punctuator first. -/
  frees : ChainsFree onApple Prod.snd (joinSpelled callSite) (chains false [] items)

-- The buffer of the substitution

@[simp] theorem looseItems_append (xs ys : List (Item SpelledToken)) :
    looseItems (xs ++ ys) = looseItems xs ++ looseItems ys := by
  simp [looseItems, itemTokens, Joints.reread_append]

theorem bufferItems_append (ts us : List Token) :
    bufferItems (ts ++ us) = bufferItems ts ++ bufferItems us := by
  simp [bufferItems, Joints.reread_append]

theorem looseItems_items (tokens : List SpelledToken) :
    looseItems (tokens.map .item) = bufferItems (tokens.map Prod.fst) := by
  simp [looseItems, itemTokens, bufferItems, Item.map, Function.comp_def]

theorem looseItems_operand (besidePaste : Bool) (tokens : List SpelledToken) :
    looseItems (operandItems besidePaste tokens) = bufferItems (tokens.map Prod.fst) := by
  unfold operandItems
  split
  · rename_i h
    have hempty : tokens = [] := by simpa using (Bool.and_eq_true_iff.mp h).2
    subst hempty
    rfl
  · exact looseItems_items tokens

theorem looseItems_body (spell : Token → List Char) (tok : Token) :
    looseItems [bodyItem spell tok] = bufferItems [tok] := by
  by_cases h : isHashHash tok <;> simp [looseItems, itemTokens, bodyItem, bufferItems, Item.map, reread, h]

/-- The tokens are the items without the placemarkers, or both failed alike. -/
def Renders (r : Except SubstituteError (List (Item SpelledToken)))
    (c : Except SubstituteError (List Token)) : Prop :=
  (∃ e, r = .error e ∧ c = .error e) ∨
    ∃ items tokens, r = .ok items ∧ c = .ok tokens ∧ bufferItems tokens = looseItems items

theorem Renders.append (h : looseItems xs = bufferItems ts) (hr : Renders r c) :
    Renders (r.map (xs ++ ·)) (c.map (ts ++ ·)) := by
  rcases hr with ⟨e, rfl, rfl⟩ | ⟨items, tokens, rfl, rfl, heq⟩
  · exact .inl ⟨e, rfl, rfl⟩
  · refine .inr ⟨xs ++ items, ts ++ tokens, rfl, rfl, ?_⟩
    rw [bufferItems_append, looseItems_append, h, heq]

theorem substituteLoop_working (d : MacroDefinition) (callSite : SourceRange)
    (vaOpt : List Token → Except SubstituteError (List Token)) (args : Option MacroArgPack)
    (skip : Nat) (before working body : List Token) :
    substituteLoop d callSite vaOpt args skip before working body =
      (substituteLoop d callSite vaOpt args skip before [] body).map (working ++ ·) := by
  have hmap : ∀ (a b : List Token) (c : Except SubstituteError (List Token)),
      c.map (a ++ b ++ ·) = (c.map (b ++ ·)).map (a ++ ·) := by
    intro a b c
    cases c <;> simp [Except.map]
  induction body generalizing skip before working with
  | nil => cases skip <;> simp [substituteLoop, Except.map]
  | cons tok rest ih =>
    cases skip with
    | succ skip => exact ih skip (tok :: before) working
    | zero => ?_
    have step : ∀ (n : Nat) (ts : List Token),
        substituteLoop d callSite vaOpt args n (tok :: before) (working ++ ts) rest =
          (substituteLoop d callSite vaOpt args n (tok :: before) ([] ++ ts) rest).map
            (working ++ ·) := by
      intro n ts
      rw [ih n (tok :: before) (working ++ ts), ih n (tok :: before) ([] ++ ts), hmap]
      rfl
    have stay : ∀ n : Nat,
        substituteLoop d callSite vaOpt args n (tok :: before) working rest =
          (substituteLoop d callSite vaOpt args n (tok :: before) [] rest).map
            (working ++ ·) := fun n => ih n (tok :: before) working
    unfold substituteLoop
    split
    · split
      · exact step 1 _
      · split
        · split
          · split
            · exact stay _
            · split
              · exact step _ _
              · rfl
          · split
            · exact step 0 _
            · rfl
            · exact step 0 _
        · exact step 0 _
    · exact step 0 _

theorem Renders.step (h : looseItems xs = bufferItems ts)
    (hr : Renders r (substituteLoop d callSite vaOpt args skip before [] rest)) :
    Renders (r.map (xs ++ ·)) (substituteLoop d callSite vaOpt args skip before ([] ++ ts) rest) := by
  rw [List.nil_append, substituteLoop_working]
  exact hr.append h

theorem parameterItems_eq (spell : Token → List Char) (d : MacroDefinition)
    (callSite : SourceRange) (args : MacroArgPack) (before : List Token) (name : String)
    (rest : List Token) :
    (substituteParameter d callSite args before name rest = none ∧
      parameterItems spell d callSite args before name rest = none) ∨
    (∃ e, substituteParameter d callSite args before name rest = some (.error e) ∧
      parameterItems spell d callSite args before name rest = some (.error e)) ∨
    ∃ tokens items, substituteParameter d callSite args before name rest = some (.ok tokens) ∧
      parameterItems spell d callSite args before name rest = some (.ok items) ∧
      looseItems items = bufferItems tokens := by
  unfold parameterItems
  cases hparam : substituteParameter d callSite args before name rest with
  | none => exact .inl ⟨rfl, rfl⟩
  | some r => ?_
  cases r with
  | error e => exact .inr (.inl ⟨e, rfl, rfl⟩)
  | ok tokens =>
    refine .inr (.inr ⟨tokens, _, rfl, rfl, ?_⟩)
    rw [looseItems_operand]
    simp [Function.comp_def]

theorem pasteItems_renders (spell : Token → List Char)
    (callSite : SourceRange)
    (hkind : d.kind = .function)
    (hopt : ∀ tok rest inside, tok :: rest <:+ body → vaOptContents d tok rest = some inside →
      args.variadics.isEmpty = false → vaOpt inside = (vaOptItems inside).map (List.map Prod.fst))
    (skip : Nat) (before : List Token) :
    Renders (pasteItems spell d callSite args vaOptItems skip before body)
      (substituteLoop d callSite vaOpt (some args) skip before [] body) := by
  induction body generalizing skip before with
  | nil =>
    refine .inr ⟨[], [], ?_, ?_, rfl⟩
    all_goals cases skip <;> rfl
  | cons tok rest ih =>
    have hrest : ∀ t r inside, t :: r <:+ rest → vaOptContents d t r = some inside →
        args.variadics.isEmpty = false →
        vaOpt inside = (vaOptItems inside).map (List.map Prod.fst) := fun t r inside hsuffix =>
      hopt t r inside (hsuffix.trans (List.suffix_cons tok rest))
    have ih := fun n => ih hrest n (tok :: before)
    cases skip with
    | succ skip => exact ih skip
    | zero => ?_
    have hplain : Renders
        ((pasteItems spell d callSite args vaOptItems 0 (tok :: before) rest).map
          ([bodyItem spell tok] ++ ·))
        (substituteLoop d callSite vaOpt (some args) 0 (tok :: before) ([] ++ [tok]) rest) :=
      (ih 0).step (looseItems_body spell tok)
    unfold pasteItems substituteLoop
    simp only [hkind]
    cases hhash : (if tok.type = .hash then substituteHash d callSite args rest else none) with
    | some string =>
      refine (ih 1).step ?_
      exact looseItems_items [spelledString string]
    | none => ?_
    by_cases hident : tok.type = .identifier
    · rw [if_pos hident, if_pos hident]
      cases hcontents : vaOptContents d tok rest with
      | some inside =>
        dsimp only
        by_cases hempty : args.variadics.isEmpty = true
        · rw [if_pos hempty, if_pos hempty]
          have hnone : looseItems (operandItems
              (headIs .doubleHash (rest.drop (inside.length + 2)) || headIs .doubleHash before)
              []) = bufferItems [] := looseItems_operand _ []
          exact (ih (inside.length + 2)).step hnone
        · rw [if_neg hempty, if_neg hempty]
          have hsame := hopt tok rest inside List.suffix_rfl hcontents (by simpa using hempty)
          rw [hsame]
          cases vaOptItems inside with
          | error e => exact .inl ⟨e, rfl, rfl⟩
          | ok tokens => exact (ih (inside.length + 2)).step (looseItems_operand _ tokens)
      | none =>
        rcases parameterItems_eq spell d callSite args before (tokenText tok) rest with
          ⟨hcode, hitems⟩ | ⟨e, hcode, hitems⟩ | ⟨tokens, items, hcode, hitems, hsame⟩
        · rw [hcode, hitems]
          exact hplain
        · rw [hcode, hitems]
          exact .inl ⟨e, rfl, rfl⟩
        · rw [hcode, hitems]
          exact (ih 0).step hsame
    · rw [if_neg hident, if_neg hident]
      exact hplain

-- Pasting it

theorem joinsItsOwn_iff (items : List (Item SpelledToken)) : JoinsItsOwn items ↔ OwnHashesOnly items := by
  unfold JoinsItsOwn looseItems OwnHashesOnly
  rw [Joints.chains_reread_iff, itemTokens, Joints.tidy_map, Joints.values_map]
  simp [isHashHash]

theorem joinTokens_of_spelled (callSite : SourceRange)
    (hleft : (tokenText left.1).toList = left.2) (hright : (tokenText right.1).toList = right.2) :
    pasteTokens left.1 right.1 callSite = (joinSpelled callSite left right).map Prod.fst := by
  have htext : String.ofList (left.2 ++ right.2) = tokenText left.1 ++ tokenText right.1 := by
    rw [← hleft, ← hright, String.ofList_append, String.ofList_toList, String.ofList_toList]
  unfold pasteTokens joinSpelled pasteOrigin
  rw [htext, Option.map_map]
  rfl

theorem joinChain_of_keep
    (h : KeepSpellings callSite left rest) :
    joinChain (fun l r => pasteTokens l r callSite) ((left :: rest).map Prod.fst) =
      (joinChain (joinSpelled callSite) (left :: rest)).map Prod.fst := by
  induction rest generalizing left with
  | nil => simp [joinChain]
  | cons right rest ih =>
    obtain ⟨hleft, hright, hrest⟩ := h
    have hjoin := joinTokens_of_spelled callSite hleft hright
    cases hpaste : joinSpelled callSite left right with
    | none => simp [joinChain, hjoin, hpaste]
    | some t =>
      have := ih (hrest t hpaste)
      simpa [joinChain, hjoin, hpaste] using this

theorem mapM_map_of_eq {g' : α → Option δ} {xs : List α}
    (h : ∀ x ∈ xs, g (f x) = (g' x).map k) :
    (xs.map f).mapM g = (xs.mapM g').map (List.map k) := by
  induction xs with
  | nil => rfl
  | cons x xs ih =>
    obtain ⟨hx, hrest⟩ := List.forall_mem_cons.mp h
    rw [List.map_cons, List.mapM_cons, List.mapM_cons, hx, ih hrest]
    cases g' x with
    | none => rfl
    | some y => cases xs.mapM g' <;> rfl

theorem mapM_getLast {xs : List α} (h : xs.mapM f = some ys)
    (hlast : ys.getLast? = some y) : ∃ x ∈ xs.getLast?, f x = some y := by
  induction xs generalizing ys with
  | nil =>
    cases h
    cases hlast
  | cons x xs ih =>
    rw [List.mapM_cons] at h
    obtain ⟨first, hfirst, h⟩ := Option.bind_eq_some_iff.mp h
    obtain ⟨more, hmore, h⟩ := Option.bind_eq_some_iff.mp h
    cases h
    cases xs with
    | nil =>
      cases hmore
      cases hlast
      exact ⟨x, rfl, hfirst⟩
    | cons x' xs => ?_
    have hne : more ≠ [] := by
      rintro rfl
      rw [List.mapM_cons] at hmore
      obtain ⟨_, -, hmore⟩ := Option.bind_eq_some_iff.mp hmore
      obtain ⟨_, -, hmore⟩ := Option.bind_eq_some_iff.mp hmore
      cases hmore
    obtain ⟨y', more, rfl⟩ := List.exists_cons_of_ne_nil hne
    exact ih hmore hlast

theorem endsJoined_bufferItems (h : endsJoined tokens = true) :
    (bufferItems tokens).getLast? = some .joint := by
  obtain ⟨last, hlast, hhash⟩ := Option.any_eq_true _ _ |>.mp h
  obtain ⟨before, rfl⟩ := List.getLast?_eq_some_iff.mp hlast
  rw [bufferItems_append, bufferItems_hash hhash, bufferItems_nil]
  simp

theorem PastesCleanly.chains_loose (h : PastesCleanly onApple callSite items) :
    chains false [] (looseItems items) = (chains false [] items).map (List.map Prod.fst) :=
  ((joinsItsOwn_iff items).mpr h.own).trans (Joints.map_chains Prod.fst false [] items)

theorem freesAllocated_of_keep (h : KeepSpellings callSite left rest)
    (hfrees : FreesAllocated onApple Prod.snd (joinSpelled callSite) left rest) :
    FreesAllocated onApple textOf (fun l r => pasteTokens l r callSite) left.1 (rest.map Prod.fst) := by
  induction rest generalizing left with
  | nil => trivial
  | cons right rest ih =>
    obtain ⟨hleft, hright, hrest⟩ := h
    refine ⟨?_, fun t ht => ?_⟩
    · rw [textOf, textOf, hleft, hright]
      exact hfrees.1
    · obtain ⟨pasted, hpasted, rfl⟩ :=
        Option.map_eq_some_iff.mp ((joinTokens_of_spelled callSite hleft hright).symm.trans ht)
      exact ih (hrest pasted hpasted) (hfrees.2 pasted hpasted)

theorem chainsFree_of_clean (h : PastesCleanly onApple callSite items) :
    ChainsFree onApple textOf (fun l r => pasteTokens l r callSite) (chains false [] (looseItems items)) := by
  intro before left rest after hsplit hreached
  rw [h.chains_loose] at hsplit
  obtain ⟨before', more, hown, rfl, hmore⟩ := List.map_eq_append_iff.mp hsplit
  obtain ⟨chain, after', rfl, hchain, -⟩ := List.map_eq_cons_iff.mp hmore
  obtain ⟨left', rest', rfl, rfl, rfl⟩ := List.map_eq_cons_iff.mp hchain
  have hspelled : ∀ left rest, left :: rest ∈ before' ++ (left' :: rest') :: after' →
      KeepSpellings callSite left rest := hown ▸ h.spellings
  have hbefore : (before'.map (List.map Prod.fst)).mapM (joinChain fun l r => pasteTokens l r callSite) =
      (before'.mapM (joinChain (joinSpelled callSite))).map (List.map Prod.fst) := by
    refine mapM_map_of_eq fun chain hchain => ?_
    obtain ⟨left, rest, rfl⟩ := List.exists_cons_of_ne_nil (Joints.ne_nil_of_mem_chains false [] items chain
      (hown ▸ List.mem_append_left _ hchain))
    exact joinChain_of_keep (hspelled left rest (List.mem_append_left _ hchain))
  rw [hbefore, Option.isSome_map] at hreached
  exact freesAllocated_of_keep (hspelled _ _ (List.mem_append_right _ List.mem_cons_self))
    (h.frees before' left' rest' after' hown hreached)

theorem pasteChains_of_clean (h : PastesCleanly onApple callSite items)
    (hbuffer : bufferItems tokens = looseItems items) :
    pasteChains callSite false [] tokens =
      ((chains false [] items).mapM (joinChain (joinSpelled callSite))).map (List.map Prod.fst) := by
  rw [pasteChains, hbuffer, h.chains_loose]
  refine mapM_map_of_eq ?_
  intro chain hchain
  obtain ⟨left, rest, rfl⟩ :=
    List.exists_cons_of_ne_nil (Joints.ne_nil_of_mem_chains false [] items chain hchain)
  exact joinChain_of_keep (h.spellings left rest hchain)

theorem dropComma_of_clean (h : PastesCleanly onApple callSite items)
    (hbuffer : bufferItems tokens = looseItems items)
    (hout : (chains false [] items).mapM (joinChain (joinSpelled callSite)) = some out) :
    dropComma tokens (out.map Prod.fst) = out.map Prod.fst := by
  refine if_neg ?_
  rintro ⟨hends, hcomma⟩
  cases hrev : out.reverse with
  | nil => simp [← List.map_reverse, hrev, headIs] at hcomma
  | cons last before => ?_
  have hlast : out.getLast? = some last := by
    rw [← List.head?_reverse, hrev]
    rfl
  have htype : last.1.type = .comma := by
    simpa [← List.map_reverse, hrev, headIs] using hcomma
  obtain ⟨chain, hchain, hjoin⟩ := mapM_getLast hout hlast
  exact h.comma (hbuffer ▸ endsJoined_bufferItems hends) chain hchain last hjoin htype

theorem finishSubstitution_of_clean (d : MacroDefinition) (h : PastesCleanly onApple callSite items)
    (hbuffer : bufferItems tokens = looseItems items) :
    finishSubstitution d callSite tokens = (finishItems d callSite items).map (List.map Prod.fst) := by
  unfold finishSubstitution finishItems
  rw [applyTokenPaste_eq, pasteChains_of_clean h hbuffer]
  cases hout : (chains false [] items).mapM (joinChain (joinSpelled callSite)) with
  | none => rfl
  | some out =>
    have hdrop := dropComma_of_clean h hbuffer hout
    simp [hdrop, Except.map]

-- Every level

theorem AtEachLevel.imp (hPQ : ∀ items, P items → Q items)
    (depth : Nat) (body : List Token) (h : AtEachLevel spell d callSite args P depth body) :
    AtEachLevel spell d callSite args Q depth body := by
  induction depth generalizing body with
  | zero => trivial
  | succ depth ih =>
    obtain ⟨hhere, hinside⟩ := h
    refine ⟨fun items hitems => hPQ items (hhere items hitems), ?_⟩
    intro tok rest inside hsuffix hcontents hargs
    exact ih inside (hinside tok rest inside hsuffix hcontents hargs)

theorem substituteBody_of_clean (hkind : d.kind = .function) (depth : Nat) (body : List Token)
    (h : AtEachLevel spell d callSite args (PastesCleanly onApple callSite) depth body) :
    substituteBody d callSite (some args) depth body =
      (pastedBody spell d callSite args depth body).map (List.map Prod.fst) := by
  induction depth generalizing body with
  | zero => rfl
  | succ depth ih =>
    obtain ⟨hhere, hinside⟩ := h
    have hrenders := pasteItems_renders spell callSite hkind
      (fun tok rest inside hsuffix hcontents hargs =>
        ih inside (hinside tok rest inside hsuffix hcontents hargs)) 0 []
    unfold substituteBody pastedBody
    rcases hrenders with ⟨e, hitems, hcode⟩ | ⟨items, tokens, hitems, hcode, hbuffer⟩
    · rw [hitems, hcode]
      rfl
    · rw [hitems, hcode]
      exact finishSubstitution_of_clean d (hhere items hitems) hbuffer

def wordToken (name : String) : Token := makeSimpleToken .identifier name emptyRange

def hashHashToken : Token := makeSimpleToken .doubleHash "##" emptyRange

/-- A macro with the parameters `x` and `y`. -/
def pasteMacro (body : List Token) : MacroDefinition :=
  ⟨"CAT", .function, ⟨["x", "y"], false, false⟩, body, emptyRange⟩

def argOf (tokens : List Token) : MacroArg := ⟨tokens, tokens⟩

end Fisics
