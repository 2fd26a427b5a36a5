import Fisics.Preprocessor.ExpanderLaws

/-!
# Expansion by hide sets

The reference for object-like macros: every token of the text carries the names
that may no longer be replaced in it, its hide set. A token is replaced by the
body of its macro, each token of which hides the name too, and scanning goes on
with the replacement. The expander keeps no hide sets. It agrees with the
reference because its stack is the hide set of every token being scanned.
-/

namespace Fisics

-- The reference

structure HiddenToken where
  tok : Token
  /-- The names that may not be replaced. -/
  hide : List String
  /-- An operand of `defined`, kept in `#if` expressions. -/
  operand : Bool

def withHideSet (preserve : Bool) (hide : List String) : (before : List Token) → List Token →
    List HiddenToken
  | _, [] => []
  | before, tok :: rest =>
    ⟨tok, hide, preserve && definedOperandContext before⟩ :: withHideSet preserve hide (tok :: before) rest

/-- The literal of a builtin identifier, which needs no table. -/
def builtinFor (builtins : PPBuiltinState) (tok : Token) : Option (Token × PPBuiltinState) :=
  (handleBuiltinIdentifier { (default : MacroExpander) with builtins } tok).map
    fun (literal, expander) => (literal, expander.builtins)

/-- The macro of a name. The names of builtins have none, whatever the table says. -/
def ordinaryMacro (table : MacroTable) (name : String) : Option MacroDefinition :=
  if isBuiltinName name then none else macroTableLookup table name

def replacedBy (macros : String → Option MacroDefinition) (t : HiddenToken) :
    Option MacroDefinition :=
  if t.tok.type = .identifier ∧ t.operand = false then
    (t.tok.value.bind macros).filter fun d => !t.hide.contains d.name
  else none

def replacementAt (d : MacroDefinition) (tok : Token) : List Token :=
  d.body.map (completeToken (tokenCallRange tok) d.definitionRange)

/-- What a text expands to, with the builtins before and after, and how deep
replacements are nested. -/
inductive HideSetExpands (macros : String → Option MacroDefinition) (preserve : Bool) :
    PPBuiltinState → List HiddenToken → List Token → PPBuiltinState → Nat → Prop
  | done : HideSetExpands macros preserve b [] [] b 0
  | builtin : builtinFor b t.tok = some (literal, b₁) →
      HideSetExpands macros preserve b₁ rest out b₂ n →
      HideSetExpands macros preserve b (t :: rest) (literal :: out) b₂ n
  | kept : builtinFor b t.tok = none → replacedBy macros t = none →
      HideSetExpands macros preserve b rest out b₂ n →
      HideSetExpands macros preserve b (t :: rest) (t.tok :: out) b₂ n
  | replaced : builtinFor b t.tok = none → replacedBy macros t = some d →
      HideSetExpands macros preserve b
        (withHideSet preserve (d.name :: t.hide) [] (replacementAt d t.tok) ++ rest) out b₂ n →
      HideSetExpands macros preserve b (t :: rest) out b₂ (max n (t.hide.length + 1))

namespace HideSetExpands

variable {macros : String → Option MacroDefinition} {preserve : Bool}

theorem append (h : HideSetExpands macros preserve b xs out₁ b₁ n₁)
    (h' : HideSetExpands macros preserve b₁ ys out₂ b₂ n₂) :
    HideSetExpands macros preserve b (xs ++ ys) (out₁ ++ out₂) b₂ (max n₁ n₂) := by
  induction h with
  | done => simpa using h'
  | builtin hb _ ih => exact .builtin hb (ih h')
  | kept hb hk _ ih => exact .kept hb hk (ih h')
  | replaced hb hr _ ih =>
    have hjoined := ih h'
    rw [List.append_assoc] at hjoined
    have hmax := HideSetExpands.replaced hb hr hjoined
    rwa [Nat.max_right_comm] at hmax

theorem split (h : HideSetExpands macros preserve b (xs ++ ys) out b₂ n) :
    ∃ out₁ b₁ n₁ out₂ n₂, HideSetExpands macros preserve b xs out₁ b₁ n₁ ∧
      HideSetExpands macros preserve b₁ ys out₂ b₂ n₂ ∧ out = out₁ ++ out₂ ∧ n = max n₁ n₂ := by
  generalize hzs : xs ++ ys = zs at h
  induction h generalizing xs with
  | done =>
    obtain ⟨rfl, rfl⟩ := List.append_eq_nil_iff.mp hzs
    exact ⟨[], _, 0, [], 0, .done, .done, rfl, rfl⟩
  | builtin hb h ih =>
    cases xs with
    | nil => cases hzs; exact ⟨[], _, 0, _, _, .done, .builtin hb h, rfl, by simp⟩
    | cons x xs =>
      cases hzs
      obtain ⟨out₁, b₁, n₁, out₂, n₂, h₁, h₂, rfl, rfl⟩ := ih rfl
      exact ⟨_, b₁, n₁, out₂, n₂, .builtin hb h₁, h₂, rfl, rfl⟩
  | kept hb hk h ih =>
    cases xs with
    | nil => cases hzs; exact ⟨[], _, 0, _, _, .done, .kept hb hk h, rfl, by simp⟩
    | cons x xs =>
      cases hzs
      obtain ⟨out₁, b₁, n₁, out₂, n₂, h₁, h₂, rfl, rfl⟩ := ih rfl
      exact ⟨_, b₁, n₁, out₂, n₂, .kept hb hk h₁, h₂, rfl, rfl⟩
  | replaced hb hr h ih =>
    cases xs with
    | nil => cases hzs; exact ⟨[], _, 0, _, _, .done, .replaced hb hr h, rfl, by simp⟩
    | cons x xs =>
      cases hzs
      obtain ⟨out₁, b₁, n₁, out₂, n₂, h₁, h₂, rfl, rfl⟩ := ih (List.append_assoc _ _ _)
      exact ⟨out₁, b₁, _, out₂, n₂, .replaced hb hr h₁, h₂, rfl, Nat.max_right_comm _ _ _⟩

theorem unique (h : HideSetExpands macros preserve b text out b₁ n)
    (h' : HideSetExpands macros preserve b text out' b₁' n') : out' = out ∧ b₁' = b₁ ∧ n' = n := by
  induction h generalizing out' b₁' n' with
  | done => cases h'; exact ⟨rfl, rfl, rfl⟩
  | builtin hb _ ih =>
    cases h' with
    | builtin hb' h' =>
      cases hb.symm.trans hb'
      obtain ⟨rfl, rfl, rfl⟩ := ih h'
      exact ⟨rfl, rfl, rfl⟩
    | kept hb' | replaced hb' => cases hb.symm.trans hb'
  | kept hb hk _ ih =>
    cases h' with
    | builtin hb' => cases hb.symm.trans hb'
    | kept _ _ h' =>
      obtain ⟨rfl, rfl, rfl⟩ := ih h'
      exact ⟨rfl, rfl, rfl⟩
    | replaced _ hr' => cases hk.symm.trans hr'
  | replaced hb hr _ ih =>
    cases h' with
    | builtin hb' => cases hb.symm.trans hb'
    | kept _ hk' => cases hr.symm.trans hk'
    | replaced _ hr' h' =>
      cases hr.symm.trans hr'
      obtain ⟨rfl, rfl, rfl⟩ := ih h'
      exact ⟨rfl, rfl, rfl⟩

end HideSetExpands

-- The reference expands every text

def unhidden (table : MacroTable) (hide : List String) : Nat :=
  table.macros.countP (fun d => !hide.contains d.name)

theorem replacedBy_spec (h : replacedBy (ordinaryMacro table) t = some d) :
    d ∈ table.macros ∧ d.name ∉ t.hide ∧ t.tok.type = .identifier ∧ t.operand = false ∧
      t.tok.value.bind (macroTableLookup table) = some d := by
  unfold replacedBy at h
  split at h
  · rename_i htok
    obtain ⟨hbind, hnot⟩ := Option.filter_eq_some_iff.mp h
    obtain ⟨name, hvalue, hmacro⟩ := Option.bind_eq_some_iff.mp hbind
    unfold ordinaryMacro at hmacro
    split at hmacro
    · cases hmacro
    exact ⟨(macroTableLookup_mem hmacro).1, by simpa using hnot, htok.1, htok.2, by
      rw [hvalue, Option.bind_some, hmacro]⟩
  · cases h

theorem replacedBy_unhidden (h : replacedBy (ordinaryMacro table) t = some d) :
    unhidden table (d.name :: t.hide) < unhidden table t.hide := by
  obtain ⟨hmem, hnot, -⟩ := replacedBy_spec h
  refine countP_lt_of_imp _ (fun x hx => ?_) hmem ?_ ?_
  · simp only [List.contains_cons, Bool.not_or, Bool.and_eq_true] at hx
    exact hx.2
  · simp
  · simpa using hnot

theorem hideSetExpands_total (table : MacroTable) (preserve : Bool) (k : Nat) :
    ∀ (hide : List String) (before : List Token) (b : PPBuiltinState) (tokens : List Token),
      unhidden table hide < k →
      ∃ out b' n, HideSetExpands (ordinaryMacro table) preserve b
        (withHideSet preserve hide before tokens) out b' n := by
  induction k with
  | zero => intro hide before b tokens hk; exact absurd hk (Nat.not_lt_zero _)
  | succ k ih =>
    intro hide before b tokens hk
    induction tokens generalizing before b with
    | nil => exact ⟨[], b, 0, .done⟩
    | cons tok rest ihrest =>
      unfold withHideSet
      generalize ht : HiddenToken.mk tok hide (preserve && definedOperandContext before) = t
      have hhide : t.hide = hide := by rw [← ht]
      cases hb : builtinFor b t.tok with
      | some r =>
        obtain ⟨literal, b₁⟩ := r
        obtain ⟨out, b', n, h⟩ := ihrest (tok :: before) b₁
        exact ⟨_, b', n, .builtin hb h⟩
      | none => ?_
      cases hr : replacedBy (ordinaryMacro table) t with
      | none =>
        obtain ⟨out, b', n, h⟩ := ihrest (tok :: before) b
        exact ⟨_, b', n, .kept hb hr h⟩
      | some d => ?_
      have hlt := replacedBy_unhidden hr
      obtain ⟨out₁, b₁, n₁, h₁⟩ := ih (d.name :: t.hide) [] b (replacementAt d t.tok)
        (by rw [hhide] at hlt ⊢; omega)
      obtain ⟨out₂, b₂, n₂, h₂⟩ := ihrest (tok :: before) b₁
      exact ⟨_, b₂, _, .replaced hb hr (h₁.append h₂)⟩

-- Tables of object-like macros

/-- The table has object-like macros only, and no body with `##`. -/
def ObjectLikeOnly (table : MacroTable) : Prop :=
  ∀ d ∈ table.macros, d.kind = .object ∧ ∀ tok ∈ d.body, tok.type ≠ .doubleHash

theorem pasteLoop_noHash (buffer : List Token) (h : ∀ tok ∈ buffer, tok.type ≠ .doubleHash)
    (origin : SourceRange) (pending : Option Token) :
    pasteLoop origin 0 pending buffer = some (pending.toList ++ buffer) := by
  induction buffer generalizing pending with
  | nil => simp [pasteLoop]
  | cons tok rest ih =>
    obtain ⟨htok, hrest⟩ := List.forall_mem_cons.mp h
    simp [pasteLoop, htok, ih hrest]

theorem substituteLoop_noArgs (d : MacroDefinition) (callSite : SourceRange)
    (vaOpt : List Token → Except SubstituteError (List Token)) (before working body : List Token) :
    substituteLoop d callSite vaOpt none 0 before working body = .ok (working ++ body) := by
  induction body generalizing before working with
  | nil => simp [substituteLoop]
  | cons tok rest ih => simp [substituteLoop, ih]

theorem substituteInto_object (h : ∀ tok ∈ d.body, tok.type ≠ .doubleHash) (e : MacroExpander)
    (tok : Token) :
    substituteInto e d none (tokenCallRange tok) = (some (replacementAt d tok), e) := by
  have hpaste : applyTokenPaste d.body (tokenCallRange tok) = some d.body :=
    pasteLoop_noHash d.body h _ none
  have hbody : substituteMacro d (tokenCallRange tok) none = .ok (replacementAt d tok) := by
    simp [substituteMacro, substituteBody, substituteLoop_noArgs, Except.bind, finishSubstitution,
      hpaste, replacementAt]
  simp [substituteInto, hbody]

theorem boundary_object (hobj : ObjectLikeOnly e.table) (expanded after : List Token) :
    tryExpandFunctionLikeAliasBoundary argument nested e expanded after = boundaryUnhandled e true := by
  have hnone : boundaryCallee e.table expanded after = none := by
    cases hcallee : boundaryCallee e.table expanded after with
    | none => rfl
    | some found => ?_
    obtain ⟨callee, d⟩ := found
    obtain ⟨hd, -⟩ := boundaryCallee_spec hcallee
    have hkind : d.kind = .function := by
      unfold boundaryCallee at hcallee
      split at hcallee
      · split at hcallee
        · split at hcallee
          · split at hcallee
            · rename_i hd
              cases hcallee
              exact hd.1
            · cases hcallee
          · cases hcallee
        · cases hcallee
      · cases hcallee
    cases hkind.symm.trans (hobj d hd).1
  simp [tryExpandFunctionLikeAliasBoundary, hnone]

-- The stack is the hide set

/-- The names being expanded. -/
def hideSetOf (e : MacroExpander) : List String :=
  e.table.expansionStack.map fun frame => frame.definition.name

def Within (limit nesting : Nat) : Prop := limit = 0 ∨ nesting ≤ limit

theorem within_max : Within limit (max m n) ↔ Within limit m ∧ Within limit n := by
  unfold Within
  omega

theorem hideSetOf_contains (e : MacroExpander) (name : String) :
    (hideSetOf e).contains name = macroTableIsExpanding e.table name := by
  rw [Bool.eq_iff_iff]
  simp [hideSetOf, macroTableIsExpanding]

theorem SameFrame.hideSetOf (h : SameFrame e e') : hideSetOf e' = hideSetOf e := by
  simp [Fisics.hideSetOf, h.stack]

theorem SameFrame.objectLikeOnly (h : SameFrame e e') (hobj : ObjectLikeOnly e.table) :
    ObjectLikeOnly e'.table := by
  rwa [ObjectLikeOnly, h.macros]

theorem ordinaryMacro_congr (h : table'.macros = table.macros) :
    ordinaryMacro table' = ordinaryMacro table := by
  funext name
  simp [ordinaryMacro, macroTableLookup, h]

theorem handleBuiltinIdentifier_eq (e : MacroExpander) (tok : Token) :
    handleBuiltinIdentifier e tok =
      (builtinFor e.builtins tok).map fun (literal, builtins) => (literal, { e with builtins }) := by
  unfold builtinFor handleBuiltinIdentifier
  repeat' split
  all_goals rfl

theorem pushMacro_within (hnot : macroTableIsExpanding e.table d.name = false)
    (hpush : pushMacro e d callRange = (e₁, pushed)) :
    (pushed = true ↔ Within e.table.expansionLimit ((hideSetOf e).length + 1)) := by
  have hlength : (hideSetOf e).length = e.table.expansionStack.length := List.length_map _
  unfold pushMacro macroTablePushExpansion at hpush
  dsimp only at hpush
  unfold Within
  split at hpush
  · cases hpush
    simp only [Bool.false_eq_true, false_iff]
    omega
  rw [if_neg (by simp [hnot])] at hpush
  cases hpush
  simp only [true_iff]
  omega

theorem pushMacro_hides (hpush : pushMacro e d callRange = (e₁, true)) :
    hideSetOf e₁ = d.name :: hideSetOf e ∧ e₁.table.macros = e.table.macros ∧
      e₁.table.expansionLimit = e.table.expansionLimit ∧ e₁.builtins = e.builtins ∧
      e₁.preserveDefinedOperands = e.preserveDefinedOperands := by
  unfold pushMacro macroTablePushExpansion at hpush
  dsimp only at hpush
  split at hpush
  · cases hpush
  split at hpush
  · cases hpush
  cases hpush
  exact ⟨rfl, rfl, rfl, rfl, rfl⟩

theorem isBuiltinName_of_none (hb : builtinFor b tok = none) (htype : tok.type = .identifier)
    (hvalue : tok.value = some name) : isBuiltinName name = false := by
  rw [Bool.eq_false_iff]
  intro hname
  simp only [isBuiltinName, decide_eq_true_eq, List.mem_cons, List.not_mem_nil, or_false] at hname
  rcases hname with rfl | rfl | rfl | rfl | rfl | rfl <;>
    simp [builtinFor, handleBuiltinIdentifier, htype, hvalue] at hb

theorem identifier_of_builtinFor (hb : builtinFor b tok = some r) : tok.type = .identifier := by
  refine Decidable.byContradiction fun htype => ?_
  simp [builtinFor, handleBuiltinIdentifier, htype] at hb

theorem builtinFor_frame (hb : builtinFor b tok = some (literal, b')) :
    { b' with counter := none } = { b with counter := none } := by
  obtain ⟨⟨lit, e'⟩, h, heq⟩ := Option.map_eq_some_iff.mp hb
  cases heq
  exact (handleBuiltinIdentifier_frame h).builtins

-- One token

section
variable (argument nested : Expand) (before out : List Token) (rest : List Token)

theorem expandToken_builtin (hb : builtinFor e.builtins tok = some (literal, b)) :
    expandToken argument nested before out e tok rest =
      some (true, out ++ [literal], 0, { e with builtins := b }) := by
  simp [expandToken, identifier_of_builtinFor hb, handleBuiltinIdentifier_eq, hb]

theorem expandToken_kept (hb : builtinFor e.builtins tok = none)
    (hk : replacedBy (ordinaryMacro e.table)
      ⟨tok, hideSetOf e, e.preserveDefinedOperands && definedOperandContext before⟩ = none) :
    expandToken argument nested before out e tok rest = some (true, out ++ [tok], 0, e) := by
  unfold expandToken
  split
  · rfl
  rename_i htype
  have htype : tok.type = .identifier := by simpa using htype
  simp only [handleBuiltinIdentifier_eq, hb, Option.map_none]
  split
  · rfl
  rename_i hoperand
  split
  · rfl
  rename_i d hlookup
  obtain ⟨name, hvalue, hname⟩ := Option.bind_eq_some_iff.mp hlookup
  have hmacro : ordinaryMacro e.table name = some d := by
    simp [ordinaryMacro, isBuiltinName_of_none hb htype hvalue, hname]
  have hhidden : macroTableIsExpanding e.table d.name = true := by
    rw [← hideSetOf_contains]
    simpa [replacedBy, htype, hoperand, hvalue, hmacro] using hk
  rw [if_pos hhidden]

theorem expandToken_replaced (hobj : ObjectLikeOnly e.table) (hb : builtinFor e.builtins tok = none)
    (hr : replacedBy (ordinaryMacro e.table)
      ⟨tok, hideSetOf e, e.preserveDefinedOperands && definedOperandContext before⟩ = some d) :
    expandToken argument nested before out e tok rest =
      expandObjectLike argument nested out e d (tokenCallRange tok) rest := by
  obtain ⟨hmem, hnot, htype, hoperand, hlookup⟩ := replacedBy_spec hr
  have hexpanding : macroTableIsExpanding e.table d.name = false := by
    rw [← hideSetOf_contains]
    simpa using hnot
  dsimp only at htype hoperand hlookup
  unfold expandToken
  simp [htype, handleBuiltinIdentifier_eq, hb, hoperand, hlookup, hexpanding, (hobj d hmem).1]

end

-- The run

def Scans (e : MacroExpander) (before input out : List Token) (b : PPBuiltinState) (n : Nat) :
    Prop :=
  HideSetExpands (ordinaryMacro e.table) e.preserveDefinedOperands e.builtins
    (withHideSet e.preserveDefinedOperands (hideSetOf e) before input) out b n

/-- The run succeeds exactly within the limit, and then with this output. -/
def Delivers (e : MacroExpander) (r : ExpandResult) (out : List Token) (b : PPBuiltinState)
    (n : Nat) : Prop :=
  ∃ ok out' e', r = some (ok, out', e') ∧ SameFrame e e' ∧
    (ok = true ↔ Within e.table.expansionLimit n) ∧ (ok = true → out' = out ∧ e'.builtins = b)

theorem SameFrame.scans (h : SameFrame e e')
    (hexp : HideSetExpands (ordinaryMacro e.table) e.preserveDefinedOperands e'.builtins
      (withHideSet e.preserveDefinedOperands (Fisics.hideSetOf e) before input) out b n) :
    Scans e' before input out b n := by
  unfold Scans
  rwa [ordinaryMacro_congr h.macros, h.preserve, h.hideSetOf]

theorem SameFrame.delivers (h : SameFrame e e') (hr : Delivers e' r out b n) : Delivers e r out b n := by
  obtain ⟨ok, out', e'', hr, hf, hok, hout⟩ := hr
  exact ⟨ok, out', e'', hr, h.trans hf, by rw [← h.limit]; exact hok, hout⟩

section
variable (argument : Expand) {nested : Expand} {k : Nat}
  (hnested : ∀ e input out b n, unexpanded e.table < k → ObjectLikeOnly e.table →
    Scans e [] input out b n → Delivers e (nested e input) out b n)

include hnested in
theorem expandObjectLike_delivers (hk : unexpanded e.table ≤ k) (hobj : ObjectLikeOnly e.table)
    (hr : replacedBy (ordinaryMacro e.table) ⟨tok, hideSetOf e, operand⟩ = some d)
    (hbody : HideSetExpands (ordinaryMacro e.table) e.preserveDefinedOperands e.builtins
      (withHideSet e.preserveDefinedOperands (d.name :: hideSetOf e) [] (replacementAt d tok)) body b n)
    (out rest : List Token) :
    ∃ ok out' e', expandObjectLike argument nested out e d (tokenCallRange tok) rest =
        some (ok, out', 0, e') ∧ SameFrame e e' ∧
      (ok = true ↔ Within e.table.expansionLimit (max n ((hideSetOf e).length + 1))) ∧
      (ok = true → out' = out ++ body ∧ e'.builtins = b) := by
  obtain ⟨hmem, hnot, -⟩ := replacedBy_spec hr
  have hexpanding : macroTableIsExpanding e.table d.name = false := by
    rw [← hideSetOf_contains]
    simpa using hnot
  unfold expandObjectLike
  cases hpush : pushMacro e d (tokenCallRange tok) with
  | mk e₁ pushed =>
    have hwithin := pushMacro_within hexpanding hpush
    cases pushed with
    | false =>
      refine ⟨false, out, e₁, rfl, pushMacro_frame hpush, ?_, by simp⟩
      simp only [Bool.false_eq_true, false_iff, within_max] at hwithin ⊢
      exact fun h => hwithin h.2
    | true => ?_
    obtain ⟨hhide, hmacros, hlimit, hbuiltins, hpreserve⟩ := pushMacro_hides hpush
    have hlt := pushMacro_unexpanded hmem hexpanding hpush
    have hobj₁ : ObjectLikeOnly e₁.table := by rwa [ObjectLikeOnly, hmacros]
    have hscan : Scans e₁ [] (replacementAt d tok) body b n := by
      unfold Scans
      rwa [ordinaryMacro_congr hmacros, hpreserve, hbuiltins, hhide]
    obtain ⟨ok, replacement, e₂, hrun, hf₂, hok, hout⟩ := hnested e₁ _ _ _ _ (by omega) hobj₁ hscan
    have hframe := pushMacro_popMacro hpush hf₂
    have hiff : ok = true ↔ Within e.table.expansionLimit (max n ((hideSetOf e).length + 1)) := by
      rw [within_max, hok, hlimit]
      simp [hwithin.mp rfl]
    have hreplaced := substituteInto_object (hobj d hmem).2 e₁ tok
    simp only [↓reduceIte, expandReplacement, hreplaced, hrun, Option.bind_some]
    cases ok with
    | false => exact ⟨false, out, _, rfl, hframe, hiff, by simp⟩
    | true => ?_
    obtain ⟨rfl, rfl⟩ := hout rfl
    simp only [↓reduceIte, boundary_object (hframe.objectLikeOnly hobj), boundaryUnhandled,
      Option.map_some, Bool.false_eq_true]
    exact ⟨true, _, _, rfl, hframe, hiff, fun _ => ⟨rfl, rfl⟩⟩

include hnested in
theorem expandLoop_delivers (input : List Token) (before out : List Token) (e : MacroExpander)
    (hk : unexpanded e.table ≤ k) (hobj : ObjectLikeOnly e.table)
    (hscan : Scans e before input more b n) :
    Delivers e (expandLoop argument nested 0 before out e input) (out ++ more) b n := by
  induction input generalizing before out e more n with
  | nil =>
    cases hscan
    exact ⟨true, out, e, rfl, .refl e, by simp [Within], fun _ => ⟨by simp, rfl⟩⟩
  | cons tok rest ih =>
    have next : ∀ out₁ {e₁ more₁ n₁}, SameFrame e e₁ →
        HideSetExpands (ordinaryMacro e.table) e.preserveDefinedOperands e₁.builtins
          (withHideSet e.preserveDefinedOperands (hideSetOf e) (tok :: before) rest) more₁ b n₁ →
        Delivers e (expandLoop argument nested 0 (tok :: before) out₁ e₁ rest) (out₁ ++ more₁) b n₁ :=
      fun out₁ _ _ _ hf h => hf.delivers (ih _ _ _ (by rw [hf.unexpanded]; exact hk) (hf.objectLikeOnly hobj)
        (hf.scans h))
    unfold expandLoop
    cases hscan with
    | builtin hb h =>
      rename_i literal b₁ more
      have hf : SameFrame e { e with builtins := b₁ } :=
        ⟨rfl, rfl, rfl, rfl, rfl, builtinFor_frame hb⟩
      simp only [expandToken_builtin argument nested before out rest hb, Option.bind_some, ↓reduceIte]
      have hnext := next (out ++ [literal]) hf h
      rwa [List.append_assoc] at hnext
    | kept hb hk h =>
      simp only [expandToken_kept argument nested before out rest hb hk, Option.bind_some, ↓reduceIte]
      have hnext := next (out ++ [tok]) (.refl e) h
      rwa [List.append_assoc] at hnext
    | replaced hb hr h =>
      obtain ⟨body, b₁, n₁, more₂, n₂, hbody, hrest, rfl, rfl⟩ := h.split
      obtain ⟨ok, out₁, e₁, hstep, hf, hok, hout⟩ :=
        expandObjectLike_delivers argument hnested hk hobj hr hbody out rest
      simp only [expandToken_replaced argument nested before out rest hobj hb hr, hstep, Option.bind_some]
      rw [Nat.max_right_comm]
      cases ok with
      | false =>
        refine ⟨false, out₁, e₁, rfl, hf, ?_, by simp⟩
        rw [within_max, ← hok]
        simp
      | true => ?_
      obtain ⟨rfl, rfl⟩ := hout rfl
      obtain ⟨ok, out', e', hrun, hf', hok', hout'⟩ := next (out ++ body) hf hrest
      refine ⟨ok, out', e', hrun, hf', ?_, by rwa [← List.append_assoc]⟩
      rw [within_max, ← hok, ← hok']
      simp

include hnested in
theorem expandInput_delivers (size : Nat) (e : MacroExpander) (input : List Token)
    (hk : unexpanded e.table ≤ k) (hobj : ObjectLikeOnly e.table)
    (hscan : Scans e [] input out b n) :
    Delivers e (expandInput nested (size + 1) e input) out b n := by
  have hclear := sameFrame_lastError e noExpandError
  exact hclear.delivers (expandLoop_delivers _ hnested input [] [] (macroExpanderClearError e)
    (hclear.unexpanded ▸ hk) (hclear.objectLikeOnly hobj) hscan)

end

theorem expandBudget_delivers (budget : Nat) (e : MacroExpander) (input : List Token)
    (hk : unexpanded e.table ≤ budget) (hobj : ObjectLikeOnly e.table)
    (hscan : Scans e [] input out b n) : Delivers e (expandBudget budget e input) out b n := by
  induction budget generalizing e input out b n with
  | zero =>
    exact expandInput_delivers (k := 0) (fun e input out b n hlt => absurd hlt (Nat.not_lt_zero _)) _ e
      input hk hobj hscan
  | succ budget ih =>
    exact expandInput_delivers (k := budget + 1)
      (fun e input out b n hlt hobj h => ih e input (by omega) hobj h) _ e input hk hobj hscan

/-- With object-like macros only, the expander delivers what the hide sets give,
as long as the nesting is within the limit, and fails beyond. -/
theorem expand_eq_hideSets (e : MacroExpander) (input : List Token) (hobj : ObjectLikeOnly e.table) :
    ∃ out builtins nesting,
      (∀ out' builtins' nesting',
        HideSetExpands (ordinaryMacro e.table) e.preserveDefinedOperands e.builtins
            (withHideSet e.preserveDefinedOperands (hideSetOf e) [] input) out' builtins' nesting' ↔
          out' = out ∧ builtins' = builtins ∧ nesting' = nesting) ∧
      ∃ ok out' e', macroExpanderExpand e input = some (ok, out', e') ∧
        (ok = true ↔ Within e.table.expansionLimit nesting) ∧
        (ok = true → out' = out ∧ e'.builtins = builtins) := by
  obtain ⟨out, b, n, hscan⟩ := hideSetExpands_total e.table e.preserveDefinedOperands
    (unhidden e.table (hideSetOf e) + 1) (hideSetOf e) [] e.builtins input (Nat.lt_succ_self _)
  obtain ⟨ok, out', e', hrun, -, hok, hout⟩ := expandBudget_delivers e.table.macros.length e input
    (unexpanded_le e.table) hobj hscan
  refine ⟨out, b, n, fun out' b' n' => ⟨fun h => hscan.unique h, ?_⟩, ok, out', e', hrun, hok, hout⟩
  rintro ⟨rfl, rfl, rfl⟩
  exact hscan

/-- `#define ping pong ping`, `#define pong ping pong`. -/
def pingPongExpander : MacroExpander :=
  let name (text : String) : Token :=
    { (default : Token) with type := .identifier, value := some text }
  let ping := macroTableDefineObject macroTableCreate "ping" [name "pong", name "ping"] emptyRange
  { (default : MacroExpander) with
    table := macroTableDefineObject ping "pong" [name "ping", name "pong"] emptyRange }

example : (macroExpanderExpand pingPongExpander
      (pingPongExpander.table.macros.flatMap (·.body.take 1))).map
      (fun (ok, out, _) => (ok, out.map tokenText)) =
    some (true, ["pong", "ping", "pong", "ping", "pong", "ping"]) := by decide

theorem expand_eq_hideSets_pingPong :
    ∃ out builtins nesting,
      (∀ out' builtins' nesting',
        HideSetExpands (ordinaryMacro pingPongExpander.table) pingPongExpander.preserveDefinedOperands
            pingPongExpander.builtins
            (withHideSet pingPongExpander.preserveDefinedOperands (hideSetOf pingPongExpander) []
              (pingPongExpander.table.macros.flatMap (·.body))) out' builtins' nesting' ↔
          out' = out ∧ builtins' = builtins ∧ nesting' = nesting) ∧
      ∃ ok out' e', macroExpanderExpand pingPongExpander
          (pingPongExpander.table.macros.flatMap (·.body)) = some (ok, out', e') ∧
        (ok = true ↔ Within pingPongExpander.table.expansionLimit nesting) ∧
        (ok = true → out' = out ∧ e'.builtins = builtins) :=
  expand_eq_hideSets pingPongExpander _ (by
    simp [ObjectLikeOnly, pingPongExpander, macroTableDefineObject, macroTableDefine,
      MacroTable.bump, macroTableUpsert, macroTableCreate])

end Fisics
