import Fisics.Library.Joints
import Fisics.Lexer.Spelling
import Fisics.Preprocessor.MacroArgs

/-!
# Pasting the buffer

`apply_token_paste` works on the tokens that substitution has left: empty arguments have
gone and every `##` is alike. `applyTokenPaste_eq` is its loop as the chains of operands
that the `##` of the buffer join, each pasted from left to right.
-/

namespace Fisics

open Joints (Item chains reread values Tidy)

abbrev SpelledToken := Token × List Char

def pasteOrigin (left right : Token) (origin : SourceRange) : SourceRange :=
  if rangeIsInitialized left.macroCallSite then left.macroCallSite
  else if rangeIsInitialized right.macroCallSite then right.macroCallSite else origin

def joinChain (paste : α → α → Option α) : List α → Option α
  | [] => none
  | left :: rest => rest.foldlM paste left

-- The loop of `apply_token_paste`

def isHashHash (tok : Token) : Bool := tok.type == .doubleHash

def bufferItems (buffer : List Token) : List (Item Token) :=
  reread isHashHash (buffer.map .item)

def endsJoined (buffer : List Token) : Bool := buffer.getLast?.any isHashHash

/-- A `##` at the end of the buffer takes a comma before it away. -/
def dropComma (buffer out : List Token) : List Token :=
  if endsJoined buffer = true ∧ headIs .comma out.reverse = true then out.dropLast else out

@[simp] theorem dropComma_nil (out : List Token) : dropComma [] out = out := rfl

theorem dropComma_none (buffer : List Token) : dropComma buffer [] = [] := by
  simp [dropComma]

theorem dropComma_cons (tok : Token) (buffer : List Token) (h : out ≠ []) :
    dropComma buffer (tok :: out) = tok :: dropComma buffer out := by
  have hhead : headIs .comma (tok :: out).reverse = headIs .comma out.reverse := by
    obtain ⟨last, before, hout⟩ := List.exists_cons_of_ne_nil (show out.reverse ≠ [] by simpa)
    rw [List.reverse_cons, hout]
    rfl
  unfold dropComma
  rw [hhead, List.dropLast_cons_of_ne_nil h]
  split <;> rfl

theorem endsJoined_cons (h : isHashHash tok = false) (rest : List Token) :
    endsJoined (tok :: rest) = endsJoined rest := by
  cases rest with
  | nil => simpa [endsJoined] using h
  | cons next rest => simp [endsJoined, List.getLast?_cons_cons]

theorem endsJoined_append (before : List Token) (h : rest ≠ []) :
    endsJoined (before ++ rest) = endsJoined rest := by
  obtain ⟨last, hlast⟩ := Option.ne_none_iff_exists'.mp (mt List.getLast?_eq_none_iff.mp h)
  simp [endsJoined, List.getLast?_append, hlast]

theorem dropComma_congr (h : endsJoined buffer = endsJoined rest) (out : List Token) :
    dropComma buffer out = dropComma rest out := by
  unfold dropComma
  rw [h]

@[simp] theorem bufferItems_nil : bufferItems [] = [] := rfl

theorem bufferItems_hash (h : isHashHash tok = true) (rest : List Token) :
    bufferItems (tok :: rest) = .joint :: bufferItems rest := by
  simp [bufferItems, reread, h]

theorem bufferItems_token (h : isHashHash tok = false) (rest : List Token) :
    bufferItems (tok :: rest) = .item tok :: bufferItems rest := by
  simp [bufferItems, reread, h]

/-- A run of `##` is one joint. -/
theorem chains_hashes (h : ∀ tok ∈ hashes, isHashHash tok = true)
    (chain : List Token) (rest : List Token) :
    chains true chain (bufferItems (hashes ++ rest)) = chains true chain (bufferItems rest) := by
  induction hashes with
  | nil => rfl
  | cons tok hashes ih =>
    obtain ⟨htok, hrest⟩ := List.forall_mem_cons.mp h
    rw [List.cons_append, bufferItems_hash htok, Joints.chains_joint, ih hrest]

theorem pasteLoop_skip (origin : SourceRange) (pending : Option Token) (n : Nat) (buffer : List Token) :
    pasteLoop origin n pending buffer = pasteLoop origin 0 pending (buffer.drop n) := by
  induction n generalizing buffer with
  | zero => rfl
  | succ n ih =>
    cases buffer with
    | nil => rfl
    | cons tok rest => exact ih rest

theorem mapM_chains_join (paste : α → α → Option α) (joined : Bool) (left right : α) (xs : List (Item α)) :
    (chains joined [left, right] xs).mapM (joinChain paste) =
      (paste left right).bind fun pasted =>
        (chains joined [pasted] xs).mapM (joinChain paste) := by
  obtain ⟨more, others, h⟩ := Joints.chains_extend joined xs
  rw [h _ (by simp)]
  cases hpaste : paste left right with
  | none => simp [joinChain, hpaste]
  | some pasted =>
    simp [h [pasted] (by simp), joinChain, hpaste]

def pasteChains (origin : SourceRange) (joined : Bool) (chain buffer : List Token) :
    Option (List Token) :=
  (chains joined chain (bufferItems buffer)).mapM (joinChain fun l r => pasteTokens l r origin)

theorem pasteChains_ne (h : chain ≠ []) (hout : pasteChains origin joined chain buffer = some out) :
    out ≠ [] := by
  obtain ⟨more, others, hchains⟩ := Joints.chains_extend joined (bufferItems buffer)
  rw [pasteChains, hchains chain h] at hout
  rintro rfl
  rw [List.mapM_cons] at hout
  obtain ⟨first, -, hfirst⟩ := Option.bind_eq_some_iff.mp hout
  obtain ⟨later, -, hlater⟩ := Option.bind_eq_some_iff.mp hfirst
  cases hlater

theorem pasteChains_token (h : isHashHash tok = false) (origin : SourceRange) (left : Token)
    (rest : List Token) :
    pasteChains origin false [left] (tok :: rest) =
      (pasteChains origin false [tok] rest).map (left :: ·) := by
  unfold pasteChains
  rw [bufferItems_token h, chains, Joints.closed_of_ne (List.cons_ne_nil left [])]
  generalize hrest : chains false [tok] (bufferItems rest) = more
  rw [List.singleton_append, List.mapM_cons]
  cases hmore : more.mapM (joinChain fun l r => pasteTokens l r origin) with
  | none | some out => simp [joinChain]

section
variable {hashes : List Token} (h : ∀ tok ∈ hashes, isHashHash tok = true)

include h

theorem pasteLoop_nil_of_hashes (origin : SourceRange) : pasteLoop origin 0 none hashes = some [] := by
  induction hashes with
  | nil => rfl
  | cons tok hashes ih =>
    obtain ⟨htok, hrest⟩ := List.forall_mem_cons.mp h
    have htype : tok.type = .doubleHash := by simpa [isHashHash] using htok
    rw [pasteLoop, if_pos htype]
    exact ih hrest

theorem pasteChains_hashes (origin : SourceRange) (joined : Bool) (left : Token) :
    pasteChains origin joined [left] hashes = some [left] := by
  unfold pasteChains
  induction hashes generalizing joined with
  | nil => simp [Joints.closed, joinChain]
  | cons tok hashes ih =>
    obtain ⟨htok, hrest⟩ := List.forall_mem_cons.mp h
    rw [bufferItems_hash htok, Joints.chains_joint, ih hrest true]

theorem endsJoined_hashes (hne : hashes ≠ []) : endsJoined hashes = true := by
  obtain ⟨last, hlast⟩ := Option.ne_none_iff_exists'.mp (mt List.getLast?_eq_none_iff.mp hne)
  simpa [endsJoined, hlast] using h last (List.mem_of_getLast? hlast)

end

theorem pasteLoop_some (origin : SourceRange) (left : Token) (buffer : List Token) :
    pasteLoop origin 0 (some left) buffer =
      (pasteChains origin false [left] buffer).map (dropComma buffer) := by
  induction hn : buffer.length using Nat.strong_induction_on generalizing left buffer with
  | h n ih =>
    cases buffer with
    | nil => simp [pasteLoop, pasteChains, Joints.closed, joinChain]
    | cons tok rest => ?_
    have hlen : rest.length < n := by simp [← hn]
    by_cases htok : isHashHash tok = true
    · have htype : tok.type = .doubleHash := by simpa [isHashHash] using htok
      have hashes : ∀ t ∈ rest.takeWhile (fun t => t.type == .doubleHash), isHashHash t = true :=
        List.all_eq_true.mp List.all_takeWhile
      have hsplit := List.takeWhile_append_dropWhile
        (p := fun t : Token => t.type == .doubleHash) (l := rest)
      rw [pasteLoop, if_pos htype]
      split
      · rename_i hnone
        rw [hnone, List.append_nil] at hsplit
        rw [hsplit] at hashes
        have hall : ∀ t ∈ tok :: rest, isHashHash t = true := by
          simpa [htok] using hashes
        have hends : endsJoined (tok :: rest) = true :=
          endsJoined_hashes hall (List.cons_ne_nil tok rest)
        rw [pasteChains_hashes hall]
        by_cases hcomma : left.type = .comma
        · rw [if_pos hcomma, pasteLoop_nil_of_hashes hashes]
          simp [dropComma, hends, headIs, hcomma]
        · rw [if_neg hcomma, ih rest.length hlen left rest rfl, pasteChains_hashes hashes]
          simp [dropComma, headIs, hcomma]
      · rename_i right more hsome
        have hright : isHashHash right = false := by
          have hhead := List.head?_dropWhile_not (fun t : Token => t.type == .doubleHash) rest
          simpa [hsome, isHashHash] using hhead
        rw [hsome] at hsplit
        generalize rest.takeWhile (fun t => t.type == .doubleHash) = run at hsplit hashes
        subst hsplit
        have hdrop : (run ++ right :: more).drop (run.length + 1) = more := by simp
        have hmore : more.length < n := by
          simp at hlen
          omega
        have hends : endsJoined (tok :: (run ++ right :: more)) = endsJoined more := by
          rw [← List.cons_append, endsJoined_append _ (List.cons_ne_nil right more),
            endsJoined_cons hright]
        have hchains : pasteChains origin false [left] (tok :: (run ++ right :: more)) =
            (pasteTokens left right origin).bind fun pasted =>
              pasteChains origin false [pasted] more := by
          unfold pasteChains
          rw [bufferItems_hash htok, Joints.chains_joint, chains_hashes hashes,
            bufferItems_token hright, chains, List.singleton_append, mapM_chains_join]
        rw [hchains]
        cases hpaste : pasteTokens left right origin with
        | none => rfl
        | some pasted =>
          rw [Option.bind_some, Option.bind_some, pasteLoop_skip, hdrop,
            ih more.length hmore pasted more rfl]
          exact Option.map_congr fun out _ => (dropComma_congr hends out).symm
    · have htype : tok.type ≠ .doubleHash := by simpa [isHashHash] using htok
      have hfalse : isHashHash tok = false := by simpa using htok
      rw [pasteLoop, if_neg htype, ih rest.length hlen tok rest rfl, pasteChains_token hfalse]
      cases hout : pasteChains origin false [tok] rest with
      | none => rfl
      | some out =>
        have hne := pasteChains_ne (List.cons_ne_nil tok []) hout
        have hdrop := dropComma_congr (endsJoined_cons hfalse rest) (left :: out)
        simp [hdrop, dropComma_cons left rest hne]

/-- `apply_token_paste` pastes the chains of its buffer. -/
theorem applyTokenPaste_eq (buffer : List Token) (origin : SourceRange) :
    applyTokenPaste buffer origin = (pasteChains origin false [] buffer).map (dropComma buffer) := by
  unfold applyTokenPaste
  induction buffer with
  | nil => simp [pasteLoop, pasteChains]
  | cons tok rest ih =>
    by_cases htok : isHashHash tok = true
    · have htype : tok.type = .doubleHash := by simpa [isHashHash] using htok
      have hchains : pasteChains origin false [] (tok :: rest) = pasteChains origin false [] rest := by
        unfold pasteChains
        rw [bufferItems_hash htok, Joints.chains_joint, Joints.chains_nil]
      rw [pasteLoop, if_pos htype, ih, hchains]
      cases rest with
      | nil => simp [pasteChains, dropComma_none]
      | cons next rest =>
        exact Option.map_congr fun out _ =>
          dropComma_congr (endsJoined_append [tok] (List.cons_ne_nil next rest)).symm out
    · have htype : tok.type ≠ .doubleHash := by simpa [isHashHash] using htok
      have hfalse : isHashHash tok = false := by simpa using htok
      have hchains : pasteChains origin false [] (tok :: rest) =
          pasteChains origin false [tok] rest := by
        unfold pasteChains
        rw [bufferItems_token hfalse, chains, Joints.closed_nil, List.nil_append]
      have hdrop : dropComma (tok :: rest) = dropComma rest :=
        funext (dropComma_congr (endsJoined_cons hfalse rest))
      rw [pasteLoop, if_neg htype, pasteLoop_some, hchains, hdrop]
      simp [Function.comp_def]

end Fisics
