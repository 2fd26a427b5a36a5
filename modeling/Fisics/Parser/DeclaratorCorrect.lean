import Fisics.Library.Leftward
import Fisics.Parser.DeclaratorReading
import Mathlib.Data.List.TakeWhile

/-!
# When the parser keeps the reading of a declarator

The pointers moved inside the list of derivations only ever move towards the name, so a
level that moves one is never set right by the levels around it. The parser gives the
reading of a declarator exactly when no level moves a pointer and no array size begins
with `*`.
-/

namespace Fisics.Declarators

open TypeDerivation (isArray isPointer)
open Suffix (append derivation)

variable {E P : Type} {env : Environment E P}

-- The levels that move pointers

def arrayThenPointer (l : List (TypeDerivation E P)) : Bool :=
  l.countP TypeDerivation.isArray = 1 && (l.dropWhile (!·.isArray)).any TypeDerivation.isPointer

/-- A pointer after the first function and none before it. -/
def functionThenPointer (l : List (TypeDerivation E P)) : Bool :=
  !(l.takeWhile (!·.isFunction)).any TypeDerivation.isPointer &&
    (l.dropWhile (!·.isFunction)).any TypeDerivation.isPointer

/-- Some function suffix follows a group that holds a pointer. -/
def Declarator.callsGroup : Declarator env → Bool
  | .bare _ _ => false
  | .group _ _ inner _ suffixes =>
    inner.callsGroup || (suffixes.any (!·.isArray) && inner.reading.any TypeDerivation.isPointer)

/-- The outermost level moves a pointer of its reading. -/
def Declarator.movesPointer : Declarator env → Bool
  | .bare _ _ => false
  | d@(.group _ _ inner _ suffixes) =>
    (!inner.isName && suffixes.any (·.isArray) && arrayThenPointer d.reading) ||
      (d.callsGroup && functionThenPointer d.reading)

/-- No level moves a pointer. -/
def Declarator.keepsPointers : Declarator env → Bool
  | .bare _ _ => true
  | d@(.group _ _ inner _ _) => inner.keepsPointers && !d.movesPointer

-- Moving pointers

/-- What a pass can do to a list: nothing, or pointers move to the left past an element
that is none. -/
structure PointersMoved (moves : Bool) (l m : List (TypeDerivation E P)) : Prop where
  leftward : Leftward TypeDerivation.isPointer l m
  unmoved : moves = false → m = l
  fewer : moves = true → inversions TypeDerivation.isPointer m < inversions TypeDerivation.isPointer l

theorem gather_after (before after : List (TypeDerivation E P)) (found : TypeDerivation E P) :
    Leftward isPointer (before ++ found :: after)
      (before ++ (after.filter isPointer ++ found :: after.filter (!·.isPointer))) :=
  .append_left before (((Leftward.gather after).cons found).trans (.pass found after))

theorem gather_after_fewer (before after : List (TypeDerivation E P))
    (hf : found.isPointer = false)
    (ha : after.any isPointer = true) :
    inversions isPointer
        (before ++ (after.filter isPointer ++ found :: after.filter (!·.isPointer))) <
      inversions isPointer (before ++ found :: after) := by
  have hpos : 0 < after.countP isPointer := by simpa [List.countP_pos_iff] using ha
  have hpass := inversions_pass hf after (after.filter (!·.isPointer))
  have hgather := ((Leftward.gather (p := isPointer) after).cons found).inversions_le
  refine inversions_append_lt before ?_ (by omega)
  exact (((Leftward.gather after).cons found).trans (.pass found after)).perm.symm

theorem dropWhile_split {q : α → Bool} (h : l.dropWhile (!q ·) = found :: after) :
    l = l.takeWhile (!q ·) ++ found :: after ∧ q found = true := by
  refine ⟨by rw [← h, List.takeWhile_append_dropWhile], ?_⟩
  have hhead := List.head_dropWhile_not (fun x => !q x) (l := l) (by simp [h])
  simpa [h] using hhead

theorem isPointer_of_isArray {x : TypeDerivation E P} (h : x.isArray = true) : x.isPointer = false := by
  cases x <;> simp_all

theorem isPointer_of_isFunction {x : TypeDerivation E P} (h : x.isFunction = true) :
    x.isPointer = false := by
  cases x <;> simp_all

theorem isFunction_of_isArray {x : TypeDerivation E P} (h : x.isArray = true) : x.isFunction = false := by
  cases x <;> simp_all

theorem isArray_of_isPointer {x : TypeDerivation E P} (h : x.isPointer = true) : x.isArray = false := by
  cases x <;> simp_all

theorem isFunction_of_isPointer {x : TypeDerivation E P} (h : x.isPointer = true) :
    x.isFunction = false := by
  cases x <;> simp_all

theorem arrayThenPointer_split
    (h : l.dropWhile (!·.isArray) = found :: after) :
    arrayThenPointer l = !(after.any isArray || !after.any isPointer) := by
  obtain ⟨hl, hfound⟩ := dropWhile_split h
  have hbefore : (l.takeWhile (!·.isArray)).countP isArray = 0 := by
    rw [List.countP_eq_zero]
    intro x hx
    simpa using List.mem_takeWhile_imp hx
  have hcount : l.countP isArray = after.countP isArray + 1 := by
    rw [hl, List.countP_append, hbefore, List.countP_cons_of_pos hfound, Nat.zero_add]
  have hnone : (after.countP isArray = 0) ↔
      after.any isArray = false := by simp
  cases hany : after.any isArray <;>
    simp [arrayThenPointer, hcount, h, isPointer_of_isArray hfound, hnone, hany]

theorem movePointersToFront_moved (l : List (TypeDerivation E P)) :
    PointersMoved (arrayThenPointer l) l (movePointersToFront l) := by
  unfold movePointersToFront
  split
  · rename_i hd
    have hnone : arrayThenPointer l = false := by simp [arrayThenPointer, hd]
    exact ⟨.refl _, fun _ => rfl, by simp [hnone]⟩
  rename_i found after hd
  obtain ⟨hl, hfound⟩ := dropWhile_split hd
  rw [arrayThenPointer_split hd]
  split
  · rename_i hstay
    exact ⟨.refl _, fun _ => rfl, by simp [hstay]⟩
  rename_i hmove
  generalize l.takeWhile (!·.isArray) = before at hl ⊢
  subst hl
  simp only [Bool.not_eq_true, Bool.or_eq_false_iff, Bool.not_eq_false'] at hmove
  have hgather := gather_after before after found
  have hfront := Leftward.pass_all (p := isPointer) before after
    (m := found :: after.filter (!·.isPointer))
  refine ⟨hgather.trans hfront, by simp [hmove], fun _ => ?_⟩
  exact Nat.lt_of_le_of_lt hfront.inversions_le
    (gather_after_fewer before after (isPointer_of_isArray hfound) hmove.2)

theorem functionThenPointer_split {l : List (TypeDerivation E P)}
    (h : l.dropWhile (!·.isFunction) = found :: after) :
    functionThenPointer l = !((l.takeWhile (!·.isFunction)).any isPointer ||
      !after.any isPointer) := by
  have hfound := isPointer_of_isFunction (dropWhile_split h).2
  simp only [functionThenPointer, h, List.any_cons, hfound, Bool.false_or, Bool.not_or, Bool.not_not]

theorem movePointersBeforeFunction_moved (l : List (TypeDerivation E P)) :
    PointersMoved (functionThenPointer l) l (movePointersBeforeFunction l) := by
  unfold movePointersBeforeFunction
  split
  · rename_i hd
    have hnone : functionThenPointer l = false := by simp [functionThenPointer, hd]
    exact ⟨.refl _, fun _ => rfl, by simp [hnone]⟩
  rename_i found after hd
  obtain ⟨hl, hfound⟩ := dropWhile_split hd
  rw [functionThenPointer_split hd]
  simp only
  split
  · rename_i hstay
    exact ⟨.refl _, fun _ => rfl, by simp [hstay]⟩
  rename_i hmove
  generalize l.takeWhile (!·.isFunction) = before at hl hmove ⊢
  subst hl
  simp only [Bool.not_eq_true, Bool.or_eq_false_iff, Bool.not_eq_false'] at hmove
  refine ⟨gather_after before after found, by simp [hmove], fun _ => ?_⟩
  exact gather_after_fewer before after (isPointer_of_isFunction hfound) hmove.2

-- A level

section
variable (grouped : Bool) (suffixes : List (Suffix env)) (t : DeclaredType E P)

theorem Suffix.foldl_append_derivations :
    (suffixes.foldl (append grouped) t).derivations =
      t.derivations ++ suffixes.map (·.derivation) := by
  induction suffixes generalizing t with
  | nil => simp
  | cons suffix suffixes ih =>
    rw [List.foldl_cons, ih]
    cases suffix with
    | array a => simp [append, parsedTypeAppendArray, derivation]
    | function f =>
      simp only [append, appendFunctionSuffix]
      split <;> simp [parsedTypeAppendFunction, parsedTypeSetFunctionPointer, derivation]

theorem Suffix.foldl_append_pointerDepth :
    (suffixes.foldl (append grouped) t).pointerDepth = t.pointerDepth := by
  induction suffixes generalizing t with
  | nil => rfl
  | cons suffix suffixes ih =>
    rw [List.foldl_cons, ih]
    cases suffix with
    | array a => rfl
    | function f =>
      simp only [append, appendFunctionSuffix]
      split <;> rfl

theorem Suffix.foldl_append_isFunctionPointer :
    (suffixes.foldl (append grouped) t).isFunctionPointer =
      (t.isFunctionPointer || (grouped && suffixes.any (!·.isArray) &&
        t.derivations.any isPointer)) := by
  induction suffixes generalizing t with
  | nil => simp
  | cons suffix suffixes ih =>
    rw [List.foldl_cons, ih]
    cases suffix with
    | array a => simp [append, parsedTypeAppendArray]
    | function f => ?_
    have hany : (parsedTypeAppendFunction t f.signature).derivations.any
        isPointer = t.derivations.any isPointer := by
      simp [parsedTypeAppendFunction]
    simp only [append, appendFunctionSuffix, hany]
    cases hcall : grouped && t.derivations.any isPointer with
    | true =>
      simp [parsedTypeSetFunctionPointer, hcall]
    | false => ?_
    cases grouped with
    | false => simp [parsedTypeAppendFunction]
    | true =>
      simp only [Bool.true_and] at hcall
      simp [parsedTypeAppendFunction, hcall]

end

theorem applyPointerChainToType_eq (t : DeclaredType E P) (chain : List PointerDeclaratorLayer) :
    applyPointerChainToType t chain =
      { t with
        derivations := t.derivations ++ (chain.map .pointer).reverse
        pointerDepth := t.pointerDepth + chain.length } := by
  induction chain generalizing t with
  | nil => simp [applyPointerChainToType]
  | cons layer chain ih =>
    simp only [applyPointerChainToType, List.reverse_cons, List.foldl_append, List.foldl_cons,
      List.foldl_nil] at ih ⊢
    rw [ih]
    simp [parsedTypeAppendPointer, Nat.add_assoc]

/-- Whether the type is marked as a function pointer after a level. -/
def levelCalls (grouped : Bool) (suffixes : List (Suffix env)) (t : DeclaredType E P) : Bool :=
  t.isFunctionPointer ||
    (grouped && suffixes.any (!·.isArray) && t.derivations.any TypeDerivation.isPointer)

def levelMoves (pointers : List PointerSyntax) (suffixes : List (Suffix env)) (grouped : Bool)
    (t : DeclaredType E P) : Bool :=
  let l := t.derivations ++ levelReading pointers suffixes
  (grouped && suffixes.any (·.isArray) && arrayThenPointer l) ||
    (levelCalls grouped suffixes t && functionThenPointer l)

theorem levelDeclared_derivations (pointers : List PointerSyntax) (suffixes : List (Suffix env))
    (grouped : Bool) (t : DeclaredType E P) :
    (levelDeclared pointers suffixes grouped t).derivations =
      let l := t.derivations ++ levelReading pointers suffixes
      let l := if grouped && suffixes.any (·.isArray) then movePointersToFront l else l
      if levelCalls grouped suffixes t then movePointersBeforeFunction l else l := by
  have hmark : (suffixes.foldl (append grouped) t).isFunctionPointer =
      levelCalls grouped suffixes t := Suffix.foldl_append_isFunctionPointer grouped suffixes t
  have hlist := Suffix.foldl_append_derivations grouped suffixes t
  cases harr : grouped && suffixes.any (·.isArray) <;>
    cases hcall : levelCalls grouped suffixes t <;>
    simp only [levelDeclared, finishType, applyPointerChainToType_eq, levelReading, harr, hcall,
      normalizeGroupedArrayPointer, parsedTypeNormalizeFunctionPointer, hmark, hlist,
      Bool.false_eq_true, if_true, if_false, List.map_map, List.append_assoc] <;>
    rfl

theorem PointersMoved.of_if (h : PointersMoved b l m) : PointersMoved (c && b) l (if c then m else l) := by
  cases c with
  | true => simpa using h
  | false => exact ⟨.refl _, fun _ => rfl, by simp⟩

/-- Two passes in turn; the second is told by the list before the first. -/
theorem PointersMoved.comp {b : List (TypeDerivation E P) → Bool} (h : PointersMoved a l m)
    (h' : PointersMoved (b m) m n) : PointersMoved (a || b l) l n := by
  refine ⟨h.leftward.trans h'.leftward, ?_, ?_⟩
  · intro hnone
    simp only [Bool.or_eq_false_iff] at hnone
    have hm := h.unmoved hnone.1
    rw [h'.unmoved (hm ▸ hnone.2), hm]
  · intro hsome
    cases ha : a with
    | true => exact Nat.lt_of_le_of_lt h'.leftward.inversions_le (h.fewer ha)
    | false =>
      have hm := h.unmoved ha
      subst hm
      exact h'.fewer (by simpa [ha] using hsome)

section
variable (pointers : List PointerSyntax) (suffixes : List (Suffix env)) (grouped : Bool) (t : DeclaredType E P)

theorem levelDeclared_moved :
    PointersMoved (levelMoves pointers suffixes grouped t)
      (t.derivations ++ levelReading pointers suffixes)
      (levelDeclared pointers suffixes grouped t).derivations := by
  have harray := (movePointersToFront_moved
    (t.derivations ++ levelReading pointers suffixes)).of_if
    (c := grouped && suffixes.any (·.isArray))
  have hfunction := fun l : List (TypeDerivation E P) =>
    (movePointersBeforeFunction_moved l).of_if (c := levelCalls grouped suffixes t)
  have hcomp := harray.comp (b := fun l => levelCalls grouped suffixes t && functionThenPointer l)
    (hfunction _)
  rw [levelDeclared_derivations]
  exact hcomp

theorem levelDeclared_isFunctionPointer :
    (levelDeclared pointers suffixes grouped t).isFunctionPointer = levelCalls grouped suffixes t := by
  rw [levelCalls, ← Suffix.foldl_append_isFunctionPointer]
  simp only [levelDeclared, finishType, applyPointerChainToType_eq,
    parsedTypeNormalizeFunctionPointer, normalizeGroupedArrayPointer]
  split <;> split <;> rfl

end

-- The reading is kept

theorem Declarator.reading_of_isName {d : Declarator env} (h : d.isName = true) : d.reading = [] := by
  cases d with
  | bare pointers suffixes =>
    cases pointers <;> cases suffixes <;> simp_all [Declarator.isName, Declarator.reading, levelReading]
  | group pointers opening inner closing suffixes => simp [Declarator.isName] at h

/-- Pointers only move towards the name, and stay where C reads them just when no level
moves one. -/
theorem Declarator.declared_spec (d : Declarator env) :
    Leftward isPointer d.reading (d.declared true .base).derivations ∧
      (d.declared true .base).isFunctionPointer = d.callsGroup ∧
      ((d.declared true .base).derivations = d.reading ↔ d.keepsPointers = true) := by
  induction d with
  | bare pointers suffixes =>
    have hnone : levelMoves pointers suffixes false (.base : DeclaredType E P) = false := by
      simp [levelMoves, levelCalls, DeclaredType.base]
    have hmoved := levelDeclared_moved pointers suffixes false (.base : DeclaredType E P)
    have hkept := hmoved.unmoved hnone
    refine ⟨hkept ▸ .refl _, ?_, ?_⟩
    · rw [Declarator.declared, levelDeclared_isFunctionPointer]
      simp [levelCalls, DeclaredType.base, Declarator.callsGroup]
    · exact iff_of_true hkept rfl
  | group pointers opening inner closing suffixes ih =>
    obtain ⟨hleft, hmark, hkeeps⟩ := ih
    simp only [Declarator.declared, Bool.true_and]
    generalize inner.declared true .base = t at hleft hmark hkeeps ⊢
    have hmoved := levelDeclared_moved pointers suffixes (!inner.isName) t
    have hlevel : Leftward isPointer
        (inner.reading ++ levelReading pointers suffixes)
        (t.derivations ++ levelReading pointers suffixes) := hleft.append_right _
    have hany : t.derivations.any isPointer =
        inner.reading.any isPointer := hleft.perm.any_eq.symm
    have hcalls : levelCalls (!inner.isName) suffixes t =
        (Declarator.group pointers opening inner closing suffixes).callsGroup := by
      simp only [levelCalls, hmark, hany, Declarator.callsGroup]
      cases hname : inner.isName with
      | false => simp
      | true => simp [Declarator.reading_of_isName hname]
    have hmoves (ht : t.derivations = inner.reading) :
        levelMoves pointers suffixes (!inner.isName) t =
          (Declarator.group pointers opening inner closing suffixes).movesPointer := by
      simp only [levelMoves, hcalls, ht, Declarator.movesPointer, Declarator.reading]
    refine ⟨hlevel.trans hmoved.leftward, ?_, ?_⟩
    · rw [levelDeclared_isFunctionPointer, hcalls]
    · simp only [Declarator.keepsPointers, Bool.and_eq_true, Bool.not_eq_true']
      constructor
      · intro hread
        -- no inversion is lost on the way, so this level has moved nothing
        have hstay : levelMoves pointers suffixes (!inner.isName) t = false := by
          by_contra hmove
          have hfewer := hmoved.fewer (by simpa using hmove)
          rw [hread] at hfewer
          exact absurd hlevel.inversions_le (Nat.not_le_of_lt hfewer)
        have ht : t.derivations = inner.reading :=
          List.append_cancel_right ((hmoved.unmoved hstay).symm.trans hread)
        exact ⟨hkeeps.mp ht, hmoves ht ▸ hstay⟩
      · rintro ⟨hinner, hstay⟩
        have ht := hkeeps.mpr hinner
        rw [hmoved.unmoved (hmoves ht ▸ hstay), ht]
        rfl

-- A size that is not read

/-- The derivations that are no pointers; whatever the parser does only adds to them. -/
def spine (t : DeclaredType E P) : List (TypeDerivation E P) := t.derivations.filter (!·.isPointer)

theorem spine_array (t : DeclaredType E P) (info : ArrayInfo E) :
    spine (parsedTypeAppendArray t info) = spine t ++ [.array info] := by
  simp [spine, parsedTypeAppendArray]

theorem spine_function (grouped : Bool) (t : DeclaredType E P) (signature : FunctionSignature P) :
    spine (appendFunctionSuffix grouped t signature) = spine t ++ [.function signature] := by
  simp only [appendFunctionSuffix]
  split <;> simp [spine, parsedTypeSetFunctionPointer, parsedTypeAppendFunction]

theorem spine_finishType (chain : List PointerDeclaratorLayer) (grouped sawArray : Bool)
    (t : DeclaredType E P) : spine (finishType chain grouped sawArray t) = spine t := by
  have harray (l : List (TypeDerivation E P)) :=
    (movePointersToFront_moved l).leftward.filter_not
  have hfunction (l : List (TypeDerivation E P)) :=
    (movePointersBeforeFunction_moved l).leftward.filter_not
  have hchain : (chain.map (TypeDerivation.pointer (E := E) (P := P))).reverse.filter
      (!·.isPointer) = [] := by
    simp [List.filter_eq_nil_iff]
  simp only [finishType, applyPointerChainToType_eq, parsedTypeNormalizeFunctionPointer,
    normalizeGroupedArrayPointer, spine]
  split <;> split <;> simp only [← harray, ← hfunction, List.filter_append, hchain, List.append_nil]

theorem spine_level (pointers : List PointerSyntax) (suffixes : List (Suffix env))
    (grouped : Bool) (t : DeclaredType E P) :
    spine (levelDeclared pointers suffixes grouped t) =
      spine t ++ (levelReading pointers suffixes).filter (!·.isPointer) := by
  have hlevel := (levelDeclared_moved pointers suffixes grouped t).leftward.filter_not
  rw [spine, ← hlevel, List.filter_append]
  rfl

theorem spine_declared (named : Bool) (d : Declarator env) (t : DeclaredType E P) :
    spine (d.declared named t) = spine t ++ d.reading.filter (!·.isPointer) := by
  induction d with
  | bare pointers suffixes => exact spine_level pointers suffixes false t
  | group pointers opening inner closing suffixes ih =>
    rw [Declarator.declared, spine_level, ih, Declarator.reading, List.filter_append, List.append_assoc]

theorem spine_prefix_suffix
    (h : parseFunctionSuffix env opts grouped s tokens = .ok s') : spine s.type <+: spine s'.type := by
  simp only [parseFunctionSuffix] at h
  split at h
  · cases h
  split at h
  · cases h
  cases h
  simp [spine_function]

theorem spine_prefix_suffixes
    (h : parseSuffixes env opts grouped fuel saw s = .ok (saw', s')) :
    spine s.type <+: spine s'.type := by
  induction fuel generalizing saw s with
  | zero => cases h
  | succ fuel ih =>
    simp only [parseSuffixes] at h
    split at h
    · have hstep := ih h
      rw [spine_array] at hstep
      exact (List.prefix_append _ _).trans hstep
    split at h
    · split at h
      · cases h
      · rename_i s₁ hfun
        exact (spine_prefix_suffix hfun).trans (ih h)
    · cases h
      exact List.prefix_rfl

theorem spine_finish
    (h : finishDeclarator opts chain grouped saw s = .ok s') : spine s'.type = spine s.type := by
  simp only [finishDeclarator] at h
  split at h
  · cases h
  cases h
  exact spine_finishType ..

/-- Two lists that differ at a place both have. -/
def Departs (l m : List α) : Prop := ∃ pre x y, pre ++ [x] <+: l ∧ pre ++ [y] <+: m ∧ x ≠ y

theorem Departs.mono (h : Departs l m) (hl : l <+: l') (hm : m <+: m') :
    Departs l' m' := by
  obtain ⟨pre, x, y, hx, hy, hne⟩ := h
  exact ⟨pre, x, y, hx.trans hl, hy.trans hm, hne⟩

theorem Departs.ne (h : Departs l m) : l ≠ m := by
  rintro rfl
  obtain ⟨pre, x, y, ⟨k, hx⟩, ⟨k', hy⟩, hne⟩ := h
  rw [List.append_assoc] at hx hy
  have := List.append_cancel_left (hx.trans hy.symm)
  exact hne (List.cons.inj this).1

theorem parseArraySize_unread (a : ArraySyntax env) (h : a.size.isRead = false) (rest : List Token) :
    (parseArraySize env (a.tokens.tail ++ rest)).1 ≠ a.info := by
  obtain ⟨opening, keywords, size, closing, static_sized⟩ := a
  cases size with
  | unspecified => cases h
  | star tok => cases h
  | expr size =>
    have hstar : currentType size.tokens = .asterisk := by simpa [ArraySize.isRead] using h
    have htokens : (ArraySyntax.mk opening keywords (.expr size) closing static_sized).tokens.tail ++
        rest = keywords.map (·.1) ++ (size.tokens ++ closing.1 :: rest) := by
      simp [ArraySyntax.tokens, ArraySize.tokens]
    have hkeyword : isArrayKeyword (currentType (size.tokens ++ closing.1 :: rest)) = false :=
      (ArraySize.expr size).isArrayKeyword_closing closing
    intro hinfo
    have hsize := congrArg ArrayInfo.sizeExpr hinfo
    simp only [parseArraySize, htokens, scanArrayKeywords_spelled _ _ hkeyword,
      size.currentType_append, hstar, if_true, ArraySyntax.info] at hsize
    split at hsize
    · cases hsize
    · split at hsize <;> cases hsize

theorem parseSuffixes_unread (suffixes : List (Suffix env))
    (hread : suffixes.all (·.isRead) = false)
    (hs : s.tokens = suffixes.flatMap (·.tokens) ++ rest)
    (h : parseSuffixes env opts grouped fuel saw s = .ok (saw', s')) :
    Departs (spine s'.type) (spine s.type ++ suffixes.map (·.derivation)) := by
  induction suffixes generalizing fuel saw s with
  | nil => cases hread
  | cons suffix suffixes ih =>
    obtain _ | fuel := fuel
    · cases h
    simp only [List.flatMap_cons, List.append_assoc] at hs
    cases suffix with
    | array a =>
      have htail : s.tokens.tail = a.tokens.tail ++ (suffixes.flatMap (·.tokens) ++ rest) := by
        rw [hs]
        rfl
      simp only [parseSuffixes] at h
      rw [if_pos (by rw [hs]; exact a.startsArray_tokens), htail] at h
      cases ha : a.size.isRead with
      | true =>
        rw [parseArraySize_spelled a ha] at h
        have hrest : suffixes.all (·.isRead) = false := by
          simpa [Suffix.isRead, ha] using hread
        simpa [spine_array, derivation] using ih hrest rfl h
      | false =>
        -- the array is recorded without its size, and stays so
        have hinfo := parseArraySize_unread a ha (suffixes.flatMap (·.tokens) ++ rest)
        have hlast := spine_prefix_suffixes h
        rw [spine_array] at hlast
        refine ⟨spine s.type, _, .array a.info, hlast, ?_, ?_⟩
        · simp [derivation]
        · simpa using hinfo
    | function f =>
      have htail : s.tokens.tail = f.tokens.tail ++ (suffixes.flatMap (·.tokens) ++ rest) := by
        rw [hs]
        rfl
      have hopen : currentType s.tokens = .lparen := by
        rw [hs]
        exact f.opening.2
      have harr : startsArray s.tokens = false := by simp [startsArray, hopen]
      obtain ⟨s₁, h₁, htok₁, htype₁, -⟩ := parseFunctionSuffix_spelled opts grouped f s
        (suffixes.flatMap (·.tokens) ++ rest)
      simp only [parseSuffixes, harr, hopen, htail, h₁, if_true, Bool.false_eq_true, if_false] at h
      have hrest : suffixes.all (·.isRead) = false := by simpa [Suffix.isRead] using hread
      simpa [htype₁, spine_function, derivation] using ih hrest htok₁ h

theorem levelReading_filter (pointers : List PointerSyntax) (suffixes : List (Suffix env)) :
    (levelReading pointers suffixes).filter (!·.isPointer) = suffixes.map (·.derivation) := by
  have hpointers : (pointers.map fun p => (TypeDerivation.pointer p.layer :
      TypeDerivation E P)).reverse.filter (!·.isPointer) = [] := by
    simp [List.filter_eq_nil_iff]
  have hsuffixes : (suffixes.map (·.derivation)).filter (!·.isPointer) =
      suffixes.map (·.derivation) := by
    simp only [List.filter_eq_self, List.mem_map, forall_exists_index, and_imp]
    rintro _ suffix - rfl
    cases suffix <;> rfl
  rw [levelReading, List.filter_append, hpointers, hsuffixes, List.append_nil]

theorem level_unread (suffixes : List (Suffix env)) (hread : suffixes.all (·.isRead) = false)
    (hs : s.tokens = suffixes.flatMap (·.tokens) ++ rest)
    (h : parseDeclaratorTail env opts chain grouped fuel s = .ok s') :
    Departs (spine s'.type) (spine s.type ++ suffixes.map (·.derivation)) := by
  unfold parseDeclaratorTail at h
  split at h
  · cases h
  rename_i sawArray s₁ hloop
  rw [spine_finish h]
  exact parseSuffixes_unread suffixes hread hs hloop

theorem spine_prefix_level
    (h : parseDeclaratorTail env opts chain grouped fuel s = .ok s') :
    spine s.type <+: spine s'.type := by
  unfold parseDeclaratorTail at h
  split at h
  · cases h
  rename_i sawArray s₁ hloop
  rw [spine_finish h]
  exact spine_prefix_suffixes hloop

/-- With a size that is not read, the parser fails or the array stays without it. -/
theorem parseDeclaratorInternal_unread (opts : Options) (d : Declarator env)
    (x : TokenOf .identifier) (hread : d.isRead = false)
    (hf : (d.tokens (some x)).length + 1 < fuel)
    (hs : s.tokens = d.tokens (some x) ++ rest)
    (h : parseDeclaratorInternal env opts fuel s = .ok s') :
    Departs (spine s'.type) (spine s.type ++ d.reading.filter (!·.isPointer)) := by
  induction d generalizing fuel s s' rest with
  | bare pointers suffixes =>
    obtain ⟨fuel, rfl⟩ : ∃ n, fuel = n + 1 := Nat.exists_eq_succ_of_ne_zero (by omega)
    have hends : endsPointers env.blockPointers
        (x.1 :: (suffixes.flatMap (·.tokens) ++ rest)) = true := by
      simp [endsPointers, startsPointer, x.2, isPointerQualifier]
    simp only [Declarator.tokens, Option.map_some, Option.toList_some, List.cons_append,
      List.nil_append, List.append_assoc] at hs
    simp only [parseDeclaratorInternal, hs, parsePointerChain_spelled pointers hends,
      currentType_cons, x.2, if_true, List.tail_cons] at h
    rw [Declarator.reading, levelReading_filter]
    have hlevel := level_unread suffixes hread rfl h
    exact hlevel
  | group pointers opening inner closing suffixes ih =>
    obtain ⟨fuel, rfl⟩ : ∃ n, fuel = n + 1 := Nat.exists_eq_succ_of_ne_zero (by omega)
    simp only [Declarator.tokens, List.length_append, List.length_cons] at hf
    simp only [Declarator.tokens, List.append_assoc, List.cons_append] at hs
    have hends : endsPointers env.blockPointers (opening.1 :: (inner.tokens (some x) ++
        (closing.1 :: (suffixes.flatMap (·.tokens) ++ rest)))) = true := by
      simp [endsPointers, startsPointer, opening.2, isPointerQualifier]
    have hinner : (inner.tokens (some x)).length + 1 < fuel := by omega
    simp only [parseDeclaratorInternal, hs, parsePointerChain_spelled pointers hends,
      currentType_cons, opening.2, reduceCtorEq, if_false, if_true, List.tail_cons] at h
    rw [Declarator.reading, List.filter_append, levelReading_filter, ← List.append_assoc]
    split at h
    · cases h
    rename_i s₁ hparse
    split at h
    · cases h
    cases hi : inner.isRead with
    | false =>
      have hlevel := spine_prefix_level h
      have hdeparts := ih hi hinner rfl hparse
      exact hdeparts.mono hlevel (List.prefix_append _ _)
    | true => ?_
    have hsuffixes : suffixes.all (·.isRead) = false := by
      simpa [Declarator.isRead, hi] using hread
    obtain ⟨s₂, h₂, htok₂, htype₂, -⟩ := parseDeclaratorInternal_spelled opts inner (some x)
      hi rfl (endsDeclarator_closing (some x) closing _) hinner
      { s with
        tokens := inner.tokens (some x) ++
          (closing.1 :: (suffixes.flatMap (·.tokens) ++ rest)) } rfl (by simp)
    obtain rfl : s₁ = s₂ := by simpa [hparse] using h₂
    have hlevel := level_unread suffixes hsuffixes (by rw [htok₂]; rfl) h
    simpa [htype₂, spine_declared] using hlevel

-- What every step keeps

/-- A parameter list that one of the list parsers gives. -/
def ReadsParameters (env : Environment E P) (signature : FunctionSignature P) : Prop :=
  ∃ tokens rest, env.parseParameterList tokens = some (signature, rest) ∨
    env.parseFunctionTypeParameterList tokens = some (signature, rest)

/-- What the steps of the declarator parser keep, the parser keeps. -/
structure KeptBySteps (env : Environment E P) (I : DeclaredType E P → Prop) : Prop where
  array : ∀ t tokens, I t → I (parsedTypeAppendArray t (parseArraySize env tokens).1)
  function : ∀ grouped t signature, ReadsParameters env signature → I t →
    I (appendFunctionSuffix grouped t signature)
  finish : ∀ chain grouped sawArray t, I t → I (finishType chain grouped sawArray t)

section
variable {I : DeclaredType E P → Prop}

section
variable {s s' : DeclaratorState E P} (hI : KeptBySteps env I)

include hI

theorem KeptBySteps.suffix (h : parseFunctionSuffix env opts grouped s tokens = .ok s') (hs : I s.type) :
    I s'.type := by
  simp only [parseFunctionSuffix] at h
  split at h
  · cases h
  next signature rest hparsed =>
    have hreads : ReadsParameters env signature := by
      split at hparsed
      · exact ⟨_, _, .inl hparsed⟩
      · exact ⟨_, _, .inr hparsed⟩
    split at h
    · cases h
    cases h
    exact hI.function grouped s.type signature hreads hs

theorem KeptBySteps.suffixes (h : parseSuffixes env opts grouped fuel saw s = .ok (saw', s'))
    (hs : I s.type) : I s'.type := by
  induction fuel generalizing saw s with
  | zero => cases h
  | succ fuel ih =>
    simp only [parseSuffixes] at h
    split at h
    · exact ih h (hI.array _ _ hs)
    split at h
    · split at h
      · cases h
      next s₁ hsuffix => exact ih h (hI.suffix hsuffix hs)
    · cases h
      exact hs

theorem KeptBySteps.tail (h : parseDeclaratorTail env opts chain grouped fuel s = .ok s') (hs : I s.type) :
    I s'.type := by
  unfold parseDeclaratorTail at h
  split at h
  · cases h
  next sawArray s₁ hloop =>
    have hloop' := hI.suffixes hloop hs
    simp only [finishDeclarator] at h
    split at h
    · cases h
    cases h
    exact hI.finish _ _ _ _ hloop'

theorem KeptBySteps.parse (h : parseDeclaratorInternal env opts fuel s = .ok s') (hs : I s.type) :
    I s'.type := by
  induction fuel generalizing s s' with
  | zero => cases h
  | succ fuel ih =>
    simp only [parseDeclaratorInternal] at h
    split at h
    · exact hI.tail h hs
    split at h
    · split at h
      · cases h
      next s₁ hinner =>
        split at h
        · cases h
        have hinner' := ih hinner hs
        exact hI.tail h hinner'
    · split at h
      · cases h
      · exact hI.tail h hs

end

end

-- Declarators denote their types

def DenotesReading (env : Environment E P) (opts : Options) (d : Declarator env)
    (name : TokenOf .identifier) (rest : List Token) : Prop :=
  ∃ s, parserParseDeclarator env opts .base (d.tokens (some name) ++ rest) = .ok s ∧
    s.tokens = rest ∧ s.type.derivations = d.reading

/-- What follows a declarator is neither a suffix of it nor a parameter list. -/
abbrev Following := { rest : List Token // endsSuffixes rest = true }

theorem denotesReading_iff (opts : Options) (d : Declarator env) (name : TokenOf .identifier)
    (rest : Following) :
    DenotesReading env opts d name rest.1 ↔ d.isRead = true ∧ d.keepsPointers = true := by
  have hf : (d.tokens (some name)).length + 1 < (d.tokens (some name) ++ rest.1).length + 2 := by
    simp only [List.length_append]
    omega
  obtain ⟨-, -, hkeeps⟩ := d.declared_spec
  unfold DenotesReading parserParseDeclarator
  cases hread : d.isRead with
  | true =>
    have hends : endsDeclarator env (some name) rest.1 = true := by
      simp [endsDeclarator, rest.2]
    obtain ⟨s, h, htok, htype, -⟩ := parseDeclaratorInternal_spelled opts d (some name) hread rfl
      hends hf ⟨d.tokens (some name) ++ rest.1, .base, none, none, false⟩ rfl (by simp)
    have htype : s.type = d.declared true .base := htype
    simp only [h, Except.ok.injEq, exists_eq_left', htok, htype, hkeeps, true_and]
  | false =>
    simp only [Bool.false_eq_true, false_and, iff_false]
    rintro ⟨s, h, -, hreading⟩
    have hdeparts := parseDeclaratorInternal_unread opts d name hread hf rfl h
    exact hdeparts.ne (by simp [spine, hreading, DeclaredType.base])

-- A pointer to an array of pointers

def tokenOf (type : TokenType) (value : Option String) : TokenOf type :=
  ⟨⟨type, value, 1, 1, 1, emptyRange, emptyRange, emptyRange⟩, rfl⟩

def numberEnvironment : Environment Token Unit where
  blockPointers := false
  captureFunctionParams := false
  parseAssignmentExpression
    | [] => (none, [])
    | tok :: rest => if tok.type = .number then (some tok, rest) else (none, tok :: rest)
  numberLiteral tok := tok.value.bind String.toInt?
  parseParameterList tokens := some (⟨false, false, []⟩, tokens)
  parseFunctionTypeParameterList tokens := some (⟨false, false, []⟩, tokens)

def plainPointer : PointerSyntax := ⟨tokenOf .asterisk none, []⟩

def sizeThree : SizeSyntax numberEnvironment where
  tokens := [(tokenOf .number (some "3")).1]
  size := (tokenOf .number (some "3")).1
  starts := rfl
  reads _ _ _ := rfl

def threeElements : Suffix numberEnvironment :=
  .array ⟨tokenOf .lbracket none, [], .expr sizeThree, tokenOf .rbracket none, fun _ => rfl⟩

/-- `*(*p)[3]` -/
def pointerToArrayOfPointers : Declarator numberEnvironment :=
  .group [plainPointer] (tokenOf .lparen none) (.bare [plainPointer] []) (tokenOf .rparen none)
    [threeElements]

/-- The parser makes it an array after two pointers. -/
theorem pointerToArrayOfPointers_not_denoted :
    ¬ DenotesReading numberEnvironment ⟨false, true⟩ pointerToArrayOfPointers
      (tokenOf .identifier (some "p")) [(tokenOf .semicolon none).1] := by
  rintro ⟨s, h, -, hreading⟩
  cases h
  exact absurd (congrArg (List.map TypeDerivation.isArray) hreading) (by decide)

end Fisics.Declarators
