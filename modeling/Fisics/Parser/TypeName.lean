import Fisics.Parser.DeclaratorCorrect

/-!
# Type names and declarations

In a cast, a `sizeof` or a compound literal `parseTypeCore` appends the pointers after the
specifiers in the order they are written, before the declarator is parsed; in a declaration
the declarator takes them last and in reverse. Both give one type only when nothing is
left to derive after these pointers, or when a pass moves them to the front again.
-/

namespace Fisics.Declarators

open TypeDerivation (isArray isPointer)
open List (any_eq_true countP_append countP_eq_zero countP_pos_iff filter_append mem_cons_self
  mem_reverse nil_append)

variable {E P : Type} {env : Environment E P}

-- Type names

/-- The pointers that `parseTypeCore` consumes outside declarations. -/
def consumeLeadingPointers (env : Environment E P) (t : DeclaredType E P) (tokens : List Token) :
    DeclaredType E P × List Token :=
  let (chain, rest) := parsePointerChain env.blockPointers tokens
  (chain.foldl parsedTypeAppendPointer t, rest)

/-- `parseTypeCtx` after the specifiers, then the abstract declarator. -/
def parseTypeName (env : Environment E P) (tokens : List Token) :
    Except String (DeclaratorState E P) :=
  let (t, rest) := consumeLeadingPointers env .base tokens
  parserParseDeclarator env ⟨false, false⟩ t rest

def Declarator.pointers : Declarator env → List PointerSyntax
  | .bare pointers _ => pointers
  | .group pointers _ _ _ _ => pointers

def Declarator.withoutPointers : Declarator env → Declarator env
  | .bare _ suffixes => .bare [] suffixes
  | .group _ opening inner closing suffixes => .group [] opening inner closing suffixes

def Declarator.groupSuffixes : Declarator env → List (Suffix env)
  | .bare _ _ => []
  | .group _ _ _ _ suffixes => suffixes

def layersOf (pointers : List PointerSyntax) : List (TypeDerivation E P) :=
  pointers.map fun p => .pointer p.layer

theorem Declarator.tokens_eq (d : Declarator env) (name : Option (TokenOf .identifier)) :
    d.tokens name = d.pointers.flatMap (·.tokens) ++ d.withoutPointers.tokens name := by
  cases d <;> simp [Declarator.tokens, Declarator.pointers, Declarator.withoutPointers]

/-- The pointers in the order they are written. -/
def eagerType (pointers : List PointerSyntax) : DeclaredType E P :=
  (pointers.map (·.layer)).foldl parsedTypeAppendPointer .base

theorem eagerType_eq (pointers : List PointerSyntax) :
    (eagerType pointers : DeclaredType E P) =
      { (.base : DeclaredType E P) with
        derivations := layersOf pointers
        pointerDepth := pointers.length } := by
  have h := applyPointerChainToType_eq (.base : DeclaredType E P) (pointers.map (·.layer)).reverse
  simp only [applyPointerChainToType, List.reverse_reverse] at h
  rw [eagerType, h]
  simp [DeclaredType.base, layersOf, Function.comp_def]

open Declarator (declared hasEmptyGroup reading)

theorem Declarator.declared_named (d : Declarator env) (h : d.hasEmptyGroup = false)
    (t : DeclaredType E P) : d.declared true t = d.declared false t := by
  induction d with
  | bare pointers suffixes => rfl
  | group pointers opening inner closing suffixes ih =>
    simp only [hasEmptyGroup, Bool.or_eq_false_iff] at h
    simp only [declared, h.1, ih h.2, Bool.and_false]

theorem Declarator.endsPointers_withoutPointers (d : Declarator env)
    (hrest : endsDeclarator env none rest = true) :
    endsPointers env.blockPointers (d.withoutPointers.tokens none ++ rest) = true := by
  cases d with
  | bare pointers suffixes => ?_
  | group pointers opening inner closing suffixes =>
    simp [Declarator.withoutPointers, Declarator.tokens, endsPointers, startsPointer, opening.2,
      isPointerQualifier]
  simp only [endsDeclarator, Option.isSome_none, Bool.false_or, Bool.and_eq_true] at hrest
  simp only [Declarator.withoutPointers, Declarator.tokens, List.flatMap_nil, nil_append,
    Option.map_none, Option.toList_none]
  by_cases hnil : suffixes = []
  · simpa [hnil] using hrest.2.1
  · exact Suffix.endsPointers_tokens suffixes hnil

theorem parseTypeName_spelled (d : Declarator env) (hread : d.isRead = true)
    (hfun : d.startsWithFunction = false) (hgroup : d.hasEmptyGroup = false)
    (hrest : endsDeclarator env none rest = true) :
    ∃ s, parseTypeName env (d.tokens none ++ rest) = .ok s ∧ s.tokens = rest ∧
      s.type = d.withoutPointers.declared false (eagerType d.pointers) := by
  have hread' : d.withoutPointers.isRead = true := by cases d <;> exact hread
  have hspelled : d.withoutPointers.isSpelled none = true := by
    have hfun' : d.withoutPointers.startsWithFunction = false := by
      cases d with
      | bare pointers suffixes => cases suffixes with
        | nil => rfl
        | cons suffix suffixes => cases suffix <;> exact hfun
      | group pointers opening inner closing suffixes => exact hfun
    have hgroup' : d.withoutPointers.hasEmptyGroup = false := by cases d <;> exact hgroup
    simp [Declarator.isSpelled, hfun', hgroup']
  have hf : (d.withoutPointers.tokens none).length + 1 <
      (d.withoutPointers.tokens none ++ rest).length + 2 := by
    simp only [List.length_append]
    omega
  have hends := d.endsPointers_withoutPointers hrest
  obtain ⟨s, h, htok, htype, -⟩ := parseDeclaratorInternal_spelled ⟨false, false⟩
    d.withoutPointers none hread' hspelled hrest hf
    ⟨d.withoutPointers.tokens none ++ rest, eagerType d.pointers, none, none, false⟩ rfl
    (fun h => by cases h)
  refine ⟨s, ?_, htok, htype⟩
  simp only [parseTypeName, consumeLeadingPointers, d.tokens_eq, List.append_assoc,
    parsePointerChain_spelled d.pointers hends]
  exact h

-- Depth

theorem levelDeclared_pointerDepth (pointers : List PointerSyntax) (suffixes : List (Suffix env))
    (grouped : Bool) (t : DeclaredType E P) :
    (levelDeclared pointers suffixes grouped t).pointerDepth = t.pointerDepth + pointers.length := by
  have hfold := Suffix.foldl_append_pointerDepth grouped suffixes t
  simp only [levelDeclared, finishType, applyPointerChainToType_eq,
    parsedTypeNormalizeFunctionPointer, normalizeGroupedArrayPointer]
  split <;> split <;> simp [hfold]

def Declarator.depth : Declarator env → Nat
  | .bare pointers _ => pointers.length
  | .group pointers _ inner _ _ => inner.depth + pointers.length

theorem Declarator.declared_pointerDepth (d : Declarator env) (t : DeclaredType E P) :
    (d.declared named t).pointerDepth = t.pointerDepth + d.depth := by
  induction d with
  | bare pointers suffixes => exact levelDeclared_pointerDepth ..
  | group pointers opening inner closing suffixes ih =>
    rw [declared, levelDeclared_pointerDepth, ih, Declarator.depth, Nat.add_assoc]

theorem Declarator.pointerDepth_agrees (d : Declarator env) :
    (d.withoutPointers.declared false (eagerType d.pointers : DeclaredType E P)).pointerDepth =
      (d.declared false (.base : DeclaredType E P)).pointerDepth := by
  rw [Declarator.declared_pointerDepth, Declarator.declared_pointerDepth, eagerType_eq]
  cases d <;>
    simp [Declarator.withoutPointers, Declarator.pointers, Declarator.depth, DeclaredType.base,
      Nat.add_comm]

-- The passes on a list that starts with a pointer

def headIsPointer (l : List (TypeDerivation E P)) : Bool := l.head?.any TypeDerivation.isPointer

theorem headIsPointer_append (h : headIsPointer l = true)
    (m : List (TypeDerivation E P)) : headIsPointer (l ++ m) = true := by
  cases l with
  | nil => cases h
  | cons x l => exact h

theorem movePointersBeforeFunction_of_head
    (h : headIsPointer l = true) : movePointersBeforeFunction l = l := by
  apply (movePointersBeforeFunction_moved l).unmoved
  cases l with
  | nil => cases h
  | cons x l =>
    have hx : x.isPointer = true := h
    simp [functionThenPointer, hx, isFunction_of_isPointer hx]

theorem headIsPointer_filter {l : List (TypeDerivation E P)}
    (h : l.any isPointer = true) (m : List (TypeDerivation E P)) :
    headIsPointer (l.filter isPointer ++ m) = true := by
  cases hl : l.filter isPointer with
  | nil =>
    rw [List.filter_eq_nil_iff] at hl
    obtain ⟨x, hx, hp⟩ := any_eq_true.mp h
    exact absurd hp (hl x hx)
  | cons x rest =>
    have hx : x ∈ l.filter isPointer := hl ▸ mem_cons_self ..
    exact (List.mem_filter.mp hx).2

theorem headIsPointer_moved (h : headIsPointer l = true) :
    headIsPointer (movePointersToFront l) = true := by
  unfold movePointersToFront
  split
  · exact h
  split
  · exact h
  rename_i hmove
  simp only [Bool.not_eq_true, Bool.or_eq_false_iff, Bool.not_eq_false'] at hmove
  exact headIsPointer_filter hmove.2 _

theorem levelDeclared_of_head (pointers : List PointerSyntax) (suffixes : List (Suffix env))
    (grouped : Bool) (h : headIsPointer t.derivations = true) :
    (levelDeclared pointers suffixes grouped t).derivations =
      if grouped && suffixes.any (·.isArray) then
        movePointersToFront (t.derivations ++ levelReading pointers suffixes)
      else t.derivations ++ levelReading pointers suffixes := by
  have hhead : headIsPointer (if grouped && suffixes.any (·.isArray) then
      movePointersToFront (t.derivations ++ levelReading pointers suffixes)
      else t.derivations ++ levelReading pointers suffixes) = true := by
    split
    · exact headIsPointer_moved (headIsPointer_append h _)
    · exact headIsPointer_append h _
  rw [levelDeclared_derivations]
  simp only [movePointersBeforeFunction_of_head hhead, ite_self]

theorem headIsPointer_declared (named : Bool) (d : Declarator env)
    (h : headIsPointer t.derivations = true) :
    headIsPointer (d.declared named t).derivations = true := by
  have hlevel (pointers : List PointerSyntax) (suffixes : List (Suffix env)) (grouped : Bool)
      {t : DeclaredType E P} (h : headIsPointer t.derivations = true) :
      headIsPointer (levelDeclared pointers suffixes grouped t).derivations = true := by
    rw [levelDeclared_of_head pointers suffixes grouped h]
    split
    · exact headIsPointer_moved (headIsPointer_append h _)
    · exact headIsPointer_append h _
  induction d with
  | bare pointers suffixes => exact hlevel pointers suffixes false h
  | group pointers opening inner closing suffixes ih => exact hlevel pointers suffixes _ ih

-- The only array of a level

theorem suffix_derivations (suffixes : List (Suffix env)) :
    ∀ x ∈ suffixes.map (·.derivation), x.isPointer = false := by
  intro x hx
  obtain ⟨suffix, -, rfl⟩ := List.mem_map.mp hx
  cases suffix <;> rfl

theorem layersOf_isPointer (pointers : List PointerSyntax) :
    ∀ x ∈ (layersOf pointers : List (TypeDerivation E P)), x.isPointer = true := by
  intro x hx
  obtain ⟨p, -, rfl⟩ := List.mem_map.mp hx
  rfl

theorem any_isArray_derivations (suffixes : List (Suffix env)) :
    (suffixes.map (·.derivation)).any isArray = suffixes.any (·.isArray) := by
  rw [List.any_map]
  congr 1
  funext suffix
  cases suffix <;> rfl

theorem exists_split_of_countP_eq_one {w : List (TypeDerivation E P)}
    (h : w.countP isArray = 1) :
    ∃ before found after, w = before ++ found :: after ∧ found.isArray = true ∧
      (∀ x ∈ before, x.isArray = false) ∧ ∀ x ∈ after, x.isArray = false := by
  cases hd : w.dropWhile (!·.isArray) with
  | nil =>
    rw [List.dropWhile_eq_nil_iff] at hd
    have hzero : w.countP isArray = 0 := by
      rw [countP_eq_zero]
      intro x hx
      simpa using hd x hx
    omega
  | cons found after =>
    obtain ⟨hw, hfound⟩ := dropWhile_split hd
    have hbefore : ∀ x ∈ w.takeWhile (!·.isArray), x.isArray = false := by
      intro x hx
      simpa using List.mem_takeWhile_imp hx
    refine ⟨_, found, after, hw, hfound, hbefore, ?_⟩
    have hzero : (w.takeWhile (!·.isArray)).countP isArray = 0 := by
      rw [countP_eq_zero]
      intro x hx
      simp [hbefore x hx]
    rw [hw, countP_append, hzero, List.countP_cons_of_pos hfound] at h
    have hafter : after.countP isArray = 0 := by omega
    intro x hx
    simpa using countP_eq_zero.mp hafter x hx

theorem movePointersToFront_level (pointers : List PointerSyntax) (suffixes : List (Suffix env))
    {l : List (TypeDerivation E P)} (hl : l.any isArray = false)
    (hone : (suffixes.map (·.derivation)).countP isArray = 1) :
    movePointersToFront (l ++ levelReading pointers suffixes) =
      (layersOf pointers).reverse ++ (l ++ suffixes.map (·.derivation)) := by
  have hpointers := layersOf_isPointer (E := E) (P := P) pointers
  have hnone := suffix_derivations suffixes
  have hlevel : levelReading pointers suffixes =
      suffixes.map (·.derivation) ++ (layersOf pointers).reverse := rfl
  rw [hlevel]
  generalize suffixes.map (·.derivation) = w at hone hnone ⊢
  generalize (layersOf pointers : List (TypeDerivation E P)) = q at hpointers ⊢
  obtain ⟨before, found, after, rfl, hfound, hbefore, hafter⟩ := exists_split_of_countP_eq_one hone
  have hfront : ∀ x ∈ l ++ before, (!x.isArray) = true := by
    intro x hx
    obtain hx | hx := List.mem_append.mp hx
    · simpa using List.any_eq_false.mp hl x hx
    · simp [hbefore x hx]
  have hassoc : l ++ ((before ++ found :: after) ++ q.reverse) =
      (l ++ before) ++ found :: (after ++ q.reverse) := by simp
  have hdrop : ((l ++ before) ++ found :: (after ++ q.reverse)).dropWhile (!·.isArray) =
      found :: (after ++ q.reverse) := by
    rw [List.dropWhile_append_of_pos hfront, List.dropWhile_cons_of_neg (by simp [hfound])]
  have htake : ((l ++ before) ++ found :: (after ++ q.reverse)).takeWhile (!·.isArray) =
      l ++ before := by
    rw [List.takeWhile_append_of_pos hfront, List.takeWhile_cons_of_neg (by simp [hfound]), List.append_nil]
  have hafterPointers : after.filter isPointer = [] := by
    rw [List.filter_eq_nil_iff]
    intro x hx
    simp [hnone x (by simp [hx])]
  have hafterOthers : after.filter (!·.isPointer) = after := by
    rw [List.filter_eq_self]
    intro x hx
    simp [hnone x (by simp [hx])]
  have hqPointers : q.reverse.filter isPointer = q.reverse := by
    rw [List.filter_eq_self]
    intro x hx
    exact hpointers x (mem_reverse.mp hx)
  have hqOthers : q.reverse.filter (!·.isPointer) = [] := by
    rw [List.filter_eq_nil_iff]
    intro x hx
    simp [hpointers x (mem_reverse.mp hx)]
  have harrays : (after ++ q.reverse).any isArray = false := by
    rw [List.any_eq_false]
    intro x hx
    obtain hx | hx := List.mem_append.mp hx
    · simp [hafter x hx]
    · simp [isArray_of_isPointer (hpointers x (mem_reverse.mp hx))]
  rw [hassoc]
  simp only [movePointersToFront, hdrop, htake, harrays, Bool.false_or, filter_append,
    hafterPointers, hafterOthers, hqPointers, hqOthers, nil_append, List.append_nil]
  cases q with
  | nil => simp
  | cons x q => simp [hpointers x (mem_cons_self ..)]

theorem levelReading_countP (pointers : List PointerSyntax) (suffixes : List (Suffix env)) :
    (levelReading pointers suffixes).countP isArray =
      (suffixes.map (·.derivation)).countP isArray := by
  have hzero : ((layersOf pointers : List (TypeDerivation E P)).reverse).countP
      isArray = 0 := by
    rw [countP_eq_zero]
    intro x hx
    simp [isArray_of_isPointer (layersOf_isPointer pointers x (mem_reverse.mp hx))]
  have hlevel : levelReading pointers suffixes =
      suffixes.map (·.derivation) ++ (layersOf pointers).reverse := rfl
  rw [hlevel, countP_append, hzero, Nat.add_zero]

theorem movePointersToFront_of_countP_ne
    (h : l.countP isArray ≠ 1) : movePointersToFront l = l :=
  (movePointersToFront_moved l).unmoved (by simp [arrayThenPointer, h])

-- Declarators that start with an array

def Declarator.startsWithArray : Declarator env → Bool
  | .bare _ (.array _ :: _) => true
  | .bare _ _ => false
  | .group _ _ inner _ _ => inner.startsWithArray

def headIsArray (l : List (TypeDerivation E P)) : Bool := l.head?.any TypeDerivation.isArray

theorem headIsArray_beforeFunction (h : headIsArray l = true) :
    headIsArray (movePointersBeforeFunction l) = true := by
  unfold movePointersBeforeFunction
  split
  · exact h
  simp only
  split
  · exact h
  cases l with
  | nil => cases h
  | cons x l =>
    have hx : x.isArray = true := h
    simp [headIsArray, isFunction_of_isArray hx, hx]

theorem headIsArray_declared (named : Bool) (d : Declarator env) (h : d.startsWithArray = true) :
    headIsArray (d.declared named .base).derivations = true := by
  induction d with
  | bare pointers suffixes =>
    cases suffixes with
    | nil => cases h
    | cons suffix suffixes => ?_
    cases suffix with
    | function f => cases h
    | array a =>
      rw [declared, levelDeclared_derivations]
      rfl
  | group pointers opening inner closing suffixes ih =>
    rw [declared, levelDeclared_derivations]
    have hinner := ih h
    generalize inner.declared named .base = t at hinner ⊢
    have hlevel : headIsArray (t.derivations ++ levelReading pointers suffixes) = true := by
      cases ht : t.derivations with
      | nil =>
        rw [ht] at hinner
        cases hinner
      | cons x l =>
        rw [ht] at hinner
        exact hinner
    -- an array of this level would be the second one
    have hfront : (if !(named && inner.isName) && suffixes.any (·.isArray) then
        movePointersToFront (t.derivations ++ levelReading pointers suffixes)
        else t.derivations ++ levelReading pointers suffixes) =
        t.derivations ++ levelReading pointers suffixes := by
      split
      · rename_i harray
        apply movePointersToFront_of_countP_ne
        have hsecond : 0 < (suffixes.map (·.derivation)).countP isArray := by
          simp only [Bool.and_eq_true] at harray
          rw [countP_pos_iff, ← any_eq_true, any_isArray_derivations]
          exact harray.2
        have hfirst : 0 < t.derivations.countP isArray := by
          cases ht : t.derivations with
          | nil =>
            rw [ht] at hinner
            cases hinner
          | cons x l => ?_
          rw [ht] at hinner
          have hx : x.isArray = true := hinner
          rw [List.countP_cons_of_pos hx]
          omega
        rw [countP_append, levelReading_countP]
        omega
      · rfl
    simp only [hfront]
    split
    · exact headIsArray_beforeFunction hlevel
    · exact hlevel

-- Declarators that start with a pointer

/-- From a list of pointers the parser derives `moved`, that list, then `kept`. -/
structure PointerFirst (d : Declarator env) (moved kept : List (TypeDerivation E P)) : Prop where
  derived : ∀ t : DeclaredType E P, (∀ x ∈ t.derivations, x.isPointer = true) →
    (d.declared false t).derivations = moved ++ (t.derivations ++ kept)
  pointers : ∀ x ∈ moved, x.isPointer = true
  head : headIsPointer kept = true
  plain : d.reading.any TypeDerivation.isArray = false → moved = [] ∧ kept = d.reading
  others : kept.filter (!·.isPointer) = d.reading.filter (!·.isPointer)

theorem headIsPointer_of_pointers {l m : List (TypeDerivation E P)}
    (hl : ∀ x ∈ l, x.isPointer = true) (hm : headIsPointer m = true) :
    headIsPointer (l ++ m) = true := by
  cases l with
  | nil => exact hm
  | cons x l => exact hl x (mem_cons_self ..)

theorem countP_isArray_filter (l : List (TypeDerivation E P)) :
    (l.filter (!·.isPointer)).countP isArray = l.countP isArray := by
  rw [List.countP_filter]
  congr 1
  funext x
  cases x <;> rfl

theorem PointerFirst.countP_eq (h : PointerFirst d moved kept) :
    kept.countP isArray = d.reading.countP isArray := by
  rw [← countP_isArray_filter kept, h.others, countP_isArray_filter]

theorem PointerFirst.bare (pointers : List PointerSyntax) (h : pointers ≠ []) :
    PointerFirst (.bare pointers [] : Declarator env) [] (layersOf pointers).reverse := by
  have hhead : headIsPointer ((layersOf pointers).reverse : List (TypeDerivation E P)) = true := by
    cases hl : (layersOf pointers : List (TypeDerivation E P)).reverse with
    | nil => simp [layersOf, h] at hl
    | cons x l =>
      have hx : x ∈ (layersOf pointers : List (TypeDerivation E P)).reverse :=
        hl ▸ mem_cons_self ..
      exact layersOf_isPointer pointers x (mem_reverse.mp hx)
  refine ⟨?_, by simp, hhead, fun _ => ⟨rfl, rfl⟩, rfl⟩
  intro t ht
  have hlist := headIsPointer_of_pointers ht hhead
  rw [declared, levelDeclared_derivations]
  simp only [Bool.false_and, Bool.false_eq_true, if_false]
  split
  · exact movePointersBeforeFunction_of_head hlist
  · rfl

theorem PointerFirst.group {inner : Declarator env} (h : PointerFirst inner moved kept)
    (pointers : List PointerSyntax) (opening : TokenOf .lparen) (closing : TokenOf .rparen)
    (suffixes : List (Suffix env)) :
    (inner.reading.any isArray = false ∧
        (suffixes.map (·.derivation)).countP isArray = 1 ∧
        PointerFirst (.group pointers opening inner closing suffixes)
          (layersOf pointers).reverse (kept ++ suffixes.map (·.derivation))) ∨
      (¬ (inner.reading.any isArray = false ∧
          (suffixes.map (·.derivation)).countP isArray = 1) ∧
        PointerFirst (.group pointers opening inner closing suffixes) moved
          (kept ++ levelReading pointers suffixes)) := by
  have hlist (t : DeclaredType E P) (ht : ∀ x ∈ t.derivations, x.isPointer = true) :
      ((Declarator.group pointers opening inner closing suffixes).declared false t).derivations =
        if suffixes.any (·.isArray) then
          movePointersToFront (moved ++ (t.derivations ++ kept) ++ levelReading pointers suffixes)
        else moved ++ (t.derivations ++ kept) ++ levelReading pointers suffixes := by
    have hinner := h.derived t ht
    have hhead : headIsPointer (inner.declared false t).derivations = true := by
      rw [hinner]
      exact headIsPointer_of_pointers h.pointers (headIsPointer_of_pointers ht h.head)
    rw [declared, levelDeclared_of_head pointers suffixes _ hhead, hinner]
    simp
  have hzero {l : List (TypeDerivation E P)} (hl : ∀ x ∈ l, x.isPointer = true) :
      l.countP isArray = 0 := by
    rw [countP_eq_zero]
    intro x hx
    simp [isArray_of_isPointer (hl x hx)]
  have hreading : (Declarator.group pointers opening inner closing suffixes).reading =
      inner.reading ++ levelReading pointers suffixes := rfl
  have hsuffixes := any_isArray_derivations suffixes
  by_cases hone : inner.reading.any isArray = false ∧
      (suffixes.map (·.derivation)).countP isArray = 1
  · obtain ⟨hnone, hcount⟩ := hone
    obtain ⟨rfl, rfl⟩ := h.plain hnone
    have harray : (suffixes.map (·.derivation)).any isArray = true := by
      rw [any_eq_true, ← countP_pos_iff]
      omega
    refine .inl ⟨hnone, hcount, ?_, ?_, headIsPointer_append h.head _, ?_, ?_⟩
    · intro t ht
      have hlevel : (t.derivations ++ inner.reading).any isArray = false := by
        rw [List.any_append, hnone, Bool.or_false, List.any_eq_false]
        intro x hx
        simp [isArray_of_isPointer (ht x hx)]
      rw [hlist t ht, ← hsuffixes, harray, if_pos rfl, nil_append,
        movePointersToFront_level pointers suffixes hlevel hcount, List.append_assoc]
    · intro x hx
      exact layersOf_isPointer pointers x (mem_reverse.mp hx)
    · intro hplain
      simp [hreading, levelReading, harray] at hplain
    · rw [hreading, filter_append, filter_append, levelReading_filter]
      congr 1
      rw [List.filter_eq_self]
      intro x hx
      simp [suffix_derivations suffixes x hx]
  · refine .inr ⟨hone, ?_, h.pointers, headIsPointer_append h.head _, ?_, ?_⟩
    · intro t ht
      rw [hlist t ht]
      have hstay : suffixes.any (·.isArray) = true →
          movePointersToFront (moved ++ (t.derivations ++ kept) ++
            levelReading pointers suffixes) =
            moved ++ (t.derivations ++ kept) ++ levelReading pointers suffixes := by
        intro harray
        apply movePointersToFront_of_countP_ne
        have hsome : 0 < (suffixes.map (·.derivation)).countP isArray := by
          rw [countP_pos_iff, ← any_eq_true, hsuffixes]
          exact harray
        have hinner : inner.reading.countP isArray = 0 ↔
            inner.reading.any isArray = false := by simp
        rw [← hinner] at hone
        rw [countP_append, countP_append, countP_append, hzero h.pointers, hzero ht,
          h.countP_eq, levelReading_countP]
        omega
      split
      · rename_i harray
        rw [hstay harray]
        simp
      · simp
    · intro hplain
      rw [hreading, List.any_append, Bool.or_eq_false_iff] at hplain
      obtain ⟨hmoved, rfl⟩ := h.plain hplain.1
      exact ⟨hmoved, rfl⟩
    · rw [hreading, filter_append, filter_append, h.others]

theorem Declarator.exists_pointerFirst (d : Declarator env) (hfun : d.startsWithFunction = false)
    (harr : d.startsWithArray = false) (hgroup : d.hasEmptyGroup = false)
    (hname : d.isName = false) : ∃ moved kept, PointerFirst d moved kept := by
  induction d with
  | bare pointers suffixes =>
    cases suffixes with
    | cons suffix suffixes =>
      cases suffix with
      | array a => cases harr
      | function f => cases hfun
    | nil =>
      refine ⟨[], _, PointerFirst.bare pointers ?_⟩
      rintro rfl
      cases hname
  | group pointers opening inner closing suffixes ih =>
    simp only [hasEmptyGroup, Bool.or_eq_false_iff] at hgroup
    obtain ⟨moved, kept, h⟩ := ih hfun harr hgroup.2 hgroup.1
    obtain ⟨-, -, h'⟩ | ⟨-, h'⟩ := h.group pointers opening closing suffixes
    all_goals exact ⟨_, _, h'⟩

-- Agreement

/-- The leading pointers stand alike on both ways: there are none; or there is nothing but
pointers and those of the inner levels do not tell the two orders apart; or the only array
of the declarator follows a group at the outermost level, which brings the pointers to the
front of a declaration too, in an order that reads the same from both ends. -/
def Declarator.Aligned (d : Declarator env) : Prop :=
  let leading : List (TypeDerivation E P) := layersOf d.pointers
  let inner := d.withoutPointers.reading
  leading = [] ∨
    (inner.all TypeDerivation.isPointer = true ∧ leading ++ inner = inner ++ leading.reverse) ∨
    (d.groupSuffixes.any (·.isArray) = true ∧ d.reading.countP TypeDerivation.isArray = 1 ∧
      leading = leading.reverse)

theorem append_ne_append_reverse {ps w : List (TypeDerivation E P)}
    (hp : ∀ x ∈ ps, x.isPointer = true) (hne : ps ≠ [])
    (hw : w.all isPointer = false) : ps ++ w ≠ w ++ ps.reverse := by
  intro heq
  -- compare the pointers at the end
  have hends := congrArg (fun l => (l.reverse.takeWhile isPointer).length) heq
  have hstop : (w.reverse.takeWhile isPointer).length ≠ w.reverse.length := by
    intro hlen
    have hall := List.takeWhile_eq_self_iff.mp (List.takeWhile_sublist _ |>.eq_of_length hlen)
    simp only [List.all_eq_false] at hw
    obtain ⟨x, hx, hn⟩ := hw
    exact hn (hall x (mem_reverse.mpr hx))
  simp only [List.reverse_append, List.reverse_reverse, List.takeWhile_append_of_pos hp,
    List.takeWhile_append, if_neg hstop, List.length_append] at hends
  exact hne (List.length_eq_zero_iff.mp (by omega))

theorem countP_isArray_of_all {l : List (TypeDerivation E P)}
    (h : l.all isPointer = true) : l.countP isArray = 0 := by
  rw [countP_eq_zero]
  intro x hx
  simp [isArray_of_isPointer (List.all_eq_true.mp h x hx)]

theorem Declarator.startsWithArray_countP (d : Declarator env) (h : d.startsWithArray = true) :
    0 < d.reading.countP isArray := by
  induction d with
  | bare pointers suffixes =>
    cases suffixes with
    | nil => cases h
    | cons suffix suffixes =>
      cases suffix with
      | function f => cases h
      | array a => simp [reading, levelReading, Suffix.derivation]
  | group pointers opening inner closing suffixes ih =>
    rw [reading, countP_append]
    exact Nat.add_pos_left (ih h) _

theorem headIsPointer_layersOf
    (h : (layersOf pointers : List (TypeDerivation E P)) ≠ []) :
    headIsPointer (layersOf pointers : List (TypeDerivation E P)) = true := by
  cases pointers with
  | nil => exact absurd rfl h
  | cons p pointers => rfl

theorem headIsArray_not_headIsPointer
    (h : headIsArray l = true) : ¬ headIsPointer l = true := by
  cases l with
  | nil => cases h
  | cons x l => ?_
  have hx : x.isArray = true := h
  intro hp
  have hp : x.isPointer = true := hp
  simp [isPointer_of_isArray hx] at hp

theorem all_isPointer_congr {l m : List (TypeDerivation E P)}
    (h : l.filter (!·.isPointer) = m.filter (!·.isPointer)) :
    l.all isPointer = m.all isPointer := by
  have hnil (l : List (TypeDerivation E P)) : l.all isPointer = true ↔
      l.filter (!·.isPointer) = [] := by simp
  rw [Bool.eq_iff_iff, hnil, hnil, h]

theorem PointerFirst.word_iff {inner : Declarator env} (h : PointerFirst inner moved kept)
    (hp : ∀ x ∈ leading, x.isPointer = true)
    (hne : leading ≠ []) (w : List (TypeDerivation E P)) :
    leading ++ (kept ++ w) = (kept ++ w) ++ leading.reverse ↔
      (inner.reading ++ w).all isPointer = true ∧
        leading ++ (inner.reading ++ w) = (inner.reading ++ w) ++ leading.reverse := by
  have hothers : (kept ++ w).all isPointer =
      (inner.reading ++ w).all isPointer := by
    apply all_isPointer_congr
    rw [filter_append, filter_append, h.others]
  have hkept (hall : (inner.reading ++ w).all isPointer = true) :
      kept = inner.reading := by
    have hzero := countP_isArray_of_all hall
    rw [countP_append] at hzero
    exact (h.plain (by simpa using Nat.eq_zero_of_add_eq_zero_right hzero)).2
  constructor
  · intro heq
    by_cases hall : (kept ++ w).all isPointer = true
    · rw [hothers] at hall
      rw [hkept hall] at heq
      exact ⟨hall, heq⟩
    · exact absurd heq (append_ne_append_reverse hp hne (by simpa using hall))
  · rintro ⟨hall, heq⟩
    rw [hkept hall]
    exact heq

theorem Declarator.bare_agree_iff (pointers : List PointerSyntax) (suffixes : List (Suffix env))
    (hleading : (layersOf pointers : List (TypeDerivation E P)) ≠ []) :
    ((Declarator.bare [] suffixes).declared false (eagerType pointers)).derivations =
      ((Declarator.bare pointers suffixes).declared false .base).derivations ↔
        (Declarator.bare pointers suffixes).Aligned := by
  have hpointers := layersOf_isPointer (E := E) (P := P) pointers
  have hlevel (pointers : List PointerSyntax) (t : DeclaredType E P)
      (ht : t.isFunctionPointer = false) :
      ((Declarator.bare pointers suffixes).declared false t).derivations =
        t.derivations ++ levelReading pointers suffixes := by
    rw [declared, levelDeclared_derivations]
    simp [levelCalls, ht]
  have hinner : levelReading [] suffixes = suffixes.map (·.derivation) := by simp [levelReading]
  have houter : levelReading pointers suffixes =
      suffixes.map (·.derivation) ++ (layersOf pointers).reverse := rfl
  rw [hlevel [] _ (by rw [eagerType_eq]; rfl), hlevel pointers _ rfl, eagerType_eq, hinner, houter]
  simp only [DeclaredType.base, nil_append, Declarator.Aligned, Declarator.pointers,
    Declarator.withoutPointers, reading, Declarator.groupSuffixes, hinner, hleading,
    List.any_nil, Bool.false_eq_true, false_and, or_false, false_or]
  constructor
  · intro heq
    refine ⟨?_, heq⟩
    by_contra hall
    exact append_ne_append_reverse hpointers hleading (by simpa using hall) heq
  · rintro ⟨-, heq⟩
    exact heq

theorem Declarator.group_agree_iff (pointers : List PointerSyntax) (opening : TokenOf .lparen)
    (inner : Declarator env) (closing : TokenOf .rparen) (suffixes : List (Suffix env))
    (hfun : inner.startsWithFunction = false) (hgroup : inner.hasEmptyGroup = false)
    (hname : inner.isName = false)
    (hleading : (layersOf pointers : List (TypeDerivation E P)) ≠ []) :
    ((Declarator.group [] opening inner closing suffixes).declared false
        (eagerType pointers)).derivations =
      ((Declarator.group pointers opening inner closing suffixes).declared false
        .base).derivations ↔
        (Declarator.group pointers opening inner closing suffixes).Aligned := by
  have hpointers := layersOf_isPointer (E := E) (P := P) pointers
  have heager : (eagerType pointers : DeclaredType E P).derivations = layersOf pointers := by
    rw [eagerType_eq]
  have hinner : levelReading [] suffixes = suffixes.map (·.derivation) := by simp [levelReading]
  have houter : levelReading pointers suffixes =
      suffixes.map (·.derivation) ++ (layersOf pointers).reverse := rfl
  have hcount : (inner.reading ++ levelReading pointers suffixes).countP isArray =
      inner.reading.countP isArray +
        (suffixes.map (·.derivation)).countP isArray := by
    rw [countP_append, levelReading_countP]
  have hsome : suffixes.any (·.isArray) = true ↔
      0 < (suffixes.map (·.derivation)).countP isArray := by
    rw [countP_pos_iff, ← any_eq_true, any_isArray_derivations]
  simp only [Declarator.Aligned, Declarator.pointers, Declarator.withoutPointers,
    reading, Declarator.groupSuffixes, hinner, hcount, hsome, hleading, false_or]
  cases harr : inner.startsWithArray with
  | true =>
    -- the declaration starts with the array, the type name with a pointer
    have hfirst := inner.startsWithArray_countP harr
    have hdeclared := headIsArray_declared false (.group pointers opening inner closing suffixes) harr
    have hnamed := headIsPointer_declared false
      (.group [] opening inner closing suffixes) (t := eagerType pointers)
      (by rw [heager]; exact headIsPointer_layersOf hleading)
    refine iff_of_false ?_ ?_
    · intro heq
      rw [heq] at hnamed
      exact headIsArray_not_headIsPointer hdeclared hnamed
    · rintro (⟨hall, -⟩ | ⟨hpos, hone, -⟩)
      · have hzero := countP_isArray_of_all hall
        rw [countP_append] at hzero
        omega
      · omega
  | false =>
    obtain ⟨moved, kept, h⟩ := inner.exists_pointerFirst hfun harr hgroup hname
    have hnoArray : inner.reading.any isArray = false ↔
        inner.reading.countP isArray = 0 := by simp
    obtain ⟨hnone, hone, hnamed⟩ | ⟨hnot, hnamed⟩ := h.group [] opening closing suffixes
    · obtain ⟨-, -, hdeclared⟩ | ⟨hnot, -⟩ := h.group pointers opening closing suffixes
      · have hzero := hnoArray.mp hnone
        have hmixed : ¬ (inner.reading ++ suffixes.map (·.derivation)).all
            isPointer = true := by
          intro hall
          have hall := countP_isArray_of_all hall
          rw [countP_append] at hall
          omega
        rw [hnamed.derived _ (heager ▸ hpointers), hdeclared.derived .base (fun x hx => by cases hx),
          heager]
        simp [hmixed, hone, hzero, layersOf, DeclaredType.base]
      · exact absurd ⟨hnone, hone⟩ hnot
    · obtain ⟨hnone, hone, -⟩ | ⟨-, hdeclared⟩ := h.group pointers opening closing suffixes
      · exact absurd ⟨hnone, hone⟩ hnot
      · rw [hnamed.derived _ (heager ▸ hpointers), hdeclared.derived .base (fun x hx => by cases hx),
          heager, hinner, houter, List.append_cancel_left_eq, DeclaredType.base, nil_append,
          ← List.append_assoc kept]
        refine (h.word_iff hpointers hleading (suffixes.map (·.derivation))).trans ?_
        refine (or_iff_left ?_).symm
        rintro ⟨hpos, hone, -⟩
        rw [hnoArray] at hnot
        omega

theorem Declarator.derivations_agree_iff (d : Declarator env)
    (hfun : d.startsWithFunction = false) (hgroup : d.hasEmptyGroup = false) :
    (d.withoutPointers.declared false (eagerType d.pointers)).derivations =
      (d.declared false .base).derivations ↔ d.Aligned := by
  by_cases hnone : d.pointers = []
  · have hsame : d.withoutPointers = d := by
      cases d <;> simp_all [Declarator.pointers, Declarator.withoutPointers]
    rw [hsame, hnone]
    exact iff_of_true rfl (.inl (by simp [layersOf, hnone]))
  have hleading : (layersOf d.pointers : List (TypeDerivation E P)) ≠ [] := by
    simpa [layersOf] using hnone
  cases d with
  | bare pointers suffixes => exact Declarator.bare_agree_iff pointers suffixes hleading
  | group pointers opening inner closing suffixes =>
    simp only [hasEmptyGroup, Bool.or_eq_false_iff] at hgroup
    exact Declarator.group_agree_iff pointers opening inner closing suffixes hfun hgroup.2 hgroup.1 hleading

/-- The type name and the declaration of a name with the same declarator are read to their
ends, and have the same derivations and the same depth. -/
def TypeNameAgrees (env : Environment E P) (opts : Options) (d : Declarator env)
    (name : TokenOf .identifier) (rest following : List Token) : Prop :=
  ∃ s s', parseTypeName env (d.tokens none ++ rest) = .ok s ∧ s.tokens = rest ∧
    parserParseDeclarator env opts .base (d.tokens (some name) ++ following) = .ok s' ∧
    s'.tokens = following ∧ s.type.derivations = s'.type.derivations ∧
    s.type.pointerDepth = s'.type.pointerDepth

abbrev AfterTypeName (env : Environment E P) :=
  { rest : List Token // endsDeclarator env none rest = true }

theorem typeNameAgrees_iff (opts : Options) (d : Declarator env) (hread : d.isRead = true)
    (hfun : d.startsWithFunction = false) (hgroup : d.hasEmptyGroup = false)
    (name : TokenOf .identifier) (rest : AfterTypeName env) (following : Following) :
    TypeNameAgrees env opts d name rest.1 following.1 ↔ d.Aligned := by
  have hends : endsDeclarator env (some name) following.1 = true := by
    simp [endsDeclarator, following.2]
  have hf : (d.tokens (some name)).length + 1 <
      (d.tokens (some name) ++ following.1).length + 2 := by
    simp only [List.length_append]
    omega
  obtain ⟨s, h, htok, htype⟩ := parseTypeName_spelled d hread hfun hgroup rest.2
  obtain ⟨s', h', htok', htype', -⟩ := parseDeclaratorInternal_spelled opts d (some name) hread
    rfl hends hf ⟨d.tokens (some name) ++ following.1, .base, none, none, false⟩ rfl (by simp)
  have htype' : s'.type = d.declared false .base :=
    htype'.trans (d.declared_named hgroup .base)
  rw [← d.derivations_agree_iff hfun hgroup, ← htype, ← htype']
  constructor
  · rintro ⟨r, r', hr, -, hr', -, hderivations, -⟩
    obtain rfl : s = r := by simpa [h] using hr
    obtain rfl : s' = r' := Except.ok.inj (h'.symm.trans hr')
    exact hderivations
  · intro hderivations
    refine ⟨s, s', h, htok, h', htok', hderivations, ?_⟩
    rw [htype, htype']
    exact d.pointerDepth_agrees

/-- `(*)[3]`, a pointer to an array. -/
def pointerToArray : Declarator numberEnvironment :=
  .group [] (tokenOf .lparen none) (.bare [plainPointer] []) (tokenOf .rparen none) [threeElements]

theorem pointerToArray_agrees :
    TypeNameAgrees numberEnvironment ⟨false, true⟩ pointerToArray
      (tokenOf .identifier (some "p")) [(tokenOf .rparen none).1] [(tokenOf .semicolon none).1] :=
  (typeNameAgrees_iff ⟨false, true⟩ pointerToArray rfl rfl rfl (tokenOf .identifier (some "p"))
    ⟨[(tokenOf .rparen none).1], rfl⟩ ⟨[(tokenOf .semicolon none).1], rfl⟩).mpr (.inl rfl)

/-- `*[3]` is an array of pointers in a declaration and a pointer to an array in a cast. -/
theorem arrayOfPointers_not_agrees :
    ¬ TypeNameAgrees numberEnvironment ⟨false, true⟩ (.bare [plainPointer] [threeElements])
      (tokenOf .identifier (some "p")) [(tokenOf .rparen none).1]
      [(tokenOf .semicolon none).1] := by
  rintro ⟨s, s', h, -, h', -, hderivations, -⟩
  cases h
  cases h'
  exact absurd (congrArg (List.map TypeDerivation.isArray) hderivations) (by decide)

end Fisics.Declarators
