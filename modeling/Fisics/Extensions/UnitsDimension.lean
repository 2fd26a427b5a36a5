import Fisics.Extensions.UnitsExprLaws

/-!
# Dimensions are exact

The vectors that the walk records are those of an evaluation in integer exponents,
where that is defined; where it is not although the operands are, a diagnostic is
reported, once the operator is one of those with a dimension.
-/

namespace Fisics

open CInteger (CompareOp)
open UnitsOutcome (result)

section
variable {U : Type}

def UnitsExprResult.concreteUnit (r : UnitsExprResult U) : Option U :=
  if r.unitResolved then r.unitDef else none

def Compatible : Option U → Option U → Prop
  | some u, some v => u = v
  | _, _ => True

instance [DecidableEq U] (a b : Option U) : Decidable (Compatible a b) :=
  match a, b with
  | some u, some v => inferInstanceAs (Decidable (u = v))
  | none, _ | some _, none => inferInstanceAs (Decidable True)

def UnitsAnnotationInfo.hasDim (ann : UnitsAnnotationInfo U) : Bool := ann.resolved && ann.dimDuplicateCount ≤ 1

/-- Where an operator has a dimension, by those of its operands. -/
def referenceBinary (op : UnitsBinaryOp) (compatible : Prop) [Decidable compatible]
    (a b : Fin 8 → ℤ) : Option (Fin 8 → ℤ) :=
  match op with
  | .add | .sub => if a = b ∧ compatible then some a else none
  | .mul => if FitsDim8 (a + b) then some (a + b) else none
  | .div => if FitsDim8 (a - b) then some (a - b) else none
  | .compare _ => if a = b ∧ compatible then some 0 else none
  | .other _ => none

mutual

def referenceDim [DecidableEq U] (bindings : String → Option (UnitsAnnotationInfo U))
    (unitOf : Nat → Option U) : UnitsNode → Option (Fin 8 → ℤ)
  | .literal _ _ => some 0
  | .identifier _ name => ((bindings name).filter (·.hasDim)).map (·.dim.exponents)
  | .unary _ _ e | .cast _ e => referenceDim bindings unitOf e
  | .binary _ op l r =>
    (referenceDim bindings unitOf l).bind fun a => (referenceDim bindings unitOf r).bind fun b =>
      referenceBinary op (Compatible (unitOf l.id) (unitOf r.id)) a b
  | .ternary _ _ t f =>
    (referenceDim bindings unitOf t).bind fun a => (referenceDim bindings unitOf f).bind fun b =>
      if a = b ∧ Compatible (unitOf t.id) (unitOf f.id) then some a else none
  | .comma _ es => referenceDimLast bindings unitOf es
  | .assignment _ _ _ _ _ => none

def referenceDimLast [DecidableEq U] (bindings : String → Option (UnitsAnnotationInfo U))
    (unitOf : Nat → Option U) : List UnitsNode → Option (Fin 8 → ℤ)
  | [] => none
  | [e] => referenceDim bindings unitOf e
  | _ :: es => referenceDimLast bindings unitOf es

end

def UnitsNode.operands : UnitsNode → List UnitsNode
  | .literal _ _ | .identifier _ _ => []
  | .unary _ _ e | .cast _ e => [e]
  | .binary _ _ l r => [l, r]
  | .ternary _ _ t f => [t, f]
  | .comma _ es => es.getLast?.toList
  | .assignment _ _ _ _ value => [value]

theorem UnitsNode.operands_subset (s : UnitsNode) : s.operands ⊆ s.subexpressions := by
  intro o ho
  cases s with
  | literal id value | identifier id name => cases ho
  | unary id op e | cast id e =>
    obtain rfl := List.mem_singleton.mp ho
    exact List.mem_append_left _ o.mem_subexpressions_self
  | binary id op l r =>
    have ho : o = l ∨ o = r := by simpa [operands] using ho
    rcases ho with rfl | rfl <;> simp [subexpressions, mem_subexpressions_self]
  | ternary id c t f =>
    have ho : o = t ∨ o = f := by simpa [operands] using ho
    rcases ho with rfl | rfl <;> simp [subexpressions, mem_subexpressions_self]
  | comma id es =>
    have ho : es.getLast? = some o := by simpa [operands] using ho
    refine List.mem_append_left _ ?_
    rw [subexpressionsAll_eq]
    exact List.mem_flatMap.mpr ⟨o, List.mem_of_getLast? ho, o.mem_subexpressions_self⟩
  | assignment id op target name value =>
    obtain rfl := List.mem_singleton.mp ho
    simp [subexpressions, mem_subexpressions_self]

def UnitsNode.isArithmetic : UnitsNode → Bool
  | .unary _ op _ => isUnitsPreservingUnaryOp op
  | .binary _ (.other _) _ _ => false
  | .comma _ es => !es.isEmpty
  | .assignment _ _ _ _ _ => false
  | _ => true

def UnitsNode.InFragment (e : UnitsNode) : Prop := ∀ s ∈ e.subexpressions, s.isArithmetic = true

def recordedDim (st : UnitsState U) (id : Nat) : Option (Fin 8 → ℤ) :=
  (lookupResolvedExprMetadata st id).map (·.dim.exponents)

def recordedUnit (st : UnitsState U) (id : Nat) : Option U :=
  (lookupResolvedExprMetadata st id).bind (·.concreteUnit)

/-- The dimensions and diagnostics of a tree between two states. -/
structure ExactDimensions [DecidableEq U] (bindings : String → Option (UnitsAnnotationInfo U)) (e : UnitsNode)
    (st st' : UnitsState U) : Prop where
  recorded : ∀ s ∈ e.subexpressions,
    recordedDim st' s.id = referenceDim bindings (recordedUnit st') s
  reported : ∃ diags, st'.diags = st.diags ++ diags ∧ ∀ s ∈ e.subexpressions, s.operands ≠ [] →
    (s.id ∈ diags.map Prod.fst ↔
      (∀ o ∈ s.operands, (recordedDim st' o.id).isSome) ∧ recordedDim st' s.id = none)
  single : ∀ writes : List (Nat × UnitsExprResult U),
    ((writes.foldl (fun st write => st.setUnitsExprResultWithUnit write.1 write.2) st').results.map
      Prod.fst).Nodup

-- Operators

theorem unitsExprResult_dim (dim : Dim8) (unitDef : Option U) (unitResolved : Bool) :
    (unitsExprResult dim unitDef unitResolved).dim = dim := rfl

variable [DecidableEq U]

theorem unitsResolvedAndDifferent_iff (l r : UnitsExprResult U) :
    unitsResolvedAndDifferent l r = true ↔ ¬Compatible l.concreteUnit r.concreteUnit := by
  obtain ⟨dim, resolved, unit, unitResolved⟩ := l
  obtain ⟨dim', resolved', unit', unitResolved'⟩ := r
  cases unitResolved <;> cases unitResolved' <;> cases unit <;> cases unit' <;>
    simp [unitsResolvedAndDifferent, Compatible, UnitsExprResult.concreteUnit]

theorem agreeing_result {l r : UnitsExprResult U}
    (h : out.result.map (·.dim.exponents) = some d) :
    (if l.dim ≠ r.dim then .report i diag else if unitsResolvedAndDifferent l r then .report i diag'
      else out : UnitsOutcome U).result.map (·.dim.exponents) =
      if l.dim.exponents = r.dim.exponents ∧ Compatible l.concreteUnit r.concreteUnit then some d
      else none := by
  have hdifferent := unitsResolvedAndDifferent_iff l r
  have hinj := Dim8.exponents_inj (a := l.dim) (b := r.dim)
  by_cases hdim : l.dim = r.dim
  · rw [if_neg (not_not_intro hdim)]
    by_cases hcompatible : Compatible l.concreteUnit r.concreteUnit
    · rw [if_neg fun h => hdifferent.mp h hcompatible, h]
      exact (if_pos ⟨hinj.mpr hdim, hcompatible⟩).symm
    · rw [if_pos (hdifferent.mpr hcompatible), if_neg fun h => hcompatible h.2]
      rfl
  · rw [if_pos hdim, if_neg fun h => hdim (hinj.mp h.1)]
    rfl

theorem merge_result (id : Nat) (context : String) (mismatch : Dim8 → Dim8 → UnitsDiag U)
    (l r : UnitsExprResult U) :
    (mergeOutcome id context mismatch l r).result.map (·.dim.exponents) =
      if l.dim.exponents = r.dim.exponents ∧ Compatible l.concreteUnit r.concreteUnit then
        some l.dim.exponents
      else none :=
  agreeing_result rfl

theorem compare_result (id : Nat) (op : CompareOp) (l r : UnitsExprResult U) :
    (compareOutcome id op l r).result.map (·.dim.exponents) =
      if l.dim.exponents = r.dim.exponents ∧ Compatible l.concreteUnit r.concreteUnit then some 0
      else none :=
  agreeing_result rfl

omit [DecidableEq U] in
theorem product_result (id : Nat) (isProduct : Bool) (l r : UnitsExprResult U) :
    (productOutcome id isProduct l r).result.map (·.dim.exponents) =
      (if isProduct then dimAdd l.dim r.dim else dimSub l.dim r.dim).map Dim8.exponents := by
  unfold productOutcome
  cases (if isProduct then dimAdd l.dim r.dim else dimSub l.dim r.dim) <;> rfl

theorem binary_result (id : Nat) (op : UnitsBinaryOp) (l r : UnitsExprResult U) :
    (binaryOutcome id op l r).result.map (·.dim.exponents) =
      referenceBinary op (Compatible l.concreteUnit r.concreteUnit) l.dim.exponents r.dim.exponents := by
  cases op with
  | add | sub => exact merge_result id _ _ l r
  | mul => exact (product_result id true l r).trans (dimCombine_exponents (· + ·) l.dim r.dim)
  | div => exact (product_result id false l r).trans (dimCombine_exponents (· - ·) l.dim r.dim)
  | compare op => exact compare_result id op l r
  | other op => rfl

/-- An operator with a dimension reports, at its node, where it records nothing. -/
theorem binary_reports (id : Nat) (op : UnitsBinaryOp) (l r : UnitsExprResult U)
    (hop : ∀ name, op ≠ .other name) :
    (binaryOutcome id op l r).diags.map Prod.fst =
      if (binaryOutcome id op l r).result = none then [id] else [] := by
  have hmerge (context : String) (mismatch : Dim8 → Dim8 → UnitsDiag U) :
      (mergeOutcome id context mismatch l r).diags.map Prod.fst =
        if (mergeOutcome id context mismatch l r).result = none then [id] else [] := by
    unfold mergeOutcome
    repeat' split
    all_goals simp_all [UnitsOutcome.diags, result]
  have hproduct (isProduct : Bool) : (productOutcome id isProduct l r).diags.map Prod.fst =
      if (productOutcome id isProduct l r).result = none then [id] else [] := by
    unfold productOutcome
    cases (if isProduct then dimAdd l.dim r.dim else dimSub l.dim r.dim) <;> rfl
  cases op with
  | add | sub => exact hmerge _ _
  | mul => exact hproduct true
  | div => exact hproduct false
  | compare op =>
    unfold binaryOutcome compareOutcome
    repeat' split
    all_goals simp_all [UnitsOutcome.diags, result]
  | other name => exact absurd rfl (hop name)

theorem ternary_reports (id : Nat) (t f : UnitsExprResult U) :
    (ternaryOutcome id t f).diags.map Prod.fst =
      if (ternaryOutcome id t f).result = none then [id] else [] := by
  unfold ternaryOutcome mergeOutcome
  repeat' split
  all_goals simp_all [UnitsOutcome.diags, result]

-- Trees

variable {bindings : String → Option (UnitsAnnotationInfo U)}

omit [DecidableEq U] in
theorem identifier_dim (ann : Option (UnitsAnnotationInfo U)) :
    (identifierOutcome ann).result.map (·.dim.exponents) =
      (ann.filter (·.hasDim)).map (·.dim.exponents) := by
  cases ann with
  | none => rfl
  | some ann => ?_
  by_cases h : ann.hasDim
  · have hdim := (Bool.and_eq_true _ _).mp h
    have hcount : ¬1 < ann.dimDuplicateCount := Nat.not_lt.mpr (of_decide_eq_true hdim.2)
    simp [identifierOutcome, result, Option.filter, h, hdim.1, hcount]
    rfl
  have hunusable : (!ann.resolved || 1 < ann.dimDuplicateCount) = true := by
    cases hres : ann.resolved with
    | false => rfl
    | true =>
      have hcount : ¬ann.dimDuplicateCount ≤ 1 := fun hle => h (by simp [UnitsAnnotationInfo.hasDim, hres, hle])
      simpa using hcount
  simp [identifierOutcome, result, Option.filter, h, hunusable]

theorem referenceDimLast_eq (unitOf : Nat → Option U) (es : List UnitsNode) :
    referenceDimLast bindings unitOf es = es.getLast?.bind (referenceDim bindings unitOf) := by
  induction es with
  | nil => rfl
  | cons e es ih =>
    cases es with
    | nil => rfl
    | cons e' es =>
      rw [List.getLast?_cons_cons, ← ih]
      rfl

/-- The recorded dimension is that of the reference, if the units it is given are the
recorded ones. -/
theorem referenceDim_eq (e : UnitsNode) (hfragment : e.InFragment) (unitOf : Nat → Option U)
    (hunits : ∀ s ∈ e.subexpressions, unitOf s.id = (resultOf bindings s).bind (·.concreteUnit)) :
    referenceDim bindings unitOf e = (resultOf bindings e).map (·.dim.exponents) := by
  induction e using UnitsNode.induct with
  | literal id value => rfl
  | identifier id name => exact (identifier_dim (bindings name)).symm
  | unary id op e ih =>
    have harith : isUnitsPreservingUnaryOp op = true := hfragment _ (UnitsNode.mem_subexpressions_self _)
    have ih := ih (fun s hs => hfragment s (List.mem_append_left _ hs))
      fun s hs => hunits s (List.mem_append_left _ hs)
    show referenceDim bindings unitOf e = _
    rw [ih]
    unfold resultOf
    rw [outcomeOf, outcomeOne]
    cases (outcomeOf bindings e).result with
    | none => rfl
    | some r => simp [unaryOutcome, harith, keepOutcome, result, unitsExprResult_dim]
  | binary id op l r ihl ihr =>
    have hl : l.subexpressions ⊆ (UnitsNode.binary id op l r).subexpressions := fun s hs =>
      List.mem_append_left _ (List.mem_append_left _ hs)
    have hr : r.subexpressions ⊆ (UnitsNode.binary id op l r).subexpressions := fun s hs =>
      List.mem_append_left _ (List.mem_append_right _ hs)
    have ihl := ihl (fun s hs => hfragment s (hl hs)) fun s hs => hunits s (hl hs)
    have ihr := ihr (fun s hs => hfragment s (hr hs)) fun s hs => hunits s (hr hs)
    rw [referenceDim, ihl, ihr, hunits l (hl l.mem_subexpressions_self),
      hunits r (hr r.mem_subexpressions_self)]
    unfold resultOf
    rw [outcomeOf, outcomeTwo]
    cases (outcomeOf bindings l).result with
    | none => rfl
    | some a =>
      cases (outcomeOf bindings r).result with
      | none => rfl
      | some b => exact (binary_result id op a b).symm
  | ternary id c t f ihc iht ihf =>
    have ht : t.subexpressions ⊆ (UnitsNode.ternary id c t f).subexpressions := fun s hs =>
      List.mem_append_left _ (List.mem_append_left _ (List.mem_append_right _ hs))
    have hf : f.subexpressions ⊆ (UnitsNode.ternary id c t f).subexpressions := fun s hs =>
      List.mem_append_left _ (List.mem_append_right _ hs)
    have iht := iht (fun s hs => hfragment s (ht hs)) fun s hs => hunits s (ht hs)
    have ihf := ihf (fun s hs => hfragment s (hf hs)) fun s hs => hunits s (hf hs)
    rw [referenceDim, iht, ihf, hunits t (ht t.mem_subexpressions_self),
      hunits f (hf f.mem_subexpressions_self)]
    unfold resultOf
    rw [outcomeOf, outcomeTwo]
    cases (outcomeOf bindings t).result with
    | none => rfl
    | some a =>
      cases (outcomeOf bindings f).result with
      | none => rfl
      | some b => exact (merge_result id _ _ a b).symm
  | comma id es ih =>
    have hes (e : UnitsNode) (he : e ∈ es) :
        e.subexpressions ⊆ (UnitsNode.comma id es).subexpressions := by
      intro s hs
      refine List.mem_append_left _ ?_
      rw [UnitsNode.subexpressionsAll_eq]
      exact List.mem_flatMap.mpr ⟨e, he, hs⟩
    rw [referenceDim, referenceDimLast_eq]
    unfold resultOf
    rw [outcomeOf, outcomeOfLast_eq, outcomeOne]
    cases hlast : es.getLast? with
    | none => rfl
    | some e => ?_
    have he := List.mem_of_getLast? hlast
    have ih := ih e he (fun s hs => hfragment s (hes e he hs)) fun s hs => hunits s (hes e he hs)
    rw [Option.bind_some, ih, Option.map_some, Option.getD_some]
    unfold resultOf
    cases (outcomeOf bindings e).result <;> rfl
  | cast id e ih =>
    have ih := ih (fun s hs => hfragment s (List.mem_append_left _ hs))
      fun s hs => hunits s (List.mem_append_left _ hs)
    show referenceDim bindings unitOf e = _
    rw [ih]
    unfold resultOf
    rw [outcomeOf, outcomeOne]
    cases (outcomeOf bindings e).result <;> rfl
  | assignment id op target name value ih =>
    exact absurd (hfragment _ (UnitsNode.mem_subexpressions_self _)) fun h => by cases h

variable (bindings) in
theorem outcome_reports (s : UnitsNode) (harith : s.isArithmetic = true) :
    (outcomeOf bindings s).diags.map Prod.fst =
      if s.operands ≠ [] ∧ (∀ o ∈ s.operands, (resultOf bindings o).isSome) ∧
        resultOf bindings s = none then [s.id]
      else [] := by
  cases s with
  | literal id value => rfl
  | identifier id name =>
    rw [if_neg fun h => h.1 rfl, outcomeOf]
    cases bindings name with
    | none => rfl
    | some ann =>
      unfold identifierOutcome
      dsimp only
      split <;> rfl
  | unary id op e =>
    have harith : isUnitsPreservingUnaryOp op = true := harith
    unfold resultOf
    rw [outcomeOf, outcomeOne]
    cases he : (outcomeOf bindings e).result with
    | none => simp [UnitsNode.operands, UnitsOutcome.diags, he]
    | some r => simp [unaryOutcome, harith, keepOutcome, UnitsOutcome.diags, result]
  | binary id op l r =>
    have hop (name : String) : op ≠ .other name := by
      rintro rfl
      cases harith
    unfold resultOf
    rw [outcomeOf, outcomeTwo]
    cases hl : (outcomeOf bindings l).result with
    | none => simp [UnitsNode.operands, UnitsOutcome.diags, hl]
    | some a =>
      cases hr : (outcomeOf bindings r).result with
      | none => simp [UnitsNode.operands, UnitsOutcome.diags, hr]
      | some b => simp [UnitsNode.operands, UnitsNode.id, hl, hr, binary_reports id op a b hop]
  | ternary id c t f =>
    unfold resultOf
    rw [outcomeOf, outcomeTwo]
    cases ht : (outcomeOf bindings t).result with
    | none => simp [UnitsNode.operands, UnitsOutcome.diags, ht]
    | some a =>
      cases hf : (outcomeOf bindings f).result with
      | none => simp [UnitsNode.operands, UnitsOutcome.diags, hf]
      | some b => simp [UnitsNode.operands, UnitsNode.id, ht, hf, ternary_reports id a b]
  | comma id es =>
    unfold resultOf
    rw [outcomeOf, outcomeOfLast_eq, outcomeOne]
    cases hlast : es.getLast? with
    | none => simp [UnitsNode.operands, UnitsOutcome.diags, result, hlast]
    | some e => ?_
    rw [Option.map_some, Option.getD_some]
    cases he : (outcomeOf bindings e).result with
    | none => simp [UnitsNode.operands, UnitsOutcome.diags, hlast, he]
    | some r => simp [keepOutcome, UnitsOutcome.diags, result]
  | cast id e =>
    unfold resultOf
    rw [outcomeOf, outcomeOne]
    cases he : (outcomeOf bindings e).result with
    | none => simp [UnitsNode.operands, UnitsOutcome.diags, he]
    | some r => simp [keepOutcome, UnitsOutcome.diags, result]
  | assignment id op target name value => cases harith

theorem mem_diags_iff (e : UnitsNode) (hfragment : e.InFragment) (hdistinct : e.ids.Nodup)
    (hs : s ∈ e.subexpressions) :
    s.id ∈ (e.subexpressions.flatMap fun s => (outcomeOf bindings s).diags).map Prod.fst ↔
      s.operands ≠ [] ∧ (∀ o ∈ s.operands, (resultOf bindings o).isSome) ∧ resultOf bindings s = none := by
  have hself := outcome_reports bindings s (hfragment s hs)
  rw [List.map_flatMap, List.mem_flatMap]
  constructor
  · rintro ⟨s', hs', hmem⟩
    have hother := outcome_reports bindings s' (hfragment s' hs')
    rw [hother] at hmem
    split at hmem
    · rename_i h
      have hid := List.mem_singleton.mp hmem
      obtain rfl := List.inj_on_of_nodup_map hdistinct hs hs' hid
      exact h
    · cases hmem
  · intro h
    refine ⟨s, hs, ?_⟩
    rw [hself, if_pos h]
    exact List.mem_singleton_self _

/-- For an expression of literals, identifiers, `+ - ++ --`, `+ - * /`, comparisons, `?:`,
commas and casts, whose nodes are distinct and new to a table with one entry a node. -/
theorem walkExprResults_exact (e : UnitsNode) (st : UnitsState U) (hfragment : e.InFragment)
    (hdistinct : e.ids.Nodup) (hfresh : ∀ s ∈ e.subexpressions, KeyTable.get s.id st.results = none)
    (hsingle : (st.results.map Prod.fst).Nodup) :
    ExactDimensions bindings e st (walkExprResults bindings e st) := by
  have hleft := walkExprResults_walks bindings e st hdistinct hfresh
  have hlookup (s : UnitsNode) (hs : s ∈ e.subexpressions) :
      lookupResolvedExprMetadata (walkExprResults bindings e st) s.id = resultOf bindings s :=
    lookup_of_get (hleft.results s hs)
  have hdim (s : UnitsNode) (hs : s ∈ e.subexpressions) :
      recordedDim (walkExprResults bindings e st) s.id = (resultOf bindings s).map (·.dim.exponents) := by
    rw [recordedDim, hlookup s hs]
  refine ⟨?_, ?_, ?_⟩
  · intro s hs
    rw [hdim s hs, referenceDim_eq s (fun s' hs' => hfragment s' (UnitsNode.subexpressions_trans e hs hs'))]
    intro s' hs'
    rw [recordedUnit, hlookup s' (UnitsNode.subexpressions_trans e hs hs')]
  · refine ⟨_, hleft.diags, ?_⟩
    intro s hs hoperands
    have hmem (o : UnitsNode) (ho : o ∈ s.operands) : o ∈ e.subexpressions :=
      UnitsNode.subexpressions_trans e hs (s.operands_subset ho)
    rw [mem_diags_iff e hfragment hdistinct hs, and_iff_right hoperands, hdim s hs, Option.map_eq_none_iff]
    refine and_congr_left fun _ => forall₂_congr fun o ho => ?_
    rw [hdim o (hmem o ho), Option.isSome_map]
  · intro writes
    have hnodup := walkExprResults_nodup bindings e st hsingle
    generalize walkExprResults bindings e st = st' at hnodup
    induction writes generalizing st' with
    | nil => exact hnodup
    | cons write writes ih => exact ih _ (KeyTable.nodup_set hnodup write.1 write.2)

end

/-- `x * x + 1` where `x` has a dimension with a single exponent: the sum is reported. -/
theorem walkExprResults_exact_sum :
    let x : UnitsAnnotationInfo Unit := ⟨⟨fun i => if i = 0 then 1 else 0⟩, true, 1, some (), true⟩
    let e : UnitsNode := .binary 4 .add (.binary 2 .mul (.identifier 0 "x") (.identifier 1 "x"))
      (.literal 3 1)
    ExactDimensions (fun _ => some x) e ⟨[], []⟩ (walkExprResults (fun _ => some x) e ⟨[], []⟩) := by
  intro x e
  have hfragment : e.InFragment := by
    unfold UnitsNode.InFragment
    decide
  exact walkExprResults_exact e ⟨[], []⟩ hfragment (by decide) (fun _ _ => rfl) List.nodup_nil

end Fisics
