import Fisics.Extensions.UnitsDimension
import Mathlib.Tactic.FieldSimp
import Mathlib.Tactic.Linarith
import Mathlib.Tactic.Ring

/-!
# Quantities

A concrete unit that is recorded for an expression says what its value counts in.
The quantity of an expression is computed beside its value, each identifier counted
in its unit. A product with a factor of no dimension takes the unit of the other
factor as it stands, so a scale in that factor is lost, and a unit that was set
aside because the other summand has none is taken up again by the next sum.
-/

namespace Fisics

structure UnitDef where
  dim : Dim8
  scale : ℚ
  pos : 0 < scale

section
variable {U : Type} [DecidableEq U] (registry : U → UnitDef) (unitOf : String → U)

def concreteBindings (name : String) : Option (UnitsAnnotationInfo U) :=
  some { dim := (registry (unitOf name)).dim, resolved := true, dimDuplicateCount := 1,
         unitDef := some (unitOf name), unitResolved := true }

-- Values and quantities

abbrev UnitsStore := String → ℚ

structure Valued where
  value : ℚ
  quantity : ℚ
  store : UnitsStore

def scaleOf (name : String) : ℚ := (registry (unitOf name)).scale

def identifierValue (name : String) (store : UnitsStore) : Valued :=
  ⟨store name, store name * scaleOf registry unitOf name, store⟩

@[grind] def arithValue (op : UnitsBinaryOp) (a b : Valued) : Option Valued :=
  match op with
  | .add => some ⟨a.value + b.value, a.quantity + b.quantity, b.store⟩
  | .sub => some ⟨a.value - b.value, a.quantity - b.quantity, b.store⟩
  | .mul => some ⟨a.value * b.value, a.quantity * b.quantity, b.store⟩
  | .div =>
    if b.value = 0 ∨ b.quantity = 0 then none
    else some ⟨a.value / b.value, a.quantity / b.quantity, b.store⟩
  | _ => none

def UnitsAssignOp.binary : UnitsAssignOp → Option UnitsBinaryOp
  | .add => some .add
  | .sub => some .sub
  | .mul => some .mul
  | .div => some .div
  | _ => none

def assignValue (op : UnitsAssignOp) (name : String) (isLiteral : Bool) (v : Valued) : Option Valued :=
  let result : Option Valued :=
    if op = .assign then
      some { v with quantity := if isLiteral then v.value * scaleOf registry unitOf name else v.quantity }
    else op.binary.bind fun op => arithValue op (identifierValue registry unitOf name v.store) v
  result.map fun r => { r with store := Function.update r.store name r.value }

mutual

/-- The value and the quantity of an expression of literals, identifiers, `+ -`, `+ - * /`,
`?:`, commas and assignments. -/
@[grind] def evaluate : UnitsNode → UnitsStore → Option Valued
  | .literal _ value, store => some ⟨value, value, store⟩
  | .identifier _ name, store => some (identifierValue registry unitOf name store)
  | .unary _ op e, store =>
    match op with
    | .plus => evaluate e store
    | .minus => (evaluate e store).map fun a => { a with value := -a.value, quantity := -a.quantity }
    | _ => none
  | .binary _ op l r, store =>
    (evaluate l store).bind fun a => (evaluate r a.store).bind fun b => arithValue op a b
  | .ternary _ c t f, store =>
    (evaluate c store).bind fun a => if a.value ≠ 0 then evaluate t a.store else evaluate f a.store
  | .comma _ es, store => evaluateAll es store
  | .cast _ _, _ => none
  | .assignment _ op _ name e, store =>
    (evaluate e store).bind fun v => assignValue registry unitOf op name (isLiteralValue e) v

def evaluateAll : List UnitsNode → UnitsStore → Option Valued
  | [], _ => none
  | [e], store => evaluate e store
  | e :: es, store => (evaluate e store).bind fun a => evaluateAll es a.store

end

-- Units that are right

structure UnitsTree where
  node : UnitsNode
  distinct : node.ids.Nodup

def unitsRun (tree : UnitsTree) : UnitsState U :=
  fisicsUnitsRunExprSemantics (concreteBindings registry unitOf) tree.node []

def Unreported (tree : UnitsTree) (s : UnitsNode) : Prop :=
  ∀ d ∈ (unitsRun registry unitOf tree).diags, d.1 ∉ s.ids

def ValueCorrect (tree : UnitsTree) (s : UnitsNode) : Prop :=
  ∀ u, recordedUnit (unitsRun registry unitOf tree) s.id = some u → Unreported registry unitOf tree s →
    ∀ store v, evaluate registry unitOf s store = some v → v.quantity = v.value * (registry u).scale

def unitLabel (s : UnitsNode) : Option U :=
  (resultOf (concreteBindings registry unitOf) s).bind (·.concreteUnit)

def hasNoDimension (s : UnitsNode) : Bool :=
  (resultOf (concreteBindings registry unitOf) s).any fun r => dimIsDimensionless r.dim

def CountsIn (u : U) (e : UnitsNode) (v : Valued) : Prop :=
  unitLabel registry unitOf e = some u ∨ v.quantity = v.value * (registry u).scale

/-- What the unit `u` of a node takes for granted of the operands that do not have it. -/
def TakesForGranted (u : U) : UnitsNode → Prop
  | .binary _ op l r =>
    ∀ store a b, evaluate registry unitOf l store = some a →
      evaluate registry unitOf r a.store = some b →
        match op with
        | .add | .sub => CountsIn registry unitOf u r b
        | .mul =>
          if hasNoDimension registry unitOf l ∧ (unitLabel registry unitOf r).isSome then
            a.quantity = a.value ∨ b.value = 0
          else b.quantity = b.value ∨ a.value = 0
        | .div => b.value ≠ 0 ∧ b.quantity ≠ 0 → b.quantity = b.value ∨ a.value = 0
        | _ => True
  | .ternary _ c _ f =>
    ∀ store a b, evaluate registry unitOf c store = some a → a.value = 0 →
      evaluate registry unitOf f a.store = some b → CountsIn registry unitOf u f b
  | .assignment _ op _ name e =>
    ∀ store v, evaluate registry unitOf e store = some v →
      match op with
      | .assign => isLiteralValue e = true ∨ CountsIn registry unitOf u e v
      | .add | .sub => CountsIn registry unitOf u e v
      | .mul => v.quantity = v.value ∨ v.store name = 0
      | .div => v.value ≠ 0 ∧ v.quantity ≠ 0 → v.quantity = v.value ∨ v.store name = 0
      | .other _ => True
  | _ => True

/-- No scale is lost at the node. -/
def ScalesRight (s : UnitsNode) : Prop :=
  ∀ u, unitLabel registry unitOf s = some u → TakesForGranted registry unitOf u s

-- The unit of a node

def CountedIn (u : U) (e : UnitsNode) : Prop :=
  ∀ store v, evaluate registry unitOf e store = some v → v.quantity = v.value * (registry u).scale

@[grind] def UnitsNode.parts : UnitsNode → List UnitsNode
  | .literal _ _ | .identifier _ _ => []
  | .unary _ _ e | .cast _ e => [e]
  | .binary _ _ l r => [l, r]
  | .ternary _ c t f => [c, t, f]
  | .comma _ es => es
  | .assignment _ _ _ _ value => [value]

end

section
variable {U : Type} {registry : U → UnitDef} {unitOf : String → U} {id : Nat}

theorem concreteUnit_eq_some {r : UnitsExprResult U} :
    r.concreteUnit = some u ↔ r.unitResolved = true ∧ r.unitDef = some u := by
  unfold UnitsExprResult.concreteUnit
  cases r.unitResolved <;> simp

theorem concreteUnit_built (dim : Dim8) (unitDef : Option U) (unitResolved : Bool) :
    (unitsExprResult dim unitDef unitResolved).concreteUnit = if unitResolved then unitDef else none := by
  cases unitResolved <;> cases unitDef <;> rfl

theorem result_outcomeOne (h : (outcomeOne o f).result = some r) :
    ∃ a, o.result = some a ∧ (f a).result = some r := by
  unfold outcomeOne at h
  cases ho : o.result with
  | none =>
    rw [ho] at h
    cases h
  | some a =>
    rw [ho] at h
    exact ⟨a, rfl, h⟩

theorem result_outcomeTwo (h : (outcomeTwo o o' f).result = some r) :
    ∃ a b, o.result = some a ∧ o'.result = some b ∧ (f a b).result = some r := by
  unfold outcomeTwo at h
  cases ho : o.result with
  | none =>
    rw [ho] at h
    cases h
  | some a => ?_
  cases ho' : o'.result with
  | none =>
    rw [ho, ho'] at h
    cases h
  | some b =>
    rw [ho, ho'] at h
    exact ⟨a, b, rfl, rfl, h⟩

theorem unit_of_result {o : UnitsOutcome U} (h : o.result = some r) :
    r.unitResolved = true ↔ r.concreteUnit.isSome := by
  cases o with
  | record dim unitDef unitResolved =>
    cases h
    rw [concreteUnit_built]
    cases unitResolved <;> cases unitDef <;> simp [unitsExprResult]
  | nothing => cases h
  | report id diag => cases h

theorem unit_of_keep (h : (keepOutcome a).result = some r)
    (hu : r.concreteUnit = some u) : a.concreteUnit = some u := by
  cases h
  rw [concreteUnit_built] at hu
  exact hu

variable [DecidableEq U]

theorem unit_of_merge {a b r : UnitsExprResult U}
    (h : (mergeOutcome id context mismatch a b).result = some r) (hu : r.concreteUnit = some u) :
    a.concreteUnit = some u := by
  unfold mergeOutcome at h
  split at h
  · cases h
  split at h
  · cases h
  cases h
  rw [concreteUnit_built] at hu
  split at hu
  · exact hu
  · cases hu

omit [DecidableEq U] in
theorem unit_of_product
    (h : (productOutcome id isProduct a b).result = some r) (hu : r.concreteUnit = some u) :
    (if isProduct && (dimIsDimensionless a.dim && b.unitResolved) then b.concreteUnit
      else a.concreteUnit) = some u := by
  unfold productOutcome at h
  split at h
  · cases h
  rename_i dim _
  have hr : r = unitsExprResult dim (productUnit isProduct a b).1 (productUnit isProduct a b).2 :=
    (Option.some.inj h).symm
  rw [hr, concreteUnit_built, productUnit] at hu
  by_cases hleft : (isProduct && (dimIsDimensionless a.dim && b.unitResolved)) = true
  · rw [if_pos hleft] at hu ⊢
    have hresolved : b.unitResolved = true := by
      simp only [Bool.and_eq_true] at hleft
      exact hleft.2.2
    exact concreteUnit_eq_some.mpr ⟨hresolved, hu⟩
  · rw [if_neg hleft] at hu ⊢
    by_cases hright : (dimIsDimensionless b.dim && a.unitResolved) = true
    · rw [if_pos hright] at hu
      have hresolved : a.unitResolved = true := ((Bool.and_eq_true _ _).mp hright).2
      exact concreteUnit_eq_some.mpr ⟨hresolved, hu⟩
    · rw [if_neg hright] at hu
      cases hu

theorem unitLabel_eq (h : unitLabel registry unitOf s = some u) :
    ∃ r, resultOf (concreteBindings registry unitOf) s = some r ∧ r.concreteUnit = some u :=
  Option.bind_eq_some_iff.mp h

theorem unitLabel_of_result (h : resultOf (concreteBindings registry unitOf) s = some r)
    (hu : r.concreteUnit = some u) : unitLabel registry unitOf s = some u := by
  rw [unitLabel, h, Option.bind_some, hu]

theorem unitLabel_unary (h : unitLabel registry unitOf (.unary id op e) = some u) :
    unitLabel registry unitOf e = some u := by
  obtain ⟨r, hr, hu⟩ := unitLabel_eq h
  obtain ⟨a, ha, hr⟩ := result_outcomeOne hr
  unfold unaryOutcome at hr
  split at hr
  · exact unitLabel_of_result ha (unit_of_keep hr hu)
  · cases hr

theorem unitLabel_comma (h : unitLabel registry unitOf (.comma id es) = some u) :
    ∃ e, es.getLast? = some e ∧ unitLabel registry unitOf e = some u := by
  obtain ⟨r, hr, hu⟩ := unitLabel_eq h
  obtain ⟨a, ha, hr⟩ := result_outcomeOne hr
  rw [outcomeOfLast_eq] at ha
  cases hlast : es.getLast? with
  | none =>
    rw [hlast] at ha
    cases ha
  | some e =>
    rw [hlast] at ha
    exact ⟨e, rfl, unitLabel_of_result ha (unit_of_keep hr hu)⟩

theorem unitLabel_ternary (h : unitLabel registry unitOf (.ternary id c t f) = some u) :
    unitLabel registry unitOf t = some u := by
  obtain ⟨r, hr, hu⟩ := unitLabel_eq h
  obtain ⟨a, b, ha, -, hr⟩ := result_outcomeTwo hr
  exact unitLabel_of_result ha (unit_of_merge hr hu)

theorem unitLabel_binary (h : unitLabel registry unitOf (.binary id op l r) = some u) :
    (if op = .mul ∧ hasNoDimension registry unitOf l = true ∧ (unitLabel registry unitOf r).isSome then
      unitLabel registry unitOf r
    else unitLabel registry unitOf l) = some u := by
  obtain ⟨res, hres, hu⟩ := unitLabel_eq h
  obtain ⟨a, b, ha, hb, hres⟩ := result_outcomeTwo hres
  have hl : unitLabel registry unitOf l = a.concreteUnit := by
    rw [unitLabel, resultOf, ha, Option.bind_some]
  have hr : unitLabel registry unitOf r = b.concreteUnit := by
    rw [unitLabel, resultOf, hb, Option.bind_some]
  have hdim : hasNoDimension registry unitOf l = dimIsDimensionless a.dim := by
    rw [hasNoDimension, resultOf, ha, Option.any_some]
  have hresolved := unit_of_result hb
  rw [hl, hr, hdim]
  cases op with
  | add | sub => exact unit_of_merge hres hu
  | mul =>
    have hunit := unit_of_product hres hu
    rw [Bool.true_and] at hunit
    by_cases hleft : dimIsDimensionless a.dim = true ∧ b.concreteUnit.isSome
    · rw [if_pos ⟨rfl, hleft⟩]
      rwa [if_pos ((Bool.and_eq_true _ _).mpr ⟨hleft.1, hresolved.mpr hleft.2⟩)] at hunit
    rw [if_neg fun h => hleft h.2]
    rwa [if_neg fun h => hleft ⟨((Bool.and_eq_true _ _).mp h).1,
      hresolved.mp ((Bool.and_eq_true _ _).mp h).2⟩] at hunit
  | div =>
    have hunit := unit_of_product hres hu
    rwa [if_neg fun h => by cases h.1]
  | compare op =>
    simp only [binaryOutcome, compareOutcome] at hres
    split at hres
    · cases hres
    split at hres
    · cases hres
    cases hres
    cases hu
  | other op => cases hres

theorem unit_of_assignment {target value r : UnitsExprResult U}
    (h : (assignmentOutcome id op e target value).result = some r) :
    r.concreteUnit = target.concreteUnit := by
  have htarget (h : (targetOutcome target).result = some r) : r.concreteUnit = target.concreteUnit := by
    cases h
    rw [concreteUnit_built, UnitsExprResult.concreteUnit]
    cases target.unitResolved <;> rfl
  have hsum (mismatch : Dim8 → Dim8 → UnitsDiag U)
      (h : (sumAssignOutcome id mismatch target value).result = some r) :
      r.concreteUnit = target.concreteUnit := by
    unfold sumAssignOutcome at h
    repeat' split at h
    all_goals first | exact htarget h | cases h
  have hproduct (isProduct : Bool) (h : (productAssignOutcome id isProduct target value).result = some r) :
      r.concreteUnit = target.concreteUnit := by
    unfold productAssignOutcome at h
    split at h
    · cases h
    split at h
    · cases h
    · exact htarget h
  cases op with
  | assign =>
    simp only [assignmentOutcome, simpleAssignOutcome] at h
    split at h
    · cases h
      exact concreteUnit_built _ _ _
    · repeat' split at h
      all_goals first | exact htarget h | cases h
  | add | sub => exact hsum _ h
  | mul => exact hproduct true h
  | div => exact hproduct false h
  | other op => cases h

theorem unitLabel_assignment (h : unitLabel registry unitOf (.assignment id op target name e) = some u) :
    u = unitOf name := by
  obtain ⟨r, hr, hu⟩ := unitLabel_eq h
  obtain ⟨a, b, ha, -, hr⟩ := result_outcomeTwo hr
  cases ha
  rw [unit_of_assignment hr] at hu
  exact (Option.some.inj hu).symm

-- What a node adds

omit [DecidableEq U] in
theorem scale_ne_zero (registry : U → UnitDef) (u : U) : (registry u).scale ≠ 0 :=
  (registry u).pos.ne'

omit [DecidableEq U] in
theorem evaluateAll_last (es : List UnitsNode) (store : UnitsStore)
    (h : evaluateAll registry unitOf es store = some v) :
    ∃ e store', es.getLast? = some e ∧ evaluate registry unitOf e store' = some v := by
  induction es generalizing store with
  | nil => cases h
  | cons e es ih =>
    cases es with
    | nil => exact ⟨e, store, rfl, h⟩
    | cons e' es =>
      obtain ⟨a, -, h⟩ := Option.bind_eq_some_iff.mp h
      obtain ⟨x, store', hx, hv⟩ := ih a.store h
      exact ⟨x, store', by rw [List.getLast?_cons_cons, hx], hv⟩

theorem CountsIn.quantity (h : CountsIn registry unitOf u e v)
    (he : ∀ u, unitLabel registry unitOf e = some u → CountedIn registry unitOf u e)
    (hv : evaluate registry unitOf e store = some v) : v.quantity = v.value * (registry u).scale := by
  rcases h with hlabel | h
  · exact he u hlabel store v hv
  · exact h

theorem sum_counts (s q a b : ℚ) : a * s + q = (a + b) * s ↔ q = b * s := by
  constructor <;> intro h <;> linarith

theorem difference_counts (s q a b : ℚ) : a * s - q = (a - b) * s ↔ q = b * s := by
  constructor <;> intro h <;> linarith

theorem product_counts (hs : s ≠ 0) (q v v' : ℚ) : q * (v * s) = v' * v * s ↔ q = v' ∨ v = 0 := by
  rw [mul_assoc, mul_eq_mul_right_iff, mul_eq_zero, or_iff_left hs]

theorem product_counts_right (hs : s ≠ 0) (q v v' : ℚ) :
    v * s * q = v * v' * s ↔ q = v' ∨ v = 0 := by
  rw [mul_comm (v * s), mul_comm v v', product_counts hs]

theorem quotient_counts (hs : s ≠ 0) (hq : q ≠ 0) (hv' : v' ≠ 0) (v : ℚ) :
    v * s / q = v / v' * s ↔ q = v' ∨ v = 0 := by
  rw [div_mul_eq_mul_div, div_eq_div_iff hq hv', mul_comm (v * s) v', mul_comm (v * s) q,
    mul_eq_mul_right_iff, mul_eq_zero, or_iff_left hs, eq_comm (a := v')]

theorem binary_countedIn (op : UnitsBinaryOp)
    (hl : ∀ u, unitLabel registry unitOf l = some u → CountedIn registry unitOf u l)
    (hr : ∀ u, unitLabel registry unitOf r = some u → CountedIn registry unitOf u r)
    (hlabel : unitLabel registry unitOf (.binary id op l r) = some u) :
    CountedIn registry unitOf u (.binary id op l r) ↔
      TakesForGranted registry unitOf u (.binary id op l r) := by
  have hunit := unitLabel_binary hlabel
  have hs := scale_ne_zero registry u
  have hstep : CountedIn registry unitOf u (.binary id op l r) ↔
      ∀ store a b, evaluate registry unitOf l store = some a →
        evaluate registry unitOf r a.store = some b → ∀ v, arithValue op a b = some v →
          v.quantity = v.value * (registry u).scale := by
    constructor
    · intro h store a b ha hb v hv
      exact h store v (by rw [evaluate, ha, Option.bind_some, hb, Option.bind_some, hv])
    · intro h store v hv
      obtain ⟨a, ha, hv⟩ := Option.bind_eq_some_iff.mp hv
      obtain ⟨b, hb, hv⟩ := Option.bind_eq_some_iff.mp hv
      exact h store a b ha hb v hv
  rw [hstep]
  refine forall_congr' fun store => forall_congr' fun a => forall_congr' fun b =>
    forall_congr' fun ha => forall_congr' fun hb => ?_
  cases op with
  | add =>
    simp only [arithValue, Option.some.injEq, forall_eq']
    rw [hl u hunit store a ha, sum_counts]
    exact ⟨.inr, fun h => h.quantity hr hb⟩
  | sub =>
    simp only [arithValue, Option.some.injEq, forall_eq']
    rw [hl u hunit store a ha, difference_counts]
    exact ⟨.inr, fun h => h.quantity hr hb⟩
  | mul =>
    simp only [arithValue, Option.some.injEq, forall_eq', true_and] at hunit ⊢
    split
    · rename_i hleft
      rw [if_pos hleft] at hunit
      rw [hr u hunit a.store b hb, product_counts hs]
    · rename_i hleft
      rw [if_neg hleft] at hunit
      rw [hl u hunit store a ha, product_counts_right hs]
  | div =>
    simp only [arithValue]
    by_cases hzero : b.value = 0 ∨ b.quantity = 0
    · rw [if_pos hzero]
      refine iff_of_true nofun fun h => ?_
      exact absurd hzero (not_or.mpr h)
    obtain ⟨hvalue, hquantity⟩ := not_or.mp hzero
    simp only [if_neg hzero, Option.some.injEq, forall_eq']
    rw [hl u hunit store a ha, quotient_counts hs hquantity hvalue]
    exact ⟨fun h _ => h, fun h => h ⟨hvalue, hquantity⟩⟩
  | compare op | other op => exact iff_of_true nofun trivial

theorem ternary_countedIn (ht : ∀ u, unitLabel registry unitOf t = some u → CountedIn registry unitOf u t)
    (hf : ∀ u, unitLabel registry unitOf f = some u → CountedIn registry unitOf u f)
    (hlabel : unitLabel registry unitOf (.ternary id c t f) = some u) :
    CountedIn registry unitOf u (.ternary id c t f) ↔
      TakesForGranted registry unitOf u (.ternary id c t f) := by
  have hunit := unitLabel_ternary hlabel
  constructor
  · intro h store a b ha hzero hb
    refine .inr (h store b ?_)
    rw [evaluate, ha, Option.bind_some, if_neg (not_not_intro hzero), hb]
  · intro h store v hv
    obtain ⟨a, ha, hv⟩ := Option.bind_eq_some_iff.mp hv
    split at hv
    · exact ht u hunit a.store v hv
    rename_i hzero
    exact (h store a v ha (not_not.mp hzero) hv).quantity hf hv

theorem assignment_countedIn (op : UnitsAssignOp)
    (he : ∀ u, unitLabel registry unitOf e = some u → CountedIn registry unitOf u e)
    (hlabel : unitLabel registry unitOf (.assignment id op target name e) = some u) :
    CountedIn registry unitOf u (.assignment id op target name e) ↔
      TakesForGranted registry unitOf u (.assignment id op target name e) := by
  obtain rfl := unitLabel_assignment hlabel
  have hs := scale_ne_zero registry (unitOf name)
  have hstep : CountedIn registry unitOf (unitOf name) (.assignment id op target name e) ↔
      ∀ store v, evaluate registry unitOf e store = some v →
        ∀ r, assignValue registry unitOf op name (isLiteralValue e) v = some r →
          r.quantity = r.value * (registry (unitOf name)).scale := by
    constructor
    · intro h store v hv r hr
      exact h store r (by rw [evaluate, hv, Option.bind_some, hr])
    · intro h store r hr
      obtain ⟨v, hv, hr⟩ := Option.bind_eq_some_iff.mp hr
      exact h store v hv r hr
  rw [hstep]
  refine forall_congr' fun store => forall_congr' fun v => forall_congr' fun hv => ?_
  cases op with
  | assign =>
    simp only [assignValue, if_true, Option.map_some, Option.some.injEq, forall_eq']
    cases isLiteralValue e with
    | true => exact iff_of_true rfl (.inl rfl)
    | false => exact ⟨fun h => .inr (.inr h), fun h => (h.resolve_left nofun).quantity he hv⟩
  | add =>
    have hvalue : assignValue registry unitOf .add name (isLiteralValue e) v =
        some ⟨v.store name + v.value, v.store name * (registry (unitOf name)).scale + v.quantity,
          Function.update v.store name (v.store name + v.value)⟩ := rfl
    simp only [hvalue, Option.some.injEq, forall_eq']
    rw [sum_counts]
    exact ⟨.inr, fun h => h.quantity he hv⟩
  | sub =>
    have hvalue : assignValue registry unitOf .sub name (isLiteralValue e) v =
        some ⟨v.store name - v.value, v.store name * (registry (unitOf name)).scale - v.quantity,
          Function.update v.store name (v.store name - v.value)⟩ := rfl
    simp only [hvalue, Option.some.injEq, forall_eq']
    rw [difference_counts]
    exact ⟨.inr, fun h => h.quantity he hv⟩
  | mul =>
    have hvalue : assignValue registry unitOf .mul name (isLiteralValue e) v =
        some ⟨v.store name * v.value, v.store name * (registry (unitOf name)).scale * v.quantity,
          Function.update v.store name (v.store name * v.value)⟩ := rfl
    simp only [hvalue, Option.some.injEq, forall_eq']
    rw [product_counts_right hs]
  | div =>
    have hvalue : assignValue registry unitOf .div name (isLiteralValue e) v =
        if v.value = 0 ∨ v.quantity = 0 then none
        else some ⟨v.store name / v.value, v.store name * (registry (unitOf name)).scale / v.quantity,
          Function.update v.store name (v.store name / v.value)⟩ := by
      have hbinary : assignValue registry unitOf .div name (isLiteralValue e) v =
          (arithValue .div (identifierValue registry unitOf name v.store) v).map
            fun r => { r with store := Function.update r.store name r.value } := rfl
      rw [hbinary, arithValue]
      split <;> rfl
    rw [hvalue]
    by_cases hzero : v.value = 0 ∨ v.quantity = 0
    · rw [if_pos hzero]
      refine iff_of_true nofun fun h => ?_
      exact absurd hzero (not_or.mpr h)
    obtain ⟨hne, hquantity⟩ := not_or.mp hzero
    simp only [if_neg hzero, Option.some.injEq, forall_eq']
    rw [quotient_counts hs hquantity hne]
    exact ⟨fun h _ => h, fun h => h ⟨hne, hquantity⟩⟩
  | other op => exact iff_of_true nofun trivial

theorem countedIn_iff (s : UnitsNode)
    (hparts : ∀ p ∈ s.parts, ∀ u, unitLabel registry unitOf p = some u → CountedIn registry unitOf u p)
    (hlabel : unitLabel registry unitOf s = some u) :
    CountedIn registry unitOf u s ↔ TakesForGranted registry unitOf u s := by
  cases s with
  | literal id value => cases hlabel
  | identifier id name =>
    refine iff_of_true ?_ trivial
    intro store v hv
    cases hlabel
    cases hv
    rfl
  | unary id op e =>
    have he := hparts e (List.mem_singleton_self e) u (unitLabel_unary hlabel)
    refine iff_of_true ?_ trivial
    intro store v hv
    cases op with
    | plus => exact he store v hv
    | minus =>
      obtain ⟨a, ha, rfl⟩ := Option.map_eq_some_iff.mp hv
      rw [he store a ha, neg_mul]
    | inc | dec | bitNot | logNot => cases hv
  | binary id op l r =>
    exact binary_countedIn op (hparts l (by simp [UnitsNode.parts])) (hparts r (by simp [UnitsNode.parts]))
      hlabel
  | ternary id c t f =>
    exact ternary_countedIn (hparts t (by simp [UnitsNode.parts])) (hparts f (by simp [UnitsNode.parts]))
      hlabel
  | comma id es =>
    obtain ⟨e, hlast, he⟩ := unitLabel_comma hlabel
    refine iff_of_true ?_ trivial
    intro store v hv
    obtain ⟨e', store', hlast', hv⟩ := evaluateAll_last es store hv
    obtain rfl := Option.some.inj (hlast.symm.trans hlast')
    exact hparts e (List.mem_of_getLast? hlast) u he store' v hv
  | cast id e => exact iff_of_true (fun store v hv => nomatch hv) trivial
  | assignment id op target name e =>
    exact assignment_countedIn op (hparts e (List.mem_singleton_self e)) hlabel

-- Trees

theorem UnitsNode.parts_subset (hp : p ∈ s.parts) :
    UnitsNode.subexpressions p ⊆ UnitsNode.subexpressions s := by
  intro x hx
  cases s with
  | literal id value | identifier id name => cases hp
  | unary id op e | cast id e =>
    obtain rfl := List.mem_singleton.mp hp
    exact List.mem_append_left _ hx
  | binary id op l r =>
    have hp : p = l ∨ p = r := by simpa [parts] using hp
    rcases hp with rfl | rfl <;> simp [subexpressions, hx]
  | ternary id c t f =>
    have hp : p = c ∨ p = t ∨ p = f := by simpa [parts] using hp
    rcases hp with rfl | rfl | rfl <;> simp [subexpressions, hx]
  | comma id es =>
    refine List.mem_append_left _ ?_
    rw [subexpressionsAll_eq]
    exact List.mem_flatMap.mpr ⟨p, hp, hx⟩
  | assignment id op target name value =>
    obtain rfl := List.mem_singleton.mp hp
    simp [subexpressions, hx]

theorem UnitsNode.induct_parts {motive : UnitsNode → Prop}
    (step : ∀ s : UnitsNode, (∀ p ∈ s.parts, motive p) → motive s) (e : UnitsNode) : motive e := by
  induction e using UnitsNode.induct with
  | literal id value | identifier id name => exact step _ nofun
  | unary id op e ih | cast id e ih | assignment id op target name value ih =>
    exact step _ (by simpa [parts] using ih)
  | binary id op l r ihl ihr => exact step _ (by simpa [parts] using ⟨ihl, ihr⟩)
  | ternary id c t f ihc iht ihf => exact step _ (by simpa [parts] using ⟨ihc, iht, ihf⟩)
  | comma id es ih => exact step _ ih

theorem UnitsNode.forall_subexpressions_iff {Right Fine : UnitsNode → Prop}
    (step : ∀ s : UnitsNode, (∀ p ∈ s.parts, Right p) → (Right s ↔ Fine s)) (e : UnitsNode) :
    (∀ s ∈ e.subexpressions, Right s) ↔ ∀ s ∈ e.subexpressions, Fine s := by
  constructor
  · intro h s hs
    refine (step s fun p hp => h p ?_).mp (h s hs)
    exact UnitsNode.subexpressions_trans e hs (UnitsNode.parts_subset hp p.mem_subexpressions_self)
  · intro h
    have hright (s : UnitsNode) : (∀ x ∈ s.subexpressions, Fine x) → Right s := by
      induction s using UnitsNode.induct_parts with
      | step s ih =>
        intro hfine
        refine (step s fun p hp => ih p hp fun x hx => hfine x (UnitsNode.parts_subset hp hx)).mpr ?_
        exact hfine s s.mem_subexpressions_self
    intro s hs
    exact hright s fun x hx => h x (UnitsNode.subexpressions_trans e hs hx)

theorem Unreported.part (h : Unreported registry unitOf tree s) (hp : p ∈ s.parts) :
    Unreported registry unitOf tree p := by
  intro d hd hmem
  refine h d hd ?_
  obtain ⟨x, hx, hid⟩ := List.mem_map.mp hmem
  exact List.mem_map.mpr ⟨x, UnitsNode.parts_subset hp hx, hid⟩

/-- In a run over a tree the units of all expressions that no diagnostic is reported in
are right exactly when no such node loses a scale. -/
theorem unitsRun_valueCorrect_iff (registry : U → UnitDef) (unitOf : String → U) (tree : UnitsTree) :
    (∀ s ∈ tree.node.subexpressions, ValueCorrect registry unitOf tree s) ↔
      ∀ s ∈ tree.node.subexpressions, Unreported registry unitOf tree s → ScalesRight registry unitOf s := by
  have hleft := walkExprResults_walks (concreteBindings registry unitOf) tree.node
    ⟨[], []⟩ tree.distinct fun _ _ => rfl
  have hunit (s : UnitsNode) (hs : s ∈ tree.node.subexpressions) :
      recordedUnit (unitsRun registry unitOf tree) s.id = unitLabel registry unitOf s := by
    have hlookup : lookupResolvedExprMetadata (unitsRun registry unitOf tree) s.id =
        resultOf (concreteBindings registry unitOf) s := lookup_of_get (hleft.results s hs)
    rw [recordedUnit, hlookup, unitLabel]
  have hcorrect : (∀ s ∈ tree.node.subexpressions, ValueCorrect registry unitOf tree s) ↔
      ∀ s ∈ tree.node.subexpressions, ∀ u, unitLabel registry unitOf s = some u →
        Unreported registry unitOf tree s → CountedIn registry unitOf u s := by
    refine forall₂_congr fun s hs => ?_
    rw [ValueCorrect, hunit s hs]
    exact Iff.rfl
  rw [hcorrect]
  refine UnitsNode.forall_subexpressions_iff (fun s hparts => ?_) tree.node
  constructor
  · intro h hclean u hlabel
    refine (countedIn_iff s (fun p hp u hu => ?_) hlabel).mp (h u hlabel hclean)
    exact hparts p hp u hu (hclean.part hp)
  · intro h u hlabel hclean
    refine (countedIn_iff s (fun p hp u hu => ?_) hlabel).mpr (h hclean u hlabel)
    exact hparts p hp u hu (hclean.part hp)

end

def lengthUnit (scale : ℚ) (pos : 0 < scale) : UnitDef :=
  ⟨⟨fun i => if i = 0 then 1 else 0⟩, scale, pos⟩

/-- `a / b * c` of lengths in meters, kilometers and meters. -/
def ratioTree : UnitsTree :=
  ⟨.binary 4 .mul (.binary 2 .div (.identifier 0 "a") (.identifier 1 "b")) (.identifier 3 "c"), by decide⟩

/-- Meters and, for `true`, kilometers. -/
def metric (isKilometer : Bool) : UnitDef :=
  if isKilometer then lengthUnit 1000 (by norm_num) else lengthUnit 1 one_pos

/-- The ratio of meters by kilometers times meters is recorded as meters, and for
values of one its quantity is a thousandth of that. -/
theorem ratio_not_valueCorrect :
    ¬ValueCorrect metric (fun name => name == "b") ratioTree ratioTree.node := by
  intro h
  have hdiags : (unitsRun metric (fun name => name == "b") ratioTree).diags = [] := rfl
  have hclean : Unreported metric (fun name => name == "b") ratioTree ratioTree.node := by
    intro d hd
    cases hd
  have hvalue : evaluate metric (fun name => name == "b") ratioTree.node (fun _ => 1) =
      some ⟨1, 1 / 1000, fun _ => 1⟩ := by
    have ha : "a" ≠ "b" := by decide
    have hc : "c" ≠ "b" := by decide
    norm_num [ratioTree, evaluate, arithValue, identifierValue, scaleOf, metric, lengthUnit, ha, hc]
  have hquantity := h false rfl hclean _ _ hvalue
  norm_num [metric, lengthUnit] at hquantity

end Fisics
