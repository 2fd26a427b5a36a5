import Fisics.Extensions.PhysicalPolicy

/-!
# What a loaded policy holds

Every rule of a loaded policy was admitted, the kinds of an affine pair have one
dimension, and a rule that is looked up is the rule for the operands.
-/

namespace Fisics.Physical

variable {p q : PhysicalPolicy} {id : String}

-- Handles

theorem findHandle_le (key : α → String) (id : String) (table : List α) :
    PhysicalPolicy.findHandle key id table ≤ table.length := by
  unfold PhysicalPolicy.findHandle
  split
  · rename_i i a hfind
    have hget := (LowerBound.of_find hfind).1
    exact (List.getElem?_eq_some_iff.mp hget).1
  · exact Nat.zero_le _

theorem hasKind_iff : p.hasKind k = true ↔ k ≠ 0 ∧ k ≤ p.kinds.length := by
  simp [PhysicalPolicy.hasKind]

theorem hasKind_findKind (h : p.findKind id ≠ 0) : p.hasKind (p.findKind id) = true :=
  hasKind_iff.mpr ⟨h, findHandle_le QuantityKind.id id p.kinds⟩

theorem hasKind_kindHandle (h : kindHandle p value ≠ 0) : p.hasKind (kindHandle p value) = true := by
  unfold kindHandle at h ⊢
  cases hs : stringOf value with
  | none => simp [hs] at h
  | some id =>
    simp only [hs, Option.elim_some] at h ⊢
    exact hasKind_findKind h

-- Roles

/-- The kinds of an affine pair are kinds of the policy with one dimension. -/
structure PairsAgree (p : PhysicalPolicy) : Prop where
  length : p.models.length = p.kinds.length
  pairs : ∀ k, p.hasKind k = true → p.role k = .absolute ∨ p.role k = .difference →
    p.hasKind (p.model k).pairedKind = true ∧ p.dimensionOf (p.model k).pairedKind = p.dimensionOf k

theorem model_setModel (hlen : p.models.length = p.kinds.length)
    (hk : p.hasKind k = true) (hj : p.hasKind j = true) (m : KindModel) :
    (setModel p k m).model j = if j = k then m else p.model j := by
  obtain ⟨hk0, hk⟩ := hasKind_iff.mp hk
  obtain ⟨hj0, hj⟩ := hasKind_iff.mp hj
  unfold setModel PhysicalPolicy.model
  by_cases hjk : j = k
  · subst hjk
    have hlt : j - 1 < p.models.length := by omega
    simp [hlt]
  · have hne : k - 1 ≠ j - 1 := by omega
    simp [hjk, hne]

section
variable (p : PhysicalPolicy) (k : Nat) (m : KindModel)

@[simp] theorem setModel_kinds :
    (setModel p k m).kinds = p.kinds := rfl

@[simp] theorem setModel_schemaVersion :
    (setModel p k m).schemaVersion = p.schemaVersion := rfl

@[simp] theorem setModel_hasKind (j : Nat) :
    (setModel p k m).hasKind j = p.hasKind j := rfl

@[simp] theorem setModel_dimensionOf (j : Nat) :
    (setModel p k m).dimensionOf j = p.dimensionOf j := rfl

@[simp] theorem setModel_models_length :
    (setModel p k m).models.length = p.models.length := by
  simp [setModel]

end

theorem pairsAgree_linear (h : PairsAgree p) (hk : p.hasKind k = true) :
    PairsAgree (setModel p k ⟨.linear, 0⟩) := by
  refine ⟨by simpa using h.length, ?_⟩
  intro j hj
  have hmodel := model_setModel h.length hk hj ⟨.linear, 0⟩
  simp only [PhysicalPolicy.role, hmodel, setModel_hasKind, setModel_dimensionOf]
  by_cases hjk : j = k
  · simp [hjk]
  · simpa only [if_neg hjk, PhysicalPolicy.role] using h.pairs j hj

theorem loadLinearKinds_agree (h : PairsAgree p) (hload : loadLinearKinds index p values = .ok q) :
    PairsAgree q ∧ q.operations = p.operations := by
  induction values generalizing index p with
  | nil =>
    cases hload
    exact ⟨h, rfl⟩
  | cons value rest ih =>
    unfold loadLinearKinds at hload
    dsimp only at hload
    split at hload
    · cases hload
    rename_i hk
    split at hload
    · cases hload
    have hnext := pairsAgree_linear h (hasKind_kindHandle hk)
    have hrest := ih hnext hload
    exact hrest

theorem pairsAgree_pair (h : PairsAgree p) (ha : p.hasKind a = true)
    (hb : p.hasKind b = true) (hdim : p.dimensionOf a = p.dimensionOf b) :
    PairsAgree (setModel (setModel p a ⟨.absolute, b⟩) b ⟨.difference, a⟩) := by
  have hlen : (setModel p a ⟨.absolute, b⟩).models.length = p.kinds.length := by
    simpa using h.length
  refine ⟨by simpa using h.length, ?_⟩
  intro j hj
  have hmodel : (setModel (setModel p a ⟨.absolute, b⟩) b ⟨.difference, a⟩).model j =
      if j = b then ⟨.difference, a⟩ else if j = a then ⟨.absolute, b⟩ else p.model j := by
    rw [model_setModel hlen hb hj, model_setModel h.length ha hj]
  simp only [PhysicalPolicy.role, hmodel, setModel_hasKind, setModel_dimensionOf]
  by_cases hjb : j = b
  · simp [hjb, ha, hdim]
  by_cases hja : j = a
  · have hab : a ≠ b := hja ▸ hjb
    simp [hja, hab, hb, hdim]
  · simpa only [if_neg hjb, if_neg hja, PhysicalPolicy.role] using h.pairs j hj

theorem loadAffinePairs_agree (h : PairsAgree p)
    (hload : loadAffinePairs p values = .ok q) : PairsAgree q ∧ q.operations = p.operations := by
  induction values generalizing p with
  | nil =>
    cases hload
    exact ⟨h, rfl⟩
  | cons value rest ih =>
    unfold loadAffinePairs at hload
    dsimp only at hload
    split at hload
    · cases hload
    split at hload
    · cases hload
    rename_i hkinds
    split at hload
    · cases hload
    split at hload
    · cases hload
    rename_i hdim
    obtain ⟨ha, hb⟩ := not_or.mp hkinds
    have hnext := pairsAgree_pair h (hasKind_kindHandle ha) (hasKind_kindHandle hb)
      (not_not.mp hdim)
    have hrest := ih hnext hload
    exact hrest

theorem pairsAgree_start : PairsAgree { p with models := p.kinds.map fun _ => ⟨.unprofiled, 0⟩ } := by
  refine ⟨by simp, ?_⟩
  intro k hk hrole
  obtain ⟨hk0, hk⟩ := hasKind_iff.mp hk
  have hlt : k - 1 < p.kinds.length := by
    have hle : k ≤ p.kinds.length := hk
    omega
  simp [PhysicalPolicy.role, PhysicalPolicy.model, hlt] at hrole

-- Rules

def AdmittedIn (p : PhysicalPolicy) (r : OperationRule) : Prop :=
  ∃ operands role origin, ruleAdmitted p r.operation operands r.kind role origin = true ∧
    r.operation ≠ .none ∧ operands.length = operationArity r.operation ∧
    operands.all (· != 0) = true ∧ r.left = operands.getD 0 0 ∧ r.right = operands.getD 1 0 ∧
    p.hasKind r.kind = true

theorem AdmittedIn.right_eq_zero_iff (h : AdmittedIn p r) :
    r.right = 0 ↔ operationArity r.operation = 1 := by
  obtain ⟨operands, -, -, -, -, hlen, hall, -, hright, -⟩ := h
  rw [hright, ← hlen]
  cases operands with
  | nil =>
    unfold operationArity at hlen
    split at hlen <;> cases hlen
  | cons a rest => ?_
  cases rest with
  | nil => simp
  | cons b rest =>
    simp at hall
    simp [hall.2.1]

theorem loadRule_admitted (h : loadRule p value = .ok r) : AdmittedIn p r := by
  unfold loadRule at h
  split at h
  · dsimp only at h
    split at h
    · rename_i hchecks
      cases h
      simp only [Bool.and_eq_true, bne_iff_ne, beq_iff_eq] at hchecks
      obtain ⟨⟨⟨⟨⟨⟨⟨-, -⟩, -⟩, hop⟩, hlen⟩, hk⟩, hall⟩, hadmitted⟩ := hchecks
      exact ⟨_, _, _, hadmitted, hop, by simpa using hlen, hall, rfl, rfl, hasKind_findKind hk⟩
    · cases h
  · cases h

theorem forall_of_mapM {xs : List α} {f : α → Except ε β} {P : β → Prop} (hf : ∀ a b, f a = .ok b → P b)
    (h : xs.mapM f = .ok ys) : ∀ y ∈ ys, P y := by
  induction xs generalizing ys with
  | nil =>
    cases h
    simp
  | cons x rest ih =>
    rw [List.mapM_cons] at h
    cases hx : f x with
    | error e =>
      rw [hx] at h
      cases h
    | ok y => ?_
    cases hrest : rest.mapM f with
    | error e =>
      rw [hx, hrest] at h
      cases h
    | ok zs =>
      rw [hx, hrest] at h
      cases h
      simpa using ⟨hf x y hx, ih hrest⟩

def sortById (rules : List OperationRule) : List OperationRule := rules.insertionSort fun a b => a.id ≤ b.id

def sortByKey (rules : List OperationRule) : List OperationRule :=
  rules.insertionSort fun a b => ruleKey a ≤ ruleKey b

theorem of_operationsLoad (h : physicalOperationsLoad root p = .ok q) :
    ∃ list rules, arrayOf (objectGet "operation_rules" root) = some list ∧
      list.length ≤ maxOperationRules ∧ list.mapM (loadRule p) = .ok rules ∧
      firstDuplicate (fun a b => a.id == b.id) (sortById rules) = none ∧
      firstDuplicate sameOperands (sortByKey (sortById rules)) = none ∧
      q = { p with operations := sortByKey (sortById rules) } := by
  unfold physicalOperationsLoad at h
  split at h
  · rename_i list hlist
    split at h
    · cases h
    rename_i hlength
    cases hrules : list.mapM (loadRule p) with
    | error e =>
      rw [hrules] at h
      cases h
    | ok rules => ?_
    rw [hrules] at h
    dsimp only [bind, Except.bind] at h
    split at h
    · rename_i hnone
      rw [Bool.and_eq_true, Option.isNone_iff_eq_none, Option.isNone_iff_eq_none] at hnone
      cases h
      exact ⟨list, rules, hlist, Nat.le_of_not_lt hlength, hrules, hnone.1, hnone.2, rfl⟩
    · cases h
  · cases h

theorem mem_sorted : r ∈ sortByKey (sortById rules) ↔ r ∈ rules := by
  rw [sortByKey, sortById, List.mem_insertionSort, List.mem_insertionSort]

theorem operationsLoad_admitted (h : physicalOperationsLoad root p = .ok q) :
    ∃ rules, q = { p with operations := rules } ∧ ∀ r ∈ rules, AdmittedIn p r := by
  obtain ⟨list, rules, -, -, hrules, -, -, rfl⟩ := of_operationsLoad h
  refine ⟨_, rfl, fun r hr => ?_⟩
  exact forall_of_mapM (fun _ _ => loadRule_admitted) hrules r (mem_sorted.mp hr)

-- Loaded policies

structure Loaded (p : PhysicalPolicy) : Prop where
  pairs : PairsAgree p
  rules : ∀ r ∈ p.operations, AdmittedIn p r

theorem profiles_agree (h : physicalPolicyProfiles options root p = .ok q) :
    PairsAgree q ∧ q.operations = p.operations := by
  unfold physicalPolicyProfiles at h
  split at h
  · split at h
    · cases h
    · rename_i linear pairs origins _ _ _ _
      cases hlinear : loadLinearKinds 0
          { p with models := p.kinds.map fun _ => ⟨.unprofiled, 0⟩ } linear with
      | error e =>
        rw [hlinear] at h
        cases h
      | ok p₁ =>
        cases hpairs : loadAffinePairs p₁ pairs with
        | error e =>
          simp only [hlinear, hpairs, bind, Except.bind] at h
          cases h
        | ok p₂ => ?_
        obtain ⟨hlinearAgree, hlinearRules⟩ := loadLinearKinds_agree pairsAgree_start hlinear
        obtain ⟨hagree, hpairsRules⟩ := loadAffinePairs_agree hlinearAgree hpairs
        cases horigins : origins.mapM (loadOrigin p₂) with
        | error e =>
          simp only [hlinear, hpairs, horigins, bind, Except.bind] at h
          cases h
        | ok loaded => ?_
        simp only [hlinear, hpairs, horigins, bind, Except.bind] at h
        split at h
        · cases h
        cases h
        exact ⟨⟨hagree.length, hagree.pairs⟩, hpairsRules.trans hlinearRules⟩
  · cases h

theorem loaded_of_load (h : physicalPolicyLoad options root p = .ok q) : Loaded q := by
  unfold physicalPolicyLoad at h
  split at h
  · cases h
  cases hprofiles : physicalPolicyProfiles options root { p with operations := [] } with
  | error e =>
    rw [hprofiles] at h
    cases h
  | ok p₁ => ?_
  obtain ⟨hagree, hnone⟩ := profiles_agree hprofiles
  rw [hprofiles] at h
  dsimp only [bind, Except.bind] at h
  split at h
  · obtain ⟨rules, rfl, hrules⟩ := operationsLoad_admitted h
    exact ⟨⟨hagree.length, hagree.pairs⟩, hrules⟩
  cases h
  refine ⟨hagree, ?_⟩
  intro r hr
  rw [hnone] at hr
  cases hr

-- Rules that are looked up

theorem MathOperation.code_injective {a b : MathOperation} (h : a.code = b.code) : a = b := by
  cases a <;> cases b <;> first | rfl | cases h

theorem operationRule_spec (h : operationRule p op k = some r) :
    r ∈ p.operations ∧ r.operation = op ∧ r.left = k ∧
      r.right = (if mathUnary op then 0 else k) ∧ r.kind = k := by
  obtain ⟨⟨i, r'⟩, hfind, rfl⟩ := Option.map_eq_some_iff.mp h
  obtain ⟨hget, hsame⟩ := LowerBound.of_find hfind
  simp only [ruleKey, beq_iff_eq, List.cons.injEq] at hsame
  obtain ⟨hcode, hleft, hright, hkind, -⟩ := hsame
  exact ⟨List.mem_of_getElem? hget, MathOperation.code_injective hcode, hleft, hright, hkind⟩

theorem scalarRule_spec (h : scalarRule p op a b = some r) :
    r ∈ p.operations ∧ r.operation = op ∧ r.left = a ∧ r.right = b := by
  unfold scalarRule at h
  split at h
  · cases h
  obtain ⟨⟨i, r'⟩, hfind, rfl⟩ := Option.map_eq_some_iff.mp h
  obtain ⟨hget, hsame⟩ := LowerBound.of_find hfind
  simp only [Bool.and_eq_true, beq_iff_eq] at hsame
  exact ⟨List.mem_of_getElem? hget, hsame.1.1, hsame.1.2, hsame.2⟩

theorem constructorRule_spec (h : constructorRule p id = some r) :
    r ∈ p.operations ∧ constructorOperation r.operation = true ∧ r.id = id := by
  unfold constructorRule at h
  split at h
  · cases h
  have hr := List.find?_some h
  simp only [Bool.and_eq_true, beq_iff_eq] at hr
  exact ⟨List.mem_of_find?_eq_some h, hr⟩

end Fisics.Physical
