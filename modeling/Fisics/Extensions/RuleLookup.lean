import Fisics.Extensions.PhysicalPolicyLaws
import Fisics.Library.FallibleMap
import Fisics.Library.SortedTable

/-!
# Looking up a rule finds it

The table is sorted by identifier and then by key, and neighbours are compared both times.
No two rules of an accepted table have one operation and operands, so that both searches
find the rule there is, however the rules were written.
-/

open Fisics.Json (JsonValue)

namespace Fisics.Physical

def operandKey (r : OperationRule) : List Nat := [r.operation.code, r.left, r.right]

theorem sameOperands_iff : sameOperands a b = true ↔ operandKey a = operandKey b := by
  simp only [sameOperands, operandKey, Bool.and_eq_true, beq_iff_eq, List.cons.injEq, and_true, and_assoc]
  refine and_congr_left fun _ => ⟨congrArg _, MathOperation.code_injective⟩

theorem ruleKey_lt (h : operandKey a < operandKey b) : ruleKey a < ruleKey b := by
  simp only [operandKey, ruleKey, List.cons_lt_cons_iff, lt_irrefl, and_false, or_false] at h ⊢
  tauto

theorem operandKey_lt (hle : ruleKey a ≤ ruleKey b) (hne : sameOperands a b = false) :
    operandKey a < operandKey b := by
  rcases lt_trichotomy (operandKey a) (operandKey b) with hlt | heq | hgt
  · exact hlt
  · rw [sameOperands_iff.mpr heq] at hne
    cases hne
  · exact absurd (ruleKey_lt hgt) (not_lt.mpr hle)

instance : Std.Total fun a b : OperationRule => ruleKey a ≤ ruleKey b := ⟨fun _ _ => le_total _ _⟩

instance : IsTrans OperationRule fun a b => ruleKey a ≤ ruleKey b := ⟨fun _ _ _ => le_trans⟩

instance : Std.Total fun a b : OperationRule => a.id ≤ b.id := ⟨fun _ _ => String.le_total _ _⟩

instance : IsTrans OperationRule fun a b => a.id ≤ b.id := ⟨fun _ _ _ => String.le_trans⟩

theorem pairwise_of_firstDuplicate (hstrict : ∀ a b, R a b → same a b = false → S a b)
    (htrans : ∀ a b c, S a b → S b c → S a c) (hsorted : l.Pairwise R)
    (h : firstDuplicate same l = none) : l.Pairwise S := by
  induction l with
  | nil => exact .nil
  | cons a l ih =>
    cases l with
    | nil => exact List.pairwise_singleton S a
    | cons b rest => ?_
    rw [firstDuplicate] at h
    split at h
    · cases h
    rename_i hne
    have hrest := ih hsorted.of_cons h
    have hab : S a b :=
      hstrict a b (List.rel_of_pairwise_cons hsorted List.mem_cons_self) (Bool.eq_false_of_not_eq_true hne)
    refine List.pairwise_cons.mpr ⟨fun c hc => ?_, hrest⟩
    rcases List.mem_cons.mp hc with rfl | hc
    · exact hab
    · exact htrans a b c hab (List.rel_of_pairwise_cons hrest hc)

def RulesWritten (root : JsonValue String) (p : PhysicalPolicy) (rules : List OperationRule) : Prop :=
  ∃ list, arrayOf (objectGet "operation_rules" root) = some list ∧ list.mapM (loadRule p) = .ok rules

/-- `root'` has the entries of `root` in another order. -/
def Reordered (root root' : JsonValue String) : Prop :=
  ∃ list list', arrayOf (objectGet "operation_rules" root) = some list ∧
    arrayOf (objectGet "operation_rules" root') = some list' ∧ list.Perm list'

theorem operationsLoad_of (hlist : arrayOf (objectGet "operation_rules" root) = some list)
    (hlength : list.length ≤ maxOperationRules) (hrules : list.mapM (loadRule p) = .ok rules)
    (hid : firstDuplicate (fun a b => a.id == b.id) (sortById rules) = none)
    (hkey : firstDuplicate sameOperands (sortByKey (sortById rules)) = none) :
    physicalOperationsLoad root p = .ok { p with operations := sortByKey (sortById rules) } := by
  rw [sortByKey, sortById] at hkey
  rw [sortById] at hid
  unfold physicalOperationsLoad
  simp only [hlist, if_neg (Nat.not_lt.mpr hlength), hrules, bind, Except.bind, hid, hkey]
  rfl

-- An accepted table

/-- The two checks of neighbours leave no identifier and no operands twice. -/
structure Distinct (rules : List OperationRule) : Prop where
  ids : (sortById rules).Pairwise fun a b => a.id < b.id
  operands : (sortByKey (sortById rules)).Pairwise fun a b => operandKey a < operandKey b

theorem distinct_of_checks (hid : firstDuplicate (fun a b => a.id == b.id) (sortById rules) = none)
    (hkey : firstDuplicate sameOperands (sortByKey (sortById rules)) = none) : Distinct rules where
  ids := pairwise_of_firstDuplicate (fun a b hle hne => Std.lt_of_le_of_ne hle (by simpa using hne))
    (fun _ _ _ => String.lt_trans) (List.pairwise_insertionSort _ rules) hid
  operands := pairwise_of_firstDuplicate (fun _ _ => operandKey_lt) (fun _ _ _ => lt_trans)
    (List.pairwise_insertionSort _ _) hkey

theorem eq_of_ids {l : List OperationRule} (h : l.Pairwise fun a b => a.id < b.id) (ha : a ∈ l) (hb : b ∈ l)
    (hid : a.id = b.id) : a = b := by
  induction h with
  | nil => cases ha
  | cons hlt _ ih =>
    rcases List.mem_cons.mp ha with rfl | ha' <;> rcases List.mem_cons.mp hb with rfl | hb'
    · rfl
    · exact absurd (hid ▸ hlt b hb') (String.lt_irrefl _)
    · exact absurd (hid ▸ hlt a ha') (String.lt_irrefl _)
    · exact ih ha' hb'

theorem sortById_eq (h : Distinct rules) (hperm : rules.Perm rules') : sortById rules = sortById rules' :=
  SortedTable.insertionSort_eq_of_perm hperm fun _ ha _ hb hab hba =>
    eq_of_ids h.ids ((List.mem_insertionSort _).mpr ha) ((List.mem_insertionSort _).mpr hb)
      (String.le_antisymm hab hba)

theorem scalarRule_of_mem (h : p.operations.Pairwise fun a b => operandKey a < operandKey b)
    (hversion : 3 ≤ p.schemaVersion) (hr : r ∈ p.operations) :
    scalarRule p r.operation r.left r.right = some r := by
  rw [scalarRule, if_neg (Nat.not_lt.mpr hversion)]
  refine LowerBound.find_of_pairwise h hr (fun b hb => ?_) (fun b hb => ?_) ?_ ?_
  · exact decide_eq_true hb
  · exact decide_eq_false (lt_asymm hb)
  · exact decide_eq_false (lt_irrefl _)
  · simp

theorem operationRule_of_mem (h : p.operations.Pairwise fun a b => operandKey a < operandKey b)
    (hr : r ∈ p.operations) (hleft : r.left = k)
    (hright : r.right = if mathUnary r.operation then 0 else k) (hkind : r.kind = k) :
    operationRule p r.operation k = some r := by
  have hkey : ruleKey ⟨"", r.operation, k, k, if mathUnary r.operation then 0 else k⟩ = ruleKey r := by
    rw [ruleKey, ruleKey, hleft, hright, hkind]
  refine LowerBound.find_of_pairwise h hr (fun b hb => ?_) (fun b hb => ?_) ?_ ?_ <;> rw [hkey]
  · exact decide_eq_true (ruleKey_lt hb)
  · exact decide_eq_false (lt_asymm (ruleKey_lt hb))
  · exact decide_eq_false (lt_irrefl _)
  · exact beq_self_eq_true _

theorem loadRule_old (h : loadRule p value = .ok r) (hversion : p.schemaVersion < 3) :
    r.operation = .fabs ∨ r.operation = .fmax := by
  unfold loadRule at h
  split at h
  · rename_i id op _ _ _ _ _ _ _ _ _ _ _ _
    dsimp only at h
    split at h
    · rename_i hchecks
      cases h
      simp only [Bool.and_eq_true, bne_iff_ne] at hchecks
      have hop : operationNamed p.schemaVersion op ≠ .none := by tauto
      unfold operationNamed at hop ⊢
      have h3 : ¬ 3 ≤ p.schemaVersion := by omega
      have h7 : p.schemaVersion ≠ 7 := by omega
      simp only [h3, h7, false_and, if_false] at hop ⊢
      split
      · exact .inl rfl
      split
      · exact .inr rfl
      · simp_all
    · cases h
  · cases h

/-- Both lookups find a rule exactly where it was written, under the versions that look
products up; no two rules have one operation and operands, and another order of the
rules loads the same policy. -/
theorem rules_found {p q : PhysicalPolicy} (h : physicalOperationsLoad root p = .ok q) :
    ∃ rules, RulesWritten root p rules ∧
      (∀ op a b r, scalarRule q op a b = some r ↔
        3 ≤ p.schemaVersion ∧ r ∈ rules ∧ r.operation = op ∧ r.left = a ∧ r.right = b) ∧
      (p.schemaVersion < 3 → ∀ r ∈ rules, r.operation = .fabs ∨ r.operation = .fmax) ∧
      (∀ op k r, operationRule q op k = some r ↔
        r ∈ rules ∧ r.operation = op ∧ r.left = k ∧ r.right = (if mathUnary op then 0 else k) ∧
          r.kind = k) ∧
      (rules.map operandKey).Nodup ∧
      ∀ root', Reordered root root' → physicalOperationsLoad root' p = .ok q := by
  obtain ⟨list, rules, hlist, hlength, hrules, hid, hkey, rfl⟩ := of_operationsLoad h
  have hdistinct := distinct_of_checks hid hkey
  refine ⟨rules, ⟨list, hlist, hrules⟩, fun op a b r => ?_, fun hversion r hr => ?_, fun op k r => ?_, ?_,
    fun root' => ?_⟩
  · constructor
    · intro hfound
      obtain ⟨hmem, hspec⟩ := scalarRule_spec hfound
      refine ⟨?_, mem_sorted.mp hmem, hspec⟩
      by_contra hversion
      rw [scalarRule, if_pos (Nat.not_le.mp hversion)] at hfound
      cases hfound
    · rintro ⟨hversion, hmem, rfl, rfl, rfl⟩
      exact scalarRule_of_mem hdistinct.operands hversion (mem_sorted.mpr hmem)
  · exact forall_of_mapM (fun _ _ hr => loadRule_old hr hversion) hrules r hr
  · constructor
    · intro hfound
      obtain ⟨hmem, hspec⟩ := operationRule_spec hfound
      exact ⟨mem_sorted.mp hmem, hspec⟩
    · rintro ⟨hmem, rfl, hleft, hright, hkind⟩
      exact operationRule_of_mem hdistinct.operands (mem_sorted.mpr hmem) hleft hright hkind
  · have hperm : (sortByKey (sortById rules)).Perm rules :=
      (List.perm_insertionSort _ _).trans (List.perm_insertionSort _ _)
    rw [← (hperm.map operandKey).nodup_iff]
    exact List.pairwise_map.mpr (hdistinct.operands.imp ne_of_lt)
  · rintro ⟨list₁, list', hlist₁, hlist', hperm⟩
    cases hlist.symm.trans hlist₁
    obtain ⟨rules', hrules', hpermRules⟩ := FallibleMap.ok_of_perm hperm hrules
    have hsort := sortById_eq hdistinct hpermRules
    rw [hsort] at hid hkey ⊢
    exact operationsLoad_of hlist' (hperm.length_eq ▸ hlength) hrules' hid hkey

def writtenRule (id op : String) (operands : List String) (result origin : String) : JsonValue String :=
  .object [("id", .string id), ("operation", .string op),
    ("operand_kinds", .array (operands.map .string)), ("result_kind", .string result),
    ("reference_role", .string "linear"), ("origin_policy", .string origin), ("provenance", .string "inputs")]

def amountRule : JsonValue String := writtenRule "amount" "fabs" ["length"] "length" "preserve"

/-- Not in the order of the identifiers, nor in that of the keys. -/
def mixedRules : List (JsonValue String) :=
  [writtenRule "scale" "multiply" ["length", "quantity.ratio"] "length" "none",
    writtenRule "reduce" "divide" ["length", "quantity.ratio"] "length" "none", amountRule,
    writtenRule "scaled" "multiply" ["quantity.ratio", "length"] "length" "none",
    writtenRule "largest" "fmax" ["length", "length"] "length" "same"]

def lengthPolicy (version : Nat) : PhysicalPolicy where
  schemaVersion := version
  kinds := [⟨"length", exponents [1]⟩, ⟨"quantity.ratio", dimZero⟩]
  models := [⟨.linear, 0⟩, ⟨.linear, 0⟩]
  origins := []
  operations := []
  representationRanks := []
  energyForms := []

def sortedRules : List OperationRule :=
  [⟨"amount", .fabs, 1, 1, 0⟩, ⟨"largest", .fmax, 1, 1, 1⟩, ⟨"scale", .multiply, 1, 1, 2⟩,
    ⟨"scaled", .multiply, 1, 2, 1⟩, ⟨"reduce", .divide, 1, 1, 2⟩]

theorem mixedRules_load :
    physicalOperationsLoad (.object [("operation_rules", .array mixedRules)]) (lengthPolicy 3) =
      .ok { lengthPolicy 3 with operations := sortedRules } := by
  rfl

def writtenRules : List OperationRule :=
  [⟨"scale", .multiply, 1, 1, 2⟩, ⟨"reduce", .divide, 1, 1, 2⟩, ⟨"amount", .fabs, 1, 1, 0⟩,
    ⟨"scaled", .multiply, 1, 2, 1⟩, ⟨"largest", .fmax, 1, 1, 1⟩]

theorem rules_found_mixed :
    let p := { lengthPolicy 3 with operations := sortedRules }
    scalarRule p .multiply 2 1 = some ⟨"scaled", .multiply, 1, 2, 1⟩ ∧ scalarRule p .divide 2 1 = none ∧
      operationRule p .fmax 1 = some ⟨"largest", .fmax, 1, 1, 1⟩ ∧
      physicalOperationsLoad (.object [("operation_rules", .array mixedRules.reverse)]) (lengthPolicy 3) =
        .ok p := by
  obtain ⟨rules, ⟨list, hlist, hrules⟩, hscalar, -, hoperation, -, hreordered⟩ := rules_found mixedRules_load
  cases hlist
  obtain rfl : writtenRules = rules := Except.ok.inj hrules
  refine ⟨(hscalar _ _ _ _).mpr (by decide), ?_, (hoperation _ _ _).mpr (by decide), ?_⟩
  · refine Option.eq_none_iff_forall_ne_some.mpr fun r hr => ?_
    obtain ⟨-, hmem, hop, hleft, hright⟩ := (hscalar _ _ _ _).mp hr
    have hnone : ∀ r ∈ writtenRules, r.operation = .divide → r.left = 2 → r.right ≠ 1 := by decide
    exact hnone r hmem hop hleft hright
  · exact hreordered _ ⟨_, _, rfl, rfl, (List.reverse_perm mixedRules).symm⟩

/-- The rule is there, and not found by its operands. -/
theorem amount_not_scalar :
    physicalOperationsLoad (.object [("operation_rules", .array [amountRule])]) (lengthPolicy 2) =
        .ok { lengthPolicy 2 with operations := [⟨"amount", .fabs, 1, 1, 0⟩] } ∧
      scalarRule { lengthPolicy 2 with operations := [⟨"amount", .fabs, 1, 1, 0⟩] } .fabs 1 0 = none :=
  ⟨rfl, rfl⟩

end Fisics.Physical
