import Fisics.Library.HostArith
import Fisics.Syntax.ConstantAgreement

/-!
# Dispatch of `switch`

The case constants become values of the type that the condition has before it is promoted.
Many of them close together make an LLVM switch, others a chain of comparisons; which it is
takes the distance of the smallest and the largest value. Both are compared with the case
that C selects.
-/

namespace Fisics.Switch

open Word (read wrap)
open BitVec (ofInt)
open HostArith (InRange)

-- The cases of a switch

/-- The labels in the order of the source; `default` has no constant. -/
abbrev Labels := List (Option ConstEvalResult)

inductive Target
  | label (sourceIndex : Nat)
  | switchEnd
  deriving DecidableEq

structure CaseEntry (w : Nat) where
  value : BitVec 64
  constVal : BitVec w
  sourceIndex : Nat
  deriving DecidableEq

/-- `LLVMConstInt` of a signed value, and `LLVMConstIntGetSExtValue` of the result. -/
def caseEntry (w : Nat) (sourceIndex : Nat) (constant : ConstEvalResult) : CaseEntry w :=
  let constVal := constant.value.signExtend w
  ⟨constVal.signExtend 64, constVal, sourceIndex⟩

/-- The cases that have a constant, with their places from `i` on. -/
def indexed (i : Nat) : Labels → List (Nat × ConstEvalResult)
  | [] => []
  | none :: labels => indexed (i + 1) labels
  | some constant :: labels => (i, constant) :: indexed (i + 1) labels

def caseEntries (w : Nat) (labels : Labels) : List (CaseEntry w) :=
  (indexed 0 labels).map fun entry => caseEntry w entry.1 entry.2

/-- The first `default`, or the end of the switch. -/
def defaultTarget (labels : Labels) : Target :=
  ((labels.findIdx? Option.isNone).map .label).getD .switchEnd

-- The two forms

/-- `minVal` and `maxVal`. -/
def bounds : List Int → Option (Int × Int)
  | [] => none
  | value :: values =>
    some (values.foldl (fun minVal v => if v < minVal then v else minVal) value,
      values.foldl (fun maxVal v => if maxVal < v then v else maxVal) value)

/-- A result of type `long long`; there is none where it overflows. -/
def longLong (z : Int) : Option Int := if InRange 64 z then some z else none

/-- Whether an LLVM switch is built; nothing where the test overflows. -/
def isDense (conditionIsInteger : Bool) (values : List Int) : Option Bool :=
  match bounds values with
  | none => some false
  | some (minVal, maxVal) => do
    let difference ← longLong (maxVal - minVal)
    let span ← longLong (difference + 1)
    return conditionIsInteger && decide (0 < span) && decide (span ≤ values.length * 2)

def entryTarget (default : Target) (entry : Option (CaseEntry w)) : Target :=
  (entry.map fun e => .label e.sourceIndex).getD default

/-- An LLVM switch is no valid code where two of its cases have one value. -/
def switchInstruction (entries : List (CaseEntry w)) (default : Target) (condition : BitVec w) :
    Option Target :=
  if (entries.map (·.constVal)).Nodup then
    some (entryTarget default (entries.find? (·.constVal == condition)))
  else none

def comparisonChain (default : Target) (condition : BitVec w) : List (CaseEntry w) → Target
  | [] => default
  | entry :: entries =>
    if condition = entry.constVal then .label entry.sourceIndex
    else comparisonChain default condition entries

/-- Where `codegenSwitch` branches for a condition of an integer type. -/
def codegenSwitch (w : Nat) (labels : Labels) (condition : BitVec w) : Option Target := do
  let entries := caseEntries w labels
  let dense ← isDense true (entries.map (·.value.toInt))
  if dense then switchInstruction entries (defaultTarget labels) condition
  else return comparisonChain (defaultTarget labels) condition entries

-- The case that C selects

def promotedType (w : Nat) (isUnsigned : Bool) : TypeInfo := integerPromote (makeIntegerType w (!isUnsigned))

def converted (w : Nat) (isUnsigned : Bool) (constant : ConstEvalResult) : Int :=
  let promoted := promotedType w isUnsigned
  wrap promoted.bitWidth (!promoted.isSigned) constant.amount

/-- Promotion keeps the value of the condition. -/
def selectedTarget (w : Nat) (isUnsigned : Bool) (labels : Labels) (condition : BitVec w) : Target :=
  (((indexed 0 labels).find? fun entry => converted w isUnsigned entry.2 == read isUnsigned condition).map
    fun entry => .label entry.1).getD (defaultTarget labels)

-- The checker

def normalizeSwitchCaseValue (value : ConstEvalResult) (switchBits : Nat) (switchIsUnsigned : Bool) :
    BitVec 64 :=
  let bits := if switchBits = 0 then if value.bitWidth = 0 then 64 else value.bitWidth else switchBits
  if 64 ≤ bits then value.value
  else
    let mask := (1#64 <<< bits) - 1#64
    let normalized := value.value &&& mask
    if !switchIsUnsigned && 0 < bits && normalized &&& (1#64 <<< (bits - 1)) ≠ 0 then normalized ||| ~~~mask
    else normalized

/-- `none` where the value is there already. -/
def switchFrameRecordValue (values : List (BitVec 64)) (value : BitVec 64) : Option (List (BitVec 64)) :=
  if value ∈ values then none else some (values ++ [value])

-- Where both agree

/-- The type of the condition, before it is promoted, has the converted constant. -/
def Fits (w : Nat) (isUnsigned : Bool) (constant : ConstEvalResult) : Prop :=
  converted w isUnsigned constant = read isUnsigned (constant.value.signExtend w)

instance : Decidable (Fits w isUnsigned constant) := inferInstanceAs (Decidable (_ = _))

def cutValues (w : Nat) (labels : Labels) : List Int :=
  (labels.filterMap id).map fun constant => ((constant.value.signExtend w).signExtend 64).toInt

/-- No test of density overflows, and constants that the condition's type does not have stand behind one
that it has; those of a dense switch stay distinct. -/
structure Dispatchable (w : Nat) (isUnsigned : Bool) (labels : Labels) : Prop where
  span : ∀ a ∈ cutValues w labels, ∀ b ∈ cutValues w labels, b - a < 2 ^ 63 - 1
  fits : ∀ constant ∈ labels.filterMap id, if 64 < w then Fits w isUnsigned constant else
    ∃ first, (labels.filterMap id).find? (fun c => c.value.signExtend w == constant.value.signExtend w) =
      some first ∧
      Fits w isUnsigned first
  distinct : labels.filterMap id ≠ [] →
    (∀ a ∈ cutValues w labels, ∀ b ∈ cutValues w labels, b - a < 2 * (labels.filterMap id).length) →
    ((labels.filterMap id).map fun constant => constant.value.signExtend w).Nodup

-- The test of density

theorem foldl_min [LinearOrder α] (values : List α) (start : α) :
    let low := values.foldl (fun minVal v => if v < minVal then v else minVal) start
    (low = start ∨ low ∈ values) ∧ low ≤ start ∧ ∀ v ∈ values, low ≤ v := by
  induction values generalizing start with
  | nil => simp
  | cons value values ih =>
    obtain ⟨hmem, hstart, hvalues⟩ := ih (if value < start then value else start)
    simp only [List.foldl_cons, List.mem_cons, forall_eq_or_imp] at hmem hstart hvalues ⊢
    split_ifs at hmem hstart hvalues ⊢ with hless
    · exact ⟨.inr hmem, hstart.trans hless.le, hstart, hvalues⟩
    · exact ⟨hmem.imp_right .inr, hstart, hstart.trans (not_lt.mp hless), hvalues⟩

theorem foldl_max (values : List Int) (start : Int) :
    let high := values.foldl (fun maxVal v => if maxVal < v then v else maxVal) start
    (high = start ∨ high ∈ values) ∧ start ≤ high ∧ ∀ v ∈ values, v ≤ high :=
  foldl_min (α := Intᵒᵈ) values start

theorem bounds_spec (h : bounds values = some (minVal, maxVal)) :
    (minVal ∈ values ∧ maxVal ∈ values) ∧ ∀ v ∈ values, minVal ≤ v ∧ v ≤ maxVal := by
  cases values with
  | nil => cases h
  | cons value values => ?_
  obtain ⟨rfl, rfl⟩ := h
  obtain ⟨hminMem, hminStart, hmin⟩ := foldl_min values value
  obtain ⟨hmaxMem, hmaxStart, hmax⟩ := foldl_max values value
  refine ⟨⟨List.mem_cons.mpr hminMem, List.mem_cons.mpr hmaxMem⟩, ?_⟩
  rw [List.forall_mem_cons]
  exact ⟨⟨hminStart, hmaxStart⟩, fun v hv => ⟨hmin v hv, hmax v hv⟩⟩

theorem bounds_none (h : bounds values = none) : values = [] := by
  cases values with
  | nil => rfl
  | cons value values => cases h

theorem forall_distance (h : bounds values = some (minVal, maxVal)) (bound : Int) :
    (∀ a ∈ values, ∀ b ∈ values, b - a < bound) ↔ maxVal - minVal < bound := by
  obtain ⟨⟨hmin, hmax⟩, hall⟩ := bounds_spec h
  constructor
  · intro hpairs
    exact hpairs minVal hmin maxVal hmax
  · intro hbound a ha b hb
    have hlow := (hall a ha).1
    have hhigh := (hall b hb).2
    omega

theorem longLong_of_nonneg (h : 0 ≤ z) : longLong z = if z < 2 ^ 63 then some z else none := by
  have hrange : InRange 64 z ↔ z < 2 ^ 63 := by
    simp only [InRange]
    omega
  simp only [longLong, hrange]

theorem isDense_eq (values : List Int) :
    isDense true values =
      if ∀ a ∈ values, ∀ b ∈ values, b - a < 2 ^ 63 - 1 then
        some (decide (values ≠ [] ∧ ∀ a ∈ values, ∀ b ∈ values, b - a < 2 * values.length))
      else none := by
  unfold isDense
  cases hbounds : bounds values with
  | none =>
    obtain rfl := bounds_none hbounds
    simp
  | some r => ?_
  obtain ⟨minVal, maxVal⟩ := r
  obtain ⟨⟨hmin, -⟩, hall⟩ := bounds_spec hbounds
  have hne : values ≠ [] := List.ne_nil_of_mem hmin
  have horder := (hall minVal hmin).2
  simp only [forall_distance hbounds]
  rw [longLong_of_nonneg (by omega)]
  split_ifs with hdifference hspan hspan
  · have hsome : longLong (maxVal - minVal + 1) = some (maxVal - minVal + 1) := by
      rw [longLong_of_nonneg (by omega), if_pos (by omega)]
    have hpositive : 0 < maxVal - minVal + 1 := by omega
    have htwice : maxVal - minVal + 1 ≤ values.length * 2 ↔ maxVal - minVal < 2 * values.length := by omega
    simp [hsome, hpositive, htwice, hne]
  · have hnone : longLong (maxVal - minVal + 1) = none := by
      rw [longLong_of_nonneg (by omega), if_neg (by omega)]
    simp [hnone]
  · omega
  · rfl

-- Entries

theorem indexed_constants (i : Nat) (labels : Labels) : (indexed i labels).map (·.2) = labels.filterMap id := by
  induction labels generalizing i with
  | nil => rfl
  | cons label labels ih =>
    cases label with
    | none => exact ih (i + 1)
    | some constant => simp [indexed, ih]

theorem indexed_get (h : entry ∈ indexed i labels) :
    ∃ k, entry.1 = i + k ∧ labels[k]? = some (some entry.2) := by
  induction labels generalizing i with
  | nil => cases h
  | cons label labels ih =>
    cases label with
    | none =>
      obtain ⟨k, hk, hget⟩ := ih h
      exact ⟨k + 1, by omega, hget⟩
    | some constant => ?_
    rcases List.mem_cons.mp h with rfl | hrest
    · exact ⟨0, rfl, rfl⟩
    · obtain ⟨k, hk, hget⟩ := ih hrest
      exact ⟨k + 1, by omega, hget⟩

theorem caseEntries_constVal (w : Nat) (labels : Labels) :
    (caseEntries w labels).map (·.constVal) = (labels.filterMap id).map fun c => c.value.signExtend w := by
  rw [← indexed_constants 0, caseEntries, List.map_map, List.map_map]
  rfl

theorem caseEntries_value (w : Nat) (labels : Labels) :
    (caseEntries w labels).map (·.value.toInt) = cutValues w labels := by
  rw [cutValues, ← indexed_constants 0, caseEntries, List.map_map, List.map_map]
  rfl

theorem comparisonChain_eq (default : Target) (condition : BitVec w) (entries : List (CaseEntry w)) :
    comparisonChain default condition entries =
      entryTarget default (entries.find? (·.constVal == condition)) := by
  induction entries with
  | nil => rfl
  | cons entry entries ih =>
    by_cases h : condition = entry.constVal
    · simp [comparisonChain, entryTarget, h]
    have hflip : ¬ entry.constVal = condition := Ne.symm h
    simp [comparisonChain, h, hflip, ih]

def placeTarget (labels : Labels) (found : Option (Nat × ConstEvalResult)) : Target :=
  (found.map fun entry => .label entry.1).getD (defaultTarget labels)

theorem entryTarget_find (w : Nat) (labels : Labels) (condition : BitVec w) :
    entryTarget (defaultTarget labels) ((caseEntries w labels).find? (·.constVal == condition)) =
      placeTarget labels ((indexed 0 labels).find? fun entry => entry.2.value.signExtend w == condition) := by
  rw [caseEntries, List.find?_map, entryTarget, Option.map_map]
  rfl

theorem defaultTarget_ne (h : entry ∈ indexed 0 labels) : defaultTarget labels ≠ .label entry.1 := by
  obtain ⟨k, hk, hget⟩ := indexed_get h
  intro hsame
  rw [defaultTarget, hk] at hsame
  cases hfound : labels.findIdx? Option.isNone with
  | none =>
    rw [hfound] at hsame
    cases hsame
  | some j => ?_
  rw [hfound] at hsame
  obtain rfl : j = k := by simpa using hsame
  obtain ⟨hlt, hnone, -⟩ := List.findIdx?_eq_some_iff_getElem.mp hfound
  rw [List.getElem?_eq_getElem hlt, Option.some.injEq] at hget
  rw [hget] at hnone
  cases hnone

theorem placeTarget_inj (ha : ∀ entry ∈ a, entry ∈ indexed 0 labels)
    (hb : ∀ entry ∈ b, entry ∈ indexed 0 labels)
    (h : placeTarget labels a = placeTarget labels b) : a = b := by
  cases a with
  | none =>
    cases b with
    | none => rfl
    | some second => exact absurd h (defaultTarget_ne (hb second rfl))
  | some first => ?_
  cases b with
  | none => exact absurd h.symm (defaultTarget_ne (ha first rfl))
  | some second => ?_
  obtain ⟨i, hi, hfirst⟩ := indexed_get (ha first rfl)
  obtain ⟨j, hj, hsecond⟩ := indexed_get (hb second rfl)
  have hplace : first.1 = second.1 := by simpa [placeTarget] using h
  obtain rfl : i = j := by omega
  rw [hfirst, Option.some.injEq, Option.some.injEq] at hsecond
  exact congrArg some (Prod.ext hplace hsecond)

-- Constants at the width of the condition

theorem promotedType_width (w : Nat) (isUnsigned : Bool) :
    (promotedType w isUnsigned).bitWidth = if 32 ≤ w then w else 32 := by
  by_cases hw : 32 ≤ w
  · simp [promotedType, integerPromote, makeIntegerType, hw]
  · simp [promotedType, integerPromote, typeInfoIsInteger, makeIntegerType, hw]

theorem promotedType_wide (isUnsigned : Bool) (hw : 32 ≤ w) :
    promotedType w isUnsigned = makeIntegerType w (!isUnsigned) := by
  simp [promotedType, integerPromote, makeIntegerType, hw]

theorem signExtend_of_converted (hw : w ≤ 64)
    (h : converted w isUnsigned constant = read isUnsigned condition) :
    constant.value.signExtend w = condition := by
  have hpromoted : w ≤ (promotedType w isUnsigned).bitWidth := by
    rw [promotedType_width]
    split_ifs <;> omega
  calc constant.value.signExtend w = ofInt w (read false constant.value) := rfl
    _ = constant.value.setWidth w := Word.ofInt_read_of_le hw false _
    _ = ofInt w constant.amount := (Word.ofInt_read_of_le hw _ _).symm
    _ = ofInt w (converted w isUnsigned constant) := (Word.ofInt_wrap_of_le hpromoted _ _).symm
    _ = condition := by rw [h, Word.ofInt_read]

theorem converted_wide (hw : 32 ≤ w) (isUnsigned : Bool) (constant : ConstEvalResult) :
    converted w isUnsigned constant = read isUnsigned (ofInt w constant.amount) := by
  rw [converted, promotedType_wide isUnsigned hw, ← Word.wrap_eq_read]
  simp [makeIntegerType]

theorem signExtend_ne (hw : 64 < w) (h : ¬ Fits w isUnsigned constant)
    (other : ConstEvalResult) : other.value.signExtend w ≠ ofInt w constant.amount := by
  rw [Fits, converted_wide (by omega), Word.read_inj] at h
  have hunsigned : constant.isUnsigned = true := by
    cases hsign : constant.isUnsigned with
    | true => rfl
    | false =>
      refine absurd ?_ h
      rw [ConstEvalResult.amount, hsign]
      rfl
  have hamount : constant.amount = constant.value.toNat := by
    rw [ConstEvalResult.amount, hunsigned]
    rfl
  have hpow : (2 : Int) ^ 64 ≤ 2 ^ (w - 1) := pow_le_pow_right₀ (by decide) (by omega)
  have hlarge : ¬ (constant.value.toNat : Int) = constant.value.toInt := by
    intro hsame
    refine h ?_
    rw [hamount, hsame]
    rfl
  have hself := BitVec.toInt_eq_toNat_cond constant.value
  have hlow := BitVec.le_toInt other.value
  have hhigh := BitVec.toInt_lt (x := other.value)
  intro hsame
  have hints := congrArg BitVec.toInt hsame
  rw [hamount, BitVec.signExtend, BitVec.toInt_ofInt_eq_self (by omega) (by omega) (by omega),
    BitVec.toInt_ofInt_eq_self (by omega) (by omega) (by omega)] at hints
  split_ifs at hself <;> omega

-- Where the same case is found

theorem find_eq_find_iff {p q : α → Bool} (hstronger : ∀ a, q a = true → p a = true) (l : List α) :
    l.find? p = l.find? q ↔ ∀ a ∈ l.find? p, q a = true := by
  constructor
  · intro h a ha
    rw [h] at ha
    exact List.find?_some ha
  · intro h
    cases hfound : l.find? p with
    | none =>
      symm
      rw [List.find?_eq_none] at hfound ⊢
      exact fun a ha hq => hfound a ha (hstronger a hq)
    | some a => ?_
    have ha : q a = true := h a hfound
    symm
    rw [List.find?_eq_some_iff_append] at hfound ⊢
    obtain ⟨-, front, back, hl, hfront⟩ := hfound
    refine ⟨ha, front, back, hl, fun b hb => ?_⟩
    have hnone := hfront b hb
    cases hq : q b with
    | false => rfl
    | true =>
      rw [hstronger b hq] at hnone
      cases hnone

/-- The comparisons find the cases that C selects. -/
def FindsSelected (w : Nat) (isUnsigned : Bool) (labels : Labels) : Prop :=
  ∀ condition : BitVec w,
    ((indexed 0 labels).find? fun entry => entry.2.value.signExtend w == condition) =
      (indexed 0 labels).find? fun entry => converted w isUnsigned entry.2 == read isUnsigned condition

theorem find_constant (labels : Labels) (p : ConstEvalResult → Bool) :
    (labels.filterMap id).find? p = ((indexed 0 labels).find? fun entry => p entry.2).map (·.2) := by
  rw [← indexed_constants 0, List.find?_map]
  rfl

theorem mem_constants : constant ∈ labels.filterMap id ↔ ∃ entry ∈ indexed 0 labels, entry.2 = constant := by
  rw [← indexed_constants 0, List.mem_map]

/-- Up to 64 bits the selected cases are among those that are compared. -/
theorem findsSelected_narrow (hw : w ≤ 64) :
    FindsSelected w isUnsigned labels ↔ ∀ constant ∈ labels.filterMap id,
      ∃ first, (labels.filterMap id).find? (fun c => c.value.signExtend w == constant.value.signExtend w) =
        some first ∧
        Fits w isUnsigned first := by
  have hfind : ∀ condition : BitVec w,
      ((indexed 0 labels).find? fun entry => entry.2.value.signExtend w == condition) =
        ((indexed 0 labels).find? fun entry => converted w isUnsigned entry.2 == read isUnsigned condition) ↔
      ∀ entry ∈ (indexed 0 labels).find? fun entry => entry.2.value.signExtend w == condition,
        Fits w isUnsigned entry.2 := by
    intro condition
    rw [find_eq_find_iff fun entry h => ?_]
    · refine forall₂_congr fun entry hentry => ?_
      have hcut : entry.2.value.signExtend w = condition := by simpa using List.find?_some hentry
      rw [beq_iff_eq, Fits, hcut]
    · simpa using signExtend_of_converted hw (by simpa using h)
  simp only [FindsSelected, hfind, find_constant]
  constructor
  · intro h constant hconstant
    obtain ⟨entry, hentry, rfl⟩ := mem_constants.mp hconstant
    have hsome : ((indexed 0 labels).find? fun e =>
        e.2.value.signExtend w == entry.2.value.signExtend w).isSome := by
      rw [List.find?_isSome]
      exact ⟨entry, hentry, by simp⟩
    obtain ⟨first, hfirst⟩ := Option.isSome_iff_exists.mp hsome
    exact ⟨first.2, by rw [hfirst]; rfl, h _ first hfirst⟩
  · intro h condition entry hentry
    have hcut : entry.2.value.signExtend w = condition := by simpa using List.find?_some hentry
    have hmem : entry ∈ indexed 0 labels := List.mem_of_find?_eq_some hentry
    obtain ⟨first, hfirst, hfits⟩ := h entry.2 (mem_constants.mpr ⟨entry, hmem, rfl⟩)
    rw [hcut, hentry] at hfirst
    cases hfirst
    exact hfits

theorem findsSelected_wide (hw : 64 < w) :
    FindsSelected w isUnsigned labels ↔ ∀ constant ∈ labels.filterMap id, Fits w isUnsigned constant := by
  constructor
  · intro h constant hconstant
    by_contra hfits
    obtain ⟨entry, hentry, rfl⟩ := mem_constants.mp hconstant
    have hsame := h (ofInt w entry.2.amount)
    have hnone : ((indexed 0 labels).find? fun e => e.2.value.signExtend w == ofInt w entry.2.amount) =
        none := by
      rw [List.find?_eq_none]
      intro other _ hother
      exact signExtend_ne hw hfits other.2 (by simpa using hother)
    rw [hnone] at hsame
    have hselected := List.find?_eq_none.mp hsame.symm entry hentry
    rw [beq_iff_eq] at hselected
    exact hselected (converted_wide (by omega) isUnsigned entry.2)
  · intro h condition
    rw [← List.head?_filter, ← List.head?_filter]
    refine congrArg List.head? (List.filter_congr fun entry hentry => ?_)
    have hfits : Fits w isUnsigned entry.2 := h entry.2 (mem_constants.mpr ⟨entry, hentry, rfl⟩)
    rw [Bool.eq_iff_iff, beq_iff_eq, beq_iff_eq, hfits, Word.read_inj]

-- Both forms

theorem targets_iff (w : Nat) (isUnsigned : Bool) (labels : Labels) :
    (∀ condition : BitVec w, entryTarget (defaultTarget labels)
      ((caseEntries w labels).find? (·.constVal == condition)) = selectedTarget w isUnsigned labels condition) ↔
      FindsSelected w isUnsigned labels := by
  refine forall_congr' fun condition => ?_
  rw [entryTarget_find]
  constructor
  · intro h
    exact placeTarget_inj (fun _ he => List.mem_of_find?_eq_some he)
      (fun _ he => List.mem_of_find?_eq_some he) h
  · intro h
    rw [h]
    rfl

theorem findsSelected_iff : FindsSelected w isUnsigned labels ↔ ∀ constant ∈ labels.filterMap id,
    if 64 < w then Fits w isUnsigned constant else
      ∃ first, (labels.filterMap id).find? (fun c => c.value.signExtend w == constant.value.signExtend w) =
        some first ∧
        Fits w isUnsigned first := by
  split_ifs with hw
  · exact findsSelected_wide hw
  · exact findsSelected_narrow (Nat.le_of_not_lt hw)

/-- An LLVM switch has distinct cases, the chain takes the first; else both go where the value is found. -/
theorem codegenSwitch_eq (w : Nat) (labels : Labels) (condition : BitVec w) :
    codegenSwitch w labels condition = (isDense true (cutValues w labels)).bind fun dense =>
      if dense = true ∧ ¬ ((caseEntries w labels).map (·.constVal)).Nodup then none
      else some (entryTarget (defaultTarget labels)
        ((caseEntries w labels).find? (·.constVal == condition))) := by
  dsimp only [codegenSwitch]
  rw [caseEntries_value]
  cases isDense true (cutValues w labels) with
  | none => rfl
  | some dense => ?_
  cases dense with
  | false => simp [comparisonChain_eq]
  | true =>
    by_cases hnodup : ((caseEntries w labels).map (·.constVal)).Nodup <;> simp [switchInstruction, hnodup]

/-- The dispatch goes where C says exactly in these switches. -/
theorem codegenSwitch_selects_iff (w : Nat) (isUnsigned : Bool) (labels : Labels) :
    (∀ condition : BitVec w, codegenSwitch w labels condition =
      some (selectedTarget w isUnsigned labels condition)) ↔
      Dispatchable w isUnsigned labels := by
  have hlength : (cutValues w labels).length = (labels.filterMap id).length := by simp [cutValues]
  have hempty : cutValues w labels ≠ [] ↔ labels.filterMap id ≠ [] := by simp [cutValues]
  simp only [codegenSwitch_eq, isDense_eq, hlength, hempty, caseEntries_constVal]
  by_cases hspan : ∀ a ∈ cutValues w labels, ∀ b ∈ cutValues w labels, b - a < 2 ^ 63 - 1
  · rw [if_pos hspan]
    simp only [Option.bind_some, decide_eq_true_eq]
    by_cases hdistinct : (labels.filterMap id ≠ [] ∧
        ∀ a ∈ cutValues w labels, ∀ b ∈ cutValues w labels, b - a < 2 * (labels.filterMap id).length) ∧
        ¬ ((labels.filterMap id).map fun constant => constant.value.signExtend w).Nodup
    · refine iff_of_false ?_ ?_
      · intro h
        have hzero := h 0
        rw [if_pos hdistinct] at hzero
        cases hzero
      · intro h
        exact hdistinct.2 (h.distinct hdistinct.1.1 hdistinct.1.2)
    · simp only [if_neg hdistinct, Option.some.injEq]
      rw [targets_iff, findsSelected_iff]
      constructor
      · intro h
        refine ⟨hspan, h, fun hne hclose => ?_⟩
        by_contra hnodup
        exact hdistinct ⟨⟨hne, hclose⟩, hnodup⟩
      · intro h
        exact h.fits
  · rw [if_neg hspan]
    refine iff_of_false ?_ fun h => hspan h.span
    intro h
    cases h 0

/-- `case 256` of an `unsigned char` is taken for 0. -/
theorem wideCase_taken :
    ¬ ∀ (w : Nat) (isUnsigned : Bool) (labels : Labels) (condition : BitVec w),
      (labels.map (Option.map (·.value))).Nodup →
      codegenSwitch w labels condition = some (selectedTarget w isUnsigned labels condition) := by
  intro hall
  have hzero := hall 8 true [some ⟨256, 32, false⟩] 0 (by decide)
  revert hzero
  decide

-- Distinct constants

theorem mask_getLsbD (hbits : bits < 64) (i : Nat) :
    ((1#64 <<< bits) - 1#64).getLsbD i = decide (i < bits) := by
  have hpow : 2 ^ bits < 2 ^ 64 := Nat.pow_lt_pow_right (by decide) hbits
  have hpositive : 0 < 2 ^ bits := Nat.two_pow_pos bits
  have hone : (1#64).toNat = 1 := rfl
  have hshift : (1#64 <<< bits).toNat = 2 ^ bits := by
    rw [BitVec.toNat_shiftLeft, Nat.shiftLeft_eq, hone, Nat.one_mul, Nat.mod_eq_of_lt hpow]
  have hmask : ((1#64 <<< bits) - 1#64).toNat = 2 ^ bits - 1 := by
    rw [BitVec.toNat_sub, hshift, hone]
    omega
  rw [BitVec.getLsbD, hmask, Nat.testBit_two_pow_sub_one]

/-- The low bits of a value, with zeroes or copies of the highest of them in front. -/
theorem extended_getLsbD (value : BitVec 64) (hpositive : 0 < bits) (isUnsigned : Bool) (i : Nat)
    (hi : i < 64) :
    (ofInt 64 (read isUnsigned (value.setWidth bits))).getLsbD i =
      if i < bits then value.getLsbD i else !isUnsigned && value.getLsbD (bits - 1) := by
  cases isUnsigned with
  | true =>
    have hzext : ofInt 64 (read true (value.setWidth bits)) = (value.setWidth bits).setWidth 64 := by
      rw [Word.read, if_pos rfl, BitVec.ofInt_natCast, BitVec.ofNat_toNat]
    rw [hzext]
    by_cases hlow : i < bits <;> simp [hlow, hi]
  | false =>
    have hsext : ofInt 64 (read false (value.setWidth bits)) = (value.setWidth bits).signExtend 64 := rfl
    have hlast : bits - 1 < bits := by omega
    rw [hsext, BitVec.getLsbD_signExtend, BitVec.msb_eq_getLsbD_last]
    by_cases hlow : i < bits <;> simp [hlow, hi, hlast]

theorem signBit_iff (value : BitVec 64) (hpositive : 0 < bits) (hbits : bits < 64) :
    value &&& ((1#64 <<< bits) - 1#64) &&& (1#64 <<< (bits - 1)) ≠ 0 ↔ value.getLsbD (bits - 1) = true := by
  have hsign : 1#64 <<< (bits - 1) = BitVec.twoPow 64 (bits - 1) := rfl
  have hlast : bits - 1 < bits := by omega
  have hnonzero : BitVec.twoPow 64 (bits - 1) ≠ 0 := by
    intro hzero
    have hbit := congrArg (fun b : BitVec 64 => b.getLsbD (bits - 1)) hzero
    have hfit : bits - 1 < 64 := by omega
    simp [hfit] at hbit
  rw [hsign, BitVec.and_twoPow, BitVec.getLsbD_and, mask_getLsbD hbits]
  simp only [hlast, decide_true, Bool.and_true]
  split_ifs with hbit
  · exact iff_of_true hnonzero hbit
  · exact iff_of_false (fun h => h rfl) hbit

theorem normalizeSwitchCaseValue_eq (value : ConstEvalResult) (hpositive : 0 < bits) (isUnsigned : Bool) :
    normalizeSwitchCaseValue value bits isUnsigned =
      if 64 ≤ bits then value.value else ofInt 64 (wrap bits isUnsigned value.amount) := by
  have hnonzero : ¬ bits = 0 := by omega
  simp only [normalizeSwitchCaseValue, hnonzero, if_false]
  by_cases hwide : 64 ≤ bits
  · rw [if_pos hwide, if_pos hwide]
  have hbits : bits < 64 := by omega
  have hsign := signBit_iff value.value hpositive hbits
  have hlow : ofInt bits value.amount = value.value.setWidth bits :=
    Word.ofInt_read_of_le (Nat.le_of_lt hbits) _ _
  rw [if_neg hwide, if_neg hwide, Word.wrap_eq_read, hlow]
  apply BitVec.eq_of_getLsbD_eq
  intro i hi
  rw [extended_getLsbD value.value hpositive isUnsigned i hi]
  simp only [hpositive, hsign, decide_true, Bool.and_true, Bool.and_eq_true, Bool.not_eq_true',
    decide_eq_true_eq]
  have hmask := mask_getLsbD hbits i
  split_ifs with hnegative hlow hlow
  · simp [hmask, hlow]
  · rw [BitVec.getLsbD_or, BitVec.getLsbD_and, BitVec.getLsbD_not, hmask]
    simp [hlow, hnegative, hi]
  · simp [hmask, hlow]
  · cases isUnsigned <;> simp_all

end Fisics.Switch
