import Fisics.CodeGen.AggregateAbi

/-!
# The lowering of aggregates against the standard

The members that the code counts are the leaves of the type, as long as no array or
structure is empty and none lies deeper than eight levels.
-/

namespace Fisics.Aggregates

-- Leaves

mutual
def LlvmType.leaves : LlvmType → List Scalar
  | .scalar s => [s]
  | .array length elem => (List.replicate length elem.leaves).flatten
  | .struct fields => fieldsLeaves fields

def fieldsLeaves : List LlvmType → List Scalar
  | [] => []
  | field :: fields => field.leaves ++ fieldsLeaves fields
end

mutual
def LlvmType.depth : LlvmType → Nat
  | .scalar _ => 0
  | .array _ elem => elem.depth + 1
  | .struct fields => fieldsDepth fields + 1

def fieldsDepth : List LlvmType → Nat
  | [] => 0
  | field :: fields => max field.depth (fieldsDepth fields)
end

mutual
def LlvmType.all (p : LlvmType → Bool) : LlvmType → Bool
  | .scalar s => p (.scalar s)
  | .array length elem => p (.array length elem) && elem.all p
  | .struct fields => p (.struct fields) && fieldsAll p fields

def fieldsAll (p : LlvmType → Bool) : List LlvmType → Bool
  | [] => true
  | field :: fields => field.all p && fieldsAll p fields
end

def LlvmType.isFilled : LlvmType → Bool
  | .scalar _ => true
  | .array length _ => length != 0
  | .struct fields => fields.length != 0

def LlvmType.isFloating : LlvmType → Bool
  | .scalar s => s.isFloat
  | .array _ _ => true
  | .struct fields => fields.length != 0

/-- One to four floating members of one type. -/
def homogeneous : List Scalar → Bool
  | [] => false
  | s :: rest => s.isFloat && (rest.all (· == s) && rest.length < 4)

def LlvmType.isHomogeneous (t : LlvmType) : Bool := homogeneous t.leaves

-- Sizes

theorem le_roundUp (n : Nat) (ha : 0 < align) : n ≤ roundUp n align := by
  have hdiv := Nat.div_add_mod (n + align - 1) align
  have hmod := Nat.mod_lt (n + align - 1) ha
  rw [roundUp, Nat.mul_comm]
  omega

theorem scalar_size_pos (s : Scalar) : 0 < s.size := by
  cases s <;> decide

mutual
theorem align_pos : (t : LlvmType) → 0 < t.align
  | .scalar s => scalar_size_pos s
  | .array _ elem => align_pos elem
  | .struct fields => fieldsAlign_pos fields

theorem fieldsAlign_pos : (fields : List LlvmType) → 0 < fieldsAlign fields
  | [] => Nat.one_pos
  | field :: _ => Nat.lt_of_lt_of_le (align_pos field) (Nat.le_max_left _ _)
end

mutual
theorem size_pos : (t : LlvmType) → t.leaves ≠ [] → 0 < t.size
  | .scalar s, _ => scalar_size_pos s
  | .array length elem, h => by
    have helem : elem.leaves ≠ [] := by
      intro hnil
      apply h
      rw [LlvmType.leaves, hnil]
      simp
    have hlength : length ≠ 0 := by
      rintro rfl
      exact h rfl
    exact Nat.mul_pos (Nat.pos_of_ne_zero hlength) (size_pos elem helem)
  | .struct fields, h => by
    exact Nat.lt_of_lt_of_le (lt_fieldsEnd 0 fields h) (le_roundUp _ (fieldsAlign_pos fields))

theorem lt_fieldsEnd (offset : Nat) : (fields : List LlvmType) → fieldsLeaves fields ≠ [] →
    offset < fieldsEnd offset fields
  | [], h => absurd rfl h
  | field :: fields, h => by
    have hround := le_roundUp offset (align_pos field)
    have hend := le_fieldsEnd (roundUp offset field.align + field.size) fields
    rw [fieldsEnd]
    by_cases hfield : field.leaves = []
    · have hfields : fieldsLeaves fields ≠ [] := by
        intro hnil
        apply h
        rw [fieldsLeaves, hfield, hnil]
        rfl
      have hlt := lt_fieldsEnd (roundUp offset field.align + field.size) fields hfields
      omega
    · have hpos := size_pos field hfield
      omega

theorem le_fieldsEnd (offset : Nat) : (fields : List LlvmType) → offset ≤ fieldsEnd offset fields
  | [] => Nat.le_refl _
  | field :: fields => by
    have hround := le_roundUp offset (align_pos field)
    have hend := le_fieldsEnd (roundUp offset field.align + field.size) fields
    rw [fieldsEnd]
    omega
end

-- Members

def addMember (st : Members) (s : Scalar) : Option Members :=
  if s.isMember then
    if st.scalar.isSome ∧ st.scalar ≠ some s then none
    else if st.count + 1 ≤ 4 then some ⟨some s, st.count + 1⟩
    else none
  else none

theorem times_foldlM (f : α → β → Option α) (l : List β) (n : Nat) (a : α) :
    times n (fun a => l.foldlM f a) a = (List.replicate n l).flatten.foldlM f a := by
  induction n generalizing a with
  | zero => rfl
  | succ n ih =>
    rw [times, List.replicate_succ, List.flatten_cons, List.foldlM_append]
    exact Option.bind_congr fun a _ => ih a

theorem addMember_some (h : addMember st s = some next) : next.count = st.count + 1 ∧ next.count ≤ 4 := by
  unfold addMember at h
  split at h
  · split at h
    · cases h
    · split at h
      · cases h
        exact ⟨rfl, ‹_›⟩
      · cases h
  · cases h

theorem foldlM_count (h : ls.foldlM addMember st = some st') (hne : ls ≠ []) :
    st.count + ls.length ≤ 4 := by
  induction ls generalizing st with
  | nil => exact absurd rfl hne
  | cons s ls ih =>
    obtain ⟨next, hnext, hrest⟩ := Option.bind_eq_some_iff.mp h
    obtain ⟨hcount, hle⟩ := addMember_some hnext
    rw [List.length_cons]
    by_cases hnil : ls = []
    · subst hnil
      rw [List.length_nil]
      omega
    · have hlength := ih hrest hnil
      omega

theorem foldlM_none_of_long {ls : List Scalar} (h : 4 < ls.length) : ls.foldlM addMember st = none := by
  cases hfold : ls.foldlM addMember st with
  | none => rfl
  | some st' => ?_
  have hne : ls ≠ [] := by
    rintro rfl
    cases h
  have hle := foldlM_count hfold hne
  omega

mutual
theorem leaves_pos : (t : LlvmType) → t.all LlvmType.isFilled = true → 0 < t.leaves.length
  | .scalar _, _ => Nat.one_pos
  | .array length elem, h => by
    rw [LlvmType.all, Bool.and_eq_true] at h
    have hlength : length ≠ 0 := by simpa [LlvmType.isFilled] using h.1
    have helem := leaves_pos elem h.2
    rw [LlvmType.leaves]
    simp only [List.length_flatten, List.map_replicate, List.sum_replicate_nat]
    exact Nat.mul_pos (Nat.pos_of_ne_zero hlength) helem
  | .struct fields, h => by
    rw [LlvmType.all, Bool.and_eq_true] at h
    have hlength : fields.length ≠ 0 := by simpa [LlvmType.isFilled] using h.1
    have hle := length_le_leaves fields h.2
    rw [LlvmType.leaves]
    omega

theorem length_le_leaves : (fields : List LlvmType) → fieldsAll LlvmType.isFilled fields = true →
    fields.length ≤ (fieldsLeaves fields).length
  | [], _ => Nat.le_refl _
  | field :: fields, h => by
    rw [fieldsAll, Bool.and_eq_true] at h
    have hfield := leaves_pos field h.1
    have hle := length_le_leaves fields h.2
    rw [fieldsLeaves, List.length_append, List.length_cons]
    omega
end

mutual
theorem members_eq (depth : Nat) : (t : LlvmType) → (st : Members) →
    members depth t st =
      if depth + t.depth ≤ 8 ∧ t.all LlvmType.isFilled = true then t.leaves.foldlM addMember st
      else none
  | .scalar s, st => by
    by_cases hdepth : 8 < depth
    · have hdeep : ¬(depth + (LlvmType.scalar s).depth ≤ 8 ∧
          (LlvmType.scalar s).all LlvmType.isFilled = true) := by
        omega
      rw [members, if_pos hdepth, if_neg hdeep]
    · have hshallow : depth + (LlvmType.scalar s).depth ≤ 8 ∧
          (LlvmType.scalar s).all LlvmType.isFilled = true := ⟨by rw [LlvmType.depth]; omega, rfl⟩
      rw [members, if_neg hdepth, if_pos hshallow, LlvmType.leaves, List.foldlM_cons]
      exact (bind_pure (addMember st s)).symm
  | .array length elem, st => by
    have helem := funext (members_eq (depth + 1) elem)
    have hiff : depth + (LlvmType.array length elem).depth ≤ 8 ∧
        (LlvmType.array length elem).all LlvmType.isFilled = true ↔
        length ≠ 0 ∧ depth + 1 + elem.depth ≤ 8 ∧ elem.all LlvmType.isFilled = true := by
      rw [LlvmType.depth, LlvmType.all, Bool.and_eq_true, LlvmType.isFilled, bne_iff_ne]
      constructor
      · rintro ⟨hdepth, hlength, hall⟩
        exact ⟨hlength, by omega, hall⟩
      · rintro ⟨hlength, hdepth, hall⟩
        exact ⟨by omega, hlength, hall⟩
    rw [members, helem]
    by_cases hfilled : depth + (LlvmType.array length elem).depth ≤ 8 ∧
        (LlvmType.array length elem).all LlvmType.isFilled = true
    · rw [if_pos hfilled]
      obtain ⟨hlength, hdepth, hall⟩ := hiff.mp hfilled
      rw [if_neg (by omega)]
      simp only [hdepth, hall, and_self, ↓reduceIte]
      by_cases hlong : 4 < length
      · have hleaves := leaves_pos elem hall
        rw [if_pos (.inr hlong), LlvmType.leaves, foldlM_none_of_long]
        simp only [List.length_flatten, List.map_replicate, List.sum_replicate_nat]
        exact Nat.lt_of_lt_of_le hlong (Nat.le_mul_of_pos_right _ hleaves)
      · rw [if_neg (by omega), LlvmType.leaves, times_foldlM]
    · split
      · rfl
      split
      · rfl
      rename_i hlength
      have hnot : ¬(depth + 1 + elem.depth ≤ 8 ∧ elem.all LlvmType.isFilled = true) :=
        fun h => hfilled (hiff.mpr ⟨by omega, h⟩)
      simp only [hnot, ↓reduceIte]
      cases length with
      | zero => exact absurd (.inl rfl) hlength
      | succ length => rfl
  | .struct fields, st => by
    have hfields := membersOf_eq (depth + 1) fields
    have hiff : depth + (LlvmType.struct fields).depth ≤ 8 ∧
        (LlvmType.struct fields).all LlvmType.isFilled = true ↔
        fields.length ≠ 0 ∧ depth + 1 + fieldsDepth fields ≤ 8 ∧
          fieldsAll LlvmType.isFilled fields = true := by
      rw [LlvmType.depth, LlvmType.all, Bool.and_eq_true, LlvmType.isFilled, bne_iff_ne]
      constructor
      · rintro ⟨hdepth, hlength, hall⟩
        exact ⟨hlength, by omega, hall⟩
      · rintro ⟨hlength, hdepth, hall⟩
        exact ⟨by omega, hlength, hall⟩
    rw [members, hfields]
    by_cases hfilled : depth + (LlvmType.struct fields).depth ≤ 8 ∧
        (LlvmType.struct fields).all LlvmType.isFilled = true
    · rw [if_pos hfilled]
      obtain ⟨hlength, hdepth, hall⟩ := hiff.mp hfilled
      rw [if_neg (by omega)]
      by_cases hlong : 4 < fields.length
      · have hleaves := length_le_leaves fields hall
        rw [if_pos (.inr hlong), LlvmType.leaves, foldlM_none_of_long (by omega)]
      · rw [if_neg (by omega), if_pos ⟨fun _ => hdepth, hall⟩, LlvmType.leaves]
    · split
      · rfl
      split
      · rfl
      rename_i hlength
      rw [if_neg]
      rintro ⟨hdepth, hall⟩
      have hne : fields ≠ [] := by
        rintro rfl
        exact hlength (.inl rfl)
      exact hfilled (hiff.mpr ⟨by omega, hdepth hne, hall⟩)

theorem membersOf_eq (depth : Nat) : (fields : List LlvmType) → (st : Members) →
    membersOf depth fields st =
      if (fields ≠ [] → depth + fieldsDepth fields ≤ 8) ∧ fieldsAll LlvmType.isFilled fields = true then
        (fieldsLeaves fields).foldlM addMember st
      else none
  | [], st => by
    rw [membersOf, if_pos ⟨fun h => absurd rfl h, rfl⟩]
    rfl
  | field :: fields, st => by
    have hfield := members_eq depth field st
    have hfields := funext (membersOf_eq depth fields)
    have hiff : (field :: fields ≠ [] → depth + fieldsDepth (field :: fields) ≤ 8) ∧
        fieldsAll LlvmType.isFilled (field :: fields) = true ↔
        (depth + field.depth ≤ 8 ∧ field.all LlvmType.isFilled = true) ∧
          (fields ≠ [] → depth + fieldsDepth fields ≤ 8) ∧ fieldsAll LlvmType.isFilled fields = true := by
      rw [fieldsAll, Bool.and_eq_true, fieldsDepth]
      have hne : field :: fields ≠ [] := List.cons_ne_nil _ _
      constructor
      · rintro ⟨hdepth, hall, halls⟩
        have hdepth := hdepth hne
        exact ⟨⟨by omega, hall⟩, fun _ => by omega, halls⟩
      · rintro ⟨⟨hdepth, hall⟩, hdepths, halls⟩
        refine ⟨fun _ => ?_, hall, halls⟩
        by_cases hnil : fields = []
        · subst hnil
          rw [fieldsDepth]
          omega
        · have hdepths := hdepths hnil
          omega
    rw [membersOf, hfield, hfields]
    by_cases hfirst : depth + field.depth ≤ 8 ∧ field.all LlvmType.isFilled = true
    · by_cases hrest : (fields ≠ [] → depth + fieldsDepth fields ≤ 8) ∧
          fieldsAll LlvmType.isFilled fields = true
      · rw [if_pos hfirst, if_pos (hiff.mpr ⟨hfirst, hrest⟩), fieldsLeaves, List.foldlM_append]
        exact Option.bind_congr fun next _ => if_pos hrest
      · rw [if_neg fun h => hrest (hiff.mp h).2]
        exact Option.bind_eq_none_iff.mpr fun next _ => if_neg hrest
    · rw [if_neg hfirst, if_neg fun h => hfirst (hiff.mp h).1]
      rfl
end

-- The classifiers

theorem foldlM_same {ls : List Scalar} (hs : s.isMember = true) (hcount : count ≤ 4) :
    ls.foldlM addMember ⟨some s, count⟩ =
      if ls.all (· == s) = true ∧ count + ls.length ≤ 4 then some ⟨some s, count + ls.length⟩
      else none := by
  induction ls generalizing count with
  | nil =>
    rw [if_pos ⟨rfl, hcount⟩]
    rfl
  | cons r ls ih =>
    rw [List.foldlM_cons, List.all_cons, List.length_cons]
    by_cases hr : r = s
    · subst hr
      by_cases hle : count + 1 ≤ 4
      · have hadd : addMember ⟨some r, count⟩ r = some ⟨some r, count + 1⟩ := by
          simp [addMember, hs, hle]
        rw [hadd]
        refine (ih hle).trans ?_
        simp only [beq_self_eq_true, Bool.true_and, Nat.add_assoc, Nat.add_comm 1]
      · have hadd : addMember ⟨some r, count⟩ r = none := by
          simp [addMember, hs, hle]
        rw [hadd, if_neg (by omega)]
        rfl
    · have hadd : addMember ⟨some s, count⟩ r = none := by
        simp [addMember, Ne.symm hr]
      have hbeq : (r == s) = false := beq_false_of_ne hr
      rw [hadd, hbeq, if_neg (by simp)]
      rfl

theorem isFloat_of_isMember {s : Scalar} (h : s.isMember = true) : s.isFloat = true := by
  cases s <;> first | rfl | cases h

theorem all_isMember {ls : List Scalar} (hs : s.isMember = true) (h : ls.all (· == s) = true) :
    ls.all Scalar.isMember = true := by
  rw [List.all_eq_true] at h ⊢
  intro r hr
  obtain rfl := beq_iff_eq.mp (h r hr)
  exact hs

theorem foldlM_homogeneous (ls : List Scalar) :
    (match ls.foldlM addMember ⟨none, 0⟩ with
      | some st => decide (0 < st.count)
      | none => false) = (homogeneous ls && ls.all Scalar.isMember) := by
  cases ls with
  | nil => rfl
  | cons s ls => ?_
  rw [List.foldlM_cons, homogeneous, List.all_cons]
  by_cases hs : s.isMember = true
  · have hadd : addMember ⟨none, 0⟩ s = some ⟨some s, 1⟩ := by
      simp [addMember, hs]
    have hrest : ls.foldlM addMember ⟨some s, 1⟩ = _ := foldlM_same hs (by decide)
    rw [hadd, isFloat_of_isMember hs, hs, Bool.true_and, Bool.true_and]
    show (match ls.foldlM addMember ⟨some s, 1⟩ with
      | some st => decide (0 < st.count)
      | none => false) = _
    rw [hrest]
    by_cases hall : ls.all (· == s) = true
    · by_cases hlength : ls.length < 4
      · have hpos : 0 < 1 + ls.length := by omega
        rw [if_pos ⟨hall, by omega⟩]
        simp [hall, hlength, hpos, all_isMember hs hall]
      · rw [if_neg (by omega)]
        simp [hlength]
    · simp [hall]
  · have hadd : addMember ⟨none, 0⟩ s = none := by
      simp [addMember, hs]
    rw [hadd, Bool.eq_false_iff.mpr hs, Bool.false_and, Bool.and_false]
    rfl

/-- A homogeneous aggregate that the code recognizes. -/
def LlvmType.IsRecognized (t : LlvmType) : Prop :=
  t.isHomogeneous = true ∧ t.leaves.all Scalar.isMember = true ∧ t.depth ≤ 8 ∧
    t.all LlvmType.isFilled = true

theorem cgAarch64Hfa_iff (htarget : isArm target = true) (ht : t.isAggregate = true) :
    cgAarch64Hfa target t = true ↔ t.IsRecognized := by
  rw [cgAarch64Hfa, htarget, ht, Bool.true_and, Bool.true_and, members_eq, LlvmType.IsRecognized,
    LlvmType.isHomogeneous]
  by_cases hfilled : 0 + t.depth ≤ 8 ∧ t.all LlvmType.isFilled = true
  · have hdepth : t.depth ≤ 8 := by omega
    have hmembers := foldlM_homogeneous t.leaves
    rw [if_pos hfilled]
    refine (Bool.eq_iff_iff.mp hmembers).trans ?_
    rw [Bool.and_eq_true]
    exact and_congr_right fun _ => (and_iff_left ⟨hdepth, hfilled.2⟩).symm
  · rw [if_neg hfilled]
    refine iff_of_false Bool.false_ne_true fun h => hfilled ⟨by omega, h.2.2.2⟩

mutual
theorem allFp_iff (depth : Nat) : (t : LlvmType) →
    (cgAbiAggregateAllFpOrVector depth t = true ↔ depth + t.depth ≤ 8 ∧ t.all LlvmType.isFloating = true)
  | .scalar s => by
    rw [cgAbiAggregateAllFpOrVector, LlvmType.depth, LlvmType.all, LlvmType.isFloating]
    split
    · refine iff_of_false Bool.false_ne_true fun h => ?_
      omega
    · refine (and_iff_right ?_).symm
      omega
  | .array length elem => by
    rw [cgAbiAggregateAllFpOrVector, LlvmType.depth, LlvmType.all, LlvmType.isFloating, Bool.true_and]
    split
    · refine iff_of_false Bool.false_ne_true fun h => ?_
      omega
    rw [allFp_iff (depth + 1) elem]
    refine and_congr_left' ?_
    omega
  | .struct fields => by
    rw [cgAbiAggregateAllFpOrVector, LlvmType.depth, LlvmType.all, LlvmType.isFloating,
      Bool.and_eq_true, bne_iff_ne]
    split
    · refine iff_of_false Bool.false_ne_true fun h => ?_
      omega
    split
    · rename_i hlength
      exact iff_of_false Bool.false_ne_true fun h => h.2.1 hlength
    rename_i hlength
    have hne : fields ≠ [] := by
      rintro rfl
      exact hlength rfl
    rw [allFields_iff (depth + 1) fields]
    constructor
    · rintro ⟨hdepth, hall⟩
      have hdepth := hdepth hne
      exact ⟨by omega, hlength, hall⟩
    · rintro ⟨hdepth, -, hall⟩
      exact ⟨fun _ => by omega, hall⟩

theorem allFields_iff (depth : Nat) : (fields : List LlvmType) →
    (allFieldsFpOrVector depth fields = true ↔
      (fields ≠ [] → depth + fieldsDepth fields ≤ 8) ∧ fieldsAll LlvmType.isFloating fields = true)
  | [] => iff_of_true rfl ⟨fun h => absurd rfl h, rfl⟩
  | field :: fields => by
    have hne : field :: fields ≠ [] := List.cons_ne_nil _ _
    rw [allFieldsFpOrVector, Bool.and_eq_true, allFp_iff depth field, allFields_iff depth fields,
      fieldsDepth, fieldsAll, Bool.and_eq_true]
    constructor
    · rintro ⟨⟨hdepth, hall⟩, hdepths, halls⟩
      refine ⟨fun _ => ?_, hall, halls⟩
      by_cases hnil : fields = []
      · subst hnil
        rw [fieldsDepth]
        omega
      · have hdepths := hdepths hnil
        omega
    · rintro ⟨hdepth, hall, halls⟩
      have hdepth := hdepth hne
      exact ⟨⟨by omega, hall⟩, fun _ => by omega, halls⟩
end

-- Packing

/-- What goes through a value of another type comes back. -/
def Returns (t packed : LlvmType) : Prop :=
  ∀ value, value.length = t.size →
    (cgPackAggregateForAbiReturn value packed).bind (cgUnpackAggregateFromAbiReturn · t) = some value

theorem storeBytes_full (h : bytes.length = n) :
    storeBytes (List.replicate n 0) bytes = some bytes := by
  subst h
  rw [storeBytes, List.length_replicate, if_pos (Nat.le_refl _), List.drop_replicate, Nat.sub_self]
  simp

/-- The word must not be longer than the aggregate, whose slot it is stored to. -/
theorem returns_iff (hle : t.size ≤ packed.size) :
    Returns t packed ↔ t.size = packed.size := by
  constructor
  · intro h
    have hlength : (List.replicate t.size (0 : UInt8)).length = t.size := List.length_replicate
    have hvalue := h _ hlength
    obtain ⟨bytes, hpack, hunpack⟩ := Option.bind_eq_some_iff.mp hvalue
    have hbytes : bytes.length = packed.size := by
      rw [cgPackAggregateForAbiReturn, storeBytes, if_pos (by simpa using hle)] at hpack
      cases hpack
      simp
      omega
    rw [cgUnpackAggregateFromAbiReturn, storeBytes, List.length_replicate, hbytes] at hunpack
    split at hunpack
    · exact Nat.le_antisymm hle ‹_›
    · cases hunpack
  · intro h value hlength
    rw [cgPackAggregateForAbiReturn, ← h, storeBytes_full hlength, Option.map_some, Option.bind_some,
      List.take_of_length_le (Nat.le_of_eq hlength), cgUnpackAggregateFromAbiReturn,
      storeBytes_full hlength, Option.map_some, List.take_of_length_le (Nat.le_of_eq hlength)]

-- The standard

/-- The integers that a small aggregate is passed in. -/
def words (t : LlvmType) : LlvmType := if t.size ≤ 8 then word else twoWords

/-- The procedure call standard. -/
def standard (t : LlvmType) : Lowering :=
  if t.isHomogeneous then .direct t
  else if t.size ≤ 16 then .direct (words t)
  else .indirect

/-- Parameters and results are lowered by the standard, and what is packed can be
unpacked. -/
structure FollowsStandard (target : String) (declared : Declared) (t : LlvmType) : Prop where
  parameter : cgLowerParameterType target declared t = standard t
  result : lowerResult target t = standard t
  packing : t.isHomogeneous = false → t.size ≤ 16 → Returns t (words t)

/-- Small aggregates are lowered right where "all floating" and "homogeneous" are the same
and nothing is left over of the last word, large ones where what is homogeneous is
recognized; and the two sizes of the type are small or large together. -/
structure IsRegular (declared : Declared) (t : LlvmType) : Prop where
  small : t.size ≤ 16 → (t.isHomogeneous = true ↔ t.depth ≤ 8 ∧ t.all LlvmType.isFloating = true)
  large : 16 < t.size → t.isHomogeneous = true → t.IsRecognized
  sizes : (16 < cgSizeForType declared t ↔ 16 < t.size) ∨ t.IsRecognized
  full : t.size ≤ 16 → t.isHomogeneous = false → t.size = 8 ∨ t.size = 16

section
variable {target : String} {declared : Declared} {t : LlvmType}

theorem size_le_words (h : t.size ≤ 16) : t.size ≤ (words t).size := by
  unfold words
  split
  · assumption
  · exact h

theorem returns_words_iff (h : t.size ≤ 16) : Returns t (words t) ↔ t.size = 8 ∨ t.size = 16 := by
  rw [returns_iff (size_le_words h), words]
  split
  · show t.size = 8 ↔ _
    omega
  · show t.size = 16 ↔ _
    omega

theorem homogeneous_size_pos (h : t.isHomogeneous = true) : 0 < t.size := by
  apply size_pos
  intro hnil
  rw [LlvmType.isHomogeneous, hnil] at h
  cases h

theorem lowerResult_large (htarget : isArm target = true) (ht : t.isAggregate = true)
    (hsize : 16 < t.size) :
    (t.IsRecognized → lowerResult target t = .direct t) ∧
      (¬t.IsRecognized → lowerResult target t = .indirect) := by
  have hcoerce : cgCoerceFunctionReturnType t = t := by
    rw [cgCoerceFunctionReturnType, ht, if_neg (by decide), if_pos (.inr hsize)]
  have hhfa := cgAarch64Hfa_iff htarget ht
  constructor
  · intro h
    rw [lowerResult, hcoerce, cgShouldLowerIndirectAggregateReturn, hhfa.mpr h]
    simp
  · intro h
    rw [lowerResult, hcoerce, cgShouldLowerIndirectAggregateReturn, ht,
      Bool.eq_false_iff.mpr (mt hhfa.mp h)]
    simp [hsize]

theorem coerce_small (ht : t.isAggregate = true) (hsize : t.size ≤ 16) :
    cgCoerceFunctionReturnType t =
      if t.size = 0 ∨ t.depth ≤ 8 ∧ t.all LlvmType.isFloating = true then t else words t := by
  have hall := allFp_iff 0 t
  rw [Nat.zero_add] at hall
  rw [cgCoerceFunctionReturnType, ht, if_neg (by decide)]
  by_cases hzero : t.size = 0
  · rw [if_pos (.inl hzero), if_pos (.inl hzero)]
  rw [if_neg (by omega)]
  by_cases hfloat : t.depth ≤ 8 ∧ t.all LlvmType.isFloating = true
  · rw [if_pos (hall.mpr hfloat), if_pos (.inr hfloat)]
  · rw [if_neg (mt hall.mp hfloat), if_neg (not_or.mpr ⟨hzero, hfloat⟩), words]

theorem lowerResult_small (ht : t.isAggregate = true) (hsize : t.size ≤ 16) :
    lowerResult target t = .direct (cgCoerceFunctionReturnType t) := by
  have hle : (cgCoerceFunctionReturnType t).size ≤ 16 := by
    rw [coerce_small ht hsize]
    split
    · exact hsize
    unfold words
    split <;> decide
  rw [lowerResult, cgShouldLowerIndirectAggregateReturn]
  simp [Nat.not_lt.mpr hle]

theorem lowerParameter_eq (htarget : isArm target = true) (ht : t.isAggregate = true) :
    (16 < cgSizeForType declared t ∧ ¬t.IsRecognized → cgLowerParameterType target declared t = .indirect) ∧
    (¬(16 < cgSizeForType declared t ∧ ¬t.IsRecognized) →
      cgLowerParameterType target declared t = .direct (cgCoerceFunctionReturnType t)) := by
  have hhfa := cgAarch64Hfa_iff htarget ht
  constructor
  · rintro ⟨hsize, hnot⟩
    rw [cgLowerParameterType, ht, Bool.eq_false_iff.mpr (mt hhfa.mp hnot)]
    simp [hsize]
  · intro h
    rw [cgLowerParameterType, ht]
    by_cases hsize : 16 < cgSizeForType declared t
    · have hrecognized := hhfa.mpr (not_not.mp fun hnot => h ⟨hsize, hnot⟩)
      simp [hrecognized]
    · simp [hsize]

theorem ne_words (ht : t.isAggregate = true)
    (h : t.isHomogeneous = true ∨ t.all LlvmType.isFloating = true) : t ≠ words t := by
  intro heq
  unfold words at heq
  split at heq
  · rw [heq] at ht
    cases ht
  · rw [heq] at h
    rcases h with h | h <;> cases h

theorem standard_homogeneous (h : t.isHomogeneous = true) : standard t = .direct t := by
  rw [standard, if_pos h]

theorem standard_small (h : t.isHomogeneous = false) (hsize : t.size ≤ 16) :
    standard t = .direct (words t) := by
  rw [standard, h, if_neg Bool.false_ne_true, if_pos hsize]

theorem standard_large (h : t.isHomogeneous = false) (hsize : 16 < t.size) : standard t = .indirect := by
  rw [standard, h, if_neg Bool.false_ne_true, if_neg (Nat.not_le.mpr hsize)]

theorem coerce_standard_iff (ht : t.isAggregate = true) (hsize : t.size ≤ 16) :
    Lowering.direct (cgCoerceFunctionReturnType t) = standard t ↔
      0 < t.size ∧ (t.isHomogeneous = true ↔ t.depth ≤ 8 ∧ t.all LlvmType.isFloating = true) := by
  rw [coerce_small ht hsize]
  cases hhom : t.isHomogeneous with
  | true =>
    have hpos := homogeneous_size_pos hhom
    have hne := ne_words ht (.inl hhom)
    rw [standard_homogeneous hhom]
    split
    · rename_i h
      exact iff_of_true rfl ⟨hpos, iff_of_true rfl (h.resolve_left (by omega))⟩
    rename_i h
    refine iff_of_false (fun heq => hne (Lowering.direct.inj heq).symm) fun hiff => ?_
    exact h (.inr (hiff.2.mp rfl))
  | false =>
    rw [standard_small hhom hsize]
    split
    · rename_i h
      have hne : t ≠ words t := by
        rcases h with hzero | hfloat
        · intro heq
          have hsize := congrArg LlvmType.size heq
          rw [words, if_pos (by omega), hzero] at hsize
          cases hsize
        · exact ne_words ht (.inr hfloat.2)
      refine iff_of_false (fun heq => hne (Lowering.direct.inj heq)) fun hiff => ?_
      rcases h with hzero | hfloat
      · omega
      · cases hiff.2.mpr hfloat
    · rename_i h
      obtain ⟨hpos, hfloat⟩ := not_or.mp h
      exact iff_of_true rfl ⟨Nat.pos_of_ne_zero hpos, iff_of_false Bool.false_ne_true hfloat⟩

theorem follows_small_iff (htarget : isArm target = true) (ht : t.isAggregate = true)
    (hsize : t.size ≤ 16) :
    FollowsStandard target declared t ↔ IsRegular declared t := by
  obtain ⟨hindirect, hdirect⟩ := @lowerParameter_eq target declared t htarget ht
  have hresult : lowerResult target t = _ := lowerResult_small ht hsize
  have hcoerce := coerce_standard_iff ht hsize
  constructor
  · intro h
    have hchoice := hcoerce.mp (hresult.symm.trans h.result)
    have hsizes : ¬(16 < cgSizeForType declared t ∧ ¬t.IsRecognized) := by
      intro hcon
      have hstandard := (hindirect hcon).symm.trans h.parameter
      cases hhom : t.isHomogeneous with
      | true => cases hstandard.trans (standard_homogeneous hhom)
      | false => cases hstandard.trans (standard_small hhom hsize)
    refine ⟨fun _ => hchoice.2, fun hlarge => ?_, ?_, fun _ hhom => ?_⟩
    · omega
    · by_cases hrecognized : t.IsRecognized
      · exact .inr hrecognized
      · exact .inl (iff_of_false (fun hlarge => hsizes ⟨hlarge, hrecognized⟩) (by omega))
    · exact (returns_words_iff hsize).mp (h.packing hhom hsize)
  · intro h
    have hpos : 0 < t.size := by
      cases hhom : t.isHomogeneous with
      | true => exact homogeneous_size_pos hhom
      | false =>
        have hfull := h.full hsize hhom
        omega
    have hchoice := hcoerce.mpr ⟨hpos, h.small hsize⟩
    refine ⟨?_, hresult.trans hchoice, fun hhom _ => (returns_words_iff hsize).mpr (h.full hsize hhom)⟩
    refine (hdirect ?_).trans hchoice
    rintro ⟨hlarge, hnot⟩
    have hiff := h.sizes.resolve_right hnot
    omega

theorem follows_large_iff (htarget : isArm target = true) (ht : t.isAggregate = true)
    (hsize : 16 < t.size) :
    FollowsStandard target declared t ↔ IsRegular declared t := by
  obtain ⟨hindirect, hdirect⟩ := @lowerParameter_eq target declared t htarget ht
  obtain ⟨hrecognized, hnot⟩ := lowerResult_large htarget ht hsize
  have hcoerce : cgCoerceFunctionReturnType t = t := by
    rw [cgCoerceFunctionReturnType, ht, if_neg (by decide), if_pos (.inr hsize)]
  rw [hcoerce] at hdirect
  constructor
  · intro h
    have hlarge : t.isHomogeneous = true → t.IsRecognized := by
      intro hhom
      by_contra hcon
      cases (hnot hcon).symm.trans (h.result.trans (standard_homogeneous hhom))
    refine ⟨fun hsmall => ?_, fun _ => hlarge, ?_, fun hsmall => ?_⟩
    · omega
    · by_cases hr : t.IsRecognized
      · exact .inr hr
      · have hhom : t.isHomogeneous = false := Bool.eq_false_iff.mpr fun hhom => hr (hlarge hhom)
        refine .inl (iff_of_true ?_ hsize)
        by_contra hsmall
        cases (hdirect fun hcon => hsmall hcon.1).symm.trans (h.parameter.trans (standard_large hhom hsize))
    · omega
  · intro h
    by_cases hr : t.IsRecognized
    · have hstandard := standard_homogeneous hr.1
      exact ⟨(hdirect fun hcon => hcon.2 hr).trans hstandard.symm, (hrecognized hr).trans hstandard.symm,
        fun hhom => absurd hr.1 (by rw [hhom]; decide)⟩
    have hhom : t.isHomogeneous = false := Bool.eq_false_iff.mpr fun hhom => hr (h.large hsize hhom)
    have hstandard := standard_large hhom hsize
    have hlarge := (h.sizes.resolve_right hr).mpr hsize
    exact ⟨(hindirect ⟨hlarge, hr⟩).trans hstandard.symm, (hnot hr).trans hstandard.symm,
      fun _ hsmall => absurd hsmall (by omega)⟩

/-- An aggregate crosses calls by the standard exactly when it is regular. -/
theorem followsStandard_iff (declared : Declared) (htarget : isArm target = true)
    (ht : t.isAggregate = true) : FollowsStandard target declared t ↔ IsRegular declared t := by
  rcases Nat.lt_or_ge 16 t.size with hsize | hsize
  · exact follows_large_iff htarget ht hsize
  · exact follows_small_iff htarget ht hsize

end

def threeDoubles : LlvmType := .struct [.scalar .double, .scalar .double, .scalar .double]

theorem threeDoubles_recognized : threeDoubles.IsRecognized :=
  ⟨rfl, rfl, by decide, rfl⟩

/-- Three `double`s are passed and returned as they are. -/
theorem followsStandard_doubles :
    FollowsStandard "aarch64-linux-gnu" ⟨some (24, 8), false⟩ threeDoubles :=
  (followsStandard_iff _ rfl rfl).mpr
    { small := fun hsmall => absurd hsmall (by decide)
      large := fun _ _ => threeDoubles_recognized
      sizes := .inr threeDoubles_recognized
      full := fun hsmall => absurd hsmall (by decide) }

def floatAndDouble : LlvmType := .struct [.scalar .float, .scalar .double]

/-- A `float` and a `double` are not homogeneous and yet stay as they are, and an `int` is
unpacked from eight bytes into a slot of four. -/
theorem mixed_not_followsStandard :
    ¬FollowsStandard "aarch64-linux-gnu" ⟨some (16, 8), false⟩ floatAndDouble ∧
      ¬FollowsStandard "aarch64-linux-gnu" ⟨some (4, 4), false⟩ (.struct [.scalar .i32]) := by
  constructor
  · intro h
    cases h.result
  · intro h
    have hreturns := (returns_iff (by decide)).mp (h.packing rfl (by decide))
    exact absurd hreturns (by decide)

end Fisics.Aggregates
