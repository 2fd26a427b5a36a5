import Fisics.Syntax.RecordLayout

/-!
# The usual arithmetic conversions

`usualArithmeticConversion` on operands of any width, enumerations included, against the
rules of C: a floating operand settles the type with its own width, `long double` before
the others; of two integer types the promoted one of greater width. The width that
settles a floating result is the larger of both operands, whatever they are.
-/

namespace Fisics

open Records (TargetTable targetTables)

-- Types with names

/-- What the conversions read of a type, and the name that tells enumerations apart. -/
structure ArithmeticType extends TypeInfo where
  userTypeName : Option String
  deriving DecidableEq

namespace ArithmeticType

def promote (t : ArithmeticType) : ArithmeticType := { t with toTypeInfo := integerPromote t.toTypeInfo }

def rank (t : ArithmeticType) : Int := integerRank t.toTypeInfo

/-- `pickIntegerResult`. -/
def pick (a b : ArithmeticType) : ArithmeticType :=
  if b.rank < a.rank then a
  else if a.rank < b.rank then b
  else if a.isSigned = b.isSigned then if a.isSigned then a else b
  else if !a.isSigned && b.bitWidth ≤ a.bitWidth then a
  else if !b.isSigned && a.bitWidth ≤ b.bitWidth then b
  else { a with isSigned := false }

/-- `usualArithmeticConversion`; the width of `long double` is that of the default target. -/
def usual (longDoubleBits : Nat) (left right : ArithmeticType) : Option ArithmeticType :=
  if !typeInfoIsArithmetic left.toTypeInfo || !typeInfoIsArithmetic right.toTypeInfo then none
  else if typeInfoIsFloating left.toTypeInfo || typeInfoIsFloating right.toTypeInfo then
    let isComplex := left.isComplex || right.isComplex || left.isImaginary || right.isImaginary
    let isImag := left.isImaginary || right.isImaginary
    let maxBits := max left.bitWidth right.bitWidth
    let kind : FloatKind :=
      if 128 ≤ maxBits then .longDouble else if 64 ≤ maxBits then .double else .float
    some ⟨{ makeFloatTypeInfo longDoubleBits kind isComplex with isImaginary := isImag && !isComplex }, none⟩
  else some (pick left.promote right.promote)

def same (a b : ArithmeticType) : Bool :=
  a.category == b.category &&
    match a.category with
    | .integer => a.bitWidth == b.bitWidth && a.isSigned == b.isSigned
    | .float => a.bitWidth == b.bitWidth && a.isComplex == b.isComplex && a.isImaginary == b.isImaginary
    | .enum => a.userTypeName == b.userTypeName
    | _ => false

end ArithmeticType

open ArithmeticType

-- The rules

/-- An arithmetic type: an integer of any width, or a floating type of a target whose `long double`
has this width. -/
structure IsArithmetic (longDouble : Nat) (t : ArithmeticType) : Prop where
  arithmetic : typeInfoIsArithmetic t.toTypeInfo = true
  float : t.category = .float → t.bitWidth ∈ [32, 64, longDouble]
  integer : t.category ≠ .float → t.isComplex = false ∧ t.isImaginary = false

def IsFloat (t : ArithmeticType) : Prop := t.category = .float

instance (t : ArithmeticType) : Decidable (IsFloat t) := inferInstanceAs (Decidable (_ = _))

/-- The result `t` has the floating type `f`, complex where it is complex or imaginary. -/
def HasType (t f : ArithmeticType) : Prop :=
  t.category = .float ∧ t.bitWidth = f.bitWidth ∧ t.isComplex = (f.isComplex || f.isImaginary)

/-- The rules for two operands in this order, `host` being the width of `long double` on the default
target. -/
structure Ruled (longDouble host : Nat) (left right : ArithmeticType) : Prop where
  floatLeft : IsFloat left → ¬ IsFloat right → ∀ t, usual host left right = some t → HasType t left
  floatRight : ¬ IsFloat left → IsFloat right → ∀ t, usual host left right = some t → HasType t right
  longDouble : (IsFloat left ∧ left.bitWidth = longDouble ∨ IsFloat right ∧ right.bitWidth = longDouble) →
    ∀ t, usual host left right = some t → IsFloat t ∧ t.bitWidth = longDouble
  integers : ¬ IsFloat left → ¬ IsFloat right → ∀ t, usual host left right = some t →
    t.bitWidth = max left.promote.bitWidth right.promote.bitWidth ∧
      (t.isSigned = true ↔ ∀ operand ∈ [left.promote, right.promote],
        operand.bitWidth = t.bitWidth → operand.isSigned = true)

/-- The rules in both orders, with the same type. -/
structure FollowsC (longDouble host : Nat) (left right : ArithmeticType) : Prop where
  commutes : ∀ t u, usual host left right = some t → usual host right left = some u → t.same u = true
  ruled : Ruled longDouble host left right
  swapped : Ruled longDouble host right left

def FloatMeets (host : Nat) (float : Nat) (bits : Nat) : Prop :=
  float = 32 ∧ bits < 64 ∨ float = 64 ∧ (bits < 128 ∨ host = 64) ∨
    float = 80 ∧ 128 ≤ bits ∧ host = 80 ∨ float = 128 ∧ host = 128

/-- Promoted integers of one class of widths have the same width, or the wider one alone is
unsigned; of the same signedness they are the same type. -/
def IntegersMeet (a b : ArithmeticType) : Prop :=
  a.rank ≠ b.rank ∨
    a.isSigned = false ∧ b.isSigned = true ∧ b.bitWidth ≤ a.bitWidth ∨
    a.isSigned = true ∧ b.isSigned = false ∧ a.bitWidth ≤ b.bitWidth ∨
    a.isSigned = b.isSigned ∧ a.bitWidth = b.bitWidth ∧ a.same b = true

def ConversionMeets (longDouble host : Nat) (left right : ArithmeticType) : Prop :=
  if IsFloat left then
    if IsFloat right then
      (left.bitWidth = longDouble ∨ right.bitWidth = longDouble) →
        longDouble = 64 ∨ longDouble = 128 ∧ host = 128
    else FloatMeets host left.bitWidth right.bitWidth
  else if IsFloat right then FloatMeets host right.bitWidth left.bitWidth
  else IntegersMeet left.promote right.promote

-- Floating operands

def floatWidth (host bits : Nat) : Nat := if 128 ≤ bits then host else if 64 ≤ bits then 64 else 32

theorem usual_float (hl : IsArithmetic longDouble left) (hr : IsArithmetic longDouble right)
    (hfloat : IsFloat left ∨ IsFloat right) :
    usual host left right = some
      ⟨⟨.float, floatWidth host (max left.bitWidth right.bitWidth), true,
        left.isComplex || right.isComplex || left.isImaginary || right.isImaginary,
        (left.isImaginary || right.isImaginary) &&
          !(left.isComplex || right.isComplex || left.isImaginary || right.isImaginary)⟩, none⟩ := by
  have hsome : (typeInfoIsFloating left.toTypeInfo || typeInfoIsFloating right.toTypeInfo) = true := by
    simpa [typeInfoIsFloating, IsFloat] using hfloat
  simp only [usual, hl.arithmetic, hr.arithmetic, hsome, Bool.not_true, Bool.or_self, Bool.false_eq_true,
    if_false, if_true, floatWidth]
  split_ifs <;> rfl

theorem usual_integer (hl : IsArithmetic longDouble left) (hr : IsArithmetic longDouble right)
    (hleft : ¬ IsFloat left) (hright : ¬ IsFloat right) :
    usual host left right = some (pick left.promote right.promote) := by
  have hnone : (typeInfoIsFloating left.toTypeInfo || typeInfoIsFloating right.toTypeInfo) = false := by
    simpa [typeInfoIsFloating, IsFloat] using And.intro hleft hright
  simp only [usual, hl.arithmetic, hr.arithmetic, hnone, Bool.not_true, Bool.or_self, Bool.false_eq_true,
    if_false]

theorem floatMeets_iff (hhost : host ∈ [64, 80, 128]) (hfloat : float ∈ [32, 64, longDouble]) (bits : Nat) :
    floatWidth host (max float bits) = float ↔ FloatMeets host float bits := by
  simp only [List.mem_cons, List.not_mem_nil, or_false] at hhost hfloat
  unfold floatWidth FloatMeets
  split_ifs <;> omega

theorem longDouble_iff (hlongDouble : longDouble ∈ [64, 80, 128]) (hhost : host ∈ [64, 80, 128])
    (ha : a ∈ [32, 64, longDouble]) (hb : b ∈ [32, 64, longDouble]) (hone : a = longDouble ∨ b = longDouble) :
    floatWidth host (max a b) = longDouble ↔ longDouble = 64 ∨ longDouble = 128 ∧ host = 128 := by
  simp only [List.mem_cons, List.not_mem_nil, or_false] at hlongDouble hhost ha hb
  unfold floatWidth
  split_ifs <;> omega

-- Integers

structure Promoted (t : ArithmeticType) : Prop where
  integer : t.category = .integer ∨ t.category = .enum
  width : 32 ≤ t.bitWidth

theorem promoted_promote (ht : IsArithmetic longDouble t) (hinteger : ¬ IsFloat t) : Promoted t.promote := by
  have hcategory : t.category = .integer ∨ t.category = .enum := by
    have harithmetic := ht.arithmetic
    simp only [typeInfoIsArithmetic, typeInfoIsInteger, typeInfoIsFloating, Bool.or_eq_true, beq_iff_eq]
      at harithmetic
    exact harithmetic.resolve_right hinteger
  have hcond : typeInfoIsInteger t.toTypeInfo = true := by simpa [typeInfoIsInteger] using hcategory
  simp only [ArithmeticType.promote, integerPromote, hcond, Bool.not_true, Bool.false_or, decide_eq_true_eq]
  split_ifs with hwide
  · exact ⟨hcategory, hwide⟩
  · exact ⟨hcategory, le_refl 32⟩

theorem Promoted.rank_eq (h : Promoted t) :
    t.rank = if t.bitWidth ≤ 32 then 3 else if t.bitWidth ≤ 64 then 4 else if t.bitWidth ≤ 128 then 5 else 6
      := by
  have hinteger : typeInfoIsInteger t.toTypeInfo = true := by simpa [typeInfoIsInteger] using h.integer
  have hwidth := h.width
  have hbits : (if t.bitWidth = 0 then 32 else t.bitWidth) = t.bitWidth := if_neg (by omega)
  have hwide : ¬ t.bitWidth ≤ 16 := by omega
  have hwider : ¬ t.bitWidth ≤ 8 := by omega
  simp [ArithmeticType.rank, integerRank, hinteger, hbits, hwide, hwider]

theorem Promoted.lt_of_rank (ha : Promoted a) (hb : Promoted b) (h : a.rank < b.rank) :
    a.bitWidth < b.bitWidth := by
  rw [ha.rank_eq, hb.rank_eq] at h
  split_ifs at h <;> omega

theorem Promoted.same_self (h : Promoted t) : t.same t = true := by
  rcases h.integer with hcategory | hcategory <;> simp [same, hcategory]

theorem same_comm (a b : ArithmeticType) : a.same b = b.same a := by
  unfold same
  by_cases hcategory : a.category = b.category
  · rw [hcategory]
    cases b.category <;> simp [Bool.beq_comm]
  have hleft : (a.category == b.category) = false := by simpa using hcategory
  have hright : (b.category == a.category) = false := by simpa using Ne.symm hcategory
  rw [hleft, hright]
  rfl

/-- The rule for the type picked from two promoted ones. -/
def PicksRanked (a b t : ArithmeticType) : Prop :=
  t.bitWidth = max a.bitWidth b.bitWidth ∧
    (t.isSigned = true ↔ ∀ operand ∈ [a, b], operand.bitWidth = t.bitWidth → operand.isSigned = true)

theorem picksRanked_comm : PicksRanked a b t ↔ PicksRanked b a t := by
  simp only [PicksRanked, Nat.max_comm a.bitWidth, List.mem_cons, List.not_mem_nil, or_false, forall_eq_or_imp,
    forall_eq, and_comm]

theorem pick_of_rank (ha : Promoted a) (hb : Promoted b) (h : a.rank < b.rank) :
    pick a b = b ∧ pick b a = b ∧ PicksRanked a b b := by
  have hlt := ha.lt_of_rank hb h
  refine ⟨?_, ?_, ?_⟩
  · simp [pick, h, not_lt_of_gt h]
  · simp [pick, h]
  · have hne : ¬ a.bitWidth = b.bitWidth := by omega
    simp [PicksRanked, Nat.max_eq_right hlt.le, hne]

theorem pick_of_unsigned (hrank : a.rank = b.rank) (ha : a.isSigned = false) (hb : b.isSigned = true) :
    if b.bitWidth ≤ a.bitWidth then pick a b = a ∧ pick b a = a ∧ PicksRanked a b a
    else ¬ PicksRanked a b (pick a b) := by
  split_ifs with hwidth
  · refine ⟨?_, ?_, ?_⟩
    · simp [pick, hrank, ha, hb, hwidth]
    · simp [pick, hrank, ha, hb, hwidth]
    · simp [PicksRanked, Nat.max_eq_left hwidth, ha]
  · rintro ⟨hmax, -⟩
    simp only [pick, hrank, ha, hb, lt_irrefl, if_false, Bool.false_eq_true, Bool.not_false, Bool.not_true,
      Bool.true_and, Bool.false_and, decide_eq_true_eq, hwidth] at hmax
    omega

theorem pick_of_same (hrank : a.rank = b.rank) (hsign : a.isSigned = b.isSigned) :
    pick a b = (if a.isSigned then a else b) ∧ pick b a = if a.isSigned then b else a := by
  simp [pick, hrank, hsign]

theorem same_type_iff (hrank : a.rank = b.rank) (ha : a.isSigned = sign) (hb : b.isSigned = sign) :
    (a.same b = true ∧ PicksRanked a b b ∧ PicksRanked b a a) ↔ IntegersMeet a b := by
  have hwidths : PicksRanked a b b ∧ PicksRanked b a a ↔ a.bitWidth = b.bitWidth := by
    cases sign <;> simp [PicksRanked, ha, hb] <;> omega
  rw [hwidths]
  cases sign <;> simp [IntegersMeet, hrank, ha, hb, and_comm]

theorem integersMeet_iff (ha : Promoted a) (hb : Promoted b) :
    ((pick a b).same (pick b a) = true ∧ PicksRanked a b (pick a b) ∧ PicksRanked b a (pick b a)) ↔
      IntegersMeet a b := by
  rcases lt_trichotomy a.rank b.rank with hlt | hrank | hlt
  · obtain ⟨hab, hba, hpicks⟩ := pick_of_rank ha hb hlt
    rw [hab, hba]
    exact iff_of_true ⟨hb.same_self, hpicks, picksRanked_comm.mp hpicks⟩ (.inl (ne_of_lt hlt))
  · have hunsigned : ∀ a b : ArithmeticType, a.rank = b.rank → Promoted a → a.isSigned = false →
      b.isSigned = true →
        (((pick a b).same (pick b a) = true ∧ PicksRanked a b (pick a b) ∧ PicksRanked b a (pick b a)) ↔
          b.bitWidth ≤ a.bitWidth) := by
      intro a b hrank ha hsa hsb
      have hpick := pick_of_unsigned hrank hsa hsb
      split_ifs at hpick with hwidth
      · obtain ⟨hab, hba, hpicks⟩ := hpick
        rw [hab, hba]
        exact iff_of_true ⟨ha.same_self, hpicks, picksRanked_comm.mp hpicks⟩ hwidth
      · exact iff_of_false (fun h => hpick h.2.1) hwidth
    cases hsa : a.isSigned with
    | false =>
      cases hsb : b.isSigned with
      | true =>
        rw [hunsigned a b hrank ha hsa hsb]
        simp [IntegersMeet, hrank, hsa, hsb]
      | false => ?_
      obtain ⟨hab, hba⟩ := pick_of_same hrank (hsa.trans hsb.symm)
      simp only [hsa, Bool.false_eq_true, if_false] at hab hba
      rw [hab, hba, same_comm]
      exact same_type_iff hrank hsa hsb
    | true =>
      cases hsb : b.isSigned with
      | false =>
        have hswap := hunsigned b a hrank.symm hb hsb hsa
        rw [same_comm, and_comm (a := PicksRanked a b _), hswap]
        simp [IntegersMeet, hrank, hsa, hsb]
      | true => ?_
      obtain ⟨hab, hba⟩ := pick_of_same hrank (hsa.trans hsb.symm)
      simp only [hsa, if_true] at hab hba
      rw [hab, hba, picksRanked_comm, @picksRanked_comm b a b, and_comm (a := PicksRanked b a a)]
      exact same_type_iff hrank hsa hsb
  · obtain ⟨hba, hab, hpicks⟩ := pick_of_rank hb ha hlt
    rw [hab, hba]
    exact iff_of_true ⟨ha.same_self, picksRanked_comm.mp hpicks, hpicks⟩ (.inl (ne_of_gt hlt))

-- The operands the conversions treat as C does

theorem FollowsC.symm (h : FollowsC longDouble host left right) : FollowsC longDouble host right left where
  commutes := by
    intro t u ht hu
    rw [same_comm]
    exact h.commutes u t hu ht
  ruled := h.swapped
  swapped := h.ruled

theorem ruled_integers_iff (hl : IsArithmetic longDouble left) (hr : IsArithmetic longDouble right)
    (hleft : ¬ IsFloat left) (hright : ¬ IsFloat right) :
    Ruled longDouble host left right ↔ PicksRanked left.promote right.promote
      (pick left.promote right.promote) := by
  have husual : usual host left right = _ := usual_integer hl hr hleft hright
  constructor
  · intro h
    exact h.integers hleft hright _ husual
  · intro h
    constructor
    · intro hfloat
      exact absurd hfloat hleft
    · intro _ hfloat
      exact absurd hfloat hright
    · rintro (⟨hfloat, -⟩ | ⟨hfloat, -⟩)
      · exact absurd hfloat hleft
      · exact absurd hfloat hright
    · intro _ _ t ht
      cases husual.symm.trans ht
      exact h

theorem followsC_integers (hl : IsArithmetic longDouble left) (hr : IsArithmetic longDouble right)
    (hleft : ¬ IsFloat left) (hright : ¬ IsFloat right) :
    FollowsC longDouble host left right ↔ IntegersMeet left.promote right.promote := by
  rw [← integersMeet_iff (promoted_promote hl hleft) (promoted_promote hr hright),
    ← ruled_integers_iff hl hr hleft hright, ← ruled_integers_iff hr hl hright hleft]
  have hlr : usual host left right = _ := usual_integer hl hr hleft hright
  have hrl : usual host right left = _ := usual_integer hr hl hright hleft
  constructor
  · rintro ⟨hcommutes, hruled, hswapped⟩
    exact ⟨hcommutes _ _ hlr hrl, hruled, hswapped⟩
  · rintro ⟨hsame, hruled, hswapped⟩
    refine ⟨?_, hruled, hswapped⟩
    intro t u ht hu
    cases hlr.symm.trans ht
    cases hrl.symm.trans hu
    exact hsame

theorem usual_float_same (hl : IsArithmetic longDouble left) (hr : IsArithmetic longDouble right)
    (hfloat : IsFloat left ∨ IsFloat right) (ht : usual host left right = some t)
    (hu : usual host right left = some u) : t.same u = true := by
  cases (usual_float hl hr hfloat).symm.trans ht
  cases (usual_float hr hl hfloat.symm).symm.trans hu
  simp [same, Nat.max_comm, Bool.or_comm, Bool.or_left_comm]

theorem followsC_mixed (hl : IsArithmetic longDouble left) (hr : IsArithmetic longDouble right)
    (hleft : IsFloat left) (hright : ¬ IsFloat right) (hhost : host ∈ [64, 80, 128]) :
    FollowsC longDouble host left right ↔ FloatMeets host left.bitWidth right.bitWidth := by
  have hcommutes := @usual_float_same longDouble left right host
  have hlr : usual host left right = _ := usual_float hl hr (.inl hleft)
  have hrl : usual host right left = _ := usual_float hr hl (.inr hleft)
  have hreal := hr.integer hright
  rw [← floatMeets_iff hhost (hl.float hleft)]
  constructor
  · intro h
    exact (h.ruled.floatLeft hleft hright _ hlr).2.1
  · intro h
    have hflipped : floatWidth host (max right.bitWidth left.bitWidth) = left.bitWidth := by
      rw [Nat.max_comm]
      exact h
    refine ⟨fun t u ht hu => hcommutes hl hr (.inl hleft) ht hu, ?_, ?_⟩
    · constructor
      · intro _ _ t ht
        cases hlr.symm.trans ht
        exact ⟨rfl, h, by simp [hreal]⟩
      · intro hother
        exact absurd hleft hother
      · rintro (⟨-, hwidth⟩ | ⟨hother, -⟩) t ht
        · cases hlr.symm.trans ht
          exact ⟨rfl, h.trans hwidth⟩
        · exact absurd hother hright
      · intro hother
        exact absurd hleft hother
    · constructor
      · intro hother
        exact absurd hother hright
      · intro _ _ t ht
        cases hrl.symm.trans ht
        exact ⟨rfl, hflipped, by simp [hreal]⟩
      · rintro (⟨hother, -⟩ | ⟨-, hwidth⟩) t ht
        · exact absurd hother hright
        · cases hrl.symm.trans ht
          exact ⟨rfl, hflipped.trans hwidth⟩
      · intro _ hother
        exact absurd hleft hother

theorem ruled_floats_iff (hl : IsArithmetic longDouble left) (hr : IsArithmetic longDouble right)
    (hleft : IsFloat left) (hright : IsFloat right) :
    Ruled longDouble host left right ↔ (left.bitWidth = longDouble ∨ right.bitWidth = longDouble →
      floatWidth host (max left.bitWidth right.bitWidth) = longDouble) := by
  have husual : usual host left right = _ := usual_float hl hr (.inl hleft)
  constructor
  · intro h hone
    refine (h.longDouble ?_ _ husual).2
    simpa [hleft, hright] using hone
  · intro h
    constructor
    · intro _ hother
      exact absurd hright hother
    · intro hother
      exact absurd hleft hother
    · intro hone t ht
      cases husual.symm.trans ht
      exact ⟨rfl, h (by simpa [hleft, hright] using hone)⟩
    · intro hother
      exact absurd hleft hother

theorem followsC_floats (hl : IsArithmetic longDouble left) (hr : IsArithmetic longDouble right)
    (hleft : IsFloat left) (hright : IsFloat right) (hlongDouble : longDouble ∈ [64, 80, 128])
    (hhost : host ∈ [64, 80, 128]) :
    FollowsC longDouble host left right ↔
      ((left.bitWidth = longDouble ∨ right.bitWidth = longDouble) →
        longDouble = 64 ∨ longDouble = 128 ∧ host = 128) := by
  have hmeets : ((left.bitWidth = longDouble ∨ right.bitWidth = longDouble →
      floatWidth host (max left.bitWidth right.bitWidth) = longDouble) ↔
        (left.bitWidth = longDouble ∨ right.bitWidth = longDouble →
          longDouble = 64 ∨ longDouble = 128 ∧ host = 128)) := by
    refine imp_congr_right fun hone => ?_
    exact longDouble_iff hlongDouble hhost (hl.float hleft) (hr.float hright) hone
  rw [← hmeets, ← ruled_floats_iff hl hr hleft hright]
  constructor
  · intro h
    exact h.ruled
  · intro h
    refine ⟨fun t u ht hu => usual_float_same hl hr (.inl hleft) ht hu, h, ?_⟩
    rw [ruled_floats_iff hr hl hright hleft, Nat.max_comm, or_comm]
    exact (ruled_floats_iff hl hr hleft hright).mp h

theorem targetTable_longDouble (htl : tl ∈ targetTables) : tl.longDoubleBits ∈ [64, 80, 128] := by
  have hall : ∀ tl ∈ targetTables, tl.longDoubleBits ∈ [64, 80, 128] := by decide
  exact hall tl htl

/-- The operands for which the conversions are the ones of C. -/
theorem usual_followsC_iff (tl dl : TargetTable) (htl : tl ∈ targetTables) (hdl : dl ∈ targetTables)
    (left right : ArithmeticType) (hl : IsArithmetic tl.longDoubleBits left)
    (hr : IsArithmetic tl.longDoubleBits right) :
    FollowsC tl.longDoubleBits dl.longDoubleBits left right ↔
      ConversionMeets tl.longDoubleBits dl.longDoubleBits left right := by
  have hhost := targetTable_longDouble hdl
  unfold ConversionMeets
  split_ifs with hleft hright hright
  · exact followsC_floats hl hr hleft hright (targetTable_longDouble htl) hhost
  · exact followsC_mixed hl hr hleft hright hhost
  · rw [← followsC_mixed hr hl hright hleft hhost]
    exact ⟨FollowsC.symm, FollowsC.symm⟩
  · exact followsC_integers hl hr hleft hright

def plainInteger (bits : Nat) (isSigned : Bool) : ArithmeticType := ⟨makeIntegerType bits isSigned, none⟩

def plainFloat (longDoubleBits : Nat) (kind : FloatKind) : ArithmeticType :=
  ⟨makeFloatTypeInfo longDoubleBits kind false, none⟩

theorem isArithmetic_plainInteger : IsArithmetic longDouble (plainInteger bits isSigned) where
  arithmetic := rfl
  float := by intro h; cases h
  integer := by intro _; exact ⟨rfl, rfl⟩

theorem isArithmetic_plainFloat : IsArithmetic longDouble (plainFloat longDouble kind) where
  arithmetic := by cases kind <;> rfl
  float := by intro _; cases kind <;> simp [plainFloat, makeFloatTypeInfo]
  integer := by intro h; cases kind <;> exact absurd rfl h

/-- `short` and `unsigned int`. -/
theorem usual_followsC_short : FollowsC 80 80 (plainInteger 16 true) (plainInteger 32 false) :=
  (usual_followsC_iff Records.layoutLp64Fp80 Records.layoutLp64Fp80 (by decide) (by decide) _ _
    isArithmetic_plainInteger isArithmetic_plainInteger).mpr (.inr (.inr (.inl (by decide))))

/-- `float` and `long` give `double`. -/
theorem floatLong_not_followsC :
    ¬ ∀ tl ∈ targetTables, ∀ dl ∈ targetTables, ∀ left right, IsArithmetic tl.longDoubleBits left →
      IsArithmetic tl.longDoubleBits right → FollowsC tl.longDoubleBits dl.longDoubleBits left right := by
  intro hall
  have hfollows := hall Records.layoutLp64Fp80 (by decide) Records.layoutLp64Fp80 (by decide)
    (plainFloat 80 .float) (plainInteger 64 true) isArithmetic_plainFloat isArithmetic_plainInteger
  have hwidth := (hfollows.ruled.floatLeft rfl (by decide) _ rfl).2.1
  exact absurd hwidth (by decide)

end Fisics
