import Fisics.Syntax.AnalyzeExpr

/-!
# The checker's types against C

Operator by operator, the checker reports the width and the sign of C but for
these: comparisons, `&&`, `||` and `!` have one unsigned bit; `~` does not promote;
a shift has the common type of both operands; a floating result takes its width
from the wider operand, integers included, and a `long double` of fewer than 128
bits is lost; arithmetic on pointers to pointers to `void` is refused; and on a
target with a 32-bit `long` that type has 64 bits.
-/

namespace Fisics

open CInteger (DataModel IntType Unary Binary ArithOp ShiftOp CompareOp BitOp LogicOp)
open Option (bind_eq_some_iff map_eq_some_iff)
open ScalarExpr (children typeOf)

variable {info left right : TypeInfo} {x : ExprInfo}

-- Reported types

def CType.base : CType → CType
  | .ptr t => t.base
  | t => t

def CType.depth : CType → Nat
  | .ptr t => t.depth + 1
  | _ => 0

/-- The source takes `long` to have 64 bits everywhere. -/
def widensLong (m : DataModel) (t : CType) : Bool :=
  m = .llp64 && (t.base = .int .long || t.base = .int .ulong)

def TypeInfo.IsInt (info : TypeInfo) (bits : Nat) (isUnsigned : Bool) : Prop :=
  ∃ category, (category = .integer ∨ category = .enum) ∧ info = ⟨category, bits, !isUnsigned, false, false⟩

/-- The type is reported with the width and the sign that it has in C, and a pointer
with the type it points to. -/
@[grind] def ExprInfo.Has (target : Target) (e : ExprInfo) : CType → Prop
  | .int t => e.info.IsInt (t.bits target.model) t.isUnsigned
  | .enum => e.info.IsInt 32 false
  | .float kind isComplex => e.info = ⟨.float, target.floatBits kind, true, isComplex, false⟩
  | .ptr t =>
    e.info.category = .pointer ∧ e.originalType = some (parsedTypeOf (.ptr t)) ∧
      widensLong target.model t = false
  | .void => False

theorem has_isLValue (target : Target) (e : ExprInfo) (isLValue : Bool) (t : CType) :
    ({ e with isLValue := isLValue } : ExprInfo).Has target t ↔ e.Has target t := by
  cases t <;> exact Iff.rfl

section
variable {target host : Target} {x y : ExprInfo} {a b t : CType}

theorem ExprInfo.Has.isInt (h : x.Has target a) (ha : a.int? = some s) :
    x.info.IsInt (s.bits target.model) s.isUnsigned := by
  cases a with
  | int t =>
    cases ha
    exact h
  | enum =>
    cases ha
    have hbits : IntType.int.bits target.model = 32 := by cases target <;> rfl
    exact h
  | float kind isComplex | ptr t | void => cases ha

theorem TypeInfo.IsInt.isInteger (h : info.IsInt bits u) : typeInfoIsInteger info = true := by
  obtain ⟨category, rfl | rfl, rfl⟩ := h <;> rfl

theorem TypeInfo.IsInt.bits_eq (h : info.IsInt bits u) : info.bitWidth = bits := by
  obtain ⟨category, -, rfl⟩ := h
  rfl

theorem widensLong_ptr (m : DataModel) (t : CType) : widensLong m (.ptr t) = widensLong m t := rfl

theorem parsedTypeOf_derivations (t : CType) :
    (parsedTypeOf t).derivations = t.depth ∧ (parsedTypeOf t).pointerDepth = t.depth := by
  induction t with
  | int t => cases t <;> exact ⟨rfl, rfl⟩
  | enum | void => exact ⟨rfl, rfl⟩
  | float kind isComplex => cases kind <;> exact ⟨rfl, rfl⟩
  | ptr t ih => exact ⟨congrArg (· + 1) ih.1, congrArg (· + 1) ih.2⟩

theorem typeInfoFromParsedType_has (ht : t.isScalar = true) :
    (typeInfoFromParsedType target (parsedTypeOf t)).Has target t ↔ widensLong target.model t = false := by
  cases t with
  | int t =>
    have hinfo : (typeInfoFromParsedType target (parsedTypeOf (.int t))).info =
        infoOf .lp64 t := by cases t <;> rfl
    constructor
    · rintro ⟨category, -, h⟩
      rw [hinfo] at h
      have hbits : t.bits .lp64 = t.bits target.model := congrArg TypeInfo.bitWidth h
      revert hbits
      cases target <;> cases t <;> decide
    · intro h
      have hbits : t.bits .lp64 = t.bits target.model := by
        revert h
        cases target <;> cases t <;> decide
      refine ⟨.integer, .inl rfl, ?_⟩
      rw [hinfo, ← hbits]
      rfl
  | enum => exact iff_of_true ⟨.enum, .inr rfl, rfl⟩ (by cases target <;> rfl)
  | float kind isComplex =>
    refine iff_of_true ?_ (by cases target <;> rfl)
    cases kind <;> rfl
  | ptr t =>
    constructor
    · intro h
      exact h.2.2
    · intro h
      exact ⟨rfl, rfl, h⟩
  | void => cases ht

-- The usual conversions

theorem integerPromote_isInt {s : IntType} (h : info.IsInt (s.bits m) s.isUnsigned) :
    (integerPromote info).IsInt (s.promote.bits m) s.promote.isUnsigned := by
  obtain ⟨category, hcategory, rfl⟩ := h
  refine ⟨category, hcategory, ?_⟩
  rcases hcategory with rfl | rfl <;> cases m <;> cases s <;> rfl

theorem pickIntegerResult_category (hl : typeInfoIsInteger left = true)
    (hr : typeInfoIsInteger right = true) :
    typeInfoIsInteger (pickIntegerResult left right) = true ∧
      { pickIntegerResult left right with category := .integer } =
        pickIntegerResult { left with category := .integer } { right with category := .integer } := by
  have hrank : ∀ info : TypeInfo, typeInfoIsInteger info = true →
      integerRank { info with category := .integer } = integerRank info := by
    intro info hinfo
    unfold integerRank
    rw [hinfo]
    rfl
  unfold pickIntegerResult
  rw [hrank left hl, hrank right hr]
  repeat' split
  all_goals first | exact ⟨hl, rfl⟩ | exact ⟨hr, rfl⟩

theorem pickIntegerResult_isInt {s u : IntType}
    (hl : left.IsInt (s.bits m) s.isUnsigned) (hr : right.IsInt (u.bits m) u.isUnsigned) :
    (pickIntegerResult (integerPromote left) (integerPromote right)).IsInt
      ((s.usual m u).bits m) (s.usual m u).isUnsigned := by
  have hl := integerPromote_isInt hl
  have hr := integerPromote_isInt hr
  obtain ⟨hinteger, hpick⟩ := pickIntegerResult_category hl.isInteger hr.isInteger
  obtain ⟨category, -, hl⟩ := hl
  obtain ⟨category', -, hr⟩ := hr
  have husual : pickIntegerResult (infoOf m s.promote) (infoOf m u.promote) =
      infoOf m (s.usual m u) := by
    have h := usualArithmeticConversion_infoOf m 0 s u
    rw [← integerPromote_infoOf, ← integerPromote_infoOf]
    exact Option.some.inj h
  rw [hl, hr] at hpick ⊢
  have hstrip := hpick.trans husual
  rw [hl, hr] at hinteger
  revert hinteger hstrip
  generalize pickIntegerResult _ _ = result
  intro hinteger hstrip
  obtain ⟨c, w, sg, cx, im⟩ := result
  obtain ⟨-, rfl, rfl, rfl, rfl⟩ := TypeInfo.mk.inj hstrip
  refine ⟨c, ?_, rfl⟩
  simpa [typeInfoIsInteger] using hinteger

def CType.bits (target : Target) : CType → Nat
  | .int t => t.bits target.model
  | .enum => 32
  | .float kind _ => target.floatBits kind
  | .ptr _ | .void => 0

def CType.isFloat : CType → Bool
  | .float _ _ => true
  | _ => false

def CType.isComplex : CType → Bool
  | .float _ isComplex => isComplex
  | _ => false

/-- The width that the checker gives to a floating result for the wider operand. -/
def checkedFloatBits (host : Target) (bits : Nat) : Nat :=
  if 128 ≤ bits then host.longDoubleBits else if 64 ≤ bits then 64 else 32

def usualMisjudged (target host : Target) (a b : CType) : Bool :=
  match a.common target.model b with
  | some (.float kind _) =>
    checkedFloatBits host (max (a.bits target) (b.bits target)) ≠ target.floatBits kind
  | _ => false

theorem ExprInfo.Has.arithmetic (h : x.Has target a) (ha : a.isArithmetic = true) :
    typeInfoIsArithmetic x.info = true ∧ x.info.bitWidth = a.bits target ∧
      typeInfoIsFloating x.info = a.isFloat ∧ x.info.isComplex = a.isComplex ∧
      x.info.isImaginary = false := by
  cases a with
  | int t | enum =>
    obtain ⟨category, rfl | rfl, hinfo⟩ := h <;> rw [hinfo] <;> exact ⟨rfl, rfl, rfl, rfl, rfl⟩
  | float kind isComplex =>
    have hinfo : x.info = _ := h
    rw [hinfo]
    exact ⟨rfl, rfl, rfl, rfl, rfl⟩
  | ptr t | void => cases ha

theorem common_isArithmetic (h : a.common m b = some t) :
    a.isArithmetic = true ∧ b.isArithmetic = true := by
  cases a <;> cases b <;> first | exact ⟨rfl, rfl⟩ | cases h

theorem common_int (ha : a.int? = some s) (hb : b.int? = some u) :
    a.common m b = some (.int (s.usual m u)) := by
  cases a <;> cases b <;> cases ha <;> cases hb <;> rfl

theorem common_float (hfloat : (a.isFloat || b.isFloat) = true) (h : a.common m b = some t) :
    ∃ kind, t = .float kind (a.isComplex || b.isComplex) := by
  cases a with
  | float k c =>
    cases b with
    | float k' c' =>
      cases h
      exact ⟨_, rfl⟩
    | int u | enum =>
      cases h
      exact ⟨k, by simp [CType.isComplex]⟩
    | ptr u | void => cases h
  | int s | enum =>
    cases b with
    | float k' c' =>
      cases h
      exact ⟨k', rfl⟩
    | int u | enum => cases hfloat
    | ptr u | void => cases h
  | ptr s | void => cases b <;> cases h

theorem int?_of_not_float (ha : a.isArithmetic = true) (hfloat : a.isFloat = false) :
    ∃ s, a.int? = some s := by
  cases a with
  | int t => exact ⟨t, rfl⟩
  | enum => exact ⟨.int, rfl⟩
  | float kind isComplex => cases hfloat
  | ptr t => cases ha
  | void => cases ha

theorem makeFloatTypeInfo_bits (host : Target) (bits : Nat) (isComplex : Bool) :
    makeFloatTypeInfo host.longDoubleBits
      (if 128 ≤ bits then .longDouble else if 64 ≤ bits then .double else .float) isComplex =
      ⟨.float, checkedFloatBits host bits, true, isComplex, false⟩ := by
  unfold checkedFloatBits
  split
  · rfl
  · split <;> rfl

theorem analyzeUsual_int {s u : IntType} (hx : x.info.IsInt (s.bits m) s.isUnsigned)
    (hy : y.info.IsInt (u.bits m) u.isUnsigned) :
    (analyzeUsual host x y).info.IsInt ((s.usual m u).bits m) (s.usual m u).isUnsigned := by
  have hpick := pickIntegerResult_isInt hx hy
  have hfloat : ∀ {info : TypeInfo} {bits u}, info.IsInt bits u →
      typeInfoIsArithmetic info = true ∧ typeInfoIsFloating info = false := by
    rintro info bits u ⟨category, rfl | rfl, rfl⟩ <;> exact ⟨rfl, rfl⟩
  unfold analyzeUsual usualArithmeticConversion
  simp only [hfloat hx, hfloat hy, Bool.not_true, Bool.or_false, Bool.false_eq_true, ↓reduceIte]
  exact hpick

theorem analyzeUsual_has (hx : x.Has target a) (hy : y.Has target b)
    (h : a.common target.model b = some t) :
    (analyzeUsual host x y).Has target t ↔ usualMisjudged target host a b = false := by
  obtain ⟨ha, hb⟩ := common_isArithmetic h
  obtain ⟨hxarith, hxbits, hxfloat, hxcomplex, hximag⟩ := hx.arithmetic ha
  obtain ⟨hyarith, hybits, hyfloat, hycomplex, hyimag⟩ := hy.arithmetic hb
  cases hfloat : a.isFloat || b.isFloat with
  | true =>
    obtain ⟨kind, rfl⟩ := common_float hfloat h
    have hresult : analyzeUsual host x y = .value ⟨.float,
        checkedFloatBits host (max (a.bits target) (b.bits target)), true,
        a.isComplex || b.isComplex, false⟩ := by
      unfold analyzeUsual usualArithmeticConversion
      simp only [hxarith, hyarith, hxbits, hybits, hxfloat, hyfloat, hfloat, hxcomplex, hycomplex,
        hximag, hyimag, Bool.not_true, Bool.or_false, Bool.false_and, Bool.false_eq_true, ↓reduceIte,
        makeFloatTypeInfo_bits]
    rw [usualMisjudged, h, hresult]
    simp [ExprInfo.Has, ExprInfo.value]
  | false =>
    obtain ⟨hafloat, hbfloat⟩ := Bool.or_eq_false_iff.mp hfloat
    obtain ⟨s, hs⟩ := int?_of_not_float ha hafloat
    obtain ⟨u, hu⟩ := int?_of_not_float hb hbfloat
    rw [common_int hs hu] at h
    cases h
    rw [usualMisjudged, common_int hs hu]
    exact iff_of_true (analyzeUsual_int (hx.isInt hs) (hy.isInt hu)) rfl

-- Operators

def CType.isPtr : CType → Bool
  | .ptr _ => true
  | _ => false

theorem ExprInfo.Has.kind (h : x.Has target a) :
    typeInfoIsPointerLike x.info = a.isPtr ∧ typeInfoIsInteger x.info = a.int?.isSome ∧
      a.isScalar = true := by
  cases a with
  | int t | enum =>
    obtain ⟨category, rfl | rfl, hinfo⟩ := h <;> rw [hinfo] <;> exact ⟨rfl, rfl, rfl⟩
  | float kind isComplex =>
    have hinfo : x.info = _ := h
    rw [hinfo]
    exact ⟨rfl, rfl, rfl⟩
  | ptr t =>
    refine ⟨?_, ?_, rfl⟩
    · rw [typeInfoIsPointerLike, h.1]
      rfl
    · rw [typeInfoIsInteger, h.1]
      rfl
  | void => exact h.elim

theorem TypeInfo.IsInt.inj (h : info.IsInt bits u) (h' : info.IsInt bits' u') : bits = bits' ∧ u = u' := by
  obtain ⟨category, -, rfl⟩ := h
  obtain ⟨category', -, h'⟩ := h'
  obtain ⟨-, rfl, hsign, -⟩ := TypeInfo.mk.inj h'
  exact ⟨rfl, Bool.not_inj hsign⟩

theorem int_bits (m : DataModel) : IntType.int.bits m = 32 := by cases m <;> rfl

theorem not_has_bool : ¬(ExprInfo.value makeBoolType).Has target (.int .int) := by
  intro h
  have hbits : (1 : Nat) = IntType.int.bits target.model := h.bits_eq
  rw [int_bits] at hbits
  exact absurd hbits (by decide)

theorem not_has_invalid (t : CType) : ¬makeInvalidType.Has target t := by
  intro h
  cases t with
  | int t | enum =>
    obtain ⟨category, rfl | rfl, h⟩ := h <;> exact nomatch congrArg TypeInfo.category h
  | float kind isComplex => exact nomatch congrArg TypeInfo.category h
  | ptr t => exact nomatch h.1
  | void => exact h

@[grind] def unaryMisjudged : Unary → CType → Bool
  | .logNot, _ => true
  | .bitNot, a => a.int?.any IntType.isNarrow
  | .plus, _ | .minus, _ => false

theorem analyzeUnary_sign (hx : x.Has target a) (hop : op = .plus ∨ op = .minus)
    (h : unaryType op a = some t) : (analyzeUnary op x).Has target t := by
  have hanalyze : analyzeUnary op x =
      if typeInfoIsArithmetic x.info then .value (integerPromote x.info) else makeInvalidType := by
    rcases hop with rfl | rfl <;> rfl
  have hint : ∀ {s}, a.int? = some s → unaryType op a = some (.int s.promote) := by
    intro s hs
    rcases hop with rfl | rfl <;> cases a <;> cases hs <;> rfl
  rw [hanalyze]
  cases hs : a.int? with
  | some s =>
    rw [hint hs] at h
    cases h
    have hi := hx.isInt hs
    have harith : typeInfoIsArithmetic x.info = true := by
      rw [typeInfoIsArithmetic, hi.isInteger]
      rfl
    rw [if_pos harith]
    exact integerPromote_isInt hi
  | none =>
    cases a with
    | float kind isComplex =>
      have ht : t = .float kind isComplex := by
        rcases hop with rfl | rfl <;> exact (Option.some.inj h).symm
      have hinfo : x.info = _ := hx
      rw [ht, hinfo]
      exact rfl
    | int s | enum => cases hs
    | ptr s | void => rcases hop with rfl | rfl <;> cases h

theorem analyzeUnary_has (hx : x.Has target a) (h : unaryType op a = some t) :
    (analyzeUnary op x).Has target t ↔ unaryMisjudged op a = false := by
  cases op with
  | plus => exact iff_of_true (analyzeUnary_sign hx (.inl rfl) h) rfl
  | minus => exact iff_of_true (analyzeUnary_sign hx (.inr rfl) h) rfl
  | logNot =>
    refine iff_of_false ?_ Bool.true_eq_false.mp
    simp only [unaryType] at h
    split at h
    · cases h
      unfold analyzeUnary
      dsimp only
      split
      · exact not_has_bool
      · exact not_has_invalid _
    · cases h
  | bitNot =>
    have hs : ∃ s, a.int? = some s ∧ t = .int s.promote := by
      cases a <;> first | exact ⟨_, rfl, (Option.some.inj h).symm⟩ | cases h
    obtain ⟨s, hs, rfl⟩ := hs
    have hi := hx.isInt hs
    unfold analyzeUnary
    rw [if_pos hi.isInteger, unaryMisjudged, hs, Option.any_some, ← IntType.shape_promote_iff target.model]
    constructor
    · intro hp
      obtain ⟨hbits, hu⟩ := hi.inj hp
      exact Prod.ext hbits hu
    · intro hp
      obtain ⟨hbits, hu⟩ := Prod.mk.inj hp
      show x.info.IsInt _ _
      rw [← hbits, ← hu]
      exact hi

theorem infoPrimitive_void (t : CType) : infoPrimitive (parsedTypeOf t) = .void ↔ t.base = .void := by
  induction t with
  | int t => cases t <;> decide
  | enum => decide
  | float kind isComplex => cases kind <;> cases isComplex <;> decide
  | ptr t ih => exact ih
  | void => decide

theorem pointsToVoid_has (h : x.Has target (.ptr t)) : pointsToVoid x = decide (t.base = .void) := by
  rw [pointsToVoid, h.2.1, Option.any_some]
  exact decide_eq_decide.mpr (infoPrimitive_void (.ptr t))

theorem analyzePointerArith_has (h : x.Has target (.ptr t)) :
    (analyzePointerArith x).Has target (.ptr t) ↔ decide (t.base = .void) = false := by
  rw [analyzePointerArith, pointsToVoid_has h]
  cases decide (t.base = .void) with
  | true => exact iff_of_false (not_has_invalid _) Bool.true_eq_false.mp
  | false => exact iff_of_true h rfl

def arithMisjudged (target host : Target) (a b : CType) : Bool :=
  match a, b with
  | .ptr t, _ => t.base = .void
  | _, .ptr t => t.base = .void
  | a, b => usualMisjudged target host a b

theorem has_difference (target : Target) :
    (ExprInfo.value (makeIntegerType 64 true)).Has target (.int (differenceType target.model)) := by
  cases target <;> exact ⟨.integer, .inl rfl, rfl⟩

theorem has_size (target : Target) :
    (ExprInfo.value (makeIntegerType 64 false)).Has target (.int (sizeType target.model)) := by
  cases target <;> exact ⟨.integer, .inl rfl, rfl⟩

theorem analyzeAdd_has (hx : x.Has target a) (hy : y.Has target b)
    (h : arithType target.model .add a b = some t) :
    (analyzeArithmetic host x y .add).Has target t ↔ arithMisjudged target host a b = false := by
  obtain ⟨hxptr, hxint, -⟩ := hx.kind
  obtain ⟨hyptr, hyint, -⟩ := hy.kind
  unfold analyzeArithmetic
  rw [hxptr, hxint, hyptr, hyint]
  cases a with
  | ptr s =>
    simp only [arithType] at h
    split at h
    · rename_i hs
      cases h
      simp only [CType.isPtr, hs.2, Bool.and_true, ↓reduceIte]
      exact analyzePointerArith_has hx
    · cases h
  | _ =>
    cases b with
    | ptr u =>
      simp only [arithType] at h
      split at h
      · rename_i hu
        cases h
        simp only [CType.isPtr, hu.2, Bool.false_and, Bool.and_true, Bool.false_eq_true, ↓reduceIte]
        exact analyzePointerArith_has hy
      · cases h
    | _ => exact analyzeUsual_has hx hy h

theorem analyzeSub_has (hx : x.Has target a) (hy : y.Has target b)
    (h : arithType target.model .sub a b = some t) :
    (analyzeArithmetic host x y .sub).Has target t ↔ arithMisjudged target host a b = false := by
  obtain ⟨hxptr, -⟩ := hx.kind
  obtain ⟨hyptr, hyint, -⟩ := hy.kind
  unfold analyzeArithmetic
  rw [hxptr, hyptr, hyint]
  cases a with
  | ptr s =>
    cases b with
    | ptr u =>
      simp only [arithType] at h
      split at h
      · rename_i hs
        obtain ⟨-, rfl⟩ := hs
        cases h
        rw [pointsToVoid_has hx, pointsToVoid_has hy]
        show (if (decide (s.base = .void) || decide (s.base = .void)) = true then makeInvalidType
          else ExprInfo.value (makeIntegerType 64 true)).Has target _ ↔ decide (s.base = .void) = false
        cases decide (s.base = .void) with
        | true => exact iff_of_false (not_has_invalid _) Bool.true_eq_false.mp
        | false => exact iff_of_true (has_difference target) rfl
      · cases h
    | _ =>
      simp only [arithType] at h
      split at h
      · rename_i hs
        cases h
        simp only [CType.isPtr, hs.2, Bool.and_true, ↓reduceIte]
        exact analyzePointerArith_has hx
      · cases h
  | _ =>
    cases b with
    | ptr u => cases h
    | _ => exact analyzeUsual_has hx hy h

theorem ints_of_usual {f : IntType → IntType → IntType}
    (h : (a.int?.bind fun s => b.int?.map fun u => CType.int (f s u)) = some t) :
    ∃ s u, a.int? = some s ∧ b.int? = some u ∧ t = .int (f s u) := by
  obtain ⟨s, hs, h⟩ := bind_eq_some_iff.mp h
  obtain ⟨u, hu, rfl⟩ := map_eq_some_iff.mp h
  exact ⟨s, u, hs, hu, rfl⟩

theorem arithMisjudged_int (hs : a.int? = some s) (hu : b.int? = some u) :
    arithMisjudged target host a b = false := by
  have hcommon := common_int (m := target.model) hs hu
  have husual : usualMisjudged target host a b = false := by rw [usualMisjudged, hcommon]
  cases a <;> cases b <;> first | exact husual | (cases hs <;> cases hu)

theorem analyzeArithmetic_has (hx : x.Has target a) (hy : y.Has target b)
    (h : arithType target.model op a b = some t) :
    (analyzeArithmetic host x y op).Has target t ↔ arithMisjudged target host a b = false := by
  have husual : ∀ {op}, (op = .mul ∨ op = .div) → arithType target.model op a b = some t →
      ((analyzeUsual host x y).Has target t ↔ arithMisjudged target host a b = false) := by
    intro op hop hcommon
    have hcommon : a.common target.model b = some t := by
      rcases hop with rfl | rfl <;> exact hcommon
    rw [analyzeUsual_has hx hy hcommon]
    obtain ⟨ha, hb⟩ := common_isArithmetic hcommon
    cases a <;> cases b <;> first | exact Iff.rfl | (cases ha <;> cases hb)
  cases op with
  | add => exact analyzeAdd_has hx hy h
  | sub => exact analyzeSub_has hx hy h
  | mul => exact husual (.inl rfl) h
  | div => exact husual (.inr rfl) h
  | mod =>
    obtain ⟨s, u, hs, hu, rfl⟩ := ints_of_usual h
    have hxi := hx.isInt hs
    have hyi := hy.isInt hu
    unfold analyzeArithmetic
    rw [hxi.isInteger, hyi.isInteger]
    exact iff_of_true (analyzeUsual_int hxi hyi) (arithMisjudged_int hs hu)

@[grind] def binaryMisjudged (target host : Target) (op : Binary) (a b : CType) : Bool :=
  match op with
  | .arith _ => arithMisjudged target host a b
  | .bit _ => false
  | .compare _ => true
  | .shift _ => a.int?.any fun s => b.int?.any fun u =>
    (s.usual target.model u).shape target.model ≠ s.promote.shape target.model

theorem analyzeComparison_value (host : Target) (op : CompareOp) (nullLeft nullRight : Bool) (x y : ExprInfo) :
    analyzeComparison host op nullLeft nullRight x y = .value makeBoolType ∨
      analyzeComparison host op nullLeft nullRight x y = makeInvalidType := by
  unfold analyzeComparison
  dsimp only
  repeat' split
  all_goals first | exact .inl rfl | exact .inr rfl

theorem analyzeBinary_has (hx : x.Has target a) (hy : y.Has target b)
    (h : binaryType target.model nullLeft nullRight op a b = some t) :
    (analyzeBinary host op nullLeft nullRight x y).Has target t ↔
      binaryMisjudged target host op a b = false := by
  cases op with
  | arith op => exact analyzeArithmetic_has hx hy h
  | bit op =>
    obtain ⟨s, u, hs, hu, rfl⟩ := ints_of_usual h
    have hxi := hx.isInt hs
    have hyi := hy.isInt hu
    unfold analyzeBinary
    rw [hxi.isInteger, hyi.isInteger]
    exact iff_of_true (analyzeUsual_int hxi hyi) rfl
  | compare op =>
    refine iff_of_false ?_ Bool.true_eq_false.mp
    simp only [binaryType] at h
    split at h
    · cases h
      show ¬(analyzeComparison host op nullLeft nullRight x y).Has target (.int .int)
      obtain hvalue | hvalue := analyzeComparison_value host op nullLeft nullRight x y
      · rw [hvalue]
        exact not_has_bool
      · rw [hvalue]
        exact not_has_invalid _
    · cases h
  | shift op =>
    obtain ⟨s, u, hs, hu, rfl⟩ := ints_of_usual (f := fun s _ => s.promote) h
    have hxi := hx.isInt hs
    have hyi := hy.isInt hu
    have hresult : (analyzeUsual host x y).info.IsInt ((s.usual target.model u).bits target.model)
        (s.usual target.model u).isUnsigned := analyzeUsual_int hxi hyi
    unfold analyzeBinary
    rw [hxi.isInteger, hyi.isInteger, binaryMisjudged, hs, hu]
    simp only [Option.any_some, decide_eq_false_iff_not, ne_eq, not_not]
    constructor
    · intro hp
      obtain ⟨hbits, hu⟩ := hresult.inj hp
      exact Prod.ext hbits hu
    · intro hp
      obtain ⟨hbits, hu⟩ := Prod.mk.inj hp
      show (analyzeUsual host x y).info.IsInt _ _
      rw [← hbits, ← hu]
      exact hresult

@[grind] def condMisjudged (target host : Target) (nullTrue nullFalse : Bool) (a b : CType) : Bool :=
  match a, b with
  | .ptr t, .ptr t' => !nullTrue && !nullFalse && t.depth ≠ t'.depth
  | .ptr _, _ | _, .ptr _ => false
  | a, b => usualMisjudged target host a b

theorem pointersCompatible_same (hx : x.Has target (.ptr t)) (hy : y.Has target (.ptr t)) :
    pointersCompatible x y = true := by
  rw [pointersCompatible, hx.2.1, hy.2.1]
  simp

theorem ExprInfo.Has.depth (h : x.Has target (.ptr t)) :
    x.originalType.map ScalarType.derivations = some (t.depth + 1) := by
  rw [h.2.1]
  exact congrArg some (parsedTypeOf_derivations (.ptr t)).1

theorem base_of_depth (h : t.depth = 0) : t.base = t := by
  cases t <;> first | rfl | cases h

theorem analyzeTernary_pointers (hx : x.Has target (.ptr s)) (hy : y.Has target (.ptr u))
    (h : condType target.model false false (.ptr s) (.ptr u) = some t) :
    (analyzeTernary host false false x y).Has target t ↔ s.depth = u.depth := by
  have hptr : (typeInfoIsArithmetic x.info && typeInfoIsArithmetic y.info) = false := by
    rw [typeInfoIsArithmetic, typeInfoIsInteger, typeInfoIsFloating, hx.1]
    rfl
  have hresult : analyzeTernary host false false x y =
      if (decide (s.base = .void) || decide (u.base = .void)) && decide (s.depth = u.depth) then
        if decide (s.base = .void) then x else y
      else if pointersCompatible x y then x else makeInvalidType := by
    unfold analyzeTernary
    rw [hptr, hx.kind.1, hy.kind.1, pointsToVoid_has hx, pointsToVoid_has hy]
    simp [hx.depth, hy.depth, CType.isPtr]
  rw [hresult]
  simp only [condType, Bool.false_eq_true, ↓reduceIte] at h
  split at h
  · -- the same type
    rename_i hsame
    subst hsame
    cases h
    refine iff_of_true ?_ rfl
    rw [pointersCompatible_same hx hy]
    cases decide (s.base = .void) <;> simpa using hx
  · rename_i hne
    split at h
    · rename_i hvoid
      cases h
      by_cases hdepth : s.depth = u.depth
      · refine iff_of_true ?_ hdepth
        rcases hvoid with rfl | rfl
        · simpa [hdepth, CType.base] using hx
        · have hs : s.base ≠ .void := by
            rw [base_of_depth hdepth]
            exact hne
          have hd : s.depth = CType.void.depth := hdepth
          simpa [hd, hs, CType.base] using hy
      · refine iff_of_false ?_ hdepth
        have hcompatible : pointersCompatible x y = false := by
          have hne : (parsedTypeOf (.ptr s)).derivations ≠ (parsedTypeOf (.ptr u)).derivations := by
            rw [(parsedTypeOf_derivations (.ptr s)).1, (parsedTypeOf_derivations (.ptr u)).1]
            exact mt Nat.succ.inj hdepth
          rw [pointersCompatible, hx.2.1, hy.2.1]
          dsimp only
          rw [decide_eq_false hne]
          rfl
        rw [decide_eq_false hdepth, hcompatible]
        simpa using not_has_invalid _
    · cases h

theorem analyzeTernary_has (hx : x.Has target a) (hy : y.Has target b)
    (h : condType target.model nullTrue nullFalse a b = some t) :
    (analyzeTernary host nullTrue nullFalse x y).Has target t ↔
      condMisjudged target host nullTrue nullFalse a b = false := by
  obtain ⟨hxptr, -⟩ := hx.kind
  obtain ⟨hyptr, -⟩ := hy.kind
  cases a with
  | ptr s =>
    have hxarith : typeInfoIsArithmetic x.info = false := by
      rw [typeInfoIsArithmetic, typeInfoIsInteger, typeInfoIsFloating, hx.1]
      rfl
    cases b with
    | ptr u =>
      cases nullFalse with
      | true =>
        cases h
        refine iff_of_true ?_ (by simp [condMisjudged])
        simpa [analyzeTernary, hxarith, hxptr, CType.isPtr] using hx
      | false => ?_
      cases nullTrue with
      | true =>
        cases h
        refine iff_of_true ?_ rfl
        simpa [analyzeTernary, hxarith, hyptr, CType.isPtr] using hy
      | false =>
        rw [analyzeTernary_pointers hx hy h]
        simp [condMisjudged]
    | _ =>
      simp only [condType] at h
      split at h
      · rename_i hnull
        cases h
        refine iff_of_true ?_ rfl
        simpa [analyzeTernary, hxarith, hxptr, CType.isPtr, hnull.1] using hx
      · cases h
  | _ =>
    cases b with
    | ptr u =>
      have hyarith : typeInfoIsArithmetic y.info = false := by
        rw [typeInfoIsArithmetic, typeInfoIsInteger, typeInfoIsFloating, hy.1]
        rfl
      simp only [condType] at h
      split at h
      · rename_i hnull
        cases h
        refine iff_of_true ?_ rfl
        simpa [analyzeTernary, hyarith, hxptr, hyptr, CType.isPtr, hnull.1] using hy
      · cases h
    | _ =>
      simp only [condType] at h
      have hxarith := (hx.arithmetic (common_isArithmetic h).1).1
      have hyarith := (hy.arithmetic (common_isArithmetic h).2).1
      unfold analyzeTernary
      rw [hxarith, hyarith]
      exact analyzeUsual_has hx hy h

end

-- Trees

/-- The scope that declarations of the types leave. -/
def scopeOf (declared : String → Option CType) (name : String) : Option ScalarType :=
  (declared name).map parsedTypeOf

section
variable (target host : Target) (declared : String → Option CType) (isNull : ScalarExpr → Bool)

/-- The checker reports another width or sign than C for the operator at the top. -/
@[grind] def checkerMisjudges : ScalarExpr → Bool
  | .identifier name => (declared name).any (widensLong target.model)
  | .number c => c.missesUnsignedLong target.model
  | .floating kind => kind = .longDouble && host.longDoubleBits ≠ target.longDoubleBits
  | .charLiteral | .sizeofType _ | .sizeofExpr _ => false
  | .cast t _ => widensLong target.model t
  | .unary op e => (e.typeOf target.model declared isNull).any (unaryMisjudged op)
  | .deref _ | .addressOf _ | .step _ _ | .comma _ _ => false
  | .binary op l r =>
    (l.typeOf target.model declared isNull).any fun a =>
      (r.typeOf target.model declared isNull).any fun b => binaryMisjudged target host op a b
  | .logic _ _ _ => true
  | .cond _ a b =>
    (a.typeOf target.model declared isNull).any fun s =>
      (b.typeOf target.model declared isNull).any fun t =>
        condMisjudged target host (isNull a) (isNull b) s t

structure Checked (e : ScalarExpr) (t : CType) : Prop where
  has : (analyzeExpression target host (scopeOf declared) isNull e).Has target t
  lvalue : e.isLvalue = true → analyzeExpression target host (scopeOf declared) isNull e =
    { typeInfoFromParsedType target (parsedTypeOf t) with isLValue := true }

variable {target host declared isNull} {e : ScalarExpr} {t : CType}

theorem has_literal (hs : c.type? target.model = some s) :
    (analyzeExpression target host (scopeOf declared) isNull (.number c)).Has target (.int s) ↔
      c.missesUnsignedLong target.model = false := by
  obtain ⟨range, hparse⟩ := c.parse target.layout
  rw [Target.layout, c.choose hs] at hparse
  rw [analyzeExpression, Target.layout, hparse]
  cases hmiss : c.missesUnsignedLong target.model with
  | true => ?_
  | false => exact iff_of_true ⟨.integer, .inl rfl, rfl⟩ rfl
  obtain ⟨hm, rfl⟩ := c.ulong_of_misses hs hmiss
  refine iff_of_false ?_ Bool.true_eq_false.mp
  intro h
  have hbits : 64 = IntType.ulong.bits target.model := h.bits_eq
  rw [hm] at hbits
  exact absurd hbits (by decide)

theorem has_floating (kind : FloatKind) :
    (analyzeExpression target host (scopeOf declared) isNull (.floating kind)).Has target
        (.float kind false) ↔
      checkerMisjudges target host declared isNull (.floating kind) = false := by
  have h : (analyzeExpression target host (scopeOf declared) isNull (.floating kind)).Has target
      (.float kind false) ↔ host.floatBits kind = target.floatBits kind := by
    rw [analyzeExpression]
    simp only [ExprInfo.Has, ExprInfo.value]
    cases kind <;> simp [makeFloatTypeInfo, Target.floatBits]
  rw [h]
  cases kind <;> simp [checkerMisjudges, Target.floatBits]

theorem ExprInfo.Has.not_void (h : x.Has target t) : x.info.category ≠ .void := by
  intro hvoid
  cases t with
  | int s | enum =>
    obtain ⟨category, rfl | rfl, h⟩ := h <;> rw [h] at hvoid <;> cases hvoid
  | float kind isComplex =>
    rw [h] at hvoid
    cases hvoid
  | ptr s =>
    rw [h.1] at hvoid
    cases hvoid
  | void => exact h

theorem analyzeDeref_has (hx : x.Has target a) (h : derefType a = some t) :
    (analyzeDeref target x).Has target t ∧
      analyzeDeref target x = { typeInfoFromParsedType target (parsedTypeOf t) with isLValue := true } := by
  cases a with
  | ptr s =>
    simp only [derefType] at h
    split at h
    · rename_i hscalar
      obtain rfl := Option.some.inj h
      have hresult : analyzeDeref target x =
          { typeInfoFromParsedType target (parsedTypeOf s) with isLValue := true } := by
        rw [analyzeDeref, hx.kind.1, hx.2.1]
        rfl
      refine ⟨?_, hresult⟩
      rw [hresult, has_isLValue, typeInfoFromParsedType_has hscalar]
      exact hx.2.2
    · cases h
  | _ => cases h

theorem typeInfoFromParsedType_original (target : Target) (s : ScalarType) :
    (typeInfoFromParsedType target s).originalType = some s := by
  unfold typeInfoFromParsedType
  split <;> rfl

theorem castType_eq (h : castType s a = some t) : t = s ∧ s.isScalar = true := by
  cases s <;> cases a <;> first | exact ⟨(Option.some.inj h).symm, rfl⟩ | cases h

theorem stepType_eq (h : stepType a = some t) : t = a ∧ a ≠ .ptr .void ∧ a.isScalar = true := by
  cases a with
  | ptr s =>
    cases s <;> simp [stepType] at h <;> subst h <;> simp [CType.isScalar]
  | void => cases h
  | _ =>
    cases h
    simp [CType.isScalar]

theorem derefType_eq (h : derefType a = some t) : a = .ptr t ∧ t.isScalar = true := by
  cases a with
  | ptr s =>
    simp only [derefType] at h
    split at h
    · rename_i hs
      cases h
      exact ⟨rfl, hs⟩
    · cases h
  | _ => cases h

theorem charLiteral_has (ht : ScalarExpr.charLiteral.typeOf target.model declared isNull = some t) :
    (analyzeExpression target host (scopeOf declared) isNull .charLiteral).Has target t := by
  cases ht
  refine ⟨.integer, .inl rfl, ?_⟩
  rw [int_bits]
  rfl

theorem sizeofType_has (ht : (ScalarExpr.sizeofType s).typeOf target.model declared isNull = some t) :
    (analyzeExpression target host (scopeOf declared) isNull (.sizeofType s)).Has target t := by
  simp only [typeOf] at ht
  split at ht
  · rename_i hscalar
    cases ht
    have hvoid : (typeInfoFromParsedType target (parsedTypeOf s)).info.category ≠ .void := by
      cases s with
      | int s => cases s <;> (intro h; cases h)
      | enum | ptr s => intro h; cases h
      | float kind isComplex => cases kind <;> (intro h; cases h)
      | void => cases hscalar
    rw [analyzeExpression, if_neg hvoid]
    exact has_size target
  · cases ht

theorem addressOf_has (ht : (ScalarExpr.addressOf e).typeOf target.model declared isNull = some t)
    (he : ∀ a, e.typeOf target.model declared isNull = some a → Checked target host declared isNull e a) :
    (analyzeExpression target host (scopeOf declared) isNull (.addressOf e)).Has target t := by
  simp only [typeOf] at ht
  split at ht
  · rename_i hlvalue
    obtain ⟨a, ha, rfl⟩ := map_eq_some_iff.mp ht
    obtain ⟨hhas, hl⟩ := he a ha
    have hscalar := hhas.kind.2.2
    rw [hl hlvalue, has_isLValue, typeInfoFromParsedType_has hscalar] at hhas
    rw [analyzeExpression, analyzeAddressOf, hl hlvalue]
    rw [if_pos rfl, typeInfoFromParsedType_original]
    exact (typeInfoFromParsedType_has (t := .ptr a) rfl).mpr hhas
  · cases ht

theorem step_has (ht : (ScalarExpr.step isPostfix e).typeOf target.model declared isNull = some t)
    (he : ∀ a, e.typeOf target.model declared isNull = some a → Checked target host declared isNull e a) :
    (analyzeExpression target host (scopeOf declared) isNull (.step isPostfix e)).Has target t := by
  simp only [typeOf] at ht
  split at ht
  · rename_i hlvalue
    obtain ⟨a, ha, hstep⟩ := bind_eq_some_iff.mp ht
    obtain ⟨hhas, hl⟩ := he a ha
    obtain ⟨rfl, -, -⟩ := stepType_eq hstep
    have hisLValue : (analyzeExpression target host (scopeOf declared) isNull e).isLValue = true := by
      rw [hl hlvalue]
    rw [analyzeExpression, if_pos hisLValue]
    exact (has_isLValue ..).mpr hhas
  · cases ht

section
variable (ht : e.typeOf target.model declared isNull = some t)
  (hparts : ∀ p ∈ e.children, ∀ s, p.typeOf target.model declared isNull = some s →
    Checked target host declared isNull p s)

include ht hparts

theorem analyzeExpression_has :
    (analyzeExpression target host (scopeOf declared) isNull e).Has target t ↔
      checkerMisjudges target host declared isNull e = false := by
  cases e with
  | identifier name =>
    obtain ⟨hdeclared, hscalar⟩ := Option.filter_eq_some_iff.mp ht
    rw [analyzeExpression, scopeOf, checkerMisjudges, hdeclared]
    dsimp only [Option.map_some]
    rw [has_isLValue, typeInfoFromParsedType_has hscalar]
    rfl
  | number c =>
    obtain ⟨s, hs, rfl⟩ := map_eq_some_iff.mp ht
    exact has_literal hs
  | floating kind =>
    cases ht
    exact has_floating kind
  | charLiteral => exact iff_of_true (charLiteral_has ht) rfl
  | sizeofType s => exact iff_of_true (sizeofType_has ht) rfl
  | sizeofExpr e =>
    obtain ⟨s, hs, rfl⟩ := map_eq_some_iff.mp ht
    have he := (hparts e List.mem_cons_self s hs).has
    rw [analyzeExpression, if_neg he.not_void]
    exact iff_of_true (has_size target) rfl
  | cast s e =>
    obtain ⟨a, ha, hcast⟩ := bind_eq_some_iff.mp ht
    obtain ⟨rfl, hscalar⟩ := castType_eq hcast
    exact typeInfoFromParsedType_has hscalar
  | unary op e =>
    obtain ⟨a, ha, hop⟩ := bind_eq_some_iff.mp ht
    have he := (hparts e List.mem_cons_self a ha).has
    rw [analyzeExpression, checkerMisjudges, ha]
    exact analyzeUnary_has ((has_isLValue ..).mpr he) hop
  | deref e =>
    obtain ⟨a, ha, hderef⟩ := bind_eq_some_iff.mp ht
    have he := (hparts e List.mem_cons_self a ha).has
    exact iff_of_true (analyzeDeref_has ((has_isLValue ..).mpr he) hderef).1 rfl
  | addressOf e => exact iff_of_true (addressOf_has ht (hparts e List.mem_cons_self)) rfl
  | step isPostfix e => exact iff_of_true (step_has ht (hparts e List.mem_cons_self)) rfl
  | binary op l r =>
    obtain ⟨a, ha, ht⟩ := bind_eq_some_iff.mp ht
    obtain ⟨b, hb, hop⟩ := bind_eq_some_iff.mp ht
    have hl := (hparts l (by simp [children]) a ha).has
    have hr := (hparts r (by simp [children]) b hb).has
    rw [analyzeExpression, checkerMisjudges, ha, hb]
    exact analyzeBinary_has ((has_isLValue ..).mpr hl) ((has_isLValue ..).mpr hr) hop
  | logic op l r =>
    obtain ⟨a, ha, ht⟩ := bind_eq_some_iff.mp ht
    obtain ⟨b, hb, rfl⟩ := map_eq_some_iff.mp ht
    refine iff_of_false ?_ Bool.true_eq_false.mp
    rw [analyzeExpression]
    split
    · exact not_has_bool
    · exact not_has_invalid _
  | cond c a b =>
    obtain ⟨v, -, ht⟩ := bind_eq_some_iff.mp ht
    obtain ⟨s, hs, ht⟩ := bind_eq_some_iff.mp ht
    obtain ⟨u, hu, hcond⟩ := bind_eq_some_iff.mp ht
    have ha := (hparts a (by simp [children]) s hs).has
    have hb := (hparts b (by simp [children]) u hu).has
    rw [analyzeExpression, checkerMisjudges, hs, hu]
    exact analyzeTernary_has ((has_isLValue ..).mpr ha) ((has_isLValue ..).mpr hb) hcond
  | comma a b =>
    obtain ⟨s, -, ht⟩ := bind_eq_some_iff.mp ht
    have hb := (hparts b (by simp [children]) t ht).has
    exact iff_of_true ((has_isLValue ..).mpr hb) rfl

theorem checked_of_has (h : (analyzeExpression target host (scopeOf declared) isNull e).Has target t) :
    Checked target host declared isNull e t := by
  refine ⟨h, fun hlvalue => ?_⟩
  cases e with
  | identifier name =>
    obtain ⟨hdeclared, -⟩ := Option.filter_eq_some_iff.mp ht
    rw [analyzeExpression, scopeOf, hdeclared]
    rfl
  | deref e =>
    obtain ⟨a, ha, hderef⟩ := bind_eq_some_iff.mp ht
    have he := (hparts e List.mem_cons_self a ha).has
    exact (analyzeDeref_has ((has_isLValue ..).mpr he) hderef).2
  | _ => cases hlvalue

end

end

end Fisics
