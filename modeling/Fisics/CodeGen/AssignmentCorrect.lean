import Fisics.CodeGen.Assignment
import Fisics.CodeGen.IntegerExprCorrect

/-!
# Assignments against C

A compound assignment is computed in the type of its target, on the right side
converted to it. For `+ - * & | ^` on integers that is right but for `_Bool`; for
the others it depends on the operands, and a floating right side is lost. A simple
assignment sign-extends what is unsigned, `++` and `--` store an `i32` in a floating
object, and for a bit-field they generate no valid code unless it fills its unit.
-/

namespace Fisics

open CInteger (DataModel IntType Binary ArithOp ShiftOp BitOp ofBool)
open CInteger.IntType (fit least limit wrap_of_holds)
open Word (ofInt_wrap wrap_eq_read wrap_wrap)
open CArith (assignFloating)
open CArith (FloatType FloatOp Floats ArithType AssignOp Meaning meaning)
open Llvm (Ty Scalar)
open Word (wrap)

def intScalar (w : Nat) (z : Int) : Scalar F := .int w (BitVec.ofInt w z)

def scalarOf : (t : ArithType) → Meaning F t → Scalar F
  | .int t, z => intScalar (llvmBits (scalarOfInt t)) z
  | .float k, x => .float k x

section
variable (m : DataModel)

/-- The right side is taken with its own type. The one that is reported for it may differ, as
for `l += c + i`. -/
def StoresAsC (fl : Floats F) (op : Option AssignOp) (s t : ArithType) (x : Meaning F s)
    (y : Meaning F t) : Prop :=
  ∀ z, CArith.assign m fl op s t x y = some z →
    codegenAssignment fl op (llvmTypeOf s) (parsedArith s) (parsedArith t) (scalarOf s x)
      (scalarOf t y) = some (scalarOf s z)

/-- The same for `++` and `--`. -/
def StepsAsC (fl : Floats F) (isIncrement : Bool) (s : ArithType) (x : Meaning F s) : Prop :=
  ∀ z, CArith.step m fl isIncrement s x = some z →
    codegenStep fl isIncrement (parsedArith s) (scalarOf s x) = some (scalarOf s z)

end

def BitField.value (field : BitField) (raw : BitVec field.storageBits) : BitVec field.widthBits :=
  raw.extractLsb' field.bitOffset field.widthBits

def BitField.SetTo (field : BitField) (raw raw' : BitVec field.storageBits)
    (value : BitVec field.widthBits) : Prop :=
  field.value raw' = value ∧
    ∀ i, i < field.bitOffset ∨ field.bitOffset + field.widthBits ≤ i → raw'.getLsbD i = raw.getLsbD i

def stepped [Add α] [Sub α] (isIncrement : Bool) (x one : α) : α :=
  if isIncrement then x + one else x - one

inductive Assigned (m : DataModel)
  | assign (op : Option AssignOp) (s t : ArithType) (x y : Int) (hx : s.Holds m x) (hy : t.Holds m y)
  | step (isIncrement : Bool) (s : ArithType) (x : Int) (hx : s.Holds m x)
  | stepPointer (isIncrement : Bool) (elemSize : Nat) (p : BitVec 64) (hsize : 0 < elemSize)
  | stepBitfield (isIncrement : Bool) (field : BitField) (raw : BitVec field.storageBits)

/-- Whatever the floating operations are. -/
def Assigned.StoredAsC : Assigned m → Prop
  | .assign op s t x y _ _ =>
    ∀ (F : Type) (fl : Floats F) (f g : F), StoresAsC m fl op s t (meaning x f s) (meaning y g t)
  | .step isIncrement s x _ =>
    ∀ (F : Type) (fl : Floats F) (f : F), StepsAsC m fl isIncrement s (meaning x f s)
  | .stepPointer isIncrement elemSize p _ =>
    codegenStepPointer isIncrement elemSize p = stepped isIncrement p (BitVec.ofNat 64 elemSize)
  | .stepBitfield isIncrement field raw =>
    ∃ raw', codegenStepBitfield isIncrement field raw = some raw' ∧
      field.SetTo raw raw' (stepped isIncrement (field.value raw) 1)

-- When that is so

/-- The value of an integer that is extended without its type: by its sign, unless it
has one bit. -/
def extendedValue (b : IntType) (y : Int) : Int := wrap (b.bits .lp64) (b.bits .lp64 = 1) y

/-- The operator has a result on two values of the type. -/
def DefinedIn (a : IntType) (x y : Int) : AssignOp → Prop
  | .arith .div | .arith .mod => y ≠ 0 ∧ (a.isUnsigned = true ∨ ¬(x = a.least .lp64 ∧ y = -1))
  | .shift _ => (wrap (a.bits .lp64) true y).toNat < a.bits .lp64
  | _ => True

instance (a : IntType) (x y : Int) (op : AssignOp) : Decidable (DefinedIn a x y op) :=
  match op with
  | .arith .div | .arith .mod => inferInstanceAs (Decidable (_ ∧ _))
  | .shift _ => inferInstanceAs (Decidable (_ < _))
  | .arith .mul | .arith .add | .arith .sub | .bit _ => inferInstanceAs (Decidable True)

/-- The operator in the target's own type, on the right side converted to it. -/
def ownResult (a : IntType) (op : AssignOp) (x y : Int) : Int :=
  wrap (a.bits .lp64) a.isUnsigned (exactBinary (a.bits .lp64) a.isUnsigned x (a.convert .lp64 y) op.binary)

section
variable (m : DataModel)

/-- The target's own type is as good as the type of the usual conversions. -/
def OwnTypeSuffices (op : AssignOp) (a b : IntType) (y : Int) : Prop :=
  a.shape m = a.shape .lp64 ∧
    match op with
    | .shift _ => y < a.bits m
    | .arith .div | .arith .mod => (a.usual m b).shape m = a.shape m
    | _ => a ≠ .bool

/-- An assignment that is right, by the types and the integers among the operands. -/
def AssignsAsC (op : Option AssignOp) (s t : ArithType) (x y : Int) : Prop :=
  match op, s, t with
  | none, .int a, .int b =>
    a.shape m = a.shape .lp64 ∧ (extendedValue b y = y ∨ a.bits m ≤ b.bits m) ∨
      a.convert .lp64 (extendedValue b y) = a.convert m y
  | none, .float _, .int b => extendedValue b y = y
  | none, _, .float _ => True
  | some op, .int a, .int b =>
    OwnTypeSuffices m op a b y ∨
      ∀ z, op.binary.apply m a b x y = some z →
        DefinedIn a x (a.convert .lp64 y) op ∧ ownResult a op x y = a.convert m z
  | some op, .int _, .float _ => op.floating = none
  | some op, .float k, .float k' => op.floating = none ∨ k = .double ∨ k' = .float
  | some _, .float _, .int _ => True

/-- A step of an integer that is right: a `_Bool` must not go beyond one, and an
`unsigned long` of 32 bits must not wrap. -/
def IntStepsAsC (isIncrement : Bool) (t : IntType) (x : Int) : Prop :=
  match t with
  | .bool => isIncrement = false ∨ x = 0
  | .ulong => m = .lp64 ∨ t.Holds m (stepped isIncrement x 1)
  | _ => True

end

def Assigned.Fine : Assigned m → Prop
  | .assign op s t x y _ _ => AssignsAsC m op s t x y
  | .step isIncrement (.int t) x _ => IntStepsAsC m isIncrement t x
  | .step _ (.float _) _ _ => False
  | .stepPointer _ _ _ _ => True
  | .stepBitfield _ field _ => field.widthBits = field.storageBits

-- Casts

section
variable {m : DataModel} {fl : Floats F} {a b : IntType} {x y : Int}

theorem llvmBits_int (t : IntType) : llvmBits (scalarOfInt t) = t.bits .lp64 :=
  (Prod.mk.inj (scalarOfInt_bits t)).1

theorem cgIsUnsigned_int (t : IntType) : cgIsUnsigned (scalarOfInt t) = t.isUnsigned :=
  (Prod.mk.inj (scalarOfInt_bits t)).2

theorem castBits_eq (k : Nat) (parsedType : Option ScalarType)
    (hy : wrap w (cgShouldTreatAsUnsigned parsedType w) y = y) :
    castBits (BitVec.ofInt w y) k parsedType = BitVec.ofInt k (if k = 1 then ofBool (y ≠ 0) else y) :=
  castInteger_has (v := ⟨w, .const (BitVec.ofInt w y)⟩) (Eq.refl (BitVec.ofInt w y)) hy k

theorem ofInt_convert (a : IntType) (y : Int) :
    BitVec.ofInt (a.bits .lp64) (if a.bits .lp64 = 1 then ofBool (y ≠ 0) else y) =
      BitVec.ofInt (a.bits .lp64) (a.convert .lp64 y) := by
  have hbool : a.bits .lp64 = 1 ↔ a = .bool := by cases a <;> decide
  rw [IntType.convert]
  by_cases ha : a = .bool
  · subst ha
    by_cases hy : y = 0 <;> simp [hy, ofBool, IntType.bits]
  · rw [if_neg (mt hbool.mp ha), if_neg ha, ofInt_wrap]

theorem cgCastScalar_bits (w : Nat) (y : Int) (k : Nat) (fromParsed toParsed : Option ScalarType) :
    cgCastScalar fl (intScalar w y) (.int k) fromParsed toParsed =
      some (.int k (castBits (BitVec.ofInt w y) k fromParsed)) := by
  by_cases h : w = k
  · subst h
    calc cgCastScalar fl (intScalar w y) (.int w) fromParsed toParsed
        = some (.int w (BitVec.ofInt w y)) := if_pos rfl
      _ = some (.int w (castBits (BitVec.ofInt w y) w fromParsed)) := by
        simp [castBits, cgCastValue, castInteger, Llvm.Value.eval]
  · exact if_neg fun hty => h (Ty.int.inj hty)

theorem cgCastScalar_int (toParsed : Option ScalarType)
    (hy : wrap (b.bits .lp64) (cgShouldTreatAsUnsigned fromParsed (b.bits .lp64)) y = y) :
    cgCastScalar fl (scalarOf (.int b) y) (llvmTypeOf (.int a)) fromParsed toParsed =
      some (scalarOf (.int a) (a.convert .lp64 y)) := by
  rw [scalarOf, scalarOf, llvmTypeOf, cgCastScalar_bits, llvmBits_int, llvmBits_int, castBits_eq _ _ hy,
    ofInt_convert]
  rfl

theorem cgCastScalar_toFloat (fl : Floats F) (toParsed : Option ScalarType) (k : FloatType)
    (hy : wrap (b.bits .lp64) (cgShouldTreatAsUnsigned fromParsed (b.bits .lp64)) y = y) :
    cgCastScalar fl (scalarOf (.int b) y) (llvmTypeOf (.float k)) fromParsed toParsed =
      some (.float k (fl.ofInt k y)) := by
  rw [scalarOf, llvmTypeOf, llvmBits_int, intScalar, cgCastScalar, if_neg nofun]
  rw [Llvm.intToFloat, ← wrap_eq_read, hy]

theorem wrap_parsed (hy : b.Holds m y) :
    wrap (b.bits .lp64) (cgShouldTreatAsUnsigned (some (scalarOfInt b)) (b.bits .lp64)) y = y := by
  rw [cgShouldTreatAsUnsigned, cgIsUnsigned_int]
  exact wrap_of_holds (holds_lp64 hy)

theorem scalarOf_extended (b : IntType) (y : Int) :
    (scalarOf (.int b) (extendedValue b y) : Scalar F) = scalarOf (.int b) y := by
  rw [scalarOf, scalarOf, intScalar, intScalar, llvmBits_int, extendedValue, ofInt_wrap]

theorem wrap_extended (b : IntType) (y : Int) :
    wrap (b.bits .lp64) (cgShouldTreatAsUnsigned none (b.bits .lp64)) (extendedValue b y) =
      extendedValue b y := by
  rw [cgShouldTreatAsUnsigned, extendedValue, wrap_wrap]

theorem cgCastScalar_fromFloat (k : FloatType) (v : F) (fromParsed : Option ScalarType)
    (h : CArith.convert m fl (.float k) (.int a) v = some z) :
    cgCastScalar fl (.float k v) (llvmTypeOf (.int a)) fromParsed (some (scalarOfInt a)) =
      some (scalarOf (.int a) z) := by
  have hbool : a.bits .lp64 = 1 ↔ a = .bool := by cases a <;> decide
  rw [llvmTypeOf, llvmBits_int, cgCastScalar, if_neg nofun, scalarOf, llvmBits_int]
  rw [CArith.convert] at h
  by_cases ha : a = .bool
  · subst ha
    cases h
    cases fl.isZero k v <;> rfl
  · rw [if_neg ha] at h
    obtain ⟨hz, hholds⟩ := Option.filter_eq_some_iff.mp h
    have hwrap := wrap_of_holds (holds_lp64 (of_decide_eq_true hholds))
    rw [if_neg (mt hbool.mp ha), Llvm.floatToInt, hz, Option.bind_some, cgShouldTreatAsUnsigned,
      cgIsUnsigned_int, if_pos hwrap]
    rfl

theorem cgCastScalar_floats (fl : Floats F) (k k' : FloatType) (v : F)
    (fromParsed toParsed : Option ScalarType) :
    cgCastScalar fl (.float k v) (.float k') fromParsed toParsed =
      some (.float k' (if k = k' then v else fl.convert k k' v)) := by
  by_cases h : k = k'
  · subst h
    rw [if_pos rfl]
    exact if_pos rfl
  · rw [if_neg h]
    exact if_neg fun hty => h (Ty.float.inj hty)

-- Simple assignments

theorem ofInt_bits_inj {t : IntType} (hx : t.Holds m x) (hy : t.Holds m y) :
    BitVec.ofInt (t.bits m) x = BitVec.ofInt (t.bits m) y ↔ x = y := by
  constructor
  · intro h
    have hread := congrArg (Word.read t.isUnsigned) h
    rw [← wrap_eq_read, ← wrap_eq_read, wrap_of_holds hx, wrap_of_holds hy]
      at hread
    exact hread
  · rintro rfl
    rfl

theorem intScalar_of (a : IntType) (z : Int) :
    (scalarOf (.int a) z : Scalar F) = .int (a.bits .lp64) (BitVec.ofInt _ z) := by
  rw [scalarOf, intScalar, llvmBits_int]

theorem scalarOf_inj (hx : a.Holds .lp64 x) (hy : a.Holds .lp64 y) :
    (scalarOf (.int a) x : Scalar F) = scalarOf (.int a) y ↔ x = y := by
  rw [← ofInt_bits_inj hx hy, intScalar_of, intScalar_of]
  constructor
  · intro h
    exact eq_of_heq (Scalar.int.inj h).2
  · intro h
    rw [h]

theorem stores_simple_int (y : Int) :
    StoresAsC m fl none (.int a) (.int b) x y ↔ a.convert .lp64 (extendedValue b y) = a.convert m y := by
  have hcode : codegenAssignment fl none (llvmTypeOf (.int a)) (parsedArith (.int a))
      (parsedArith (.int b)) (scalarOf (.int a) x) (scalarOf (.int b) y) =
      some (scalarOf (.int a) (a.convert .lp64 (extendedValue b y))) := by
    rw [codegenAssignment, ← scalarOf_extended b y]
    exact cgCastScalar_int _ (wrap_extended b y)
  have hinj := scalarOf_inj (F := F) (a.convert_holds .lp64 (extendedValue b y))
    (holds_lp64 (a.convert_holds m y))
  constructor
  · intro h
    have hstored := h _ rfl
    rw [hcode] at hstored
    exact hinj.mp (Option.some.inj hstored)
  · intro h z hz
    cases hz
    rw [hcode]
    exact congrArg some (hinj.mpr h)

-- Compound assignments

/-- A division of values of the type is refused by C and by the instruction alike. -/
theorem isDefined_div (hx : a.Holds .lp64 x) (hy : a.Holds .lp64 y)
    (hop : op = ArithOp.div ∨ op = ArithOp.mod) :
    (arithInstruction a.isUnsigned op).isDefined (BitVec.ofInt (a.bits .lp64) x)
      (BitVec.ofInt (a.bits .lp64) y) = true ↔ DefinedIn a x y (.arith op) := by
  have hzero := ofInt_eq_zero_iff (wrap_of_holds hy)
  have hdefined : DefinedIn a x y (.arith op) ↔
      y ≠ 0 ∧ (a.isUnsigned = true ∨ ¬(x = a.least .lp64 ∧ y = -1)) := by
    rcases hop with rfl | rfl <;> rfl
  rw [hdefined]
  cases hu : a.isUnsigned with
  | true =>
    have hinstr : (arithInstruction true op).isDefined (BitVec.ofInt (a.bits .lp64) x)
        (BitVec.ofInt (a.bits .lp64) y) = (BitVec.ofInt (a.bits .lp64) y != 0#_) := by
      rcases hop with rfl | rfl <;> rfl
    simp [hinstr, hzero]
  | false =>
    have hinstr : (arithInstruction false op).isDefined (BitVec.ofInt (a.bits .lp64) x)
        (BitVec.ofInt (a.bits .lp64) y) = (BitVec.ofInt (a.bits .lp64) y != 0#_ &&
          !(BitVec.ofInt (a.bits .lp64) x == BitVec.intMin _ &&
            BitVec.ofInt (a.bits .lp64) y == -1#_)) := by
      rcases hop with rfl | rfl <;> rfl
    have hleast : BitVec.ofInt (a.bits .lp64) x = BitVec.intMin _ ↔ x = a.least .lp64 := by
      have hmin : BitVec.intMin (a.bits .lp64) = BitVec.ofInt _ (a.least .lp64) := by
        cases a <;> first | rfl | cases hu
      have hholds : a.Holds .lp64 (a.least .lp64) := by
        cases a <;> decide
      rw [hmin]
      exact ofInt_bits_inj hx hholds
    have hone : BitVec.ofInt (a.bits .lp64) y = -1#_ ↔ y = -1 := by
      have hneg : -1#(a.bits .lp64) = BitVec.ofInt _ (-1) := by
        rw [BitVec.ofInt_neg]
        rfl
      have hholds : a.Holds .lp64 (-1) := by
        cases a <;> first | decide | cases hu
      rw [hneg]
      exact ofInt_bits_inj hy hholds
    simp [hinstr, hzero, hleast, hone, imp_iff_not_or]
theorem compoundValue_int (fl : Floats F) (hx : a.Holds .lp64 x) (hy : a.Holds .lp64 y) (op : AssignOp) :
    compoundValue fl op a.isUnsigned (scalarOf (.int a) x) (scalarOf (.int a) y) =
      if DefinedIn a x y op then
        some (scalarOf (.int a) (exactBinary (a.bits .lp64) a.isUnsigned x y op.binary))
      else none := by
  rw [intScalar_of, intScalar_of, intScalar_of]
  cases op with
  | arith op =>
    have hvalue : (arithInstruction a.isUnsigned op).apply (BitVec.ofInt (a.bits .lp64) x)
        (BitVec.ofInt (a.bits .lp64) y) =
        BitVec.ofInt _ (exactBinary (a.bits .lp64) a.isUnsigned x y (.arith op)) := by
      rw [arithInstruction_apply, ← wrap_eq_read, ← wrap_eq_read]
      rfl
    have hbuild : compoundValue fl (.arith op) a.isUnsigned
        (.int (a.bits .lp64) (BitVec.ofInt _ x)) (.int (a.bits .lp64) (BitVec.ofInt _ y)) =
        Llvm.buildInt (arithInstruction a.isUnsigned op) (.int _ (BitVec.ofInt _ x))
          (.int _ (BitVec.ofInt _ y)) := rfl
    rw [hbuild, Llvm.buildInt_eq, hvalue]
    refine if_congr ?_ rfl rfl
    cases op with
    | div => exact isDefined_div hx hy (.inl rfl)
    | mod => exact isDefined_div hx hy (.inr rfl)
    | mul | add | sub => exact iff_of_true rfl trivial
  | bit op =>
    have hbuild : compoundValue fl (.bit op) a.isUnsigned
        (.int (a.bits .lp64) (BitVec.ofInt _ x)) (.int (a.bits .lp64) (BitVec.ofInt _ y)) =
        Llvm.buildInt (bitInstruction op) (.int _ (BitVec.ofInt _ x)) (.int _ (BitVec.ofInt _ y)) := rfl
    rw [hbuild, Llvm.buildInt_eq, bitInstruction_apply, AssignOp.binary, exactBinary, Word.ofInt_read]
    refine if_congr ?_ rfl rfl
    cases op <;> exact iff_of_true rfl trivial
  | shift op =>
    have hbuild : compoundValue fl (.shift op) a.isUnsigned
        (.int (a.bits .lp64) (BitVec.ofInt _ x)) (.int (a.bits .lp64) (BitVec.ofInt _ y)) =
        Llvm.buildInt (shiftInstruction a.isUnsigned op) (.int _ (BitVec.ofInt _ x))
          (.int _ (BitVec.ofInt _ y)) := rfl
    have hamount : (wrap (a.bits .lp64) true y).toNat = (BitVec.ofInt (a.bits .lp64) y).toNat := by
      rw [wrap_eq_read]
      rfl
    rw [hbuild, Llvm.buildInt_eq, shiftInstruction_apply]
    refine if_congr ?_ rfl rfl
    cases op with
    | shl => exact decide_eq_true_iff
    | shr => cases a.isUnsigned <;> exact decide_eq_true_iff

theorem codegenAssignment_int (hx : a.Holds m x) (hy : b.Holds m y) (op : AssignOp) :
    codegenAssignment fl (some op) (llvmTypeOf (.int a)) (parsedArith (.int a)) (parsedArith (.int b))
      (scalarOf (.int a) x) (scalarOf (.int b) y) =
      if DefinedIn a x (a.convert .lp64 y) op then some (scalarOf (.int a) (ownResult a op x y))
      else none := by
  have hcast : cgCastScalar fl (scalarOf (.int b) y) (scalarOf (.int a) x : Scalar F).type
      (some (scalarOfInt b)) (some (scalarOfInt a)) =
      some (scalarOf (.int a) (a.convert .lp64 y)) := cgCastScalar_int _ (wrap_parsed hy)
  have hvalue := compoundValue_int fl (holds_lp64 hx) (a.convert_holds .lp64 y) op
  have hresult : (scalarOf (.int a) (exactBinary (a.bits .lp64) a.isUnsigned x (a.convert .lp64 y)
      op.binary) : Scalar F) = scalarOf (.int a) (ownResult a op x y) := by
    rw [intScalar_of, intScalar_of, ownResult, ofInt_wrap]
  rw [codegenAssignment, parsedArith, parsedArith, hcast, Option.bind_some, cgIsUnsigned_int, hvalue,
    hresult]
  split
  · exact if_pos rfl
  · rfl

theorem stores_compound_int (hx : a.Holds m x) (hy : b.Holds m y) (op : AssignOp) :
    StoresAsC m fl (some op) (.int a) (.int b) x y ↔
      ∀ z, op.binary.apply m a b x y = some z →
        DefinedIn a x (a.convert .lp64 y) op ∧ ownResult a op x y = a.convert m z := by
  have hstores : StoresAsC m fl (some op) (.int a) (.int b) x y ↔
      ∀ z, op.binary.apply m a b x y = some z →
        (if DefinedIn a x (a.convert .lp64 y) op then
          some (scalarOf (.int a) (ownResult a op x y) : Scalar F) else none) =
          some (scalarOf (.int a) (a.convert m z)) := by
    unfold StoresAsC
    rw [codegenAssignment_int hx hy]
    constructor
    · intro h z hz
      refine h _ ?_
      show (op.binary.apply m a b x y).map _ = _
      rw [hz]
      rfl
    · intro h z hz
      obtain ⟨v, hv, rfl⟩ := Option.map_eq_some_iff.mp hz
      exact h v hv
  rw [hstores]
  refine forall₂_congr fun z _ => ?_
  have hinj := scalarOf_inj (F := F) (IntType.wrap_holds .lp64 a (exactBinary (a.bits .lp64)
    a.isUnsigned x (a.convert .lp64 y) op.binary)) (holds_lp64 (a.convert_holds m z))
  by_cases hdefined : DefinedIn a x (a.convert .lp64 y) op
  · rw [if_pos hdefined]
    exact (Option.some_inj.trans hinj).trans (and_iff_right hdefined).symm
  · rw [if_neg hdefined]
    exact iff_of_false nofun fun h => hdefined h.1

-- Operators in the target's own type

theorem bits_le_usual (m : DataModel) (a b : IntType) : a.bits m ≤ (a.usual m b).bits m := by
  cases m <;> cases a <;> cases b <;> decide

theorem bits_le_promote (m : DataModel) (a : IntType) : a.bits m ≤ a.promote.bits m := by
  cases m <;> cases a <;> decide

/-- Sums, differences and products have bits that depend on the bits of the operands. -/
theorem ofInt_exactArith (hop : op ≠ .div ∧ op ≠ .mod)
    (hx : BitVec.ofInt w x = BitVec.ofInt w x') (hy : BitVec.ofInt w y = BitVec.ofInt w y') :
    BitVec.ofInt w (exactArith x y op) = BitVec.ofInt w (exactArith x' y' op) := by
  cases op with
  | mul => simp [exactArith, BitVec.ofInt_mul, hx, hy]
  | add => simp [exactArith, BitVec.ofInt_add, hx, hy]
  | sub => simp [exactArith, Int.sub_eq_add_neg, BitVec.ofInt_add, BitVec.ofInt_neg, hx, hy]
  | div => exact absurd rfl hop.1
  | mod => exact absurd rfl hop.2

section
variable (hshape : a.shape m = a.shape .lp64) (ha : a ≠ .bool)

include hshape ha

theorem convert_own (z : Int) :
    a.convert m z = wrap (a.bits .lp64) a.isUnsigned z := by
  have hbits : a.bits m = a.bits .lp64 := congrArg Prod.fst hshape
  rw [IntType.convert, if_neg ha, hbits]

theorem ownResult_arith
    (hop : op ≠ .div ∧ op ≠ .mod) (hz : (Binary.arith op).apply m a b x y = some z) :
    ownResult a (.arith op) x y = a.convert m z := by
  have hbits : a.bits m = a.bits .lp64 := congrArg Prod.fst hshape
  have hle := hbits ▸ bits_le_usual m a b
  have hfit := fit_exactArith hz
  rw [convert_usual, convert_usual] at hfit
  rw [← fit_eq_wrap hfit, convert_own hshape ha, Word.wrap_wrap_of_le hle, ownResult,
    convert_own rfl ha, AssignOp.binary, exactBinary, wrap_wrap, wrap_eq_read,
    wrap_eq_read (w := a.bits .lp64) (z := exactArith _ _ _)]
  refine congrArg _ (ofInt_exactArith hop ?_ ?_)
  all_goals rw [ofInt_wrap, Word.ofInt_wrap_of_le hle]

theorem ownResult_bit
    (hz : (Binary.bit op).apply m a b x y = some z) :
    ownResult a (.bit op) x y = a.convert m z := by
  have hbits : a.bits m = a.bits .lp64 := congrArg Prod.fst hshape
  have hle := hbits ▸ bits_le_usual m a b
  cases hz
  rw [convert_own hshape ha, ownResult, convert_own rfl ha, AssignOp.binary, exactBinary, Word.wrap_read,
    BitOp.apply, wrap_eq_read a.isUnsigned (Word.read _ _), Word.ofInt_read_of_le hle,
    onWords_setWidth, Word.setWidth_ofInt hle, Word.setWidth_ofInt hle, convert_usual, convert_usual,
    Word.ofInt_wrap_of_le hle, Word.ofInt_wrap_of_le hle, ofInt_wrap]

end

theorem holds_shape {t : IntType} (h : t.shape m = a.shape m) (z : Int) : t.Holds m z ↔ a.Holds m z := by
  obtain ⟨hbits, hsign⟩ := Prod.mk.inj h
  rw [IntType.Holds, IntType.Holds, least, least, limit, limit, hbits,
    hsign]

theorem fit_shape {t : IntType} (h : t.shape m = a.shape m) (z : Int) : t.fit m z = a.fit m z := by
  obtain ⟨hbits, hsign⟩ := Prod.mk.inj h
  rw [fit, fit, hbits, hsign]
  exact if_congr Iff.rfl rfl (if_congr (holds_shape h z) rfl rfl)

theorem fit_least_div (ha : a.isUnsigned = false) : a.fit m ((a.least m).tdiv (-1)) = none := by
  have hquotient : (a.least m).tdiv (-1) = a.limit m := by
    simp [least, limit, ha]
  rw [hquotient, fit, ha, if_neg Bool.false_ne_true, if_neg fun h => Int.lt_irrefl _ h.2]

theorem fit_of_division {op : ArithOp} (hop : op = .div ∨ op = .mod)
    (h : op.apply m t x y = some z) : y ≠ 0 ∧ ∃ q, t.fit m (x.tdiv y) = some q := by
  by_cases hy : y = 0
  · rcases hop with rfl | rfl <;> simp [ArithOp.apply, hy] at h
  refine ⟨hy, ?_⟩
  rcases hop with rfl | rfl
  · exact ⟨z, (if_neg hy).symm.trans h⟩
  · obtain ⟨q, hq, -⟩ := Option.bind_eq_some_iff.mp ((if_neg hy).symm.trans h)
    exact ⟨q, hq⟩

theorem ownResult_div (hshape : a.shape m = a.shape .lp64)
    (husual : (a.usual m b).shape m = a.shape m) (hx : a.Holds m x)
    (hop : op = .div ∨ op = .mod) (hz : (Binary.arith op).apply m a b x y = some z) :
    DefinedIn a x (a.convert .lp64 y) (.arith op) ∧ ownResult a (.arith op) x y = a.convert m z := by
  have hbits : a.bits m = a.bits .lp64 := congrArg Prod.fst hshape
  have ha : a ≠ .bool := by
    rintro rfl
    cases m <;> cases b <;> exact absurd husual (by decide)
  have hconvert (v : Int) : (a.usual m b).convert m v = a.convert .lp64 v := by
    obtain ⟨hwidth, hsign⟩ := Prod.mk.inj husual
    rw [convert_usual, hwidth, hsign, hbits, convert_own rfl ha]
  have hxrange : wrap (a.bits .lp64) a.isUnsigned x = x := wrap_of_holds (holds_lp64 hx)
  have hxconvert : a.convert .lp64 x = x := by rw [convert_own rfl ha, hxrange]
  have hz : op.apply m (a.usual m b) x (a.convert .lp64 y) = some z := by
    have happly : op.apply m (a.usual m b) ((a.usual m b).convert m x) ((a.usual m b).convert m y) =
      some z := hz
    rwa [hconvert, hconvert, hxconvert] at happly
  obtain ⟨hzero, q, hq⟩ := fit_of_division hop hz
  rw [fit_shape husual] at hq
  constructor
  · have hdefined : a.isUnsigned = true ∨ ¬(x = a.least .lp64 ∧ a.convert .lp64 y = -1) := by
      refine or_iff_not_imp_left.mpr fun hsigned => ?_
      rintro ⟨hleast, hone⟩
      have hsigned : a.isUnsigned = false := Bool.eq_false_iff.mpr hsigned
      have hleast : x = a.least m := by
        rw [hleast, least, least, hbits]
      rw [hleast, hone, fit_least_div hsigned] at hq
      cases hq
    rcases hop with rfl | rfl <;> exact ⟨hzero, hdefined⟩
  · have hfit := fit_exactArith hz
    rw [fit_shape husual] at hfit
    have hwrap := fit_eq_wrap hfit
    rw [hbits] at hwrap
    rw [convert_own hshape ha, ← hwrap, wrap_wrap, ownResult, AssignOp.binary, exactBinary, hxrange,
      wrap_of_holds (a.convert_holds .lp64 y)]

theorem convert_of_holds (h : a.Holds m z) : a.convert m z = z := by
  by_cases ha : a = .bool
  · subst ha
    have hrange : z = 0 ∨ z = 1 := by
      have hlow : 0 ≤ z := h.1
      have hhigh : z < 2 ^ 1 := h.2
      omega
    rcases hrange with rfl | rfl <;> rfl
  · rw [IntType.convert, if_neg ha, wrap_of_holds h]

def shifted (op : ShiftOp) (x : Int) (n : Nat) : Int :=
  match op with
  | .shl => x * 2 ^ n
  | .shr => x / 2 ^ n

theorem wrap_shifted (hx : t.Holds m x) (h : op.apply m t x y = some z) :
    0 ≤ y ∧ wrap (t.bits m) t.isUnsigned (shifted op x y.toNat) = z := by
  unfold ShiftOp.apply at h
  split at h
  · cases h
  rename_i hrange
  refine ⟨Int.not_lt.mp fun hy => hrange (.inl hy), ?_⟩
  cases op with
  | shl => ?_
  | shr =>
    cases h
    exact wrap_of_holds (hx.shiftRight _)
  dsimp only at h
  split at h
  · cases h
  · exact fit_eq_wrap h

theorem exactBinary_shift (hx : a.Holds .lp64 x) (op : ShiftOp) :
    exactBinary (a.bits .lp64) a.isUnsigned x y (.shift op) =
      shifted op x (wrap (a.bits .lp64) true y).toNat := by
  cases op with
  | shl => rfl
  | shr => rw [exactBinary, wrap_of_holds hx, shifted]

theorem ownResult_shift (hshape : a.shape m = a.shape .lp64) (hx : a.Holds m x) (hy : y < a.bits m)
    (hz : (Binary.shift op).apply m a b x y = some z) :
    DefinedIn a x (a.convert .lp64 y) (.shift op) ∧ ownResult a (.shift op) x y = a.convert m z := by
  have hbits : a.bits m = a.bits .lp64 := congrArg Prod.fst hshape
  obtain ⟨hpos, hshifted⟩ := wrap_shifted hx.promote hz
  rw [hbits] at hy
  have hpow : (a.bits .lp64 : Int) < 2 ^ a.bits .lp64 := by
    exact_mod_cast Nat.lt_two_pow_self
  have hamount : wrap (a.bits .lp64) true (a.convert .lp64 y) = y := by
    by_cases ha : a = .bool
    · subst ha
      have hone : y < 1 := hy
      obtain rfl : y = 0 := by omega
      rfl
    · rw [convert_own rfl ha, wrap_wrap]
      exact Int.emod_eq_of_lt hpos (hy.trans hpow)
  constructor
  · rw [DefinedIn, hamount]
    omega
  · rw [ownResult, AssignOp.binary, exactBinary_shift (holds_lp64 hx), hamount]
    by_cases ha : a = .bool
    · subst ha
      have hone : y < 1 := hy
      obtain rfl : y = 0 := by omega
      have hself : shifted op x (Int.toNat 0) = x := by
        cases op <;> simp [shifted]
      rw [hself] at hshifted ⊢
      rw [wrap_of_holds (holds_lp64 hx), ← hshifted, wrap_of_holds hx.promote,
        convert_of_holds hx]
    · have hle := hbits ▸ bits_le_promote m a
      rw [convert_own hshape ha, ← hshifted, Word.wrap_wrap_of_le hle]

theorem stores_ownType (hx : a.Holds m x) (h : OwnTypeSuffices m op a b y)
    (hz : op.binary.apply m a b x y = some z) :
    DefinedIn a x (a.convert .lp64 y) op ∧ ownResult a op x y = a.convert m z := by
  obtain ⟨hshape, h⟩ := h
  cases op with
  | arith op =>
    cases op with
    | div => exact ownResult_div hshape h hx (.inl rfl) hz
    | mod => exact ownResult_div hshape h hx (.inr rfl) hz
    | mul | add | sub => exact ⟨trivial, ownResult_arith hshape h ⟨nofun, nofun⟩ hz⟩
  | shift op => exact ownResult_shift hshape hx h hz
  | bit op =>
    have hown := ownResult_bit hshape (by cases op <;> exact h) hz
    cases op <;> exact ⟨trivial, hown⟩

-- Floating operands

theorem stores_int_of_float (k : FloatType) (v : F) : StoresAsC m fl none (.int a) (.float k) x v :=
  fun _ hz => cgCastScalar_fromFloat k v none hz

theorem stores_float_of_float (k k' : FloatType) (v v' : F) :
    StoresAsC m fl none (.float k) (.float k') v v' := by
  intro z hz
  have hz := Option.some.inj hz
  rw [← hz]
  exact cgCastScalar_floats fl k' k v' none (some (parsedArith (.float k)))

theorem stores_float_of_int (k : FloatType) (v : F) (y : Int) :
    StoresAsC m fl none (.float k) (.int b) v y ↔ fl.ofInt k (extendedValue b y) = fl.ofInt k y := by
  have hcode : codegenAssignment fl none (llvmTypeOf (.float k)) (parsedArith (.float k))
      (parsedArith (.int b)) (scalarOf (.float k) v) (scalarOf (.int b) y) =
      some (scalarOf (.float k) (fl.ofInt k (extendedValue b y))) := by
    rw [codegenAssignment, ← scalarOf_extended b y]
    exact cgCastScalar_toFloat fl _ k (wrap_extended b y)
  constructor
  · intro h
    have hstored := h _ rfl
    rw [hcode] at hstored
    exact (Scalar.float.inj (Option.some.inj hstored)).2
  · intro h z hz
    have hz := Option.some.inj hz
    rw [hcode, h, ← hz]

theorem codegenAssignment_float (v v' : F) (op : AssignOp)
    (hcast : cgCastScalar fl value (.float k) (some fromParsed) (some (parsedArith (.float k))) =
      some (.float k v')) :
    codegenAssignment fl (some op) (.float k) (parsedArith (.float k)) fromParsed (.float k v) value =
      op.floating.map fun op => .float k (fl.apply k op v v') := by
  have hcompound : compoundValue fl op (cgIsUnsigned (parsedArith (.float k))) (.float k v)
      (.float k v') = op.floating.map fun op => .float k (fl.apply k op v v') := by
    show (op.floating.bind fun op => Llvm.buildFloat fl op (.float k v) (.float k v')) = _
    cases op.floating with
    | none => rfl
    | some op => exact if_pos rfl
  have hcast : cgCastScalar fl value (Scalar.float k v).type (some fromParsed)
      (some (parsedArith (.float k))) = some (.float k v') := hcast
  rw [codegenAssignment, hcast, Option.bind_some, hcompound]
  cases op.floating with
  | none => rfl
  | some op => exact if_pos rfl

theorem stores_compound_float_int (k : FloatType) (v : F) (hy : b.Holds m y) (op : AssignOp) :
    StoresAsC m fl (some op) (.float k) (.int b) v y := by
  intro z hz
  have hcast := cgCastScalar_toFloat fl (some (parsedArith (.float k))) k (wrap_parsed hy)
  have hcode := codegenAssignment_float v _ op hcast
  refine hcode.trans ?_
  have hz : assignFloating m fl op k (.float k) (.int b) v y = some z := hz
  rw [assignFloating] at hz
  cases hop : op.floating with
  | none =>
    rw [hop] at hz
    cases hz
  | some op => ?_
  rw [hop] at hz
  have hvalue : fl.apply k op v (fl.ofInt k y) = z := by simpa [CArith.convert] using hz
  rw [← hvalue]
  rfl

theorem stores_compound_floats (v v' : F) (op : AssignOp)
    (hkinds : k = .double ∨ k' = .float) : StoresAsC m fl (some op) (.float k) (.float k') v v' := by
  intro z hz
  have hcast := cgCastScalar_floats fl k' k v' (some (parsedArith (.float k')))
    (some (parsedArith (.float k)))
  have hcode := codegenAssignment_float v _ op hcast
  refine hcode.trans ?_
  have hz : assignFloating m fl op (k.common k') (.float k) (.float k') v v' = some z := hz
  have hcommon : k.common k' = k := by
    rcases hkinds with rfl | rfl
    · cases k' <;> rfl
    · cases k <;> rfl
  rw [assignFloating, hcommon] at hz
  cases hop : op.floating with
  | none =>
    rw [hop] at hz
    cases hz
  | some op => ?_
  rw [hop] at hz
  have hvalue : fl.apply k op v (if k' = k then v' else fl.convert k' k v') = z := by
    simpa [CArith.convert] using hz
  rw [← hvalue]
  rfl

def constantFloats (c : Int) : Floats Int where
  ofInt _ z := z
  convert _ _ x := x
  truncate _ x := some x
  isZero _ x := x == 0
  apply _ _ _ _ := c

def kindFloats : Floats FloatType where
  ofInt k _ := k
  convert _ _ x := x
  truncate _ _ := none
  isZero _ _ := false
  apply k _ _ _ := k

theorem codegenAssignment_constant (op : AssignOp) (value : Scalar Int) :
    codegenAssignment (constantFloats 0) (some op) (llvmTypeOf (.int a)) (parsedArith (.int a))
      fromParsed (scalarOf (.int a) x) value =
      codegenAssignment (constantFloats 1) (some op) (llvmTypeOf (.int a)) (parsedArith (.int a))
        fromParsed (scalarOf (.int a) x) value := by
  cases op <;> rfl

theorem assign_constant (hc : c = 0 ∨ c = 1) (hop : op.floating = some f) (v : Int) :
    CArith.assign m (constantFloats c) (some op) (.int a) (.float k) x v = some c := by
  have hholds : a.Holds m c := by
    rcases hc with rfl | rfl <;> cases m <;> cases a <;> decide
  show assignFloating m (constantFloats c) op k (.int a) (.float k) x v = some c
  rw [assignFloating, hop]
  by_cases ha : a = .bool
  · subst ha
    rcases hc with rfl | rfl <;> simp [CArith.convert, constantFloats, ofBool]
  · simp [CArith.convert, constantFloats, ha, hholds]

theorem stores_compound_int_float (k : FloatType) (op : AssignOp) (x : Int) :
    (∀ (F : Type) (fl : Floats F) (v : F), StoresAsC m fl (some op) (.int a) (.float k) x v) ↔
      op.floating = none := by
  constructor
  · intro h
    cases hop : op.floating with
    | none => rfl
    | some f => ?_
    have hzero := h Int (constantFloats 0) 0 0 (assign_constant (.inl rfl) hop 0)
    have hone := h Int (constantFloats 1) 0 1 (assign_constant (.inr rfl) hop 0)
    rw [codegenAssignment_constant, hone] at hzero
    have hne := (scalarOf_inj (by cases a <;> decide) (by cases a <;> decide)).mp (Option.some.inj hzero)
    cases hne
  · intro hop F fl v z hz
    have hz : assignFloating m fl op k (.int a) (.float k) x v = some z := hz
    rw [assignFloating, hop] at hz
    cases hz

theorem stores_compound_float_double (op : AssignOp)
    (h : StoresAsC m kindFloats (some op) (.float .float) (.float .double) .float .float) :
    op.floating = none := by
  cases hop : op.floating with
  | none => rfl
  | some f => ?_
  have hassign : CArith.assign m kindFloats (some op) (.float .float) (.float .double) .float .float =
      some FloatType.double := by
    show assignFloating m kindFloats op .double (.float .float) (.float .double) .float .float =
      some FloatType.double
    rw [assignFloating, hop]
    rfl
  have hcode := codegenAssignment_float FloatType.float _ op (cgCastScalar_floats kindFloats
    .double .float .float (some (parsedArith (.float .double))) (some (parsedArith (.float .float))))
  have hstored := hcode.symm.trans (h _ hassign)
  rw [hop] at hstored
  exact nomatch (Scalar.float.inj (Option.some.inj hstored)).2

-- All assignments

theorem convert_shape (hshape : a.shape m = a.shape .lp64) (z : Int) :
    a.convert .lp64 z = a.convert m z := by
  have hbits : a.bits m = a.bits .lp64 := congrArg Prod.fst hshape
  rw [IntType.convert, IntType.convert, hbits]

theorem bits_le_lp64 (m : DataModel) (a : IntType) : a.bits m ≤ a.bits .lp64 := by
  cases m <;> cases a <;> decide

theorem convert_extended (hshape : a.shape m = a.shape .lp64) (hy : b.Holds m y)
    (h : extendedValue b y = y ∨ a.bits m ≤ b.bits m) :
    a.convert .lp64 (extendedValue b y) = a.convert m y := by
  rw [← convert_shape hshape y]
  rcases h with h | hle
  · rw [h]
  · by_cases ha : a = .bool
    · subst ha
      have hzero : extendedValue b y = 0 ↔ y = 0 := by
        have hread := Word.read_eq_zero (u := decide (b.bits .lp64 = 1)) (b := BitVec.ofInt (b.bits .lp64) y)
        rw [← wrap_eq_read] at hread
        exact hread.trans (ofInt_eq_zero_iff (wrap_of_holds (holds_lp64 hy)))
      simp [IntType.convert, hzero]
    · have hbits : a.bits m = a.bits .lp64 := congrArg Prod.fst hshape
      have hle : a.bits .lp64 ≤ b.bits .lp64 := hbits ▸ hle.trans (bits_le_lp64 m b)
      rw [convert_own rfl ha, convert_own rfl ha, extendedValue, Word.wrap_wrap_of_le hle]

theorem assigns_iff (op : Option AssignOp) (s t : ArithType) (hx : s.Holds m x) (hy : t.Holds m y) :
    (∀ (F : Type) (fl : Floats F) (f g : F),
      StoresAsC m fl op s t (meaning x f s) (meaning y g t)) ↔ AssignsAsC m op s t x y := by
  cases op with
  | none =>
    cases s with
    | int a =>
      cases t with
      | int b => ?_
      | float k' => exact iff_of_true (fun F fl f g => stores_int_of_float k' g) trivial
      constructor
      · intro h
        exact .inr ((stores_simple_int y).mp (h Int (constantFloats 0) 0 0))
      · intro h F fl f g
        refine (stores_simple_int y).mpr ?_
        rcases h with ⟨hshape, h⟩ | h
        · exact convert_extended hshape hy h
        · exact h
    | float k =>
      cases t with
      | int b => ?_
      | float k' => exact iff_of_true (fun F fl f g => stores_float_of_float k k' f g) trivial
      constructor
      · intro h
        exact (stores_float_of_int k (0 : Int) y).mp (h Int (constantFloats 0) 0 0)
      · intro h F fl f g
        exact (stores_float_of_int k f y).mpr (by rw [h])
  | some op =>
    cases s with
    | int a =>
      cases t with
      | int b => ?_
      | float k' =>
        refine Iff.trans ⟨fun h F fl g => h F fl g g, fun h F fl f g => h F fl g⟩
          (stores_compound_int_float k' op x)
      constructor
      · intro h
        exact .inr ((stores_compound_int hx hy op).mp (h Int (constantFloats 0) 0 0))
      · intro h F fl f g
        refine (stores_compound_int hx hy op).mpr fun z hz => ?_
        rcases h with h | h
        · exact stores_ownType hx h hz
        · exact h z hz
    | float k =>
      cases t with
      | int b => exact iff_of_true (fun F fl f g => stores_compound_float_int k f hy op) trivial
      | float k' => ?_
      constructor
      · intro h
        by_cases hkinds : k = .double ∨ k' = .float
        · exact .inr hkinds
        have hk : k = .float := by cases k <;> simp_all
        have hk' : k' = .double := by cases k' <;> simp_all
        subst hk hk'
        exact .inl (stores_compound_float_double op (h FloatType kindFloats .float .float))
      · intro h F fl f g
        rcases h with hop | hkinds
        · intro z hz
          have hz : assignFloating m fl op (k.common k') (.float k) (.float k') f g = some z := hz
          rw [assignFloating, hop] at hz
          cases hz
        · exact stores_compound_floats f g op hkinds

-- Steps

def stepOp (isIncrement : Bool) : ArithOp := if isIncrement then .add else .sub

theorem stepOp_ne (isIncrement : Bool) : stepOp isIncrement ≠ .div ∧ stepOp isIncrement ≠ .mod := by
  cases isIncrement <;> decide

theorem exactArith_step (isIncrement : Bool) (x y : Int) :
    exactArith x y (stepOp isIncrement) = stepped isIncrement x y := by
  cases isIncrement <;> rfl

theorem holds_one (m : DataModel) (a : IntType) : a.Holds m 1 := by
  cases m <;> cases a <;> decide

theorem codegenStep_int (isIncrement : Bool) (parsed : ScalarType) (x : Int) :
    codegenStep fl isIncrement parsed (scalarOf (.int a) x) =
      some (scalarOf (.int a) (wrap (a.bits .lp64) a.isUnsigned (stepped isIncrement x 1))) := by
  rw [intScalar_of, intScalar_of, ofInt_wrap]
  have hone : (1 : BitVec (a.bits .lp64)) = BitVec.ofInt _ 1 := rfl
  cases isIncrement with
  | true =>
    have hadd : codegenStep fl true parsed (.int (a.bits .lp64) (BitVec.ofInt _ x)) =
        some (.int (a.bits .lp64) (BitVec.ofInt _ x + 1)) := Llvm.buildInt_eq .add _ _
    rw [hadd, hone, ← BitVec.ofInt_add]
    rfl
  | false =>
    have hsub : codegenStep fl false parsed (.int (a.bits .lp64) (BitVec.ofInt _ x)) =
        some (.int (a.bits .lp64) (BitVec.ofInt _ x - 1)) := Llvm.buildInt_eq .sub _ _
    rw [hsub, hone, stepped, if_neg nofun, Int.sub_eq_add_neg, BitVec.ofInt_add, BitVec.ofInt_neg,
      BitVec.sub_eq_add_neg]

theorem steps_int (isIncrement : Bool) (x : Int) :
    StepsAsC m fl isIncrement (.int a) x ↔
      ∀ z, (Binary.arith (stepOp isIncrement)).apply m a .int x 1 = some z →
        wrap (a.bits .lp64) a.isUnsigned (stepped isIncrement x 1) = a.convert m z := by
  have hinj (z : Int) := scalarOf_inj (F := F) (IntType.wrap_holds .lp64 a (stepped isIncrement x 1))
    (holds_lp64 (a.convert_holds m z))
  have hstep : CArith.step m fl isIncrement (.int a) x =
      ((Binary.arith (stepOp isIncrement)).apply m a .int x 1).map (a.convert m) := rfl
  unfold StepsAsC
  rw [hstep]
  constructor
  · intro h z hz
    have hstored := h (a.convert m z) (by rw [hz]; rfl)
    rw [codegenStep_int] at hstored
    exact (hinj z).mp (Option.some.inj hstored)
  · intro h z hz
    obtain ⟨v, hv, rfl⟩ := Option.map_eq_some_iff.mp hz
    rw [codegenStep_int, (hinj v).mpr (h v hv)]

theorem steps_own (hx : a.Holds m x) (hshape : a.shape m = a.shape .lp64) (ha : a ≠ .bool)
    (hz : (Binary.arith (stepOp isIncrement)).apply m a .int x 1 = some z) :
    wrap (a.bits .lp64) a.isUnsigned (stepped isIncrement x 1) = a.convert m z := by
  have hown := ownResult_arith hshape ha (stepOp_ne isIncrement) hz
  rwa [ownResult, convert_of_holds (holds_one .lp64 a), AssignOp.binary, exactBinary,
    wrap_of_holds (holds_lp64 hx), wrap_of_holds (holds_one .lp64 a), exactArith_step]
    at hown

theorem steps_bool (hx : IntType.bool.Holds m x) :
    (∀ z, (Binary.arith (stepOp isIncrement)).apply m .bool .int x 1 = some z →
      wrap 1 true (stepped isIncrement x 1) = IntType.bool.convert m z) ↔
      isIncrement = false ∨ x = 0 := by
  have hrange : x = 0 ∨ x = 1 := by
    have hlow : 0 ≤ x := hx.1
    have hhigh : x < 2 ^ 1 := hx.2
    omega
  have happly : (Binary.arith (stepOp isIncrement)).apply m .bool .int x 1 =
      some (stepped isIncrement x 1) := by
    rcases hrange with rfl | rfl <;> cases m <;> cases isIncrement <;> decide
  rcases hrange with rfl | rfl <;> cases m <;> cases isIncrement <;> decide

theorem steps_long (hz : (Binary.arith (stepOp isIncrement)).apply .llp64 .long .int x 1 = some z)
    (hx : IntType.long.Holds .llp64 x) :
    wrap 64 false (stepped isIncrement x 1) = IntType.long.convert .llp64 z := by
  have hfit : IntType.long.fit .llp64 (exactArith (IntType.long.convert .llp64 x)
      (IntType.long.convert .llp64 1) (stepOp isIncrement)) = some z := fit_exactArith hz
  have hholds := IntType.fit_holds hfit
  rw [convert_of_holds hx, convert_of_holds (holds_one _ _), exactArith_step, fit, if_neg nofun]
    at hfit
  split at hfit
  · cases hfit
    rw [convert_of_holds hholds]
    exact wrap_of_holds (holds_lp64 hholds)
  · cases hfit

theorem steps_ulong (hx : IntType.ulong.Holds .llp64 x) :
    (∀ z, (Binary.arith (stepOp isIncrement)).apply .llp64 .ulong .int x 1 = some z →
      wrap 64 true (stepped isIncrement x 1) = IntType.ulong.convert .llp64 z) ↔
      IntType.ulong.Holds .llp64 (stepped isIncrement x 1) := by
  have happly : (Binary.arith (stepOp isIncrement)).apply .llp64 .ulong .int x 1 =
      some (wrap 32 true (stepped isIncrement x 1)) := by
    have hxself : (IntType.ulong.usual .llp64 .int).convert .llp64 x = x := convert_of_holds hx
    have hone : (IntType.ulong.usual .llp64 .int).convert .llp64 1 = 1 := rfl
    cases isIncrement <;> simp only [Binary.apply, hxself, hone] <;> rfl
  simp only [happly, Option.some.injEq, forall_eq']
  have hlow : 0 ≤ x := hx.1
  have hhigh : x < 2 ^ 32 := hx.2
  have hholds (z : Int) : IntType.ulong.Holds .llp64 z ↔ 0 ≤ z ∧ z < 2 ^ 32 := Iff.rfl
  have hconvert (z : Int) : IntType.ulong.convert .llp64 z = z % 2 ^ 32 := rfl
  rw [hholds, hconvert, wrap, wrap, if_pos rfl, if_pos rfl]
  cases isIncrement <;> simp only [stepped] <;> norm_num <;> omega

theorem steps_int_iff (isIncrement : Bool) (hx : a.Holds m x) :
    (∀ z, (Binary.arith (stepOp isIncrement)).apply m a .int x 1 = some z →
      wrap (a.bits .lp64) a.isUnsigned (stepped isIncrement x 1) = a.convert m z) ↔
      IntStepsAsC m isIncrement a x := by
  cases a with
  | bool => exact steps_bool hx
  | ulong =>
    cases m with
    | lp64 => exact iff_of_true (fun z hz => steps_own hx rfl nofun hz) (.inl rfl)
    | llp64 => exact (steps_ulong hx).trans ⟨.inr, fun h => h.resolve_left nofun⟩
  | long =>
    cases m with
    | lp64 => exact iff_of_true (fun z hz => steps_own hx rfl nofun hz) trivial
    | llp64 => exact iff_of_true (fun z hz => steps_long hz hx) trivial
  | char | uchar | short | ushort | int | uint | llong | ullong =>
    exact iff_of_true (fun z hz => steps_own hx (by cases m <;> rfl) nofun hz) trivial

theorem not_steps_float (isIncrement : Bool) (k : FloatType) (v : F) :
    ¬StepsAsC m fl isIncrement (.float k) v := by
  intro h
  have hstep : CArith.step m fl isIncrement (.float k) v =
      some (fl.apply k (if isIncrement then .add else .sub) v (fl.ofInt k 1)) := by
    show assignFloating m fl _ k (.float k) (.int .int) v 1 = _
    cases isIncrement <;> simp [assignFloating, CArith.convert, AssignOp.floating]
  have hstored := h _ hstep
  have hcode : ∀ value, codegenStep fl isIncrement (parsedArith (.float k)) (.float k v) = some value →
      ∃ b : BitVec 32, value = .int 32 b := by
    intro value hvalue
    obtain ⟨current, hcast, hbuild⟩ := Option.bind_eq_some_iff.mp hvalue
    cases current with
    | float k' v' => cases hbuild
    | int w b => ?_
    by_cases hw : 32 = w
    · subst hw
      rw [Llvm.buildInt_eq] at hbuild
      split at hbuild
      · exact ⟨_, (Option.some.inj hbuild).symm⟩
      · cases hbuild
    · rw [Llvm.buildInt, dif_neg hw] at hbuild
      cases hbuild
  obtain ⟨b, hb⟩ := hcode _ hstored
  cases hb

theorem stepPointer_eq (isIncrement : Bool) (p : BitVec 64) (hsize : 0 < elemSize) :
    codegenStepPointer isIncrement elemSize p = stepped isIncrement p (BitVec.ofNat 64 elemSize) := by
  rw [codegenStepPointer, if_neg (Nat.ne_of_gt hsize)]
  cases isIncrement with
  | true => simp [stepped]
  | false => ?_
  have hneg : (-1 : BitVec 64) * BitVec.ofNat 64 elemSize = -BitVec.ofNat 64 elemSize := by
    rw [BitVec.neg_mul]
    exact congrArg (-·) (BitVec.one_mul _)
  rw [stepped, if_neg nofun, BitVec.sub_eq_add_neg, ← hneg]
  rfl

-- Bit-fields

theorem stepBitfield_none (isIncrement : Bool) (field : BitField) (raw : BitVec field.storageBits)
    (hwidth : field.widthBits ≠ field.storageBits) :
    codegenStepBitfield isIncrement field raw = none := by
  have hpos := Nat.ne_of_gt field.pos
  rw [codegenStepBitfield, if_neg hpos, Llvm.buildInt, dif_neg (Ne.symm hwidth)]

theorem stepBitfield_full (isIncrement : Bool) (field : BitField) (raw : BitVec field.storageBits)
    (hwidth : field.widthBits = field.storageBits) :
    codegenStepBitfield isIncrement field raw = some (stepped isIncrement raw 1) := by
  obtain ⟨storage, offset, width, isSigned, pos, fits⟩ := field
  obtain rfl : width = storage := hwidth
  obtain rfl : offset = 0 := by omega
  have hmask : BitField.mask ⟨width, 0, width, isSigned, pos, fits⟩ = BitVec.allOnes width := by
    rw [BitField.mask, if_neg (Nat.ne_of_gt pos), if_pos (Nat.le_refl _)]
  have hload : cgLoadBitfield ⟨width, 0, width, isSigned, pos, fits⟩ raw width = raw := by
    simp [cgLoadBitfield, hmask]
  have hstore (value : BitVec width) :
      cgStoreBitfield ⟨width, 0, width, isSigned, pos, fits⟩ raw value = value := by
    simp [cgStoreBitfield, hmask, Llvm.eval_intCast, Llvm.Value.eval]
  rw [codegenStepBitfield, if_neg (Nat.ne_of_gt pos), hload]
  cases isIncrement with
  | true =>
    have hadd : Llvm.buildInt (stepInstruction true) (.int width raw : Scalar Unit) (.int width 1) =
        some (.int width (raw + 1)) := Llvm.buildInt_eq .add raw 1
    rw [hadd]
    exact congrArg some (hstore _)
  | false =>
    have hsub : Llvm.buildInt (stepInstruction false) (.int width raw : Scalar Unit) (.int width 1) =
        some (.int width (raw - 1)) := Llvm.buildInt_eq .sub raw 1
    rw [hsub]
    exact congrArg some (hstore _)

theorem setTo_full (field : BitField) (raw : BitVec field.storageBits)
    (hwidth : field.widthBits = field.storageBits) (isIncrement : Bool) :
    field.SetTo raw (stepped isIncrement raw 1) (stepped isIncrement (field.value raw) 1) := by
  obtain ⟨storage, offset, width, isSigned, pos, fits⟩ := field
  obtain rfl : width = storage := hwidth
  obtain rfl : offset = 0 := by omega
  have hvalue (raw : BitVec width) : BitField.value ⟨width, 0, width, isSigned, pos, fits⟩ raw = raw := by
    apply BitVec.eq_of_getLsbD_eq
    intro i hi
    simp [BitField.value, hi]
  constructor
  · exact (hvalue _).trans (congrArg (stepped isIncrement · 1) (hvalue raw).symm)
  · intro i hi
    have hle : width ≤ i := by
      rcases hi with hi | hi
      · cases hi
      · simpa using hi
    rw [BitVec.getLsbD_of_ge _ _ hle, BitVec.getLsbD_of_ge _ _ hle]

end

/-- An assignment stores what it stores in C exactly when its operator, the types of
its operands and their integers are fine. -/
theorem storedAsC_iff (a : Assigned m) : a.StoredAsC ↔ a.Fine := by
  cases a with
  | assign op s t x y hx hy => exact assigns_iff op s t hx hy
  | step isIncrement s x hx =>
    cases s with
    | int t => ?_
    | float k => exact iff_of_false (fun h =>
          not_steps_float isIncrement k (0 : Int) (h Int (constantFloats 0) 0)) id
    have hstep := steps_int_iff isIncrement hx
    constructor
    · intro h
      exact hstep.mp ((steps_int isIncrement x).mp (h Int (constantFloats 0) 0))
    · intro h F fl f
      exact (steps_int isIncrement x).mpr (hstep.mpr h)
  | stepPointer isIncrement elemSize p hsize => exact iff_of_true (stepPointer_eq isIncrement p hsize) trivial
  | stepBitfield isIncrement field raw =>
    constructor
    · rintro ⟨raw', hstep, -⟩
      by_contra hwidth
      rw [stepBitfield_none isIncrement field raw hwidth] at hstep
      cases hstep
    · intro hwidth
      exact ⟨_, stepBitfield_full isIncrement field raw hwidth, setTo_full field raw hwidth isIncrement⟩

/-- `long l = 4294967295u` stores minus one, and `int i; i *= 1.5` multiplies by one. -/
theorem assignments_not_storedAsC :
    ¬(Assigned.assign (m := .lp64) none (.int .long) (.int .uint) 0 4294967295
        (holds_zero .lp64 .long) (show IntType.uint.Holds .lp64 4294967295 by decide)).StoredAsC ∧
      ¬(Assigned.assign (m := .lp64) (some (.arith .mul)) (.int .int) (.float .double) 2 0
        (show IntType.int.Holds .lp64 2 by decide) trivial).StoredAsC := by
  constructor
  · intro h
    have hvalue := (stores_simple_int _).mp (h Int (constantFloats 0) 0 0)
    exact absurd hvalue (by decide)
  · intro h
    have hop := (stores_compound_int_float (m := .lp64) (a := .int) .double (.arith .mul) 2).mp
      fun F fl v => h F fl v v
    cases hop

end Fisics
