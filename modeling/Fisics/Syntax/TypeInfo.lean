import Fisics.Library.CInteger

/-!
# Types in the checker

The part of `TypeInfo` that arithmetic reads. Integer types are a width and a
sign; there is no rank apart from the width. The conversions agree with those of C
on every data model, for types of one width have the same values when they have
the same sign.
-/

namespace Fisics

open CInteger (DataModel IntType)

inductive TypeInfoCategory
  | invalid | integer | float | pointer | array | function | struct | union | enum | void
  deriving DecidableEq, Inhabited

structure TypeInfo where
  category : TypeInfoCategory
  bitWidth : Nat
  isSigned : Bool
  isComplex : Bool
  isImaginary : Bool
  deriving DecidableEq, Inhabited

def makeIntegerType (bitWidth : Nat) (isSigned : Bool) : TypeInfo :=
  ⟨.integer, bitWidth, isSigned, false, false⟩

def makeBoolType : TypeInfo := makeIntegerType 1 false

inductive FloatKind
  | float | double | longDouble
  deriving DecidableEq

/-- The width of `long double` is that of the target. -/
def makeFloatTypeInfo (longDoubleBits : Nat) (kind : FloatKind) (isComplex : Bool) : TypeInfo :=
  let bits := match kind with
    | .longDouble => longDoubleBits
    | .double => 64
    | .float => 32
  ⟨.float, bits, true, isComplex, false⟩

def typeInfoIsInteger (info : TypeInfo) : Bool := info.category == .integer || info.category == .enum
def typeInfoIsFloating (info : TypeInfo) : Bool := info.category == .float
def typeInfoIsArithmetic (info : TypeInfo) : Bool := typeInfoIsInteger info || typeInfoIsFloating info

/-- `typeInfoFromParsedType` at an integer type: `long` and `long long` have 64
bits on every target. -/
def typeInfoOfIntType : IntType → TypeInfo
  | .bool => makeBoolType
  | .char => makeIntegerType 8 true
  | .uchar => makeIntegerType 8 false
  | .short => makeIntegerType 16 true
  | .ushort => makeIntegerType 16 false
  | .int => makeIntegerType 32 true
  | .uint => makeIntegerType 32 false
  | .long | .llong => makeIntegerType 64 true
  | .ulong | .ullong => makeIntegerType 64 false

-- Conversions

def integerPromote (info : TypeInfo) : TypeInfo :=
  if !typeInfoIsInteger info || 32 ≤ info.bitWidth then info
  else { info with bitWidth := 32, isSigned := true }

def integerRank (info : TypeInfo) : Int :=
  if !typeInfoIsInteger info then -1
  else
    let bits := if info.bitWidth = 0 then 32 else info.bitWidth
    if bits ≤ 8 then 1
    else if bits ≤ 16 then 2
    else if bits ≤ 32 then 3
    else if bits ≤ 64 then 4
    else if bits ≤ 128 then 5
    else 6

def pickIntegerResult (a b : TypeInfo) : TypeInfo :=
  if integerRank b < integerRank a then a
  else if integerRank a < integerRank b then b
  else if a.isSigned = b.isSigned then if a.isSigned then a else b
  else if !a.isSigned && b.bitWidth ≤ a.bitWidth then a
  else if !b.isSigned && a.bitWidth ≤ b.bitWidth then b
  else { a with isSigned := false }

/-- `none` is the failure that clears `*ok`. The width of `long double` is that of
the default target. -/
def usualArithmeticConversion (longDoubleBits : Nat) (left right : TypeInfo) : Option TypeInfo :=
  if !typeInfoIsArithmetic left || !typeInfoIsArithmetic right then none
  else if typeInfoIsFloating left || typeInfoIsFloating right then
    let isComplex := left.isComplex || right.isComplex || left.isImaginary || right.isImaginary
    let isImag := left.isImaginary || right.isImaginary
    let maxBits := max left.bitWidth right.bitWidth
    let kind : FloatKind :=
      if 128 ≤ maxBits then .longDouble else if 64 ≤ maxBits then .double else .float
    some { makeFloatTypeInfo longDoubleBits kind isComplex with isImaginary := isImag && !isComplex }
  else some (pickIntegerResult (integerPromote left) (integerPromote right))

-- Agreement with C

def infoOf (m : DataModel) (t : IntType) : TypeInfo := makeIntegerType (t.bits m) (!t.isUnsigned)

theorem integerPromote_infoOf (m : DataModel) (t : IntType) :
    integerPromote (infoOf m t) = infoOf m t.promote := by
  cases m <;> cases t <;> rfl

theorem usualArithmeticConversion_infoOf (m : DataModel) (longDoubleBits : Nat) (a b : IntType) :
    usualArithmeticConversion longDoubleBits (infoOf m a) (infoOf m b) = some (infoOf m (a.usual m b)) := by
  have h : pickIntegerResult (infoOf m a.promote) (infoOf m b.promote) = infoOf m (a.usual m b) := by
    cases m <;> cases a <;> cases b <;> rfl
  rw [← h, ← integerPromote_infoOf, ← integerPromote_infoOf]
  rfl

end Fisics
