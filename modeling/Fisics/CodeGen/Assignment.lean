import Fisics.CodeGen.IntegerExpr
import Fisics.Library.LlvmScalar

/-!
# Code for assignments

`codegenAssignment` on arithmetic objects and the `++` and `--` of
`codegenUnaryExpression`, each instruction as its value. The types of the operands
stand where they were declared. A bit-field is a part of a storage unit; its
lvalue has the type of the unit and no parsed type.
-/

namespace Fisics

open CInteger (DataModel IntType ArithOp ShiftOp BitOp)
open CArith (FloatType FloatOp Floats ArithType AssignOp)
open Llvm (Ty Scalar)

def parsedArith : ArithType → ScalarType
  | .int t => scalarOfInt t
  | .float .float => scalarOfFloat .float false
  | .float .double => scalarOfFloat .double false

/-- `cg_type_from_parsed`. -/
def llvmTypeOf : ArithType → Ty
  | .int t => .int (llvmBits (scalarOfInt t))
  | .float k => .float k

def castBits (b : BitVec w) (k : Nat) (fromParsed : Option ScalarType) : BitVec k :=
  (cgCastValue (.const b) k fromParsed).eval fun _ _ => 0

section
variable (fl : Floats F)

/-- `cg_cast_value` between scalars. -/
def cgCastScalar (value : Scalar F) (target : Ty) (fromParsed toParsed : Option ScalarType) :
    Option (Scalar F) :=
  if value.type = target then some value
  else
    match value, target with
    | .int _ b, .int k => some (.int k (castBits b k fromParsed))
    | .int w b, .float k => some (Llvm.intToFloat fl (cgShouldTreatAsUnsigned fromParsed w) b k)
    | .float k x, .int w =>
      if w = 1 then some (.int 1 (BitVec.ofBool (!fl.isZero k x)))
      else Llvm.floatToInt fl (cgShouldTreatAsUnsigned toParsed w) k x w
    | .float k x, .float k' => some (.float k' (fl.convert k k' x))

-- Assignments

def compoundValue (op : AssignOp) (targetUnsigned : Bool) (current value : Scalar F) :
    Option (Scalar F) :=
  match current.type, op with
  -- C has no remainder of floating values
  | .float _, op => op.floating.bind fun op => Llvm.buildFloat fl op current value
  | .int _, .arith op => Llvm.buildInt (arithInstruction targetUnsigned op) current value
  | .int _, .bit op => Llvm.buildInt (bitInstruction op) current value
  | .int _, .shift op => Llvm.buildInt (shiftInstruction targetUnsigned op) current value

def codegenAssignment (op : Option AssignOp) (targetType : Ty) (targetParsed valueParsed : ScalarType)
    (current value : Scalar F) : Option (Scalar F) :=
  match op with
  | none => cgCastScalar fl value targetType none (some targetParsed)
  | some op =>
    (cgCastScalar fl value current.type (some valueParsed) (some targetParsed)).bind fun value =>
      (compoundValue fl op (cgIsUnsigned targetParsed) current value).bind fun stored =>
        cgCastScalar fl stored targetType none (some targetParsed)

-- Steps

def stepInstruction (isIncrement : Bool) : Llvm.BinOp := if isIncrement then .add else .sub

/-- What `++` and `--` store in an object. What is no integer is cast to an `i32`,
and the sum stays one. -/
def codegenStep (isIncrement : Bool) (targetParsed : ScalarType) (current : Scalar F) :
    Option (Scalar F) :=
  match current with
  | .int w b => Llvm.buildInt (stepInstruction isIncrement) (.int w b) (.int w 1)
  | current =>
    (cgCastScalar fl current (.int 32) (some targetParsed) none).bind fun current =>
      Llvm.buildInt (stepInstruction isIncrement) current (.int 32 1)

end

/-- `cg_build_pointer_offset` by the integer one, with the size of an element. -/
def codegenStepPointer (isIncrement : Bool) (elemSize : Nat) (current : BitVec 64) : BitVec 64 :=
  let index : BitVec 64 := if isIncrement then 1 else -1
  let elemSize := if elemSize = 0 then 1 else elemSize
  current + index * BitVec.ofNat 64 elemSize

-- Bit-fields

structure BitField where
  storageBits : Nat
  bitOffset : Nat
  widthBits : Nat
  isSigned : Bool
  pos : 0 < widthBits
  fits : bitOffset + widthBits ≤ storageBits

def BitField.mask (field : BitField) : BitVec field.storageBits :=
  if field.widthBits = 0 then 0
  else if field.storageBits ≤ field.widthBits then BitVec.allOnes field.storageBits
  else BitVec.ofNat field.storageBits (2 ^ field.widthBits - 1)

def cgLoadBitfield (field : BitField) (raw : BitVec field.storageBits) (destBits : Nat) :
    BitVec destBits :=
  let masked := raw >>> field.bitOffset &&& field.mask
  if field.storageBits < destBits then
    if field.isSigned then masked.signExtend destBits else masked.setWidth destBits
  else masked.setWidth destBits

def cgStoreBitfield (field : BitField) (raw : BitVec field.storageBits) (value : BitVec w) :
    BitVec field.storageBits :=
  let casted := (Llvm.Value.intCast (!field.isSigned) field.storageBits
    (Llvm.Value.const value : Llvm.Value String w)).eval fun _ _ => 0
  let casted := if field.widthBits < field.storageBits then casted &&& field.mask else casted
  (raw &&& ~~~(field.mask <<< field.bitOffset)) ||| casted <<< field.bitOffset

/-- `++` and `--` of a bit-field: the field is loaded at its own width, and the one has
the type of the storage unit. -/
def codegenStepBitfield (isIncrement : Bool) (field : BitField) (raw : BitVec field.storageBits) :
    Option (BitVec field.storageBits) :=
  let width := if field.widthBits = 0 then field.storageBits else field.widthBits
  let current : Scalar Unit := .int width (cgLoadBitfield field raw width)
  match Llvm.buildInt (stepInstruction isIncrement) current (.int field.storageBits 1) with
  | some (.int _ updated) => some (cgStoreBitfield field raw updated)
  | _ => none

end Fisics
