import Fisics.Library.SlotRing
import Fisics.Syntax.AnalyzeExpr

/-!
# The types of the code generator

`cg_resolve_expression_type` returns a pointer to a `ParsedType`. That of a
variable or a cast stands where it was parsed; the others are built in static
slots, four in turn for integer literals, floating literals and merged floating
types, and a single one each for dereferences and addresses. A caller that holds
on to a pointer reads what the slot holds by then.
-/

namespace Fisics

open CInteger (DataModel IntType Unary Binary ArithOp ShiftOp CompareOp BitOp LogicOp)

inductive SlotKind
  | intLiteral | floatLiteral | merged | pointed | address
  deriving DecidableEq

def slotCount : SlotKind → Nat
  | .intLiteral | .floatLiteral | .merged => 4
  | .pointed | .address => 1

abbrev Slots := SlotKind → SlotRing ScalarType

inductive TypeRef
  | fixed (t : ScalarType)
  | slot (kind : SlotKind) (i : Nat)

def TypeRef.read (st : Slots) : TypeRef → ScalarType
  | .fixed t => t
  | .slot kind i => (st kind).get i

def Slots.push (st : Slots) (kind : SlotKind) (t : ScalarType) : Slots := fun k =>
  if k = kind then (st k).push (slotCount kind) t else st k

def newSlot (st : Slots) (kind : SlotKind) (t : ScalarType) : TypeRef × Slots :=
  (.slot kind (st kind).next, st.push kind t)

-- Classification

inductive CGValueCategory
  | unsignedInt | signedInt | float | bool | pointer
  deriving DecidableEq

def cgClassifyParsedType (t : ScalarType) : CGValueCategory :=
  if 0 < t.pointerDepth then .pointer
  else
    match t.kind with
    | .enum => .signedInt
    | .primitive =>
      match t.primitiveType with
      | .bool => .bool
      | .float | .double => .float
      | .unsigned => .unsignedInt
      | _ => if t.isUnsigned then .unsignedInt else .signedInt
    | .invalid => if t.isUnsigned then .unsignedInt else .signedInt

def cgIsUnsignedCategory (category : CGValueCategory) : Bool :=
  category == .unsignedInt || category == .bool

def cgIsUnsigned (t : ScalarType) : Bool := cgIsUnsignedCategory (cgClassifyParsedType t)

def cgParsedTypeIsPointer (t : ScalarType) : Bool := 0 < t.pointerDepth

def cgParsedTypeIsFloatLike (t : ScalarType) : Bool :=
  t.kind == .primitive && (t.primitiveType == .float || t.primitiveType == .double)

def cgBuiltinSignedIntType : ScalarType := primitiveScalar .int false false false false
def cgBuiltinUnsignedIntType : ScalarType := primitiveScalar .unsigned true false false false

def cgMakeFloatLiteralType (kind : FloatKind) : ScalarType := scalarOfFloat kind false

def cgMakeIntLiteralType (tl : TargetLayout) (text : List Char) : ScalarType :=
  match parseIntegerLiteralInfo text tl with
  | some info =>
    primitiveScalar (if (if tl.intBits = 0 then 32 else tl.intBits) < info.bits then .long else .int)
      info.isUnsigned false false false
  | none => primitiveScalar .int false false false false

-- Operators

def mergeFloat (left right : ScalarType) : ScalarType :=
  let merged :=
    if right.isLong then { left with isLong := true, primitiveType := .double }
    else if !left.isLong && (right.primitiveType == .double || left.primitiveType == .double) then
      { left with primitiveType := .double }
    else { left with primitiveType := .float }
  if left.isComplex || right.isComplex then { merged with isComplex := true } else merged

def pickOperand (st : Slots) (left right : TypeRef) : TypeRef :=
  if cgIsUnsigned (left.read st) then left
  else if cgIsUnsigned (right.read st) then right
  else left

def operandTypes (st : Slots) (left right : TypeRef) : ScalarType × ScalarType :=
  if cgParsedTypeIsFloatLike (left.read st) && cgParsedTypeIsFloatLike (right.read st) then
    (left.read st, right.read (st.push .merged (left.read st)))
  else (left.read st, right.read st)

def cgResolveArithmeticBinaryType (st : Slots) (left right : TypeRef) : TypeRef × Slots :=
  if !cgParsedTypeIsFloatLike (left.read st) || !cgParsedTypeIsFloatLike (right.read st) then
    (pickOperand st left right, st)
  else
    let (l, r) := operandTypes st left right
    newSlot st .merged (mergeFloat l r)

def cgResolveBinary (op : Binary) (st : Slots) (left right : TypeRef) : TypeRef × Slots :=
  match op with
  | .arith .add =>
    if cgParsedTypeIsPointer (left.read st) then (left, st)
    else if cgParsedTypeIsPointer (right.read st) then (right, st)
    else cgResolveArithmeticBinaryType st left right
  | .arith .sub =>
    if cgParsedTypeIsPointer (left.read st) then (left, st)
    else cgResolveArithmeticBinaryType st left right
  | _ => cgResolveArithmeticBinaryType st left right

def invalidScalar : ScalarType := ⟨.invalid, .void, false, false, false, false, 0, 0⟩

/-- The type that a dereference writes; an invalid one where there is no pointer. -/
def pointedType (t : ScalarType) : ScalarType :=
  (parsedTypePointerTargetType t).getD invalidScalar

def cgResolveDeref (st : Slots) (operand : TypeRef) : TypeRef × Slots :=
  let pointed := pointedType (operand.read st)
  let (slot, st) := newSlot st .pointed pointed
  (if pointed.kind ≠ .invalid then slot else operand, st)

def cgResolveAddressOf (st : Slots) (operand : TypeRef) : TypeRef × Slots :=
  let t := operand.read st
  let (slot, st) := newSlot st .address
    (if t.kind ≠ .invalid then { t with pointerDepth := t.pointerDepth + 1 } else t)
  (if t.kind ≠ .invalid then slot else operand, st)

-- Trees

section
variable (tl : TargetLayout) (scope : String → Option ScalarType)

/-- An identifier that is not in scope has no type, and an operator on it and
another operand has the type of the other. -/
@[grind] def cgResolveExpressionType : ScalarExpr → Slots → Option TypeRef × Slots
  | .identifier name, st => ((scope name).map .fixed, st)
  | .number c, st =>
    (newSlot st .intLiteral (cgMakeIntLiteralType tl c.spelling.toList)).map some id
  | .floating kind, st => (newSlot st .floatLiteral (cgMakeFloatLiteralType kind)).map some id
  | .charLiteral, st => (some (.fixed cgBuiltinSignedIntType), st)
  | .sizeofType _, st | .sizeofExpr _, st => (some (.fixed cgBuiltinUnsignedIntType), st)
  | .cast t _, st => (some (.fixed (parsedTypeOf t)), st)
  | .unary .logNot _, st => (some (.fixed cgBuiltinSignedIntType), st)
  | .unary _ e, st => cgResolveExpressionType e st
  | .deref e, st =>
    match cgResolveExpressionType e st with
    | (some operand, st) => (cgResolveDeref st operand).map some id
    | (none, st) => (none, st.push .pointed invalidScalar)
  | .addressOf e, st =>
    match cgResolveExpressionType e st with
    | (some operand, st) => (cgResolveAddressOf st operand).map some id
    | (none, st) => (none, st.push .address invalidScalar)
  | .step _ e, st => cgResolveExpressionType e st
  | .binary (.compare _) _ _, st => (some (.fixed cgBuiltinSignedIntType), st)
  | .binary op l r, st =>
    match cgResolveExpressionType l st with
    | (left, st) =>
      match left, cgResolveExpressionType r st with
      | some left, (some right, st) => (cgResolveBinary op st left right).map some id
      | none, (right, st) => (right, st)
      | left, (none, st) => (left, st)
  | .logic _ _ _, st => (some (.fixed cgBuiltinSignedIntType), st)
  | .cond _ a b, st =>
    match cgResolveExpressionType a st with
    | (tType, st) =>
      match tType, cgResolveExpressionType b st with
      | some tType, (some fType, st) => (some (pickOperand st tType fType), st)
      | none, (fType, st) => (fType, st)
      | tType, (none, st) => (tType, st)
  | .comma _ b, st => cgResolveExpressionType b st

end

-- The width and the sign of a type

/-- The width of the LLVM type and the sign by classification. A `float` that is
long is no type of C. -/
def baseShape (t : ScalarType) : Shape :=
  match t.kind with
  | .enum => .integer 32 false
  | .invalid => .invalid
  | .primitive =>
    match t.primitiveType with
    | .void => .void
    | .bool => .integer 1 true
    | .char => .integer 8 t.isUnsigned
    | .short => .integer 16 t.isUnsigned
    | .long => .integer 64 t.isUnsigned
    | .float => if t.isLong then .invalid else .floating .float t.isComplex
    | .double => .floating (if t.isLong then .longDouble else .double) t.isComplex
    | .int => .integer (if t.isShort then 16 else if t.isLong then 64 else 32) t.isUnsigned
    | .unsigned => .integer (if t.isShort then 16 else if t.isLong then 64 else 32) true

def pointerTo : Nat → Shape → Shape
  | 0, s => s
  | n + 1, s => .pointer (pointerTo n s)

def ScalarType.shape (t : ScalarType) : Shape := pointerTo t.pointerDepth (baseShape t)

end Fisics
