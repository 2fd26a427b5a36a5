import Fisics.Syntax.ScalarExpr

/-!
# The checker's expression types

`analyzeExpression` over scalar expressions. The parsed type of a variable, a cast
or a dereference is kept as the original type; of a pointer it carries all there
is to know, so depth and primitive are read from it.
-/

namespace Fisics

open CInteger (DataModel IntType Unary Binary ArithOp ShiftOp CompareOp BitOp LogicOp)

structure ExprInfo where
  info : TypeInfo
  isLValue : Bool
  originalType : Option ScalarType
  deriving DecidableEq

def makeInvalidType : ExprInfo := ⟨⟨.invalid, 0, false, false, false⟩, false, none⟩

/-- A type that is no lvalue and no pointer. -/
def ExprInfo.value (info : TypeInfo) : ExprInfo := ⟨info, false, none⟩

def decayToRValue (e : ExprInfo) : ExprInfo := { e with isLValue := false }

def typeInfoIsPointerLike (info : TypeInfo) : Bool := info.category == .pointer

def typeInfoIsComplexLike (info : TypeInfo) : Bool :=
  typeInfoIsFloating info && (info.isComplex || info.isImaginary)

section
variable (target : Target)

def typeInfoFromBaseKind (t : ScalarType) : TypeInfo :=
  match t.kind with
  | .primitive =>
    match t.primitiveType with
    | .bool => makeBoolType
    | .char => makeIntegerType 8 (!t.isUnsigned)
    | .short => makeIntegerType 16 (!t.isUnsigned)
    | .int | .unsigned =>
      makeIntegerType (if t.isShort then 16 else if t.isLong then 64 else 32) (!t.isUnsigned)
    | .long => makeIntegerType 64 (!t.isUnsigned)
    | .float => makeFloatTypeInfo target.longDoubleBits .float t.isComplex
    | .double =>
      makeFloatTypeInfo target.longDoubleBits (if t.isLong then .longDouble else .double) t.isComplex
    | .void => ⟨.void, 0, false, false, false⟩
  | .enum => { makeIntegerType 32 true with category := .enum }
  | .invalid => makeInvalidType.info

def typeInfoFromParsedType (t : ScalarType) : ExprInfo :=
  let base := typeInfoFromBaseKind target t
  if t.derivations = 0 ∧ t.pointerDepth = 0 then ⟨base, false, some t⟩
  else ⟨{ base with category := .pointer }, false, some t⟩

/-- `none` is the invalid type of a `ParsedType` that points to nothing. -/
def parsedTypePointerTargetType (t : ScalarType) : Option ScalarType :=
  if 0 < t.derivations then
    some { t with derivations := t.derivations - 1, pointerDepth := t.pointerDepth - 1 }
  else if 0 < t.pointerDepth then some { t with pointerDepth := t.pointerDepth - 1 }
  else none

def parsedTypePrependPointer (t : ScalarType) : ScalarType :=
  { t with pointerDepth := t.pointerDepth + 1, derivations := t.derivations + 1 }

def infoPrimitive (t : ScalarType) : PrimitiveType :=
  match t.kind, t.primitiveType with
  | .enum, _ => .int
  | _, .int | _, .unsigned => if t.isShort then .short else if t.isLong then .long else .int
  | _, p => p

def pointsToVoid (e : ExprInfo) : Bool := e.originalType.any fun t => infoPrimitive t = .void

/-- What `typesAreEqual` and `pointerTargetsCompatibleForConditional` accept. -/
def pointersCompatible (a b : ExprInfo) : Bool :=
  match a.originalType, b.originalType with
  | some s, some t =>
    s.derivations = t.derivations && infoPrimitive s = infoPrimitive t &&
      (s.kind == .enum) == (t.kind == .enum)
  | _, _ => false

-- Operators

variable (host : Target)

/-- The width of `long double` is that of the host's default target here. -/
def analyzeUsual (left right : ExprInfo) : ExprInfo :=
  match usualArithmeticConversion host.longDoubleBits left.info right.info with
  | some result => .value result
  | none => makeInvalidType

def analyzePointerArith (pointer : ExprInfo) : ExprInfo :=
  if pointsToVoid pointer then makeInvalidType else decayToRValue pointer

def analyzeArithmetic (left right : ExprInfo) : ArithOp → ExprInfo
  | .mod =>
    if typeInfoIsInteger left.info && typeInfoIsInteger right.info then analyzeUsual host left right
    else makeInvalidType
  | .add =>
    if typeInfoIsPointerLike left.info && typeInfoIsInteger right.info then analyzePointerArith left
    else if typeInfoIsPointerLike right.info && typeInfoIsInteger left.info then
      analyzePointerArith right
    else if typeInfoIsPointerLike left.info || typeInfoIsPointerLike right.info then makeInvalidType
    else analyzeUsual host left right
  | .sub =>
    if typeInfoIsPointerLike left.info && typeInfoIsInteger right.info then analyzePointerArith left
    else if typeInfoIsPointerLike left.info && typeInfoIsPointerLike right.info then
      if pointsToVoid left || pointsToVoid right then makeInvalidType
      else .value (makeIntegerType 64 true)
    else if typeInfoIsPointerLike right.info then makeInvalidType
    else analyzeUsual host left right
  | .mul | .div => analyzeUsual host left right

def analyzeComparison (op : CompareOp) (nullLeft nullRight : Bool) (left right : ExprInfo) :
    ExprInfo :=
  let leftPtr := typeInfoIsPointerLike left.info
  let rightPtr := typeInfoIsPointerLike right.info
  if isRelational op && (typeInfoIsComplexLike left.info || typeInfoIsComplexLike right.info) then
    makeInvalidType
  else if !isRelational op && (leftPtr && nullRight || rightPtr && nullLeft) then
    .value makeBoolType
  else if leftPtr && rightPtr then .value makeBoolType
  else if leftPtr && typeInfoIsInteger right.info || rightPtr && typeInfoIsInteger left.info then
    .value makeBoolType
  else
    match usualArithmeticConversion host.longDoubleBits left.info right.info with
    | some _ => .value makeBoolType
    | none => makeInvalidType

def analyzeBinary (op : Binary) (nullLeft nullRight : Bool) (left right : ExprInfo) : ExprInfo :=
  match op with
  | .arith op => analyzeArithmetic host left right op
  | .compare op => analyzeComparison host op nullLeft nullRight left right
  | .bit _ | .shift _ =>
    if typeInfoIsInteger left.info && typeInfoIsInteger right.info then analyzeUsual host left right
    else makeInvalidType

def typeInfoIsScalar (info : TypeInfo) : Bool := typeInfoIsArithmetic info || typeInfoIsPointerLike info

def analyzeUnary (op : Unary) (operand : ExprInfo) : ExprInfo :=
  match op with
  | .plus | .minus =>
    if typeInfoIsArithmetic operand.info then .value (integerPromote operand.info)
    else makeInvalidType
  | .logNot => if typeInfoIsScalar operand.info then .value makeBoolType else makeInvalidType
  | .bitNot => if typeInfoIsInteger operand.info then operand else makeInvalidType

def analyzeDeref (operand : ExprInfo) : ExprInfo :=
  if typeInfoIsPointerLike operand.info then
    -- a pointer always has an original type here
    match operand.originalType.bind parsedTypePointerTargetType with
    | some pointee => { typeInfoFromParsedType target pointee with isLValue := true }
    | none => makeInvalidType
  else makeInvalidType

def analyzeAddressOf (operand : ExprInfo) : ExprInfo :=
  if operand.isLValue then
    match operand.originalType with
    | some t => typeInfoFromParsedType target (parsedTypePrependPointer t)
    | none => makeInvalidType
  else makeInvalidType

def analyzeTernary (nullTrue nullFalse : Bool) (trueInfo falseInfo : ExprInfo) : ExprInfo :=
  let truePtr := typeInfoIsPointerLike trueInfo.info
  let falsePtr := typeInfoIsPointerLike falseInfo.info
  let depth := fun e : ExprInfo => e.originalType.map ScalarType.derivations
  if typeInfoIsArithmetic trueInfo.info && typeInfoIsArithmetic falseInfo.info then
    analyzeUsual host trueInfo falseInfo
  else if truePtr && nullFalse then trueInfo
  else if falsePtr && nullTrue then falseInfo
  else if truePtr && falsePtr then
    if (pointsToVoid trueInfo || pointsToVoid falseInfo) && depth trueInfo = depth falseInfo then
      if pointsToVoid trueInfo then trueInfo else falseInfo
    else if pointersCompatible trueInfo falseInfo then trueInfo
    else makeInvalidType
  else makeInvalidType

-- Trees

variable (scope : String → Option ScalarType) (isNull : ScalarExpr → Bool)

@[grind] def analyzeExpression : ScalarExpr → ExprInfo
  | .identifier name =>
    match scope name with
    | some t => { typeInfoFromParsedType target t with isLValue := true }
    | none => makeInvalidType
  | .number c =>
    match parseIntegerLiteralInfo c.spelling.toList target.layout with
    | some lit => .value (makeIntegerType lit.bits (!lit.isUnsigned))
    | none => .value (makeIntegerType 32 true)
  | .floating kind => .value (makeFloatTypeInfo host.longDoubleBits kind false)
  | .charLiteral => .value (makeIntegerType 32 true)
  | .sizeofType t =>
    if (typeInfoFromParsedType target (parsedTypeOf t)).info.category = .void then makeInvalidType
    else .value (makeIntegerType 64 false)
  | .sizeofExpr e =>
    if (analyzeExpression e).info.category = .void then makeInvalidType
    else .value (makeIntegerType 64 false)
  | .cast t _ => typeInfoFromParsedType target (parsedTypeOf t)
  | .unary op e => analyzeUnary op (decayToRValue (analyzeExpression e))
  | .deref e => analyzeDeref target (decayToRValue (analyzeExpression e))
  | .addressOf e => analyzeAddressOf target (analyzeExpression e)
  | .step isPostfix e =>
    let operand := analyzeExpression e
    if operand.isLValue then { operand with isLValue := !isPostfix } else makeInvalidType
  | .binary op l r =>
    analyzeBinary host op (isNull l) (isNull r) (decayToRValue (analyzeExpression l))
      (decayToRValue (analyzeExpression r))
  | .logic _ l r =>
    if typeInfoIsScalar (analyzeExpression l).info && typeInfoIsScalar (analyzeExpression r).info
    then .value makeBoolType
    else makeInvalidType
  | .cond _ a b =>
    analyzeTernary host (isNull a) (isNull b) (decayToRValue (analyzeExpression a))
      (decayToRValue (analyzeExpression b))
  | .comma _ b => decayToRValue (analyzeExpression b)

end

end Fisics
