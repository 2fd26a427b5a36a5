import Fisics.CodeGen.AssignmentCorrect
import Fisics.Library.ArithExpr

/-!
# Static initializers

An arithmetic initializer is folded by one of two evaluators. For a floating object it is
`cg_eval_const_float_expr`, which computes every operator on doubles and skips casts; for
an integer object it is `constEval`, and the other one where that finds no constant. What
neither folds leaves the object zero, and is reported only when the checker sees no
constant either.
-/

namespace Fisics.Initializers

open CInteger (DataModel IntType ofBool)
open CArith (FloatType ArithType Operator Sign Leaves compareRationals truncate)
open Llvm (Ty Scalar)

-- Expressions

/-- The token of a character literal holds its value in decimal. -/
structure CharConstant where
  wide : Bool
  value : Nat
  fits : value < 2 ^ 64

inductive Literal
  | number (c : IntConstant)
  | char (c : CharConstant)
  | floating (k : FloatType) (x : Rat)

abbrev InitExpr := CArith.Expr Literal

def CharConstant.type (wchar : IntType) (c : CharConstant) : IntType :=
  if c.wide then wchar else .int

/-- The literals in C, with the type that `wchar_t` stands for. -/
def literals (m : DataModel) (wchar : IntType) : Leaves Literal where
  type
    | .number c => .int ((c.type? m).getD .int)
    | .char c => .int (c.type wchar)
    | .floating k _ => .float k
  value
    | .number c => (c.type? m).map fun _ => (c.value : Int)
    | .char c => if (c.type wchar).Holds m c.value then some (c.value : Int) else none
    | .floating _ x => some x

-- The evaluator on doubles

/-- `strtod` on the text of an integer literal. It knows no octal and no binary digits. -/
def strtodInteger : List Char → Nat
  | '0' :: x :: d :: rest =>
    if (x = 'x' ∨ x = 'X') ∧ isxdigit d then (strtoullDigits 16 0 (d :: rest)).1
    else (strtoullDigits 10 0 ('0' :: x :: d :: rest)).1
  | text => (strtoullDigits 10 0 text).1

/-- What `strtod` reads. The text of a wide character starts with a mark. -/
def readLiteral : Literal → Option Rat
  | .number c => some (strtodInteger c.spelling.toList)
  | .char c => if c.wide then none else some c.value
  | .floating _ x => some x

def floatOperator (lhs rhs : Rat) : Operator → Option Rat
  | .arith .add => some (lhs + rhs)
  | .arith .sub => some (lhs - rhs)
  | .arith .mul => some (lhs * rhs)
  | .arith .div => if rhs = 0 then none else some (lhs / rhs)
  | .arith .mod => none
  | .compare op => some (ofBool (compareRationals lhs rhs op))

def cgEvalConstFloatExprDepth : InitExpr → Nat → Option Rat
  | .leaf a, depth => if 64 < depth then none else readLiteral a
  | .cast _ e, depth => if 64 < depth then none else cgEvalConstFloatExprDepth e (depth + 1)
  | .unary op e, depth =>
    if 64 < depth then none
    else (cgEvalConstFloatExprDepth e (depth + 1)).map fun inner => op.on inner
  | .binary op l r, depth =>
    if 64 < depth then none
    else
      (cgEvalConstFloatExprDepth l (depth + 1)).bind fun lhs =>
        (cgEvalConstFloatExprDepth r (depth + 1)).bind fun rhs => floatOperator lhs rhs op
  | .cond c a b, depth =>
    if 64 < depth then none
    else
      (cgEvalConstFloatExprDepth c (depth + 1)).bind fun cond =>
        if cond ≠ 0 then cgEvalConstFloatExprDepth a (depth + 1)
        else cgEvalConstFloatExprDepth b (depth + 1)

def cgEvalConstFloatExpr (e : InitExpr) : Option Rat := cgEvalConstFloatExprDepth e 0

-- The evaluator on integers

def InLongLong (z : Int) : Prop := -2 ^ 63 ≤ z ∧ z < 2 ^ 63

instance (z : Int) : Decidable (InLongLong z) := inferInstanceAs (Decidable (_ ∧ _))

/-- `(long long)value`, which gives the least value on the host where it is undefined. -/
def toLongLong (q : Rat) : BitVec 64 :=
  if InLongLong (truncate q) then BitVec.ofInt 64 (truncate q) else BitVec.intMin 64

section
variable (tl : TargetLayout) (wchar : IntType)

def evalChar (c : CharConstant) : Option ConstEvalResult :=
  let litType := if c.wide then typeInfoOfIntType wchar else makeIntegerType (defaultIntBits tl) true
  if c.wide ∧ 0x10FFFF < c.value then none
  else if litType.bitWidth < 63 ∧ 2 ^ litType.bitWidth - 1 < c.value then none
  else some (makeConstTyped (BitVec.ofNat 64 c.value) litType.bitWidth (!litType.isSigned))

/-- A floating literal right under a cast to an integer type. -/
def floatingOperand : ArithType → InitExpr → Option (BitVec 64)
  | .int _, .leaf (.floating _ x) => some (toLongLong x)
  | _, _ => none

/-- `evalCast`, where no value has a floating type. -/
def evalArithCast (value : BitVec 64) : ArithType → Option ConstEvalResult
  | .int t =>
    let cast := evalCast tl value t
    some (makeConstTyped cast.value cast.bitWidth cast.isUnsigned)
  | .float _ => none

/-- `constEval`. -/
def constEval : InitExpr → Option ConstEvalResult
  | .leaf (.number c) =>
    (parseIntegerLiteralInfo c.spelling.toList tl).map fun info =>
      makeConstTyped info.value info.bits info.isUnsigned
  | .leaf (.char c) => evalChar tl wchar c
  | .leaf (.floating _ _) => none
  | .cast t e =>
    let inner := ((constEval e).map fun r => r.value) <|> floatingOperand t e
    inner.bind fun value => evalArithCast tl value t
  | .unary op e => (constEval e).map fun res => evalUnaryOp tl res op.unary
  | .binary op l r =>
    (constEval l).bind fun lhs =>
      (constEval r).bind fun rhs => evalBinaryOp tl lhs rhs op.binary
  | .cond c a b =>
    (constEval c).bind fun condRes =>
      (if condRes.value ≠ 0 then constEval a else constEval b).map (finalizeWithExprType tl)

-- Initializers

/-- `LLVMConstInt` at the width of the type. -/
def constInt (t : IntType) (value : BitVec 64) : Scalar Rat :=
  .int (llvmBits (scalarOfInt t)) (value.setWidth _)

/-- `cg_build_const_initializer` behind the choice of an arm. -/
def buildScalar (t : ArithType) (e : InitExpr) : Option (Scalar Rat) :=
  match t, e with
  | .float k, .leaf a => some (.float k ((readLiteral a).getD 0))
  -- no result of `constEval` makes a floating constant
  | .float k, e => (cgEvalConstFloatExpr e).map (.float k)
  | .int t, e =>
    match constEval tl wchar e with
    | some res => some (constInt t res.value)
    | none => (cgEvalConstFloatExpr e).map fun foldedFP => constInt t (toLongLong foldedFP)

def cgBuildConstInitializer (t : ArithType) : InitExpr → Option (Scalar Rat)
  | .cond c a b =>
    match constEval tl wchar c with
    | some condition =>
      if condition.value ≠ 0 then cgBuildConstInitializer t a else cgBuildConstInitializer t b
    | none => buildScalar tl wchar t (.cond c a b)
  | e => buildScalar tl wchar t e

def zeroOf : ArithType → Scalar Rat
  | .int t => .int (llvmBits (scalarOfInt t)) 0
  | .float k => .float k 0

def declareGlobalVariableSymbol (t : ArithType) (e : InitExpr) : Scalar Rat :=
  (cgBuildConstInitializer tl wchar t e).getD (zeroOf t)

-- The checker

def isFloatingMark (c : Char) : Bool :=
  c ∈ ['.', 'e', 'E', 'p', 'P', 'f', 'F', 'i', 'I', 'j', 'J']

def isSimpleFloatingConstExpr : InitExpr → Nat → Bool
  | .leaf (.number c), depth => !(8 < depth) && c.spelling.toList.any isFloatingMark
  | .leaf (.char _), _ => false
  | .leaf (.floating _ _), depth => !(8 < depth)
  | .cast _ e, depth => !(8 < depth) && isSimpleFloatingConstExpr e (depth + 1)
  | .unary _ e, depth => !(8 < depth) && isSimpleFloatingConstExpr e (depth + 1)
  | .binary op l r, depth =>
    !(8 < depth) && (op != .arith .mod &&
      (isSimpleFloatingConstExpr l (depth + 1) && isSimpleFloatingConstExpr r (depth + 1)))
  | .cond c a b, depth =>
    !(8 < depth) && match constEval tl wchar c with
      | some condition =>
        if condition.value ≠ 0 then isSimpleFloatingConstExpr a (depth + 1)
        else isSimpleFloatingConstExpr b (depth + 1)
      | none => false

/-- "Initializer for static variable is not a constant expression". -/
def isReported (e : InitExpr) : Bool :=
  !isSimpleFloatingConstExpr tl wchar e 0 && (constEval tl wchar e).isNone

end

-- Initializers in C

/-- An initializer whose constant is its value in the type of the object, or that is
reported. -/
structure Initialized (m : DataModel) (wchar : IntType) (t : ArithType) (e : InitExpr) : Prop where
  constant : ∀ v s, e.valueAs m (literals m wchar) t = some v →
    cgBuildConstInitializer (dataLayout m) wchar t e = some s → s = scalarOf t v
  reported : (e.valueAs m (literals m wchar) t).isSome →
    cgBuildConstInitializer (dataLayout m) wchar t e = none → isReported (dataLayout m) wchar e = true

end Fisics.Initializers
