import Fisics.Syntax.IntegerLiteral
import Fisics.Syntax.TypeInfo

/-!
# The constant evaluator

`constEvalInternal` over the trees of integer constant expressions. A result has a
`long long`, the width of its type and the sign; `none` is a result that is not
constant. Signed arithmetic wraps as it does on the two's complement hosts the
program is built for.
-/

namespace Fisics

open CInteger (DataModel IntType Expr Unary Binary ArithOp ShiftOp CompareOp BitOp LogicOp)

structure ConstEvalResult where
  value : BitVec 64
  bitWidth : Nat
  isUnsigned : Bool
  deriving DecidableEq, Inhabited

inductive SymbolKind
  | variable | function | typedef | struct | enum
  deriving DecidableEq, Inhabited

structure Symbol where
  kind : SymbolKind
  constValue : Option (BitVec 64)
  /-- The value of an enumerator by the definition of its `enum`, read where no
  value was recorded. -/
  ordinal : Option (BitVec 64)

/-- `resolveInScopeChain`. -/
abbrev Scope := String → Option Symbol

inductive ConstLeaf
  | number (c : IntConstant)
  | identifier (name : String)

def defaultIntBits (tl : TargetLayout) : Nat := if tl.intBits = 0 then 32 else tl.intBits

def truncateToWidth (value : BitVec 64) (bits : Nat) (isUnsigned : Bool) : BitVec 64 :=
  if bits = 0 ∨ 64 ≤ bits then value
  else
    let mask := 1#64 <<< bits - 1#64
    let v := value &&& mask
    if !isUnsigned && v &&& 1#64 <<< (bits - 1) != 0#64 then v ||| ~~~mask else v

def makeConstTyped (value : BitVec 64) (bits : Nat) (isUnsigned : Bool) : ConstEvalResult :=
  ⟨truncateToWidth value bits isUnsigned, bits, isUnsigned⟩

def makeConst (value : BitVec 64) : ConstEvalResult := makeConstTyped value 64 false

def evalIdentifier (scope : Scope) (name : String) (allowEnumRefs : Bool) : Option (BitVec 64) :=
  (scope name).bind fun sym =>
    if sym.kind = .variable ∧ sym.constValue.isSome then sym.constValue
    else if !allowEnumRefs || sym.kind ≠ .enum then none
    else sym.constValue <|> sym.ordinal

section
variable (tl : TargetLayout)

def finalizeWithExprType (res : ConstEvalResult) : ConstEvalResult :=
  let bits := if res.bitWidth = 0 then defaultIntBits tl else res.bitWidth
  ⟨truncateToWidth res.value bits res.isUnsigned, bits, res.isUnsigned⟩

def operandBits (res : ConstEvalResult) : Nat :=
  if res.bitWidth = 0 then defaultIntBits tl else res.bitWidth

def commonIntegerType (lhs rhs : ConstEvalResult) : Nat × Bool :=
  let leftInfo := makeIntegerType (operandBits tl lhs) (!lhs.isUnsigned)
  let rightInfo := makeIntegerType (operandBits tl rhs) (!rhs.isUnsigned)
  -- the width of `long double` is not read for two integers
  match usualArithmeticConversion 0 leftInfo rightInfo with
  | some common =>
    (if common.bitWidth = 0 then defaultIntBits tl else common.bitWidth, !common.isSigned)
  | none => (defaultIntBits tl, false)

-- Operators

def evalBitwise (op : BitOp) (lhs rhs : ConstEvalResult) : ConstEvalResult :=
  let (opBits, opUnsigned) := commonIntegerType tl lhs rhs
  let l := truncateToWidth lhs.value opBits opUnsigned
  let r := truncateToWidth rhs.value opBits opUnsigned
  finalizeWithExprType tl (makeConstTyped (op.onWords l r) opBits opUnsigned)

@[grind] def compareWords (isUnsigned : Bool) (l r : BitVec 64) : CompareOp → Bool
  | .lt => if isUnsigned then l.ult r else l.slt r
  | .le => if isUnsigned then l.ule r else l.sle r
  | .gt => if isUnsigned then r.ult l else r.slt l
  | .ge => if isUnsigned then r.ule l else r.sle l
  | .eq => l == r
  | .ne => l != r

def evalComparison (op : CompareOp) (lhs rhs : ConstEvalResult) : ConstEvalResult :=
  let (opBits, opUnsigned) := commonIntegerType tl lhs rhs
  let l := truncateToWidth lhs.value opBits opUnsigned
  let r := truncateToWidth rhs.value opBits opUnsigned
  let cmp : BitVec 64 := if compareWords opUnsigned l r op then 1 else 0
  finalizeWithExprType tl (makeConstTyped cmp (defaultIntBits tl) false)

def evalShift (op : ShiftOp) (lhs rhs : ConstEvalResult) : Option ConstEvalResult :=
  let opBits := operandBits tl lhs
  let shiftAmt := rhs.value.toInt
  if shiftAmt < 0 ∨ opBits ≤ shiftAmt then none
  else
    let l := truncateToWidth lhs.value opBits lhs.isUnsigned
    let v := match op with
      | .shl => l <<< shiftAmt.toNat
      | .shr => if lhs.isUnsigned then l >>> shiftAmt.toNat else l.sshiftRight shiftAmt.toNat
    some (finalizeWithExprType tl (makeConstTyped v opBits lhs.isUnsigned))

@[grind] def arithWords (isUnsigned : Bool) (l r : BitVec 64) : ArithOp → BitVec 64
  | .add => l + r
  | .sub => l - r
  | .mul => l * r
  | .div => if r = 0 then 0 else if isUnsigned then l / r else l.sdiv r
  | .mod => if r = 0 then 0 else if isUnsigned then l % r else l.srem r

def evalArithmetic (op : ArithOp) (lhs rhs : ConstEvalResult) : Option ConstEvalResult :=
  if (op = .div ∨ op = .mod) ∧ rhs.value = 0 then none
  else
    let (resultBits, resultUnsigned) := commonIntegerType tl lhs rhs
    let l := truncateToWidth lhs.value resultBits resultUnsigned
    let r := truncateToWidth rhs.value resultBits resultUnsigned
    some (finalizeWithExprType tl
      (makeConstTyped (arithWords resultUnsigned l r op) resultBits resultUnsigned))

def evalBinaryOp (lhs rhs : ConstEvalResult) : Binary → Option ConstEvalResult
  | .bit op => some (evalBitwise tl op lhs rhs)
  | .compare op => some (evalComparison tl op lhs rhs)
  | .shift op => evalShift tl op lhs rhs
  | .arith op => evalArithmetic tl op lhs rhs

@[grind] def evalUnaryOp (res : ConstEvalResult) : Unary → ConstEvalResult
  | .minus =>
    finalizeWithExprType tl (makeConstTyped (-res.value) (operandBits tl res) res.isUnsigned)
  | .plus =>
    finalizeWithExprType tl (makeConstTyped res.value (operandBits tl res) res.isUnsigned)
  | .logNot =>
    finalizeWithExprType tl (makeConstTyped (if res.value = 0 then 1 else 0) (defaultIntBits tl) false)
  | .bitNot =>
    finalizeWithExprType tl (makeConstTyped (~~~res.value) (operandBits tl res) res.isUnsigned)

def evalCast (value : BitVec 64) (castType : IntType) : ConstEvalResult :=
  let info := typeInfoOfIntType castType
  let bits := if info.bitWidth = 0 then defaultIntBits tl else info.bitWidth
  ⟨truncateToWidth value bits (!info.isSigned), bits, !info.isSigned⟩

-- Trees

def shortCircuits (value : BitVec 64) : LogicOp → Bool
  | .and => value = 0
  | .or => value ≠ 0

variable (scope : Scope) (allowEnumRefs : Bool)

def constEvalInternal : Expr ConstLeaf → Option ConstEvalResult
  | .leaf (.number c) =>
    (parseIntegerLiteralInfo c.spelling.toList tl).map fun info =>
      makeConstTyped info.value info.bits info.isUnsigned
  | .leaf (.identifier name) =>
    (evalIdentifier scope name allowEnumRefs).map fun value =>
      finalizeWithExprType tl (makeConst value)
  | .cast castType e =>
    (constEvalInternal e).map fun inner =>
      let cast := evalCast tl inner.value castType
      makeConstTyped cast.value cast.bitWidth cast.isUnsigned
  | .unary op e => (constEvalInternal e).map fun res => evalUnaryOp tl res op
  | .binary op l r =>
    (constEvalInternal l).bind fun lhs =>
      (constEvalInternal r).bind fun rhs => evalBinaryOp tl lhs rhs op
  | .logic op l r =>
    (constEvalInternal l).bind fun lhs =>
      if shortCircuits lhs.value op then some (makeConst (if lhs.value = 0 then 0 else 1))
      else
        (constEvalInternal r).map fun rhs =>
          finalizeWithExprType tl
            (makeConstTyped (if rhs.value = 0 then 0 else 1) (defaultIntBits tl) false)
  | .cond c a b =>
    (constEvalInternal c).bind fun condRes =>
      (if condRes.value ≠ 0 then constEvalInternal a else constEvalInternal b).map (finalizeWithExprType tl)

variable {tl} {scope} {allowEnumRefs}

theorem constEvalInternal_number (c : IntConstant) :
    constEvalInternal tl scope allowEnumRefs (.leaf (.number c)) =
      (parseIntegerLiteralInfo c.spelling.toList tl).map fun info =>
        makeConstTyped info.value info.bits info.isUnsigned := rfl

theorem constEvalInternal_identifier (name : String) :
    constEvalInternal tl scope allowEnumRefs (.leaf (.identifier name)) =
      (evalIdentifier scope name allowEnumRefs).map fun value =>
        finalizeWithExprType tl (makeConst value) := rfl

theorem constEvalInternal_cast (t : IntType) (e : Expr ConstLeaf) :
    constEvalInternal tl scope allowEnumRefs (.cast t e) =
      (constEvalInternal tl scope allowEnumRefs e).map fun inner =>
        let cast := evalCast tl inner.value t
        makeConstTyped cast.value cast.bitWidth cast.isUnsigned := rfl

theorem constEvalInternal_unary (op : Unary) (e : Expr ConstLeaf) :
    constEvalInternal tl scope allowEnumRefs (.unary op e) =
      (constEvalInternal tl scope allowEnumRefs e).map fun res => evalUnaryOp tl res op := rfl

theorem constEvalInternal_binary (op : Binary) (l r : Expr ConstLeaf) :
    constEvalInternal tl scope allowEnumRefs (.binary op l r) =
      (constEvalInternal tl scope allowEnumRefs l).bind fun lhs =>
        (constEvalInternal tl scope allowEnumRefs r).bind fun rhs => evalBinaryOp tl lhs rhs op := rfl

theorem constEvalInternal_logic (op : LogicOp) (l r : Expr ConstLeaf) :
    constEvalInternal tl scope allowEnumRefs (.logic op l r) =
      (constEvalInternal tl scope allowEnumRefs l).bind fun lhs =>
        if shortCircuits lhs.value op then some (makeConst (if lhs.value = 0 then 0 else 1))
        else
          (constEvalInternal tl scope allowEnumRefs r).map fun rhs =>
            finalizeWithExprType tl
              (makeConstTyped (if rhs.value = 0 then 0 else 1) (defaultIntBits tl) false) := rfl

theorem constEvalInternal_cond (c a b : Expr ConstLeaf) :
    constEvalInternal tl scope allowEnumRefs (.cond c a b) =
      (constEvalInternal tl scope allowEnumRefs c).bind fun condRes =>
        (if condRes.value ≠ 0 then constEvalInternal tl scope allowEnumRefs a
          else constEvalInternal tl scope allowEnumRefs b).map (finalizeWithExprType tl) := rfl

end

end Fisics
