import Fisics.CodeGen.ResolveType
import Fisics.Library.Llvm
import Fisics.Syntax.ConstEval

/-!
# Code for integer expressions

`codegenNode` over the trees of integer expressions. The width of a value is that
of its LLVM type; its sign is asked of `cgResolveExpressionType` each time an
operator needs it, on the tree of the operand. The types of both operands are held
as pointers while further types are resolved.
-/

namespace Fisics

open CInteger (DataModel IntType Expr Unary Binary ArithOp ShiftOp CompareOp BitOp LogicOp)
open Llvm (Value)

@[grind] def scalarOfExpr : Expr ConstLeaf → ScalarExpr
  | .leaf (.number c) => .number c
  | .leaf (.identifier name) => .identifier name
  | .cast t e => .cast (.int t) (scalarOfExpr e)
  | .unary op e => .unary op (scalarOfExpr e)
  | .binary op l r => .binary op (scalarOfExpr l) (scalarOfExpr r)
  | .logic op l r => .logic op (scalarOfExpr l) (scalarOfExpr r)
  | .cond c a b => .cond (scalarOfExpr c) (scalarOfExpr a) (scalarOfExpr b)

abbrev Emitted := (w : Nat) × Value String w

def llvmBits (t : ScalarType) : Nat :=
  match t.shape with
  | .integer bits _ => bits
  | _ => 0

-- Signs

def cgShouldTreatAsUnsigned (parsedType : Option ScalarType) (bits : Nat) : Bool :=
  match parsedType with
  | some t => cgIsUnsigned t
  | none => bits = 1

def cgIsUnsignedParsed (parsedType : Option ScalarType) (bits : Nat) : Bool :=
  match parsedType with
  | some t =>
    match t.kind with
    | .enum => false
    | .primitive => t.primitiveType == .bool || t.isUnsigned
    | .invalid => bits = 1
  | none => bits = 1

def cgPromotedOperandIsUnsigned (tl : TargetLayout) (bits : Nat) (originalUnsigned : Bool) :
    Nat × Bool :=
  (if bits < tl.intBits then tl.intBits else bits,
    if bits < tl.intBits then false else originalUnsigned)

def cgUsualIntegerResultIsUnsigned (tl : TargetLayout) (lhsBits rhsBits : Nat)
    (lhsUnsigned rhsUnsigned : Bool) : Bool :=
  let (lhsBits, lhsUnsigned) := cgPromotedOperandIsUnsigned tl lhsBits lhsUnsigned
  let (rhsBits, rhsUnsigned) := cgPromotedOperandIsUnsigned tl rhsBits rhsUnsigned
  if lhsUnsigned = rhsUnsigned then lhsUnsigned
  else if lhsUnsigned then rhsBits ≤ lhsBits
  else lhsBits ≤ rhsBits

def cgSelectIntPredicate (op : CompareOp) (preferUnsigned : Bool) : Llvm.Pred :=
  match op with
  | .eq => .eq
  | .ne => .ne
  | .lt => if preferUnsigned then .ult else .slt
  | .le => if preferUnsigned then .ule else .sle
  | .gt => if preferUnsigned then .ugt else .sgt
  | .ge => if preferUnsigned then .uge else .sge

-- Values

/-- `cg_cast_value` from an integer to an integer, by the sign of the source. -/
def castInteger (value : Value String w) (k : Nat) (srcUnsigned : Bool) : Value String k :=
  if h : w = k then h ▸ value
  else if hk : k = 1 then hk ▸ value.isNonZero
  else if w < k then if srcUnsigned then .zext k value else .sext k value
  else .trunc k value

def cgCastValue (value : Value String w) (k : Nat) (fromParsed : Option ScalarType) :
    Value String k :=
  castInteger value k (cgShouldTreatAsUnsigned fromParsed w)

def cgBuildTruthy (value : Value String w) (parsedType : Option ScalarType) : Value String 1 :=
  if h : w = 1 ∧ parsedType.map cgClassifyParsedType = some .bool then h.1 ▸ value
  else value.isNonZero

def cgWidenBoolToInt (value : Value String 1) : Emitted := ⟨32, .zext 32 value⟩

def promotedBits (lhsBits rhsBits : Nat) : Nat :=
  let targetBits := if lhsBits < 32 then 32 else lhsBits
  if targetBits < rhsBits then rhsBits else targetBits

def cgMergeTypesForPhi (aBits bBits : Nat) : Nat := if bBits ≤ aBits then aBits else bBits

-- Operators

def codegenUnary (op : Unary) (parsedType : Option ScalarType) (operand : Emitted) : Emitted :=
  match op with
  | .plus => operand
  | .minus => ⟨operand.1, .neg operand.2⟩
  | .bitNot => ⟨operand.1, .not operand.2⟩
  | .logNot => cgWidenBoolToInt (.not (cgBuildTruthy operand.2 parsedType))

def arithInstruction (preferUnsigned : Bool) : ArithOp → Llvm.BinOp
  | .add => .add
  | .sub => .sub
  | .mul => .mul
  | .div => if preferUnsigned then .udiv else .sdiv
  | .mod => if preferUnsigned then .urem else .srem

def bitInstruction : BitOp → Llvm.BinOp
  | .and => .and
  | .or => .or
  | .xor => .xor

def shiftInstruction (preferUnsigned : Bool) : ShiftOp → Llvm.BinOp
  | .shl => .shl
  | .shr => if preferUnsigned then .lshr else .ashr

/-- The sign that an operator is generated for. -/
def prefersUnsigned (tl : TargetLayout) (op : Binary) (lhsBits rhsBits : Nat)
    (lhsUnsigned rhsUnsigned : Bool) : Bool :=
  if op = .shift .shr then (cgPromotedOperandIsUnsigned tl lhsBits lhsUnsigned).2
  else cgUsualIntegerResultIsUnsigned tl lhsBits rhsBits lhsUnsigned rhsUnsigned

def codegenBinary (tl : TargetLayout) (op : Binary) (lhs rhs : Emitted)
    (lhsUnsigned rhsUnsigned : Bool) : Emitted :=
  let bits := promotedBits lhs.1 rhs.1
  let l := lhs.2.intCast lhsUnsigned bits
  let r := rhs.2.intCast rhsUnsigned bits
  let preferUnsigned := prefersUnsigned tl op lhs.1 rhs.1 lhsUnsigned rhsUnsigned
  match op with
  | .arith op => ⟨bits, .binary (arithInstruction preferUnsigned op) l r⟩
  | .bit op => ⟨bits, .binary (bitInstruction op) l r⟩
  | .shift op => ⟨bits, .binary (shiftInstruction preferUnsigned op) l r⟩
  | .compare op => cgWidenBoolToInt (.icmp (cgSelectIntPredicate op preferUnsigned) l r)

/-- The block of the right operand is reached where the left one does not decide. -/
def codegenLogicalAndOr (op : LogicOp) (lhs rhs : Emitted) : Emitted :=
  let lhsBool := cgBuildTruthy lhs.2 none
  let rhsBool := cgBuildTruthy rhs.2 none
  cgWidenBoolToInt (match op with
    | .and => .branch lhsBool rhsBool (.const 0#1)
    | .or => .branch lhsBool (.const 1#1) rhsBool)

def codegenTernary (condition trueValue falseValue : Emitted)
    (trueParsed falseParsed : Option ScalarType) : Emitted :=
  let mergedType := cgMergeTypesForPhi trueValue.1 falseValue.1
  ⟨mergedType, .branch (cgBuildTruthy condition.2 none)
    (cgCastValue trueValue.2 mergedType trueParsed)
    (cgCastValue falseValue.2 mergedType falseParsed)⟩

/-- The value that a literal has by `parse_integer_literal_info`. -/
def literalValue (tl : TargetLayout) (c : IntConstant) : BitVec 64 :=
  match parseIntegerLiteralInfo c.spelling.toList tl with
  | some info => info.value
  | none => 0

-- Trees

section
variable (tl : TargetLayout) (scope : String → Option ScalarType)

def cgResolve (e : Expr ConstLeaf) (st : Slots) : Option TypeRef × Slots :=
  cgResolveExpressionType tl scope (scalarOfExpr e) st

def cgExpressionIsUnsigned (e : Expr ConstLeaf) (st : Slots) : Bool × Slots :=
  match cgResolve tl scope e st with
  | (parsedType, st) => (parsedType.any fun ref => cgIsUnsigned (ref.read st), st)

def codegenNumberLiteral (c : IntConstant) (st : Slots) : Emitted × Slots :=
  -- once to see that it is no floating literal, once for the type
  match cgResolve tl scope (.leaf (.number c)) st with
  | (_, st) =>
    match cgResolve tl scope (.leaf (.number c)) st with
    | (parsedInt, st) =>
      let bits := (parsedInt.map fun ref => llvmBits (ref.read st)).getD 32
      (⟨bits, .const ((literalValue tl c).setWidth bits)⟩, st)

def codegenIdentifier (name : String) : Emitted :=
  ⟨((scope name).map llvmBits).getD 32, .load name⟩

@[grind] def codegenNode : Expr ConstLeaf → Slots → Emitted × Slots
  | .leaf (.number c), st => codegenNumberLiteral tl scope c st
  | .leaf (.identifier name), st => (codegenIdentifier scope name, st)
  | .cast t e, st =>
    match codegenNode e st with
    | (value, st) =>
      let target := llvmBits (parsedTypeOf (.int t))
      if value.1 = target then (value, st)
      else
        match cgResolve tl scope e st with
        | (fromParsed, st) =>
          (⟨target, cgCastValue value.2 target (fromParsed.map (TypeRef.read st))⟩, st)
  | .unary op e, st =>
    match cgResolve tl scope e st with
    | (operandParsed, st) =>
      -- a copy, taken before the operand is generated
      let stableParsed := operandParsed.map (TypeRef.read st)
      match codegenNode e st with
      | (operand, st) => (codegenUnary op stableParsed operand, st)
  | .binary op l r, st =>
    match codegenNode l st with
    | (lhs, st) =>
      match codegenNode r st with
      | (rhs, st) =>
        match cgResolve tl scope l st with
        | (lhsParsed, st) =>
          match cgResolve tl scope r st with
          | (rhsParsed, st) =>
            match cgExpressionIsUnsigned tl scope l st with
            | (lhsUnsigned, st) =>
              match cgExpressionIsUnsigned tl scope r st with
              | (rhsUnsigned, st) =>
                -- the pointers are read only here
                let lhsUnsigned :=
                  lhsUnsigned || cgIsUnsignedParsed (lhsParsed.map (TypeRef.read st)) lhs.1
                let rhsUnsigned :=
                  rhsUnsigned || cgIsUnsignedParsed (rhsParsed.map (TypeRef.read st)) rhs.1
                (codegenBinary tl op lhs rhs lhsUnsigned rhsUnsigned, st)
  | .logic op l r, st =>
    match codegenNode l st with
    | (lhs, st) =>
      match codegenNode r st with
      | (rhs, st) => (codegenLogicalAndOr op lhs rhs, st)
  | .cond c a b, st =>
    match codegenNode c st with
    | (condition, st) =>
      match codegenNode a st with
      | (trueValue, st) =>
        match cgResolve tl scope a st with
        | (trueParsed, st) =>
          match codegenNode b st with
          | (falseValue, st) =>
            match cgResolve tl scope b st with
            | (falseParsed, st) =>
              (codegenTernary condition trueValue falseValue
                (trueParsed.map (TypeRef.read st)) (falseParsed.map (TypeRef.read st)), st)

end

end Fisics
