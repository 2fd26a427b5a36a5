import Fisics.Syntax.IntegerLiteral
import Fisics.Syntax.TypeInfo

/-!
# Scalar expressions

Expressions over scalar variables, literals, casts, `sizeof`, pointers and the
operators, with the types C gives them. A type is written with specifiers and
`*`, as the parser records it: `long` and `long long` are one `isLong`, and each
`*` is a pointer derivation that also counts in `pointerDepth`.
-/

namespace Fisics

open CInteger (DataModel IntType Unary Binary ArithOp ShiftOp CompareOp BitOp LogicOp)

/-- The tables of the source. -/
inductive Target
  | lp64Fp80 | lp64Fp128 | lp64Fp64 | llp64Fp64
  deriving DecidableEq

def Target.model : Target → DataModel
  | .llp64Fp64 => .llp64
  | _ => .lp64

def Target.layout (target : Target) : TargetLayout := dataLayout target.model

def Target.longDoubleBits : Target → Nat
  | .lp64Fp80 => 80
  | .lp64Fp128 => 128
  | .lp64Fp64 | .llp64Fp64 => 64

def Target.floatBits (target : Target) : FloatKind → Nat
  | .float => 32
  | .double => 64
  | .longDouble => target.longDoubleBits

-- Types

/-- The scalar types of C, and `void` for what a pointer points to. -/
inductive CType
  | int (t : IntType)
  | enum
  | float (kind : FloatKind) (isComplex : Bool)
  | ptr (pointee : CType)
  | void
  deriving DecidableEq

/-- What is compared of a type: the width and the sign of an integer, the kind of a
floating type, and for a pointer what it points to. -/
inductive Shape
  | integer (bits : Nat) (isUnsigned : Bool)
  | floating (kind : FloatKind) (isComplex : Bool)
  | pointer (pointee : Shape)
  | void
  | invalid
  deriving DecidableEq

def CType.shape (m : DataModel) : CType → Shape
  | .int t => .integer (t.bits m) t.isUnsigned
  | .enum => .integer (IntType.int.bits m) false
  | .float kind isComplex => .floating kind isComplex
  | .ptr t => .pointer (t.shape m)
  | .void => .void

/-- A reported type has the shape, where a pointer to `void` may be any pointer. -/
def Shape.Meets (reported shape : Shape) : Prop :=
  reported = shape ∨ shape = .pointer .void ∧ ∃ s, reported = .pointer s

inductive TypeKind
  | invalid | primitive | enum
  deriving DecidableEq

inductive PrimitiveType
  | void | bool | char | short | int | unsigned | long | float | double
  deriving DecidableEq

/-- A `ParsedType` without arrays and functions. Qualifiers are left out, and so is
an explicit `signed`: neither is read for the type of a value. -/
structure ScalarType where
  kind : TypeKind
  primitiveType : PrimitiveType
  isUnsigned : Bool
  isShort : Bool
  isLong : Bool
  isComplex : Bool
  pointerDepth : Nat
  derivations : Nat
  deriving DecidableEq

def primitiveScalar (primitiveType : PrimitiveType) (isUnsigned isShort isLong isComplex : Bool) :
    ScalarType :=
  ⟨.primitive, primitiveType, isUnsigned, isShort, isLong, isComplex, 0, 0⟩

def scalarOfInt : IntType → ScalarType
  | .bool => primitiveScalar .bool false false false false
  | .char => primitiveScalar .char false false false false
  | .uchar => primitiveScalar .char true false false false
  | .short => primitiveScalar .int false true false false
  | .ushort => primitiveScalar .int true true false false
  | .int => primitiveScalar .int false false false false
  | .uint => primitiveScalar .int true false false false
  | .long | .llong => primitiveScalar .int false false true false
  | .ulong | .ullong => primitiveScalar .int true false true false

def scalarOfFloat (kind : FloatKind) (isComplex : Bool) : ScalarType :=
  match kind with
  | .float => primitiveScalar .float false false false isComplex
  | .double => primitiveScalar .double false false false isComplex
  | .longDouble => primitiveScalar .double false false true isComplex

def parsedTypeOf : CType → ScalarType
  | .int t => scalarOfInt t
  | .enum => { primitiveScalar .int false false false false with kind := .enum }
  | .float kind isComplex => scalarOfFloat kind isComplex
  | .ptr t =>
    let pointee := parsedTypeOf t
    { pointee with
      pointerDepth := pointee.pointerDepth + 1
      derivations := pointee.derivations + 1 }
  | .void => primitiveScalar .void false false false false

-- Expressions

/-- Of a floating constant only the suffix matters for its type. -/
inductive ScalarExpr
  | identifier (name : String)
  | number (c : IntConstant)
  | floating (kind : FloatKind)
  | charLiteral
  | sizeofType (t : CType)
  | sizeofExpr (e : ScalarExpr)
  | cast (t : CType) (e : ScalarExpr)
  | unary (op : Unary) (e : ScalarExpr)
  | deref (e : ScalarExpr)
  | addressOf (e : ScalarExpr)
  | step (isPostfix : Bool) (e : ScalarExpr)
  | binary (op : Binary) (l r : ScalarExpr)
  | logic (op : LogicOp) (l r : ScalarExpr)
  | cond (c a b : ScalarExpr)
  | comma (a b : ScalarExpr)

def ScalarExpr.children : ScalarExpr → List ScalarExpr
  | .identifier _ | .number _ | .floating _ | .charLiteral | .sizeofType _ => []
  | .sizeofExpr e | .cast _ e | .unary _ e | .deref e | .addressOf e | .step _ e => [e]
  | .binary _ l r | .logic _ l r => [l, r]
  | .cond c a b => [c, a, b]
  | .comma a b => [a, b]

def ScalarExpr.parts : ScalarExpr → List ScalarExpr
  | .identifier name => [.identifier name]
  | .number c => [.number c]
  | .floating kind => [.floating kind]
  | .charLiteral => [.charLiteral]
  | .sizeofType t => [.sizeofType t]
  | .sizeofExpr e => .sizeofExpr e :: e.parts
  | .cast t e => .cast t e :: e.parts
  | .unary op e => .unary op e :: e.parts
  | .deref e => .deref e :: e.parts
  | .addressOf e => .addressOf e :: e.parts
  | .step isPostfix e => .step isPostfix e :: e.parts
  | .binary op l r => .binary op l r :: (l.parts ++ r.parts)
  | .logic op l r => .logic op l r :: (l.parts ++ r.parts)
  | .cond c a b => .cond c a b :: (c.parts ++ (a.parts ++ b.parts))
  | .comma a b => .comma a b :: (a.parts ++ b.parts)

def ScalarExpr.isLvalue : ScalarExpr → Bool
  | .identifier _ | .deref _ => true
  | _ => false

-- The types of C

def CType.int? : CType → Option IntType
  | .int t => some t
  | .enum => some .int
  | _ => none

def CType.isReal : CType → Bool
  | .int _ | .enum => true
  | .float _ isComplex => !isComplex
  | .ptr _ | .void => false

def CType.isArithmetic : CType → Bool
  | .int _ | .enum | .float _ _ => true
  | .ptr _ | .void => false

def CType.isScalar : CType → Bool
  | .void => false
  | _ => true

def FloatKind.join : FloatKind → FloatKind → FloatKind
  | .longDouble, _ | _, .longDouble => .longDouble
  | .double, _ | _, .double => .double
  | .float, .float => .float

def CType.common (m : DataModel) : CType → CType → Option CType
  | .float k c, .float k' c' => some (.float (k.join k') (c || c'))
  | .float k c, b => b.int?.map fun _ => .float k c
  | a, .float k c => a.int?.map fun _ => .float k c
  | a, b => a.int?.bind fun s => b.int?.map fun t => .int (s.usual m t)

def sizeType : DataModel → IntType
  | .lp64 => .ulong
  | .llp64 => .ullong

def differenceType : DataModel → IntType
  | .lp64 => .long
  | .llp64 => .llong

@[grind] def unaryType : Unary → CType → Option CType
  | .plus, .float k c | .minus, .float k c => some (.float k c)
  | .logNot, a => if a.isScalar then some (.int .int) else none
  | _, a => a.int?.map fun t => .int t.promote

@[grind] def arithType (m : DataModel) : ArithOp → CType → CType → Option CType
  | .add, .ptr t, b => if t ≠ .void ∧ b.int?.isSome then some (.ptr t) else none
  | .add, a, .ptr t => if t ≠ .void ∧ a.int?.isSome then some (.ptr t) else none
  | .sub, .ptr t, .ptr t' => if t ≠ .void ∧ t = t' then some (.int (differenceType m)) else none
  | .sub, .ptr t, b => if t ≠ .void ∧ b.int?.isSome then some (.ptr t) else none
  | .mod, a, b => a.int?.bind fun s => b.int?.map fun t => .int (s.usual m t)
  | _, a, b => a.common m b

def isRelational : CompareOp → Bool
  | .eq | .ne => false
  | .lt | .le | .gt | .ge => true

def comparable (relational nullLeft nullRight : Bool) : CType → CType → Bool
  | .ptr t, .ptr t' =>
    t = t' || !relational && (t = .void || t' = .void || nullLeft || nullRight)
  | .ptr _, b => !relational && nullRight && b.int?.isSome
  | a, .ptr _ => !relational && nullLeft && a.int?.isSome
  | a, b => a.isArithmetic && b.isArithmetic && (!relational || a.isReal && b.isReal)

@[grind] def binaryType (m : DataModel) (nullLeft nullRight : Bool) : Binary → CType → CType → Option CType
  | .arith op, a, b => arithType m op a b
  | .bit _, a, b => a.int?.bind fun s => b.int?.map fun t => .int (s.usual m t)
  | .shift _, a, b => a.int?.bind fun s => b.int?.map fun _ => .int s.promote
  | .compare op, a, b =>
    if comparable (isRelational op) nullLeft nullRight a b then some (.int .int) else none

def condType (m : DataModel) (nullTrue nullFalse : Bool) : CType → CType → Option CType
  | .ptr t, .ptr t' =>
    if nullFalse then some (.ptr t)
    else if nullTrue then some (.ptr t')
    else if t = t' then some (.ptr t)
    else if t = .void ∨ t' = .void then some (.ptr .void)
    else none
  | .ptr t, b => if nullFalse ∧ b.int?.isSome then some (.ptr t) else none
  | a, .ptr t => if nullTrue ∧ a.int?.isSome then some (.ptr t) else none
  | a, b => a.common m b

def castType : CType → CType → Option CType
  | .void, _ | _, .void => none
  | .ptr _, .float _ _ | .float _ _, .ptr _ => none
  | t, _ => some t

def derefType : CType → Option CType
  | .ptr t => if t.isScalar then some t else none
  | _ => none

def stepType : CType → Option CType
  | .ptr .void | .void => none
  | a => some a

section
variable (m : DataModel) (declared : String → Option CType) (isNull : ScalarExpr → Bool)

/-- The type of an expression in C, given the types of the variables and which
expressions are null pointer constants. -/
def ScalarExpr.typeOf : ScalarExpr → Option CType
  | .identifier name => (declared name).filter CType.isScalar
  | .number c => (c.type? m).map .int
  | .floating kind => some (.float kind false)
  | .charLiteral => some (.int .int)
  | .sizeofType t => if t.isScalar then some (.int (sizeType m)) else none
  | .sizeofExpr e => (typeOf e).map fun _ => .int (sizeType m)
  | .cast t e => (typeOf e).bind (castType t)
  | .unary op e => (typeOf e).bind (unaryType op)
  | .deref e => (typeOf e).bind derefType
  | .addressOf e => if e.isLvalue then (typeOf e).map .ptr else none
  | .step _ e => if e.isLvalue then (typeOf e).bind stepType else none
  | .binary op l r =>
    (typeOf l).bind fun a => (typeOf r).bind fun b => binaryType m (isNull l) (isNull r) op a b
  | .logic _ l r => (typeOf l).bind fun _ => (typeOf r).map fun _ => .int .int
  | .cond c a b =>
    (typeOf c).bind fun _ =>
      (typeOf a).bind fun s => (typeOf b).bind fun t => condType m (isNull a) (isNull b) s t
  | .comma a b => (typeOf a).bind fun _ => typeOf b

end

-- Parts

theorem ScalarExpr.parts_eq (e : ScalarExpr) : e.parts = e :: e.children.flatMap parts := by
  cases e <;> simp [parts, children]

theorem ScalarExpr.induct_children {motive : ScalarExpr → Prop}
    (step : ∀ e : ScalarExpr, (∀ p ∈ e.children, motive p) → motive e) (e : ScalarExpr) :
    motive e := by
  induction e with
  | identifier name | number c | floating kind | charLiteral | sizeofType t =>
    exact step _ (by simp [children])
  | sizeofExpr e ih | cast t e ih | unary op e ih | deref e ih | addressOf e ih | step isPostfix e ih =>
    exact step _ (by simpa [children] using ih)
  | binary op l r ihl ihr | logic op l r ihl ihr => exact step _ (by simpa [children] using ⟨ihl, ihr⟩)
  | cond c a b ihc iha ihb => exact step _ (by simpa [children] using ⟨ihc, iha, ihb⟩)
  | comma a b iha ihb => exact step _ (by simpa [children] using ⟨iha, ihb⟩)

theorem typeOf_children
    {e : ScalarExpr} (h : e.typeOf m declared isNull = some t) :
    ∀ p ∈ e.children, ∃ s, p.typeOf m declared isNull = some s := by
  cases e with
  | identifier name | number c | floating kind | charLiteral | sizeofType t => simp [ScalarExpr.children]
  | sizeofExpr e =>
    obtain ⟨s, hs, -⟩ := Option.map_eq_some_iff.mp h
    simpa [ScalarExpr.children] using ⟨s, hs⟩
  | cast t e | unary op e | deref e =>
    obtain ⟨s, hs, -⟩ := Option.bind_eq_some_iff.mp h
    simpa [ScalarExpr.children] using ⟨s, hs⟩
  | addressOf e =>
    simp only [ScalarExpr.typeOf] at h
    split at h
    · obtain ⟨s, hs, -⟩ := Option.map_eq_some_iff.mp h
      simpa [ScalarExpr.children] using ⟨s, hs⟩
    · cases h
  | step isPostfix e =>
    simp only [ScalarExpr.typeOf] at h
    split at h
    · obtain ⟨s, hs, -⟩ := Option.bind_eq_some_iff.mp h
      simpa [ScalarExpr.children] using ⟨s, hs⟩
    · cases h
  | binary op l r =>
    obtain ⟨s, hs, h⟩ := Option.bind_eq_some_iff.mp h
    obtain ⟨u, hu, -⟩ := Option.bind_eq_some_iff.mp h
    simpa [ScalarExpr.children] using ⟨⟨s, hs⟩, ⟨u, hu⟩⟩
  | logic op l r =>
    obtain ⟨s, hs, h⟩ := Option.bind_eq_some_iff.mp h
    obtain ⟨u, hu, -⟩ := Option.map_eq_some_iff.mp h
    simpa [ScalarExpr.children] using ⟨⟨s, hs⟩, ⟨u, hu⟩⟩
  | cond c a b =>
    obtain ⟨v, hv, h⟩ := Option.bind_eq_some_iff.mp h
    obtain ⟨s, hs, h⟩ := Option.bind_eq_some_iff.mp h
    obtain ⟨u, hu, -⟩ := Option.bind_eq_some_iff.mp h
    simpa [ScalarExpr.children] using ⟨⟨v, hv⟩, ⟨s, hs⟩, ⟨u, hu⟩⟩
  | comma a b =>
    obtain ⟨s, hs, h⟩ := Option.bind_eq_some_iff.mp h
    simpa [ScalarExpr.children] using ⟨⟨s, hs⟩, ⟨t, h⟩⟩

end Fisics
