import Fisics.Syntax.CompositeTypes
import Fisics.Library.PrefixCode
import Mathlib.Algebra.Group.Nat.Defs

/-!
# Fingerprints of records

A second definition of a tag is taken for a repetition of the first when both have the
same fingerprint. `structLikeItems` is what `fingerprintStructLike` feeds to the
accumulator: words and strings. `written` is what of a record these show.
-/

namespace Fisics.Fingerprints

open Declarators (PointerDeclaratorLayer)
open PrefixCode (Comparable)

-- Nodes

inductive ASTNodeType
  | program | block | statementExpression | heapAllocation
  | includeDirective | defineDirective | conditionalDirective | endifDirective
  | typedef | variableDeclaration | unionDefinition | structDefinition | structFieldAccess
  | enumDefinition
  | arrayAccess | pointerAccess | dotAccess | pointerDereference
  | ternaryExpression | binaryExpression | unaryExpression | commaExpression | castExpression
  | basicType | parsedType | numberLiteral | charLiteral | stringLiteral | identifier | sizeof
  | compoundLiteral
  | assignment
  | ifStatement | alignof | sequence | whileLoop | forLoop
  | return | break | continue | gotoStatement | labelDeclaration
  | functionDeclaration | functionDefinition | functionCall | functionPointer
  | switch | case | staticAssert
  | asm
  deriving DecidableEq

inductive ValueKind
  | numberLiteral | charLiteral | stringLiteral | identifier
  deriving DecidableEq

inductive MemberKind
  | pointerAccess | dotAccess
  deriving DecidableEq

inductive PlainKind
  | statementExpression | parsedType | compoundLiteral | alignof
  deriving DecidableEq

def ValueKind.type : ValueKind → ASTNodeType
  | .numberLiteral => .numberLiteral
  | .charLiteral => .charLiteral
  | .stringLiteral => .stringLiteral
  | .identifier => .identifier

def MemberKind.type : MemberKind → ASTNodeType
  | .pointerAccess => .pointerAccess
  | .dotAccess => .dotAccess

def PlainKind.type : PlainKind → ASTNodeType
  | .statementExpression => .statementExpression
  | .parsedType => .parsedType
  | .compoundLiteral => .compoundLiteral
  | .alignof => .alignof

/-- Expressions; the type `C` is of what is never read: the sizes of arrays and what a
plain node holds. -/
inductive Expr (C : Type)
  | null
  | value (kind : ValueKind) (text : String)
  | binary (op : String) (left right : Expr C)
  | unary (op : String) (isPostfix : Bool) (left : Expr C)
  | ternary (condition trueExpr falseExpr : Expr C)
  | assignment (op : String) (target value : Expr C)
  | comma (expressions : List (Expr C))
  | cast (castType : Types.ParsedType C) (expression : Expr C)
  | sizeof (operand : Expr C)
  | call (callee : Expr C) (arguments : List (Expr C))
  | arrayAccess (array index : Expr C)
  | member (kind : MemberKind) (base : Expr C) (field : String)
  | dereference (pointer : Expr C)
  | plain (kind : PlainKind) (content : C)

/-- A member without a name has the empty name. -/
structure FieldDecl (C : Type) where
  declaredType : Types.ParsedType C
  varNames : List String
  bitFieldWidth : Option (Expr C)

structure StructDef (C : Type) where
  isUnion : Bool
  hasFlexibleArray : Bool
  fields : List (FieldDecl C)

-- What is fed to the accumulator

inductive Item
  | word (value : Nat)
  | string (text : String)
  deriving DecidableEq

def hashBool (value : Bool) : Item := .word value.toNat

def hashString : Option String → Item
  | none => .word 0
  | some text => .string text

def hashType (type : ASTNodeType) : Item := .word type.ctorIdx

mutual

def hashParsedTypeFingerprint : Types.ParsedType C → List Item
  | .mk head fpParams _ =>
    [.word head.specifiers.kind.ctorIdx, .word head.specifiers.tag.ctorIdx,
      .word head.specifiers.primitiveType.ctorIdx, hashBool head.isFunctionPointer] ++
    ((if fpParams.isEmpty then [] else .word fpParams.length :: hashFpParams fpParams) ++
    [hashString head.specifiers.userTypeName, hashBool head.specifiers.isConst,
      hashBool head.specifiers.isSigned, hashBool head.specifiers.isUnsigned,
      hashBool head.specifiers.isShort, hashBool head.specifiers.isLong,
      hashBool head.specifiers.isVolatile, hashBool head.specifiers.isRestrict,
      hashBool head.storage.isInline, hashBool head.storage.isStatic, hashBool head.storage.isExtern,
      hashBool head.storage.isRegister, hashBool head.storage.isAuto,
      hashBool head.storage.isThreadLocal, .word head.pointerDepth, hashBool head.isVLA])

def hashFpParams : List (Types.ParsedType C) → List Item
  | [] => []
  | t :: rest => hashParsedTypeFingerprint t ++ hashFpParams rest

end

mutual

def hashAstNode : Expr C → List Item
  | .null => [.word 0]
  | .value kind text => [hashType kind.type, .string text]
  | .binary op left right =>
    hashType .binaryExpression :: .string op :: (hashAstNode left ++ hashAstNode right)
  | .unary op isPostfix left =>
    hashType .unaryExpression :: .string op :: hashBool isPostfix :: hashAstNode left
  | .ternary condition trueExpr falseExpr =>
    hashType .ternaryExpression :: (hashAstNode condition ++ (hashAstNode trueExpr ++ hashAstNode falseExpr))
  | .assignment op target value =>
    hashType .assignment :: .string op :: (hashAstNode target ++ hashAstNode value)
  | .comma expressions => hashType .commaExpression :: hashAstNodes expressions
  | .cast castType expression =>
    hashType .castExpression :: (hashParsedTypeFingerprint castType ++ hashAstNode expression)
  | .sizeof operand => hashType .sizeof :: hashAstNode operand
  | .call callee arguments => hashType .functionCall :: (hashAstNode callee ++ hashAstNodes arguments)
  | .arrayAccess array index => hashType .arrayAccess :: (hashAstNode array ++ hashAstNode index)
  | .member kind base field => hashType kind.type :: (hashAstNode base ++ [.string field])
  | .dereference pointer => hashType .pointerDereference :: hashAstNode pointer
  | .plain kind _ => [hashType kind.type]

def hashAstNodes : List (Expr C) → List Item
  | [] => []
  | e :: rest => hashAstNode e ++ hashAstNodes rest

end

def hashWidth : Option (Expr C) → List Item
  | some width => hashBool true :: hashAstNode width
  | none => [hashBool false]

def hashFieldDeclaration (field : FieldDecl C) : List Item :=
  hashType .variableDeclaration :: (hashParsedTypeFingerprint field.declaredType ++
    (.word field.varNames.length :: (field.varNames.map Item.string ++ hashWidth field.bitFieldWidth)))

def hashFields (i : Nat) : List (FieldDecl C) → List Item
  | [] => [.word i]
  | field :: rest => .word (i + 1) :: (hashFieldDeclaration field ++ hashFields (i + 1) rest)

def structLikeItems (node : StructDef C) : List Item :=
  .word (if node.isUnion then 2 else 1) :: hashBool node.hasFlexibleArray :: hashFields 0 node.fields

-- The accumulator

def fnvOffset : UInt64 := 1469598103934665603

def fnvPrime : UInt64 := 1099511628211

def hashBytes (hash : UInt64) (bytes : List UInt8) : UInt64 :=
  bytes.foldl (fun hash byte => (hash ^^^ byte.toUInt64) * fnvPrime) hash

/-- The bytes of a word, the lowest first; a string ends with 0xff. -/
def Item.bytes : Item → List UInt8
  | .word value => (List.range 8).map fun i => UInt8.ofNat (value / 256 ^ i)
  | .string text => text.toUTF8.toList ++ [0xff]

def fingerprintStructLike (node : StructDef C) : UInt64 :=
  (structLikeItems node).foldl (fun hash item => hashBytes hash item.bytes) fnvOffset

inductive CCTagDefineResult
  | added | matching | conflict
  deriving DecidableEq

/-- `recorded` is the fingerprint of the first definition of the tag. -/
def ccDefineTag (recorded : Option UInt64) (fingerprint : UInt64) : CCTagDefineResult :=
  match recorded with
  | some first => if first = fingerprint then .matching else .conflict
  | none => .added

-- Members

mutual

inductive Shape (C : Type)
  | mk (specifiers : Types.Specifiers) (parts : List (ShapePart C))

inductive ShapePart (C : Type)
  | pointer (layer : PointerDeclaratorLayer)
  | array (bound : Types.Bound) (sizeExpr : Option C)
  | function (hasPrototype isVariadic : Bool) (params : List (Shape C))

end

mutual

def shape : Types.ParsedType C → Shape C
  | .mk head _ derivations => .mk head.specifiers (shapeParts derivations)

def shapes : List (Types.ParsedType C) → List (Shape C)
  | [] => []
  | t :: rest => shape t :: shapes rest

def shapePart : Types.TypeDerivation C → ShapePart C
  | .pointer layer => .pointer layer
  | .array info => .array (Types.bound info) (if info.constantSize.isSome then none else info.sizeExpr)
  | .function hasPrototype isVariadic params => .function hasPrototype isVariadic (shapes params)

def shapeParts : List (Types.TypeDerivation C) → List (ShapePart C)
  | [] => []
  | d :: rest => shapePart d :: shapeParts rest

end

def members (node : StructDef C) : List (Shape C × List String × Option (Expr C)) :=
  node.fields.map fun field => (shape field.declaredType, field.varNames, field.bitFieldWidth)

/-- Neither sequence is the beginning of the other. -/
def Separate (xs ys : List Item) : Prop := ¬ Comparable xs ys

-- What is written

mutual

/-- A type without its derivations, its complex kind and what is known of it as a function
or parameter. -/
def writtenType : Types.ParsedType C → Types.ParsedType C
  | .mk head fpParams _ =>
    .mk { head with
        specifiers := { head.specifiers with isComplex := false, isImaginary := false }
        directlyDeclaresFunction := false
        isVariadicFunction := false
        paramArrayInfo := none }
      (writtenTypes fpParams) []

def writtenTypes : List (Types.ParsedType C) → List (Types.ParsedType C)
  | [] => []
  | t :: rest => writtenType t :: writtenTypes rest

end

mutual

theorem writtenType_idem (t : Types.ParsedType C) : writtenType (writtenType t) = writtenType t := by
  cases t with
  | mk head fpParams derivations => rw [writtenType, writtenType, writtenTypes_idem]

theorem writtenTypes_idem (ts : List (Types.ParsedType C)) :
    writtenTypes (writtenTypes ts) = writtenTypes ts := by
  cases ts with
  | nil => rfl
  | cons t ts => rw [writtenTypes, writtenTypes, writtenType_idem, writtenTypes_idem]

end

def WrittenType (C : Type) : Type := { t : Types.ParsedType C // writtenType t = t }

def WrittenType.of (t : Types.ParsedType C) : WrittenType C := ⟨writtenType t, writtenType_idem t⟩

inductive Symbol (C : Type)
  | null
  | value (kind : ValueKind) (text : String)
  | binary (op : String)
  | unary (op : String) (isPostfix : Bool)
  | ternary
  | assignment (op : String)
  | comma
  | cast (castType : WrittenType C)
  | sizeof
  | call
  | arrayAccess
  | member (kind : MemberKind)
  | field (name : String)
  | dereference
  | plain (kind : PlainKind)

mutual

def prefixNotation : Expr C → List (Symbol C)
  | .null => [.null]
  | .value kind text => [.value kind text]
  | .binary op left right => .binary op :: (prefixNotation left ++ prefixNotation right)
  | .unary op isPostfix left => .unary op isPostfix :: prefixNotation left
  | .ternary condition trueExpr falseExpr =>
    .ternary :: (prefixNotation condition ++ (prefixNotation trueExpr ++ prefixNotation falseExpr))
  | .assignment op target value => .assignment op :: (prefixNotation target ++ prefixNotation value)
  | .comma expressions => .comma :: prefixNotations expressions
  | .cast castType expression => .cast (.of castType) :: prefixNotation expression
  | .sizeof operand => .sizeof :: prefixNotation operand
  | .call callee arguments => .call :: (prefixNotation callee ++ prefixNotations arguments)
  | .arrayAccess array index => .arrayAccess :: (prefixNotation array ++ prefixNotation index)
  | .member kind base field => .member kind :: (prefixNotation base ++ [.field field])
  | .dereference pointer => .dereference :: prefixNotation pointer
  | .plain kind _ => [.plain kind]

def prefixNotations : List (Expr C) → List (Symbol C)
  | [] => []
  | e :: rest => prefixNotation e ++ prefixNotations rest

end

def writtenWidth (field : FieldDecl C) : Option (List (Symbol C)) := field.bitFieldWidth.map prefixNotation

structure WrittenField (C : Type) where
  type : WrittenType C
  names : List String
  width : Option (List (Symbol C))

def writtenField (field : FieldDecl C) : WrittenField C :=
  ⟨.of field.declaredType, field.varNames, writtenWidth field⟩

def written (node : StructDef C) : Bool × Bool × List (WrittenField C) :=
  (node.isUnion, node.hasFlexibleArray, node.fields.map writtenField)

/-- The number of a node in the enumeration of the node types. -/
def Symbol.number? : Symbol C → Option Nat
  | .null => some 0
  | .value kind _ => some kind.type.ctorIdx
  | .binary _ => some ASTNodeType.binaryExpression.ctorIdx
  | .unary _ _ => some ASTNodeType.unaryExpression.ctorIdx
  | .ternary => some ASTNodeType.ternaryExpression.ctorIdx
  | .assignment _ => some ASTNodeType.assignment.ctorIdx
  | .comma => some ASTNodeType.commaExpression.ctorIdx
  | .cast _ => some ASTNodeType.castExpression.ctorIdx
  | .sizeof => some ASTNodeType.sizeof.ctorIdx
  | .call => some ASTNodeType.functionCall.ctorIdx
  | .arrayAccess => some ASTNodeType.arrayAccess.ctorIdx
  | .member kind => some kind.type.ctorIdx
  | .field _ => none
  | .dereference => some ASTNodeType.pointerDereference.ctorIdx
  | .plain kind => some kind.type.ctorIdx

/-- The first list ends with a width that the second carries on, with a node whose number
is the count of the members of the first. -/
inductive RunsOn : Nat → List (FieldDecl C) → List (FieldDecl C) → Prop
  | last (htype : WrittenType.of f.declaredType = .of g.declaredType)
    (hnames : f.varNames = g.varNames) (hf : writtenWidth f = some symbols)
    (hg : writtenWidth g = some (symbols ++ s :: rest)) (hnumber : s.number? = some (i + 1)) :
    RunsOn i [f] (g :: gs)
  | next (hfield : writtenField f = writtenField g) (hrest : RunsOn (i + 1) fs gs) :
    RunsOn i (f :: fs) (g :: gs)

def RunsInto (a b : StructDef C) : Prop :=
  a.isUnion = b.isUnion ∧ a.hasFlexibleArray = b.hasFlexibleArray ∧ RunsOn 0 a.fields b.fields

end Fisics.Fingerprints
