import Fisics.CodeGen.ParsedType
import Fisics.Library.MemoCall

/-!
# LLVM types and their cache

`cg_type_from_parsed` lowers a type by its derivations and keeps the result under
the type's text. Lowering calls it again for the parameters of functions and for
what a typedef name stands for. Which of these names are in scope, what a record's
LLVM type is and how a parameter is passed is given by the environment.
-/

namespace Fisics

open MemoCall (Calls Memoized)

/-- A literal structure of two equal parts is the type of a complex number. -/
inductive LLVMType
  | void | int (bits : Nat) | half | float | double | x86Fp80 | fp128
  | ptr (pointee : LLVMType)
  | array (element : LLVMType) (length : Nat)
  | function (result : LLVMType) (params : List LLVMType) (isVarArg : Bool)
  | pair (part : LLVMType)
  | definition (id : Nat)
  | named (name : TypeName)

def LLVMType.isVoid : LLVMType → Bool
  | .void => true
  | _ => false

/-- The context of a call: lexical typedefs and tags, typedefs of the file, the types
of records, and how a parameter is adjusted and passed. -/
structure TypeEnv where
  lookupTypedef : TypeName → Option ParsedType
  lookupTag : TypeName → Bool → Option Nat
  typedefs : TypeName → Option ParsedType
  definitionType : Nat → LLVMType
  recordType : TypeName → LLVMType
  constEvalInteger : Nat → Option Int
  longDoubleBits : Nat
  prepareParameter : ParsedType → ParsedType
  passParameter : ParsedType → LLVMType → LLVMType

-- Lowering

/-- A program of nested calls of `cg_type_from_parsed`. -/
abbrev Lowering := Calls ParsedType LLVMType

def longDoubleType (env : TypeEnv) : LLVMType :=
  if env.longDoubleBits = 128 then .fp128
  else if env.longDoubleBits = 64 then .double
  else .x86Fp80

def primitiveType (env : TypeEnv) (t : PrimitiveType) (has : Specifier → Bool) : LLVMType :=
  if has .complex || has .imaginary then
    match t with
    | .float => .pair .float
    | _ => .pair (if has .long then longDoubleType env else .double)
  else
    match t with
    | .void => .void
    | .char => .int 8
    | .bool => .int 1
    | .short => .int 16
    | .long => .int 64
    | .float => .float
    | .double =>
      if has .long then
        if env.longDoubleBits = 128 then .fp128
        else if env.longDoubleBits = 64 then .double
        else if 80 ≤ env.longDoubleBits then .x86Fp80
        else .double
      else .double
    | .int | .unsigned => .int (if has .short then 16 else if has .long then 64 else 32)

def isUnionKind (kind : BaseKind) : Bool := kind == .union

def structOrUnionType (env : TypeEnv) (head : TypeHead) : LLVMType :=
  match head.inlineDefinition with
  | some id => env.definitionType id
  | none =>
    match head.name with
    | none => .ptr (.int 8)
    | some name =>
      match env.lookupTag name (isUnionKind head.kind) with
      | some id => env.definitionType id
      | none =>
        match env.lookupTypedef name with
        | some target =>
          match target.head.inlineDefinition with
          | some id =>
            if (head.kind = .struct ∨ head.kind = .union) ∧ target.head.kind = head.kind then
              env.definitionType id
            else env.recordType name
          | none => env.recordType name
        | none => env.recordType name

def builtinAlias (name : TypeName) : Option LLVMType :=
  if name.text = ['_', 'F', 'l', 'o', 'a', 't', '1', '6'] ∨ name.text = ['_', '_', 'f', 'p', '1', '6'] then
    some .half
  else if name.text = ['_', '_', 'i', 'n', 't', '1', '2', '8', '_', 't'] ∨
      name.text = ['_', '_', 'i', 'n', 't', '1', '2', '8'] ∨
      name.text = ['_', '_', 'u', 'i', 'n', 't', '1', '2', '8', '_', 't'] ∨
      name.text = ['_', '_', 'u', 'i', 'n', 't', '1', '2', '8'] then some (.int 128)
  else if name.text = ['_', '_', 'b', 'u', 'i', 'l', 't', 'i', 'n', '_', 'v', 'a', '_', 'l', 'i', 's', 't'] then
    some (.ptr (.int 8))
  else none

/-- The scope comes before the file, with derivations on the name or without. -/
def namedAliasType (env : TypeEnv) (head : TypeHead) : Lowering LLVMType :=
  match head.name with
  | none => .ret (.int 32)
  | some name =>
    match builtinAlias name with
    | some t => .ret t
    | none =>
      match (env.lookupTypedef name).or (env.typedefs name) with
      | some target => .call target .ret
      | none => .ret (structOrUnionType env head)

def baseType (env : TypeEnv) (head : TypeHead) : Lowering LLVMType :=
  match head.kind with
  | .primitive t => .ret (primitiveType env t head.has)
  | .enum => .ret (.int 32)
  | .struct | .union => .ret (structOrUnionType env head)
  | .named => namedAliasType env head
  | .invalid => .ret (.int 32)

def applyPointerDepth (base : LLVMType) (depth : Nat) : LLVMType :=
  LLVMType.ptr^[depth] (if base.isVoid && 0 < depth then .int 8 else base)

def cgConstantArrayLength (env : TypeEnv) (info : ParsedArrayInfo) : Option Nat :=
  if info.isFlexible || info.isVLA then none
  else
    match info.constantSize.or (info.sizeExpr.bind env.constEvalInteger) with
    | some length => if 0 < length ∧ length ≤ 2 ^ 32 - 1 then some length.toNat else none
    | none => none

def cgLowerParameterType (env : TypeEnv) (param : ParsedType) : Lowering LLVMType :=
  let adjusted := env.prepareParameter param
  .call adjusted fun t => .ret (env.passParameter adjusted t)

def lowerParams (env : TypeEnv) : ParamTypes → Lowering (List LLVMType)
  | .nil => .ret []
  | .cons param rest => do
    let t ← cgLowerParameterType env param
    let ts ← lowerParams env rest
    return t :: ts

def buildDerivedType (env : TypeEnv) (head : TypeHead) : Derivations → Lowering LLVMType
  | .nil => baseType env head
  | .pointer _ rest => do
    let target ← buildDerivedType env head rest
    return .ptr (if target.isVoid then .int 8 else target)
  | .array info rest => do
    let target ← buildDerivedType env head rest
    let element := if target.isVoid then .int 32 else target
    if info.isFlexible then return .array element 0
    match cgConstantArrayLength env info with
    | some length => return .array element length
    | none => return .ptr element
  | .function flags params rest => do
    let result ← buildDerivedType env head rest
    let paramTypes ← lowerParams env params
    return .function result paramTypes (flags.isVariadic || !flags.hasPrototype)

def functionPointerType (env : TypeEnv) (fpParams : ParamTypes) (result : LLVMType) :
    Lowering LLVMType := do
  let paramTypes ← lowerParams env fpParams
  return .ptr (.function result paramTypes fpParams.isEmpty)

def Derivations.isNil : Derivations → Bool
  | .nil => true
  | _ => false

def lowerParsedType (env : TypeEnv) : ParsedType → Lowering LLVMType
  | .mk head derivations fpParams => do
    let derived ← buildDerivedType env head derivations
    if head.isFunctionPointer && derivations.isNil then
      let fnPtr ← functionPointerType env fpParams derived
      return applyPointerDepth fnPtr head.pointerDepth
    else
      return applyPointerDepth derived (head.pointerDepth - derivations.pointerCount)

-- The cache

def Derivations.hasUncacheableArrayExpr : Derivations → Bool
  | .nil => false
  | .array info rest =>
    info.sizeExpr.isSome && info.constantSize.isNone && !info.isFlexible && !info.isVLA ||
      rest.hasUncacheableArrayExpr
  | .pointer _ rest | .function _ _ rest => rest.hasUncacheableArrayExpr

def isRecordKind (kind : BaseKind) : Bool := kind == .struct || kind == .union

/-- A name that a lexical scope binds is not cached, but only the name of the type
itself is looked up, not those of its parameters. -/
def cgTypeCacheableKeyAllowed (env : TypeEnv) : ParsedType → Bool
  | .mk head derivations _ =>
    head.inlineDefinition.isNone &&
    !((head.kind == .named || isRecordKind head.kind) &&
      head.name.any fun name => (env.lookupTypedef name).isSome) &&
    !(isRecordKind head.kind &&
      head.name.any fun name => (env.lookupTag name (isUnionKind head.kind)).isSome) &&
    !head.isAdorned &&
    !(head.isVLA || derivations.hasUncacheableArrayExpr) &&
    !((isRecordKind head.kind || head.kind == .named) && head.name.isNone)

/-- `cg_type_from_parsed` with its cache. -/
def cgTypeCache : Memoized TypeEnv ParsedType LLVMType (List Char) where
  body := lowerParsedType
  key := parsedTypeToString
  cacheable := cgTypeCacheableKeyAllowed

def cgTypeFromParsed := cgTypeCache.memo

end Fisics
