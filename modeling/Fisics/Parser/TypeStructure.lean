import Fisics.Parser.Declarator

/-!
# The structure of parsed types

A `ParsedType` is a base with derivations, the outermost first; the parameters of a
function are types again. A function pointer may keep the parameters a second time, in
`fpParams`. `parsedTypeClone` copies a type and `parsedTypesStructurallyEqual` compares
two. Attributes, alignments and inline definitions are left out; an array of no entries
is a null pointer.
-/

namespace Fisics.Types

open Declarators (PointerDeclaratorLayer)

-- Types

inductive TypeKind
  | invalid | primitive | struct | union | enum | named
  deriving DecidableEq

inductive TagKind
  | none | struct | union | enum
  deriving DecidableEq

structure Specifiers where
  kind : TypeKind
  tag : TagKind
  primitiveType : TokenType
  userTypeName : Option String
  isConst : Bool
  isSigned : Bool
  isUnsigned : Bool
  isShort : Bool
  isLong : Bool
  isComplex : Bool
  isImaginary : Bool
  isVolatile : Bool
  isRestrict : Bool
  deriving DecidableEq

structure StorageSpecifiers where
  isInline : Bool
  isStatic : Bool
  isExtern : Bool
  isRegister : Bool
  isAuto : Bool
  isThreadLocal : Bool
  deriving DecidableEq

/-- `constantSize` is `none` without `hasConstantSize`. -/
structure ParsedArrayInfo (E : Type) where
  sizeExpr : Option E
  isVLA : Bool
  constantSize : Option Int
  isFlexible : Bool
  hasStatic : Bool
  qualConst : Bool
  qualVolatile : Bool
  qualRestrict : Bool
  deriving DecidableEq

structure TypeHead (E : Type) where
  specifiers : Specifiers
  storage : StorageSpecifiers
  pointerDepth : Nat
  isFunctionPointer : Bool
  isVLA : Bool
  directlyDeclaresFunction : Bool
  isVariadicFunction : Bool
  paramArrayInfo : Option (ParsedArrayInfo E)
  deriving DecidableEq

mutual

inductive ParsedType (E : Type)
  | mk (head : TypeHead E) (fpParams : List (ParsedType E)) (derivations : List (TypeDerivation E))

inductive TypeDerivation (E : Type)
  | pointer (layer : PointerDeclaratorLayer)
  | array (info : ParsedArrayInfo E)
  | function (hasPrototype isVariadic : Bool) (params : List (ParsedType E))

end

def ParsedType.head : ParsedType E → TypeHead E
  | .mk head _ _ => head

def ParsedType.fpParams : ParsedType E → List (ParsedType E)
  | .mk _ fpParams _ => fpParams

def ParsedType.derivations : ParsedType E → List (TypeDerivation E)
  | .mk _ _ derivations => derivations

structure FunctionSignature (E : Type) where
  hasPrototype : Bool
  isVariadic : Bool
  params : List (ParsedType E)

def TypeDerivation.signature? : TypeDerivation E → Option (FunctionSignature E)
  | .function hasPrototype isVariadic params => some ⟨hasPrototype, isVariadic, params⟩
  | .pointer _ => none
  | .array _ => none

def findFirstFunctionDerivation (derivations : List (TypeDerivation E)) : Option (FunctionSignature E) :=
  derivations.findSome? TypeDerivation.signature?

-- Copies

mutual

def parsedTypeClone : ParsedType E → ParsedType E
  | .mk head fpParams derivations =>
    -- the second copy of the parameters goes when there is a function derivation
    .mk head
      (if (findFirstFunctionDerivation derivations).isNone then cloneParsedTypeArray fpParams else [])
      (cloneDerivations derivations)

def cloneParsedTypeArray : List (ParsedType E) → List (ParsedType E)
  | [] => []
  | t :: rest => parsedTypeClone t :: cloneParsedTypeArray rest

def cloneDerivation : TypeDerivation E → TypeDerivation E
  | .pointer layer => .pointer layer
  | .array info => .array info
  | .function hasPrototype isVariadic params =>
    .function hasPrototype isVariadic (cloneParsedTypeArray params)

def cloneDerivations : List (TypeDerivation E) → List (TypeDerivation E)
  | [] => []
  | d :: rest => cloneDerivation d :: cloneDerivations rest

end

-- Comparison

def parsedTypeGetEffectiveFunctionPointerSignature (t : ParsedType E) : Option (FunctionSignature E) :=
  if !t.head.isFunctionPointer then none
  else
    let func := findFirstFunctionDerivation t.derivations
    if t.fpParams.isEmpty then func
    else some ⟨(func.map FunctionSignature.hasPrototype).getD true,
      (func.map FunctionSignature.isVariadic).getD false, t.fpParams⟩

/-- Go on after a comparison that holds; `none` is a read behind the end of an array. -/
def andThen (first rest : Option Bool) : Option Bool :=
  match first with
  | some true => rest
  | other => other

def sameSignature (a b : FunctionSignature E) : Bool :=
  a.params.length == b.params.length && a.isVariadic == b.isVariadic && a.hasPrototype == b.hasPrototype

mutual

def parsedTypesStructurallyEqual : ParsedType E → ParsedType E → Option Bool
  | .mk head fpParams derivations, b =>
    let a : ParsedType E := .mk head fpParams derivations
    if head.specifiers ≠ b.head.specifiers then some false
    else if head.pointerDepth ≠ b.head.pointerDepth then some false
    else
      andThen
        (if head.isFunctionPointer || b.head.isFunctionPointer then
          andThen
            (match parsedTypeGetEffectiveFunctionPointerSignature a,
                parsedTypeGetEffectiveFunctionPointerSignature b with
              | some lhs, some rhs =>
                if !sameSignature lhs rhs then some false
                -- `lhs.params`
                else if fpParams.isEmpty then firstParamsEqual derivations rhs.params
                else paramsEqual fpParams rhs.params
              | none, none => some (fpParams.length == b.fpParams.length)
              | some _, none => some false
              | none, some _ => some false)
            -- the null pointer is no type
            (if b.fpParams.isEmpty then some fpParams.isEmpty else paramsEqual fpParams b.fpParams)
        else some true)
        (if derivations.length ≠ b.derivations.length then some false
        else derivationsEqual derivations b.derivations)
termination_by structural t => t

def paramsEqual : List (ParsedType E) → List (ParsedType E) → Option Bool
  | [], _ => some true
  | _ :: _, [] => none
  | a :: as, b :: bs => andThen (parsedTypesStructurallyEqual a b) (paramsEqual as bs)
termination_by structural t => t

def firstParamsEqual : List (TypeDerivation E) → List (ParsedType E) → Option Bool
  | [], _ => some true
  | .function _ _ params :: _, rhs => paramsEqual params rhs
  | .pointer _ :: rest, rhs => firstParamsEqual rest rhs
  | .array _ :: rest, rhs => firstParamsEqual rest rhs
termination_by structural t => t

def derivationsEqual : List (TypeDerivation E) → List (TypeDerivation E) → Option Bool
  | [], _ => some true
  | _ :: _, [] => none
  | a :: as, b :: bs => andThen (derivationEqual a b) (derivationsEqual as bs)
termination_by structural t => t

def derivationEqual : TypeDerivation E → TypeDerivation E → Option Bool
  | .pointer lhs, .pointer rhs => some (lhs == rhs)
  | .array lhs, .array rhs => some (lhs.isVLA == rhs.isVLA)
  | .function hasPrototype isVariadic params, .function hasPrototype' isVariadic' params' =>
    if hasPrototype != hasPrototype' || isVariadic != isVariadic' || params.length != params'.length then
      some false
    else paramsEqual params params'
  | .pointer _, .array _ | .pointer _, .function _ _ _ | .array _, .pointer _
  | .array _, .function _ _ _ | .function _ _ _, .pointer _ | .function _ _ _, .array _ => some false
termination_by structural t => t

end

end Fisics.Types
