import Fisics.Library.Overlay
import Fisics.Parser.TypeStructure

/-!
# Composite types

`mergeCompatibleParsedTypeDetails` fills in what a later declaration knows and an earlier
one does not: a bound, a prototype, the same in the parameters. `mergeDetails` says this
of bounds and prototypes alone; the merge of two types has the merged details.
-/

namespace Fisics.Types

open Overlay

-- The merge

def arrayDerivationIsIncomplete (info : ParsedArrayInfo E) : Bool :=
  info.constantSize.isNone && !info.isVLA && !info.isFlexible && info.sizeExpr.isNone

def arrayDerivationHasKnownBound (info : ParsedArrayInfo E) : Bool :=
  info.constantSize.isSome && !info.isVLA && !info.isFlexible

def mergeArrayInfo (current next : ParsedArrayInfo E) : ParsedArrayInfo E :=
  if arrayDerivationIsIncomplete current && arrayDerivationHasKnownBound next then next else current

def adoptNestedFunctionPrototype (accumulated incoming : FunctionSignature E) : FunctionSignature E :=
  if !accumulated.hasPrototype && incoming.hasPrototype then
    ⟨true, incoming.isVariadic, cloneParsedTypeArray incoming.params⟩
  else accumulated

section
-- the merge of two parameters
variable (merge : ParsedType E → ParsedType E → ParsedType E)

/-- Parameters are merged under two prototypes of one length. -/
def mergeSignature (current next : FunctionSignature E) : FunctionSignature E :=
  if current.hasPrototype && next.hasPrototype && current.params.length == next.params.length then
    { current with params := overlay merge current.params next.params }
  else current

def mergeDerivation : TypeDerivation E → TypeDerivation E → TypeDerivation E
  | .array current, .array next => .array (mergeArrayInfo current next)
  | .function hasPrototype isVariadic params, .function hasPrototype' isVariadic' params' =>
    let next : FunctionSignature E := ⟨hasPrototype', isVariadic', params'⟩
    let merged := mergeSignature merge
      (adoptNestedFunctionPrototype ⟨hasPrototype, isVariadic, params⟩ next) next
    .function merged.hasPrototype merged.isVariadic merged.params
  | current, _ => current

end

def mergeParamArrayInfo (accumulated incoming : Option (ParsedArrayInfo E)) :
    Option (ParsedArrayInfo E) :=
  match accumulated, incoming with
  | some current, some next => some (mergeArrayInfo current next)
  | current, _ => current

/-- `room` is 33 less the depth: at a depth above 32 nothing is merged. -/
def mergeCompatibleParsedTypeDetails : Nat → ParsedType E → ParsedType E → ParsedType E
  | 0, accumulated, _ => accumulated
  | room + 1, .mk head fpParams derivations, incoming =>
    .mk { head with paramArrayInfo := mergeParamArrayInfo head.paramArrayInfo incoming.head.paramArrayInfo }
      fpParams
      (overlay (mergeDerivation (mergeCompatibleParsedTypeDetails room)) derivations incoming.derivations)

def maxMergeRoom : Nat := 33

def mergeCompatibleFunctionSignatures (accumulated incoming : FunctionSignature E) : FunctionSignature E :=
  if !accumulated.hasPrototype && incoming.hasPrototype then incoming
  else mergeSignature (mergeCompatibleParsedTypeDetails maxMergeRoom) accumulated incoming

-- Compatible bounds

def TypeDerivation.arrayInfo? : TypeDerivation E → Option (ParsedArrayInfo E)
  | .array info => some info
  | .pointer _ => none
  | .function _ _ _ => none

/-- The test of one pair of arrays in `parsedArrayBoundsCompatible`. -/
def arrayBoundsCompatible (lhs rhs : ParsedArrayInfo E) : Bool :=
  let lhsKnown := lhs.constantSize.isSome && !lhs.isVLA
  let rhsKnown := rhs.constantSize.isSome && !rhs.isVLA
  let lhsIncomplete := !lhsKnown && !lhs.isVLA && !lhs.isFlexible && lhs.sizeExpr.isNone
  let rhsIncomplete := !rhsKnown && !rhs.isVLA && !rhs.isFlexible && rhs.sizeExpr.isNone
  !(lhsKnown && rhsKnown && lhs.constantSize != rhs.constantSize) &&
    !(lhsKnown != rhsKnown && !(lhsIncomplete || rhsIncomplete || lhs.isVLA || rhs.isVLA))

def parsedArrayBoundsCompatible (a b : ParsedType E) : Bool :=
  let lhs := a.derivations.filterMap TypeDerivation.arrayInfo?
  let rhs := b.derivations.filterMap TypeDerivation.arrayInfo?
  lhs.length == rhs.length && (List.zipWith arrayBoundsCompatible lhs rhs).all id

-- Bounds and prototypes

inductive Bound
  | incomplete
  | known (n : Int)
  | variableLength
  | flexible
  /-- A size whose value is not known. -/
  | unresolved
  deriving DecidableEq

mutual

/-- The bounds and prototypes of a type; `paramBound` is that of an array parameter. -/
inductive Details
  | mk (paramBound : Option Bound) (parts : List Part)

inductive Part
  | pointer
  | array (bound : Bound)
  | oldFunction
  | function (isVariadic : Bool) (params : List Details)

end

def mergeBound : Bound → Bound → Bound
  | .incomplete, .known n => .known n
  | current, _ => current

def mergeParamBound : Option Bound → Option Bound → Option Bound
  | some current, some next => some (mergeBound current next)
  | current, _ => current

def mergePart (merge : Details → Details → Details) : Part → Part → Part
  | .array current, .array next => .array (mergeBound current next)
  | .oldFunction, .function isVariadic params => .function isVariadic params
  | .function isVariadic params, .function _ params' =>
    .function isVariadic (if params.length = params'.length then overlay merge params params' else params)
  | current, _ => current

def mergeDetails : Nat → Details → Details → Details
  | 0, current, _ => current
  | room + 1, .mk paramBound parts, .mk paramBound' parts' =>
    .mk (mergeParamBound paramBound paramBound') (overlay (mergePart (mergeDetails room)) parts parts')

def bound (info : ParsedArrayInfo E) : Bound :=
  if info.isFlexible then .flexible
  else if info.isVLA then .variableLength
  else
    match info.constantSize with
    | some n => .known n
    | none => if info.sizeExpr.isSome then .unresolved else .incomplete

mutual

def details : ParsedType E → Details
  | .mk head _ derivations => .mk (head.paramArrayInfo.map bound) (partsOf derivations)

def detailsAll : List (ParsedType E) → List Details
  | [] => []
  | t :: rest => details t :: detailsAll rest

def partOf : TypeDerivation E → Part
  | .pointer _ => .pointer
  | .array info => .array (bound info)
  | .function hasPrototype isVariadic params =>
    if hasPrototype then .function isVariadic (detailsAll params) else .oldFunction

def partsOf : List (TypeDerivation E) → List Part
  | [] => []
  | d :: rest => partOf d :: partsOf rest

end

/-- Of a function without a prototype the parameters do not count. -/
def signaturePart (signature : FunctionSignature E) : Part :=
  partOf (.function signature.hasPrototype signature.isVariadic signature.params)

-- Agreement

/-- One bound is the other, or one is missing and the other a constant. -/
def BoundsAgree (a b : Bound) : Prop :=
  a = b ∨ (a = .incomplete ∧ ∃ n, b = .known n) ∨ ((∃ n, a = .known n) ∧ b = .incomplete)

def ParamBoundsAgree (a b : Option Bound) : Prop := Option.Rel BoundsAgree a b

section
variable (R : Details → Details → Prop)

def PartsAgree : Part → Part → Prop
  | .pointer, .pointer => True
  | .array a, .array b => BoundsAgree a b
  | .oldFunction, .oldFunction => True
  | .oldFunction, .function _ _ => True
  | .function _ _, .oldFunction => True
  | .function isVariadic params, .function isVariadic' params' =>
    isVariadic = isVariadic' ∧ List.Forall₂ R params params'
  | _, _ => False

end

/-- The bounds agree wherever the merge looks; deeper down nothing differs. -/
def DetailsAgree : Nat → Details → Details → Prop
  | 0, a, b => a = b
  | room + 1, .mk paramBound parts, .mk paramBound' parts' =>
    ParamBoundsAgree paramBound paramBound' ∧ List.Forall₂ (PartsAgree (DetailsAgree room)) parts parts'

mutual

/-- Every constant bound of the first is there in the second, and every prototype. -/
inductive KeepsKnown : Details → Details → Prop
  | mk (hbound : ∀ n, a = some (.known n) → b = some (.known n)) (hparts : KeepsParts parts parts') :
    KeepsKnown (.mk a parts) (.mk b parts')

inductive KeepsParts : List Part → List Part → Prop
  | nil : KeepsParts [] []
  | cons (hpart : KeepsPart p p') (hparts : KeepsParts parts parts') :
    KeepsParts (p :: parts) (p' :: parts')

inductive KeepsPart : Part → Part → Prop
  | pointer : KeepsPart .pointer .pointer
  | array (h : ∀ n, a = .known n → b = .known n) : KeepsPart (.array a) (.array b)
  | oldFunction : KeepsPart .oldFunction .oldFunction
  | adopted : KeepsPart .oldFunction (.function isVariadic params)
  | function (h : KeepsAll params params') :
    KeepsPart (.function isVariadic params) (.function isVariadic params')

inductive KeepsAll : List Details → List Details → Prop
  | nil : KeepsAll [] []
  | cons (hd : KeepsKnown d d') (hrest : KeepsAll ds ds') : KeepsAll (d :: ds) (d' :: ds')

end

-- The laws

def merge (a b : ParsedType E) : ParsedType E := mergeCompatibleParsedTypeDetails maxMergeRoom a b

structure MergeLawful (S : ParsedType E → Prop) : Prop where
  idem : ∀ a, S a → merge a a = a
  comm : ∀ a b, S a → S b → details (merge a b) = details (merge b a)
  assoc : ∀ a b c, S a → S b → S c →
    details (merge (merge a b) c) = details (merge a (merge b c))
  known : ∀ a b, S a → S b →
    KeepsKnown (details a) (details (merge a b)) ∧ KeepsKnown (details b) (details (merge a b))

structure SignatureMergeLawful (F : FunctionSignature E → Prop) : Prop where
  idem : ∀ f, F f → mergeCompatibleFunctionSignatures f f = f
  comm : ∀ f g, F f → F g → signaturePart (mergeCompatibleFunctionSignatures f g) =
    signaturePart (mergeCompatibleFunctionSignatures g f)
  assoc : ∀ f g h, F f → F g → F h →
    signaturePart (mergeCompatibleFunctionSignatures (mergeCompatibleFunctionSignatures f g) h) =
      signaturePart (mergeCompatibleFunctionSignatures f (mergeCompatibleFunctionSignatures g h))
  known : ∀ f g, F f → F g →
    KeepsPart (signaturePart f) (signaturePart (mergeCompatibleFunctionSignatures f g)) ∧
      KeepsPart (signaturePart g) (signaturePart (mergeCompatibleFunctionSignatures f g))

end Fisics.Types
