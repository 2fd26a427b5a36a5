import Fisics.Syntax.ScalarExpr

/-!
# Subscripts

Three pieces of code find the address of an element, and a fourth adds an integer to a
pointer. A load and a store of one element always meet. The index of an array of variable
length is extended as unsigned, every other one as signed, whatever its type; a variable
array is scaled by all array sizes of its type, also those behind a pointer; and an array
of pointers is stepped over by the size of an array.
-/

namespace Fisics.Subscripts

open CInteger (IntType)
open BitVec (ofNat)
open Word (extend)

-- Types

/-- A scalar or a record: its size in C and the size of its LLVM type. The second is
what counts in `cg_size_align_for_type` if the type is capped, that is if the record is
over-aligned or has a definition in scope that the semantic layouts do not know. -/
structure Leaf where
  size : Nat
  abiSize : Nat
  isCapped : Bool
  isRecord : Bool

/-- A size expression: its value when the array is declared, and the word it has when an
element is addressed. -/
structure SizeExpr where
  declared : Nat
  bits : Nat
  current : BitVec bits

inductive Dimension
  | constant (n : Nat)
  | expression (e : SizeExpr)
  | flexible

inductive Derivation
  | pointer
  | array (size : Dimension)

/-- The outermost derivation comes first. -/
abbrev Derivations := List Derivation

def Derivation.isPointer : Derivation → Bool
  | .pointer => true
  | .array _ => false

def Derivation.isVLA : Derivation → Bool
  | .array (.expression _) => true
  | _ => false

def cgParsedTypeHasPointerLayer (type : Derivations) : Bool := type.any Derivation.isPointer

def parsedTypeHasVLA (type : Derivations) : Bool := type.any Derivation.isVLA

def parsedTypeIsDirectArray : Derivations → Bool
  | .array _ :: _ => true
  | _ => false

def parsedTypeArrayElementType : Derivations → Derivations
  | .array _ :: rest => rest
  | type => type

/-- The first pointer goes, wherever it stands. -/
def parsedTypePointerTargetType : Derivations → Option Derivations
  | [] => none
  | .pointer :: rest => some rest
  | .array size :: rest => (parsedTypePointerTargetType rest).map (.array size :: ·)

def innermostElement : Derivations → Derivations
  | .array _ :: rest => innermostElement rest
  | type => type

inductive LlvmType
  | leaf
  | pointer
  | array (length : Nat) (element : LlvmType)

def cgConstantArrayLength : Dimension → Option Nat
  | .constant n => if 0 < n ∧ n < 2 ^ 32 then some n else none
  | .expression _ | .flexible => none

def arrayType (element : LlvmType) : Dimension → LlvmType
  | .flexible => .array 0 element
  | size =>
    match cgConstantArrayLength size with
    | some length => .array length element
    | none => .pointer

def cgTypeFromParsed : Derivations → LlvmType
  | [] => .leaf
  | .pointer :: _ => .pointer
  | .array size :: rest => arrayType (cgTypeFromParsed rest) size

section
variable (leaf : Leaf)

def LlvmType.abiSize : LlvmType → Nat
  | .leaf => leaf.abiSize
  | .pointer => 8
  | .array length element => length * element.abiSize

def cgSizeAlignOfParsed : Derivations → Option Nat
  | [] => some leaf.size
  | .pointer :: _ => some 8
  | .array (.constant n) :: rest => (cgSizeAlignOfParsed rest).map (· * n)
  | .array _ :: _ => none

/-- Only where both sizes are the same the semantic one is taken. -/
def cgPointerElemSize (parsed : Derivations) (llvmHint : LlvmType) : Nat :=
  let llvmSize := llvmHint.abiSize leaf
  match cgSizeAlignOfParsed leaf parsed with
  | some semanticSize => if semanticSize ≠ llvmSize then llvmSize else semanticSize
  | none => llvmSize

/-- `cg_size_align_for_type` of what is left when all leading arrays are gone. -/
def cgSizeForElement : Derivations → Nat
  | [] => if leaf.isCapped then leaf.abiSize else leaf.size
  | _ => 8

/-- The size as a word; the expression is evaluated once more and taken as unsigned. -/
def Dimension.word : Dimension → Option (BitVec 64)
  | .constant n => some (BitVec.ofNat 64 n)
  | .expression e => some (e.current.setWidth 64)
  | .flexible => none

def vlaElementCount : Derivations → BitVec 64
  | .array size :: rest => size.word.getD 1 * vlaElementCount rest
  | _ => 1

def cgBuildVlaArraySizeBytes (arrayParsed : Derivations) : BitVec 64 :=
  let element := innermostElement arrayParsed
  let elemBytes := cgSizeForElement leaf element
  let elemBytes := if elemBytes = 0 then (cgTypeFromParsed element).abiSize leaf else elemBytes
  let elemBytes := if elemBytes = 0 then 1 else elemBytes
  vlaElementCount arrayParsed * BitVec.ofNat 64 elemBytes

-- Addresses

def cgParsedTypeIsUnsignedForIndex (t : ScalarType) : Bool :=
  match t.kind with
  | .primitive => t.primitiveType == .bool || t.primitiveType == .unsigned || t.isUnsigned
  | _ => t.isUnsigned

def cgBuildPointerOffset (basePtr : BitVec 64) (offsetValue : BitVec w) (pointerParsed : Derivations)
    (elementTypeHint : Option LlvmType) (offsetParsed : Option ScalarType) (isSubtract : Bool) :
    BitVec 64 :=
  let elemParsed :=
    if !cgParsedTypeHasPointerLayer pointerParsed && parsedTypeIsDirectArray pointerParsed then
      parsedTypeArrayElementType pointerParsed
    else pointerParsed
  let index := extend (offsetParsed.any cgParsedTypeIsUnsignedForIndex) 64 offsetValue
  let index := if isSubtract then -index else index
  let sizeParsed := (parsedTypePointerTargetType elemParsed).getD elemParsed
  let sizeHintType := elementTypeHint.getD (cgTypeFromParsed sizeParsed)
  let elemSize :=
    if parsedTypeIsDirectArray sizeParsed && parsedTypeHasVLA sizeParsed then
      cgBuildVlaArraySizeBytes leaf sizeParsed
    else
      let elemSize := cgPointerElemSize leaf sizeParsed sizeHintType
      let elemSize := if elemSize = 0 then sizeHintType.abiSize leaf else elemSize
      BitVec.ofNat 64 (if elemSize = 0 then 1 else elemSize)
  basePtr + index * elemSize

def completeElement : LlvmType → LlvmType
  | .array 0 element => element
  | type => type

def gepElement (aggregateTypeHint : Option LlvmType) (elementType : LlvmType) : LlvmType :=
  match aggregateTypeHint with
  | some (.array _ pointeeElement) => pointeeElement
  | _ => elementType

/-- An index that is wider than a pointer is cut by the instruction. -/
def buildArrayElementPointer (arrayPtr : BitVec 64) (index : BitVec w) (baseParsedHint : Derivations)
    (aggregateTypeHint : Option LlvmType) (elementTypeHint : LlvmType) : BitVec 64 :=
  let elementType := completeElement elementTypeHint
  let idx64 := extend false 64 index
  let pointed := parsedTypePointerTargetType baseParsedHint
  if cgParsedTypeHasPointerLayer baseParsedHint &&
      pointed.any fun pointed => parsedTypeIsDirectArray pointed && parsedTypeHasVLA pointed then
    cgBuildPointerOffset leaf arrayPtr idx64 baseParsedHint none none false
  else
    arrayPtr + idx64 * BitVec.ofNat 64 ((gepElement aggregateTypeHint elementType).abiSize leaf)

def aggregateHint (parsed : Derivations) : Option LlvmType :=
  if parsedTypeIsDirectArray parsed then some (cgTypeFromParsed parsed) else none

def cgElementTypeHintFromParsed (parsed : Derivations) : LlvmType :=
  if parsedTypeIsDirectArray parsed then cgTypeFromParsed (parsedTypeArrayElementType parsed)
  else cgTypeFromParsed ((parsedTypePointerTargetType parsed).getD parsed)

def arrayDims (parsed : Derivations) : Nat := (parsed.filter fun d => !d.isPointer).length

/-- The stride of `codegenArrayAccess`: a size that is not known is left out. -/
def loadStride (stride : BitVec 64) : Derivations → BitVec 64
  | [] => stride
  | .pointer :: rest => loadStride stride rest
  | .array size :: rest =>
    match size.word with
    | none => loadStride stride rest
    | some dim => loadStride (stride * dim) rest

/-- The stride of `codegenLValue`: a size that is not known is 1. -/
def storeStride (stride : BitVec 64) : Derivations → BitVec 64
  | [] => stride
  | .pointer :: rest => storeStride stride rest
  | .array size :: rest => storeStride (stride * size.word.getD 1) rest

def codegenArrayAccess (arrayPtr : BitVec 64) (index : BitVec w) (arrayParsed : Derivations) : BitVec 64 :=
  if parsedTypeIsDirectArray arrayParsed && parsedTypeHasVLA arrayParsed then
    let stride := loadStride 1#64 arrayParsed.tail
    let offset := extend true 64 index
    let offset := if 1 < arrayDims arrayParsed then offset * stride else offset
    arrayPtr + offset * BitVec.ofNat 64 ((cgTypeFromParsed (innermostElement arrayParsed)).abiSize leaf)
  else
    buildArrayElementPointer leaf arrayPtr index arrayParsed (aggregateHint arrayParsed)
      (cgElementTypeHintFromParsed arrayParsed)

/-- `codegenLValue` at a subscript. -/
def codegenLValue (arrayPtr : BitVec 64) (index : BitVec w) (baseParsed : Derivations) : BitVec 64 :=
  if parsedTypeIsDirectArray baseParsed && parsedTypeHasVLA baseParsed then
    let offset := extend true 64 index
    let offset := if 1 < arrayDims baseParsed then offset * storeStride 1#64 baseParsed.tail else offset
    arrayPtr + offset * BitVec.ofNat 64 ((cgTypeFromParsed (innermostElement baseParsed)).abiSize leaf)
  else
    buildArrayElementPointer leaf arrayPtr index baseParsed (aggregateHint baseParsed)
      (cgElementTypeHintFromParsed baseParsed)

/-- The element type in the entry of a variable. Of an array of variable length it is the
innermost element; a pointer without an entry type has the same by its own type. -/
def entryElement (parsed : Derivations) : Derivations :=
  if parsedTypeIsDirectArray parsed then
    if parsedTypeHasVLA parsed then innermostElement parsed else parsedTypeArrayElementType parsed
  else (parsedTypePointerTargetType parsed).getD parsed

def recordHint (isIdentifier : Bool) : Derivations → Option LlvmType
  | [] => if isIdentifier && leaf.isRecord then some .leaf else none
  | _ => none

def cgPointerElementHintForExpr (isIdentifier : Bool) (parsed : Derivations) : Option LlvmType :=
  recordHint leaf isIdentifier (entryElement parsed)

end

-- Subscripts in C

/-- The type is the one that `cg_resolve_expression_type` reports, which extends the word: for
`p + (c + i)` that of `c`, not the type of the sum in C. -/
structure Index where
  type : IntType
  bits : Nat
  word : BitVec bits

def Index.value (i : Index) : Int := Word.read i.type.isUnsigned i.word

def Index.parsed (i : Index) : ScalarType := parsedTypeOf (.int i.type)

def Dimension.count : Dimension → Nat
  | .constant n => n
  | .expression e => e.declared
  | .flexible => 0

def byteSize (leaf : Leaf) : Derivations → Nat
  | [] => leaf.size
  | .pointer :: _ => 8
  | .array size :: rest => size.count * byteSize leaf rest

def Complete : Derivations → Prop
  | .array .flexible :: _ => False
  | .array _ :: rest => Complete rest
  | _ => True

/-- `a[i]`, where `a` is an array or a pointer of type `outer` to `element`. -/
structure Subscript where
  leaf : Leaf
  outer : Derivation
  element : Derivations
  complete : Complete element
  index : Index
  isIdentifier : Bool

namespace Subscript
variable (s : Subscript) (base : BitVec 64)

def type : Derivations := s.outer :: s.element

def size : Nat := byteSize s.leaf s.element

def address : BitVec 64 := base + BitVec.ofInt 64 (s.index.value * s.size)

def load : BitVec 64 := codegenArrayAccess s.leaf base s.index.word s.type

def store : BitVec 64 := codegenLValue s.leaf base s.index.word s.type

/-- The address of `a + i`. -/
def offset : BitVec 64 :=
  cgBuildPointerOffset s.leaf base s.index.word s.type
    (cgPointerElementHintForExpr s.leaf s.isIdentifier s.type) (some s.index.parsed) false

structure Meets : Prop where
  load (base : BitVec 64) : s.load base = s.address base
  store (base : BitVec 64) : s.store base = s.address base
  offset (base : BitVec 64) : s.offset base = s.address base

end Subscript

-- Scales

def Dimension.current : Dimension → Nat
  | .constant n => n
  | .expression e => (e.current.setWidth 64).toNat
  | .flexible => 1

def countAll : Derivations → Nat
  | [] => 1
  | .pointer :: rest => countAll rest
  | .array size :: rest => size.current * countAll rest

def countRun : Derivations → Nat
  | .array size :: rest => size.current * countRun rest
  | _ => 1

def atLeastOne (n : Nat) : Nat := if n = 0 then 1 else n

def abiSizeOf (leaf : Leaf) (type : Derivations) : Nat := (cgTypeFromParsed type).abiSize leaf

def variableBytes (leaf : Leaf) (type : Derivations) : Nat :=
  let element := innermostElement type
  let bytes := cgSizeForElement leaf element
  countRun type * atLeastOne (if bytes = 0 then abiSizeOf leaf element else bytes)

theorem word_getD (size : Dimension) : size.word.getD 1 = ofNat 64 size.current := by
  cases size with
  | constant n => rfl
  | expression e =>
    rw [Dimension.current, BitVec.ofNat_toNat, BitVec.setWidth_eq]
    rfl
  | flexible => rfl

theorem ofNat_mul (m n : Nat) : ofNat 64 (m * n) = ofNat 64 m * ofNat 64 n :=
  BitVec.ofNat_mul ..

theorem storeStride_eq (type : Derivations) (stride : BitVec 64) :
    storeStride stride type = stride * ofNat 64 (countAll type) := by
  induction type generalizing stride with
  | nil => simp [storeStride, countAll]
  | cons d rest ih =>
    cases d with
    | pointer => exact ih stride
    | array size => rw [storeStride, ih, word_getD, countAll, ofNat_mul, BitVec.mul_assoc]

theorem loadStride_eq (type : Derivations) (stride : BitVec 64) :
    loadStride stride type = storeStride stride type := by
  induction type generalizing stride with
  | nil => rfl
  | cons d rest ih =>
    cases d with
    | pointer => exact ih stride
    | array size => ?_
    rw [loadStride, storeStride]
    cases size.word with
    | none => simp [ih]
    | some dim => exact ih _

theorem vlaElementCount_eq (type : Derivations) :
    vlaElementCount type = ofNat 64 (countRun type) := by
  induction type with
  | nil => rfl
  | cons d rest ih =>
    cases d with
    | pointer => rfl
    | array size => rw [vlaElementCount, ih, word_getD, countRun, ofNat_mul]

theorem cgBuildVlaArraySizeBytes_eq (leaf : Leaf) (type : Derivations) :
    cgBuildVlaArraySizeBytes leaf type = ofNat 64 (variableBytes leaf type) := by
  rw [cgBuildVlaArraySizeBytes, vlaElementCount_eq, variableBytes, ofNat_mul]
  rfl

theorem cgPointerElemSize_eq (leaf : Leaf) (parsed : Derivations) (hint : LlvmType) :
    cgPointerElemSize leaf parsed hint = hint.abiSize leaf := by
  rw [cgPointerElemSize]
  cases cgSizeAlignOfParsed leaf parsed with
  | none => rfl
  | some semanticSize => ?_
  dsimp only
  split
  · rfl
  · next h => exact not_not.mp h

theorem countAll_of_no_arrays (h : arrayDims type = 0) : countAll type = 1 := by
  induction type with
  | nil => rfl
  | cons d rest ih =>
    cases d with
    | pointer => exact ih h
    | array size => simp [arrayDims, Derivation.isPointer] at h

theorem arrayType_constant (element : LlvmType) (n : Nat) :
    arrayType element (.constant n) = if 0 < n ∧ n < 2 ^ 32 then .array n element else .pointer := by
  rw [arrayType, cgConstantArrayLength]
  · by_cases hn : 0 < n ∧ n < 2 ^ 32
    · rw [if_pos hn, if_pos hn]
    · rw [if_neg hn, if_neg hn]
  · nofun

theorem completeElement_eq (h : Complete type) :
    completeElement (cgTypeFromParsed type) = cgTypeFromParsed type := by
  cases type with
  | nil => rfl
  | cons d rest => ?_
  cases d with
  | pointer => rfl
  | array size => ?_
  cases size with
  | expression e => rfl
  | flexible => cases h
  | constant n =>
    rw [cgTypeFromParsed, arrayType_constant]
    by_cases hn : 0 < n ∧ n < 2 ^ 32
    · obtain ⟨m, rfl⟩ : ∃ m, n = m + 1 := ⟨n - 1, (Nat.succ_pred_eq_of_pos hn.1).symm⟩
      rw [if_pos hn]
      rfl
    · rw [if_neg hn]
      rfl

theorem arrayDims_array (size : Dimension) (rest : Derivations) :
    arrayDims (.array size :: rest) = arrayDims rest + 1 := by
  simp [arrayDims, Derivation.isPointer]

theorem hasPointerLayer_iff (type : Derivations) :
    cgParsedTypeHasPointerLayer type = (parsedTypePointerTargetType type).isSome := by
  induction type with
  | nil => rfl
  | cons d rest ih =>
    cases d with
    | pointer => rfl
    | array size =>
      rw [parsedTypePointerTargetType, Option.isSome_map, ← ih]
      rfl

theorem target_hasVLA (h : parsedTypePointerTargetType type = some target) :
    parsedTypeHasVLA target = parsedTypeHasVLA type := by
  induction type generalizing target with
  | nil => cases h
  | cons d rest ih =>
    cases d with
    | pointer =>
      cases h
      rfl
    | array size =>
      obtain ⟨inner, hinner, rfl⟩ := Option.map_eq_some_iff.mp h
      exact congrArg (Derivation.isVLA (.array size) || ·) (ih hinner)

-- Addresses by value

section
variable (leaf : Leaf) (base : BitVec 64)

theorem scaled (u : Bool) (word : BitVec w) (scale : Nat) :
    base + extend u 64 word * ofNat 64 scale = base + BitVec.ofInt 64 (Word.read u word * scale) := by
  rw [Word.extend_eq, BitVec.ofInt_mul, BitVec.ofInt_natCast]

/-- The bytes that `a + i` takes an element for, by the type and the hint it is sized with. -/
def elementBytes (sized : Derivations) (hint : Option LlvmType) : Nat :=
  if parsedTypeIsDirectArray sized && parsedTypeHasVLA sized then variableBytes leaf sized
  else atLeastOne ((hint.getD (cgTypeFromParsed sized)).abiSize leaf)

def sizedType : Derivations → Derivations
  | .array size :: rest =>
    match parsedTypePointerTargetType rest with
    | some target => .array size :: target
    | none => rest
  | .pointer :: rest => rest
  | [] => []

theorem cgBuildPointerOffset_eq (word : BitVec w) (outer : Derivation) (rest : Derivations)
    (hint : Option LlvmType) (offsetParsed : Option ScalarType) :
    cgBuildPointerOffset leaf base word (outer :: rest) hint offsetParsed false =
      base + extend (offsetParsed.any cgParsedTypeIsUnsignedForIndex) 64 word *
        ofNat 64 (elementBytes leaf (sizedType (outer :: rest)) hint) := by
  have hsized : (parsedTypePointerTargetType
      (if !cgParsedTypeHasPointerLayer (outer :: rest) && parsedTypeIsDirectArray (outer :: rest) then
        parsedTypeArrayElementType (outer :: rest) else outer :: rest)).getD
      (if !cgParsedTypeHasPointerLayer (outer :: rest) && parsedTypeIsDirectArray (outer :: rest) then
        parsedTypeArrayElementType (outer :: rest) else outer :: rest) = sizedType (outer :: rest) := by
    rw [hasPointerLayer_iff]
    cases outer with
    | pointer => rfl
    | array size => ?_
    rw [parsedTypePointerTargetType, sizedType]
    cases htarget : parsedTypePointerTargetType rest with
    | none => simp [parsedTypeIsDirectArray, parsedTypeArrayElementType, htarget]
    | some target => simp [parsedTypePointerTargetType, htarget]
  rw [cgBuildPointerOffset]
  dsimp only
  rw [hsized, elementBytes, cgBuildVlaArraySizeBytes_eq, cgPointerElemSize_eq,
    if_neg Bool.false_ne_true, ite_self]
  by_cases hvla : (parsedTypeIsDirectArray (sizedType (outer :: rest)) &&
      parsedTypeHasVLA (sizedType (outer :: rest))) = true
  · rw [if_pos hvla, if_pos hvla]
  rw [if_neg hvla, if_neg hvla]
  rfl

theorem buildArrayElementPointer_pointer (word : BitVec w) (h : Complete rest) :
    buildArrayElementPointer leaf base word (.pointer :: rest) (aggregateHint (.pointer :: rest))
        (cgElementTypeHintFromParsed (.pointer :: rest)) =
      base + extend false 64 word * ofNat 64
        (if parsedTypeIsDirectArray rest && parsedTypeHasVLA rest then variableBytes leaf rest
        else abiSizeOf leaf rest) := by
  have hlayer : cgParsedTypeHasPointerLayer (.pointer :: rest) = true := rfl
  have htwice : extend false 64 (extend false 64 word) = extend false 64 word := BitVec.signExtend_eq _
  rw [buildArrayElementPointer, hlayer, parsedTypePointerTargetType, Option.any_some, Bool.true_and]
  by_cases hvla : (parsedTypeIsDirectArray rest && parsedTypeHasVLA rest) = true
  · rw [if_pos hvla, if_pos hvla, cgBuildPointerOffset_eq, sizedType, elementBytes, if_pos hvla,
      Option.any_none, htwice]
  rw [if_neg hvla, if_neg hvla]
  show base + _ * ofNat 64 ((completeElement (cgTypeFromParsed rest)).abiSize leaf) = _
  rw [completeElement_eq h]
  rfl

theorem buildArrayElementPointer_array (word : BitVec w) (h : Complete rest)
    (hvla : parsedTypeHasVLA (.array size :: rest) = false) :
    buildArrayElementPointer leaf base word (.array size :: rest) (aggregateHint (.array size :: rest))
        (cgElementTypeHintFromParsed (.array size :: rest)) =
      base + extend false 64 word * ofNat 64 (abiSizeOf leaf rest) := by
  have hpointed : (cgParsedTypeHasPointerLayer (.array size :: rest) &&
      (parsedTypePointerTargetType (.array size :: rest)).any fun pointed =>
        parsedTypeIsDirectArray pointed && parsedTypeHasVLA pointed) = false := by
    cases htarget : parsedTypePointerTargetType (.array size :: rest) with
    | none => exact Bool.and_false _
    | some target => simp [target_hasVLA htarget, hvla]
  rw [buildArrayElementPointer, hpointed, if_neg Bool.false_ne_true]
  -- a length that the LLVM type has no room for makes it a pointer, with the same element
  have helement : completeElement (cgElementTypeHintFromParsed (.array size :: rest)) =
      cgTypeFromParsed rest := completeElement_eq h
  rw [helement]
  have hgep : gepElement (aggregateHint (.array size :: rest)) (cgTypeFromParsed rest) =
      cgTypeFromParsed rest := by
    cases size with
    | expression e => rfl
    | flexible => rfl
    | constant n =>
      show gepElement (some (arrayType (cgTypeFromParsed rest) (.constant n))) _ = _
      rw [arrayType_constant]
      split <;> rfl
  rw [hgep]
  rfl

theorem codegenLValue_vla (word : BitVec w) (hvla : parsedTypeHasVLA (.array size :: rest) = true) :
    codegenLValue leaf base word (.array size :: rest) =
      base + extend true 64 word *
        ofNat 64 (countAll rest * abiSizeOf leaf (innermostElement rest)) := by
  have hdirect : (parsedTypeIsDirectArray (.array size :: rest) &&
      parsedTypeHasVLA (.array size :: rest)) = true := hvla
  have hoffset : (if 1 < arrayDims (.array size :: rest) then
      extend true 64 word * storeStride 1#64 rest else extend true 64 word) =
        extend true 64 word * ofNat 64 (countAll rest) := by
    rw [storeStride_eq, BitVec.one_mul, arrayDims_array]
    split
    · rfl
    · next h => rw [countAll_of_no_arrays (by omega), BitVec.mul_one]
  rw [codegenLValue, if_pos hdirect]
  dsimp only [List.tail_cons]
  rw [hoffset, BitVec.mul_assoc, ofNat_mul]
  rfl

/-- A load and a store of the same element meet, whatever the base and the index are. -/
theorem codegenArrayAccess_eq (word : BitVec w) (parsed : Derivations) :
    codegenArrayAccess leaf base word parsed = codegenLValue leaf base word parsed := by
  rw [codegenArrayAccess, codegenLValue]
  rw [loadStride_eq]

end

-- Errors

/-- How far the other reading is from the value of the index. -/
def Index.readError (i : Index) (asUnsigned : Bool) : Int :=
  if asUnsigned = i.type.isUnsigned ∨ i.word.msb = false then 0
  else if asUnsigned then 2 ^ i.bits
  else -2 ^ i.bits

theorem Index.read_eq (i : Index) (asUnsigned : Bool) :
    Word.read asUnsigned i.word = i.value + i.readError asUnsigned := by
  rw [Index.readError, Index.value]
  by_cases hsame : asUnsigned = i.type.isUnsigned
  · rw [if_pos (.inl hsame), hsame, Int.add_zero]
  have htoInt := BitVec.toInt_eq_msb_cond i.word
  cases hmsb : i.word.msb with
  | false =>
    have hequal : Word.read false i.word = Word.read true i.word := by
      rw [hmsb, if_neg Bool.false_ne_true] at htoInt
      exact htoInt
    rw [if_pos (.inr rfl), Int.add_zero]
    cases asUnsigned <;> cases i.type.isUnsigned <;> first | rfl | exact hequal | exact hequal.symm
  | true =>
    have hdiffer : Word.read false i.word = Word.read true i.word - 2 ^ i.bits := by
      rw [hmsb, if_pos rfl] at htoInt
      exact htoInt.trans (by push_cast; rfl)
    rw [if_neg (by simp [hsame])]
    cases hu : i.type.isUnsigned with
    | true =>
      rw [hu] at hsame
      obtain rfl := Bool.eq_false_of_not_eq_true hsame
      rw [hdiffer]
      rfl
    | false =>
      rw [hu] at hsame
      obtain rfl := Bool.eq_true_of_not_eq_false hsame
      rw [hdiffer, if_pos rfl]
      omega

theorem Index.parsed_unsigned (i : Index) :
    cgParsedTypeIsUnsignedForIndex i.parsed = i.type.isUnsigned := by
  rw [Index.parsed]
  cases i.type <;> rfl

theorem address_iff (base : BitVec 64) (value readError : Int) (scale size : Int) :
    base + BitVec.ofInt 64 ((value + readError) * scale) = base + BitVec.ofInt 64 (value * size) ↔
      (2 ^ 64 : Int) ∣ readError * scale + value * (scale - size) := by
  have hdiff : (value + readError) * scale - value * size =
      readError * scale + value * (scale - size) := by
    rw [Int.add_mul, Int.mul_sub]
    omega
  rw [BitVec.add_right_inj, Word.ofInt_eq_iff, hdiff]

namespace Subscript
variable (s : Subscript) (base : BitVec 64)

def isVariableArray : Bool := parsedTypeIsDirectArray s.type && parsedTypeHasVLA s.type

/-- The bytes from one element to the next by a subscript. -/
def spacing : Nat :=
  if s.isVariableArray then countAll s.element * abiSizeOf s.leaf (innermostElement s.element)
  else if parsedTypeIsDirectArray s.element && parsedTypeHasVLA s.element then
    variableBytes s.leaf s.element
  else abiSizeOf s.leaf s.element

/-- The bytes from one element to the next by an addition. -/
def step : Nat :=
  elementBytes s.leaf (sizedType s.type) (cgPointerElementHintForExpr s.leaf s.isIdentifier s.type)

def Cancels (readError : Int) (scale : Nat) : Prop :=
  (2 ^ 64 : Int) ∣ readError * scale + s.index.value * (scale - s.size)

theorem load_eq_store : s.load base = s.store base := codegenArrayAccess_eq ..

theorem store_eq :
    s.store base = base + extend s.isVariableArray 64 s.index.word * ofNat 64 s.spacing := by
  obtain ⟨leaf, outer, element, complete, index, isIdentifier⟩ := s
  show codegenLValue leaf base index.word (outer :: element) = _
  cases outer with
  | pointer =>
    show buildArrayElementPointer .. = _
    rw [buildArrayElementPointer_pointer leaf base index.word complete]
    rfl
  | array size => ?_
  cases hvla : parsedTypeHasVLA (.array size :: element) with
  | true =>
    have hbase : isVariableArray ⟨leaf, .array size, element, complete, index, isIdentifier⟩ = true := hvla
    rw [codegenLValue_vla leaf base index.word hvla, spacing, if_pos hbase, hbase]
  | false => ?_
  have hbase : isVariableArray ⟨leaf, .array size, element, complete, index, isIdentifier⟩ = false := hvla
  have hinner : parsedTypeHasVLA element = false := (Bool.or_eq_false_iff.mp hvla).2
  have hdirect : (parsedTypeIsDirectArray (.array size :: element) &&
      parsedTypeHasVLA (.array size :: element)) = false := hvla
  rw [codegenLValue, hdirect, if_neg Bool.false_ne_true,
    buildArrayElementPointer_array leaf base index.word complete hvla, spacing, hbase,
    if_neg Bool.false_ne_true, hinner, Bool.and_false, if_neg Bool.false_ne_true]

theorem offset_eq :
    s.offset base = base + extend s.index.type.isUnsigned 64 s.index.word * ofNat 64 s.step := by
  rw [offset, type, cgBuildPointerOffset_eq, Option.any_some, Index.parsed_unsigned]
  rfl

theorem store_iff : s.store base = s.address base ↔
    s.Cancels (s.index.readError s.isVariableArray) s.spacing := by
  rw [store_eq, scaled, Index.read_eq, address, address_iff, Cancels]

theorem offset_iff : s.offset base = s.address base ↔ s.Cancels 0 s.step := by
  have hread : Word.read s.index.type.isUnsigned s.index.word = s.index.value + 0 := (Int.add_zero _).symm
  rw [offset_eq, scaled, hread, address, address_iff, Cancels]

theorem meets_cancels :
    s.Meets ↔ s.Cancels (s.index.readError s.isVariableArray) s.spacing ∧ s.Cancels 0 s.step := by
  constructor
  · intro h
    exact ⟨(s.store_iff 0).mp (h.store 0), (s.offset_iff 0).mp (h.offset 0)⟩
  · rintro ⟨hstore, hoffset⟩
    have hmeets (base : BitVec 64) := (s.store_iff base).mpr hstore
    exact ⟨fun base => (s.load_eq_store base).trans (hmeets base), hmeets,
      fun base => (s.offset_iff base).mpr hoffset⟩

/-- A load and a store always meet, and all three addresses are that of the element exactly
where the errors of the index and of the scales leave nothing. -/
theorem meets_iff :
    (∀ base, s.load base = s.store base) ∧
      (s.Meets ↔ s.Cancels (s.index.readError s.isVariableArray) s.spacing ∧ s.Cancels 0 s.step) :=
  ⟨s.load_eq_store, s.meets_cancels⟩

end Subscript

-- A byte for an index

def intLeaf : Leaf := ⟨4, 4, false, false⟩

/-- `a[i]` where `int a[300]` and `unsigned char i = 255`. -/
def byteIndexed : Subscript where
  leaf := intLeaf
  outer := .array (.constant 300)
  element := []
  complete := trivial
  index := ⟨.uchar, 8, 255#8⟩
  isIdentifier := true

theorem byteIndexed_misses : ¬ byteIndexed.Meets := by
  intro h
  have hload := h.load 0
  revert hload
  decide

/-- `p[i]` where `int *p` and `int i = -1`. -/
example : (Subscript.mk intLeaf .pointer [] trivial ⟨.int, 32, -1#32⟩ true).load 100#64 = 96#64 := by
  decide

/-- The same index of an array of variable length. -/
example : (Subscript.mk intLeaf (.array (.expression ⟨300, 32, 300#32⟩)) [] trivial
    ⟨.int, 32, -1#32⟩ true).load 100#64 = 17179869280#64 := by
  decide

/-- `a + 1` where `char *a[3]`. -/
example : (Subscript.mk ⟨1, 1, false, false⟩ (.array (.constant 3)) [.pointer] trivial
    ⟨.int, 32, 1#32⟩ true).offset 100#64 = 103#64 := by
  decide

end Fisics.Subscripts
