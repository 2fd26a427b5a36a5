import Mathlib.Data.List.Basic

/-!
# Aggregates in calls on AArch64

How an aggregate is passed and returned. The procedure call standard leaves a
homogeneous floating-point aggregate as it is, takes one of at most 16 bytes for one
or two words, and passes a larger one by reference. For a small aggregate the code asks
whether all its members are floating values, of one type or not; only for a large one
does it look for a homogeneous aggregate, and nowhere deeper than eight levels. What is
returned in a word is unpacked into a slot of the aggregate's own size.
-/

namespace Fisics.Aggregates

-- Types with a size

/-- The last two are formats of `long double`. -/
inductive Scalar
  | i1 | i8 | i16 | i32 | i64
  | ptr
  | float | double | x86Fp80 | fp128
  deriving DecidableEq

/-- The types of values. No record becomes a packed structure, and an opaque one has
no size. -/
inductive LlvmType
  | scalar (s : Scalar)
  | array (length : Nat) (elem : LlvmType)
  | struct (fields : List LlvmType)

mutual
def LlvmType.decEq : (t t' : LlvmType) → Decidable (t = t')
  | .scalar s, .scalar s' => decidable_of_iff (s = s') (by simp)
  | .array length elem, .array length' elem' =>
    have := elem.decEq elem'
    decidable_of_iff (length = length' ∧ elem = elem') (by simp)
  | .struct fields, .struct fields' =>
    have := fieldsDecEq fields fields'
    decidable_of_iff (fields = fields') (by simp)
  | .scalar _, .array _ _ | .scalar _, .struct _ | .array _ _, .scalar _ | .array _ _, .struct _
  | .struct _, .scalar _ | .struct _, .array _ _ => isFalse (by rintro ⟨⟩)

def fieldsDecEq : (fields fields' : List LlvmType) → Decidable (fields = fields')
  | [], [] => isTrue rfl
  | [], _ :: _ | _ :: _, [] => isFalse (by rintro ⟨⟩)
  | field :: fields, field' :: fields' =>
    have := field.decEq field'
    have := fieldsDecEq fields fields'
    decidable_of_iff (field = field' ∧ fields = fields') (by simp)
end

instance : DecidableEq LlvmType := LlvmType.decEq

def Scalar.size : Scalar → Nat
  | .i1 | .i8 => 1
  | .i16 => 2
  | .i32 | .float => 4
  | .i64 | .ptr | .double => 8
  | .x86Fp80 | .fp128 => 16

def Scalar.isFloat : Scalar → Bool
  | .float | .double | .x86Fp80 | .fp128 => true
  | _ => false

/-- What `cg_aarch64_hfa` counts. -/
def Scalar.isMember : Scalar → Bool
  | .float | .double => true
  | _ => false

def LlvmType.isAggregate : LlvmType → Bool
  | .scalar _ => false
  | _ => true

def roundUp (n align : Nat) : Nat := (n + align - 1) / align * align

mutual
/-- `LLVMABIAlignmentOfType` in the data layout of the target. -/
def LlvmType.align : LlvmType → Nat
  | .scalar s => s.size
  | .array _ elem => elem.align
  | .struct fields => fieldsAlign fields

def fieldsAlign : List LlvmType → Nat
  | [] => 1
  | field :: fields => max field.align (fieldsAlign fields)
end

mutual
/-- `LLVMABISizeOfType`. -/
def LlvmType.size : LlvmType → Nat
  | .scalar s => s.size
  | .array length elem => length * elem.size
  | .struct fields => roundUp (fieldsEnd 0 fields) (fieldsAlign fields)

def fieldsEnd (offset : Nat) : List LlvmType → Nat
  | [] => offset
  | field :: fields => fieldsEnd (roundUp offset field.align + field.size) fields
end

-- Homogeneous aggregates

/-- `*scalar` and `*count`. -/
structure Members where
  scalar : Option Scalar
  count : Nat
  deriving DecidableEq

def times (n : Nat) (f : α → Option α) (a : α) : Option α :=
  match n with
  | 0 => some a
  | n + 1 => (f a).bind (times n f)

mutual
def members (depth : Nat) : LlvmType → Members → Option Members
  | .scalar s, st =>
    if 8 < depth then none
    else if s.isMember then
      if st.scalar.isSome ∧ st.scalar ≠ some s then none
      else if st.count + 1 ≤ 4 then some ⟨some s, st.count + 1⟩
      else none
    else none
  | .array length elem, st =>
    if 8 < depth then none
    else if length = 0 ∨ 4 < length then none
    else times length (members (depth + 1) elem) st
  | .struct fields, st =>
    if 8 < depth then none
    else if fields.length = 0 ∨ 4 < fields.length then none
    else membersOf (depth + 1) fields st

def membersOf (depth : Nat) : List LlvmType → Members → Option Members
  | [], st => some st
  | field :: fields, st => (members depth field st).bind (membersOf depth fields)
end

def isArm (target : String) : Bool :=
  "aarch64".toList.isPrefixOf target.toList || "arm64".toList.isPrefixOf target.toList

def cgAarch64Hfa (target : String) (t : LlvmType) : Bool :=
  isArm target && t.isAggregate &&
    match members 0 t ⟨none, 0⟩ with
    | some st => 0 < st.count
    | none => false

-- Results

mutual
def cgAbiAggregateAllFpOrVector (depth : Nat) : LlvmType → Bool
  | .scalar s => if 8 < depth then false else s.isFloat
  | .array _ elem => if 8 < depth then false else cgAbiAggregateAllFpOrVector (depth + 1) elem
  | .struct fields =>
    if 8 < depth then false
    else if fields.length = 0 then false
    else allFieldsFpOrVector (depth + 1) fields

def allFieldsFpOrVector (depth : Nat) : List LlvmType → Bool
  | [] => true
  | field :: fields => cgAbiAggregateAllFpOrVector depth field && allFieldsFpOrVector depth fields
end

def word : LlvmType := .scalar .i64

def twoWords : LlvmType := .array 2 word

/-- `cg_coerce_small_mixed_aggregate_abi_type`. -/
def cgCoerceFunctionReturnType (t : LlvmType) : LlvmType :=
  if !t.isAggregate then t
  else if t.size = 0 ∨ 16 < t.size then t
  else if cgAbiAggregateAllFpOrVector 0 t then t
  else if t.size ≤ 8 then word
  else twoWords

def cgShouldLowerIndirectAggregateReturn (target : String) (t : LlvmType) : Bool :=
  t.isAggregate && (16 < t.size && !cgAarch64Hfa target t)

/-- How a value crosses a call. -/
inductive Lowering
  | direct (t : LlvmType)
  | indirect

/-- The result of `ensureFunction`. -/
def lowerResult (target : String) (t : LlvmType) : Lowering :=
  let t := cgCoerceFunctionReturnType t
  if cgShouldLowerIndirectAggregateReturn target t then .indirect else .direct t

-- Parameters

/-- What `cg_size_align_for_type` knows of a type beside its LLVM type: the size and the
alignment of the semantic layout, and that a lexical definition makes them void. -/
structure Declared where
  semantic : Option (Nat × Nat)
  isLexical : Bool

def cgSizeForType (declared : Declared) (t : LlvmType) : Nat :=
  if declared.isLexical then t.size
  else
    match declared.semantic with
    | some (size, align) =>
      if t.isAggregate ∧ t.size < size ∧ t.align < align then t.size else size
    | none => t.size

def cgLowerParameterType (target : String) (declared : Declared) (t : LlvmType) : Lowering :=
  if t.isAggregate && (16 < cgSizeForType declared t && !cgAarch64Hfa target t) then .indirect
  else if t.isAggregate then .direct (cgCoerceFunctionReturnType t)
  else .direct t

-- Packing

/-- A store at the beginning of a slot. One beyond its end is undefined. -/
def storeBytes (slot bytes : List UInt8) : Option (List UInt8) :=
  if bytes.length ≤ slot.length then some (bytes ++ slot.drop bytes.length) else none

def cgPackAggregateForAbiReturn (value : List UInt8) (packedType : LlvmType) : Option (List UInt8) :=
  (storeBytes (List.replicate packedType.size 0) value).map (·.take packedType.size)

def cgUnpackAggregateFromAbiReturn (packedValue : List UInt8) (aggregateType : LlvmType) :
    Option (List UInt8) :=
  (storeBytes (List.replicate aggregateType.size 0) packedValue).map (·.take aggregateType.size)

end Fisics.Aggregates
