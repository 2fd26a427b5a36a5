import Fisics.CodeGen.AssignmentCorrect

/-!
# Bit-fields in assignments

What is assigned to a bit-field is cast to an integer of the width of the field without
its type, so that a narrower unsigned value is extended by its sign, and a field of one
bit holds whether the value is not zero. From there the store is exact. A compound
assignment computes in the width of the field, and `++` and `--` generate valid code
only where the field fills its unit.
-/

namespace Fisics

open CInteger (DataModel IntType ArithOp ShiftOp BitOp ofBool)
open BitVec (ofInt)
open Word (ofInt_eq_iff ofInt_read ofInt_wrap_of_le read_eq_zero read_inj wrap_eq_read wrap_read)
open CArith (FloatType Floats AssignOp)
open Llvm (Ty Scalar)
open Word (wrap)

-- The code

/-- `codegenAssignment` at a bit-field. The lvalue has no parsed type; the operator
has the sign of the expression. -/
def codegenAssignmentBitfield (fl : Floats F) (op : Option AssignOp) (field : BitField)
    (targetUnsigned : Bool) (raw : BitVec field.storageBits) (valueParsed : ScalarType)
    (value : Scalar F) : Option (BitVec field.storageBits) :=
  let width := if field.widthBits = 0 then field.storageBits else field.widthBits
  let storedValue :=
    match op with
    | none => some value
    | some op =>
      (cgCastScalar fl value (.int width) (some valueParsed) none).bind fun value =>
        compoundValue fl op targetUnsigned (.int width (cgLoadBitfield field raw width)) value
  (storedValue.bind fun stored => cgCastScalar fl stored (.int width) none none).bind fun stored =>
    match stored with
    | .int _ stored => some (cgStoreBitfield field raw stored)
    | .float _ _ => none

-- Fields and what they are assigned

/-- A bit-field as it is declared. `validateBitField` refuses a width that the type
does not have. -/
structure DeclaredBitField (m : DataModel) extends BitField where
  declared : IntType
  signed : isSigned = !declared.isUnsigned
  within : widthBits ≤ declared.bits m

/-- What is on the right, and the type that it has in C. -/
structure Operand (m : DataModel) where
  bits : Nat
  word : BitVec bits
  parsed : ScalarType
  type : IntType
  holds : type.Holds m (Word.read (cgIsUnsigned parsed) word)

def Operand.value (v : Operand m) : Int := Word.read (cgIsUnsigned v.parsed) v.word

inductive BitFieldUpdate (m : DataModel)
  | assign (v : Operand m)
  | compound (op : AssignOp) (v : Operand m)
  | step (isIncrement : Bool)

section
variable {m : DataModel} (field : DeclaredBitField m)

/-- What the field holds, by the load and the sign of its type. -/
def DeclaredBitField.content (raw : BitVec field.storageBits) : Int :=
  Word.read field.declared.isUnsigned (cgLoadBitfield field.toBitField raw field.widthBits)

def DeclaredBitField.convert (z : Int) : Int :=
  if field.declared = .bool then ofBool (z ≠ 0)
  else wrap field.widthBits field.declared.isUnsigned z

/-- The integer promotions: the width counts, as far as an `int` goes. -/
def DeclaredBitField.promoted : IntType :=
  if field.widthBits < 32 then .int
  else if field.widthBits = 32 then if field.isSigned then .int else .uint
  else field.declared

/-- The value that is assigned in C, if the field holds `x`. -/
def BitFieldUpdate.result (x : Int) : BitFieldUpdate m → Option Int
  | .assign v => some v.value
  | .compound op v => op.binary.apply m field.promoted v.type x v.value
  | .step isIncrement =>
    (CInteger.Binary.arith (stepOp isIncrement)).apply m field.promoted .int x 1

def BitFieldUpdate.run (fl : Floats F) (raw : BitVec field.storageBits) :
    BitFieldUpdate m → Option (BitVec field.storageBits)
  | .assign v =>
    codegenAssignmentBitfield fl none field.toBitField field.declared.isUnsigned raw v.parsed
      (.int v.bits v.word)
  | .compound op v =>
    codegenAssignmentBitfield fl (some op) field.toBitField field.declared.isUnsigned raw v.parsed
      (.int v.bits v.word)
  | .step isIncrement => codegenStepBitfield isIncrement field.toBitField raw

/-- The field comes to hold the value, and no other bit of the unit changes. -/
structure DeclaredBitField.Becomes (raw raw' : BitVec field.storageBits) (z : Int) : Prop where
  content : field.content raw' = field.convert z
  outside : ∀ i, i < field.bitOffset ∨ field.bitOffset + field.widthBits ≤ i →
    raw'.getLsbD i = raw.getLsbD i

def BitFieldUpdate.Exact (update : BitFieldUpdate m) (raw : BitVec field.storageBits) : Prop :=
  ∀ z, update.result field (field.content raw) = some z →
    ∀ (F : Type) (fl : Floats F), ∃ raw', update.run field fl raw = some raw' ∧ field.Becomes raw raw' z

end

-- Loads and stores

section
variable (field : BitField) (raw : BitVec field.storageBits)

theorem BitField.width_le : field.widthBits ≤ field.storageBits :=
  Nat.le_trans (Nat.le_add_left _ _) field.fits

theorem BitField.mask_getLsbD (i : Nat) : field.mask.getLsbD i = decide (i < field.widthBits) := by
  have hle := field.width_le
  rw [BitField.mask, if_neg (Nat.ne_of_gt field.pos)]
  split
  · have hwidth : field.storageBits = field.widthBits := by omega
    simp [hwidth]
  rw [BitVec.getLsbD_ofNat, Nat.testBit_two_pow_sub_one]
  by_cases hi : i < field.widthBits
  · simp [hi, Nat.lt_of_lt_of_le hi hle]
  · simp [hi]

theorem BitField.value_getLsbD (i : Nat) :
    (field.value raw).getLsbD i = (decide (i < field.widthBits) && raw.getLsbD (field.bitOffset + i)) := by
  rw [BitField.value, BitVec.getLsbD_extractLsb']

theorem cgLoadBitfield_eq : cgLoadBitfield field raw field.widthBits = field.value raw := by
  apply BitVec.eq_of_getLsbD_eq
  intro i hi
  have hle := field.width_le
  rw [cgLoadBitfield, if_neg (Nat.not_lt.mpr hle), field.value_getLsbD]
  simp [field.mask_getLsbD, hi]

theorem BitField.ofInt_getLsbD (z : Int) (i : Nat) :
    (ofInt field.widthBits z).getLsbD i =
      (decide (i < field.widthBits) && (ofInt field.storageBits z).getLsbD i) := by
  rw [← Word.setWidth_ofInt field.width_le, BitVec.getLsbD_setWidth]

theorem cgStoreBitfield_getLsbD (value : BitVec w) (i : Nat) :
    (cgStoreBitfield field raw value).getLsbD i =
      if field.bitOffset ≤ i ∧ i < field.bitOffset + field.widthBits then
        (ofInt field.widthBits (Word.read (!field.isSigned) value)).getLsbD (i - field.bitOffset)
      else raw.getLsbD i := by
  have hcast : (if field.widthBits < field.storageBits then
      ofInt field.storageBits (Word.read (!field.isSigned) value) &&& field.mask
      else ofInt field.storageBits (Word.read (!field.isSigned) value)) =
      ofInt field.storageBits (Word.read (!field.isSigned) value) &&& field.mask := by
    split
    · rfl
    · rw [BitField.mask, if_neg (Nat.ne_of_gt field.pos), if_pos (by omega), BitVec.and_allOnes]
  have hfits := field.fits
  rw [cgStoreBitfield, Llvm.eval_intCast, Llvm.Value.eval, hcast]
  simp only [BitVec.getLsbD_or, BitVec.getLsbD_and, BitVec.getLsbD_not, BitVec.getLsbD_shiftLeft,
    field.ofInt_getLsbD, field.mask_getLsbD]
  by_cases hstorage : i < field.storageBits
  · by_cases hlow : i < field.bitOffset
    · simp [hstorage, hlow, Nat.not_le.mpr hlow]
    · by_cases hhigh : i < field.bitOffset + field.widthBits
      · have hwidth : i - field.bitOffset < field.widthBits := by omega
        simp [hstorage, hlow, hhigh, hwidth, Nat.not_lt.mp hlow]
      · have hwidth : ¬i - field.bitOffset < field.widthBits := by omega
        simp [hstorage, hhigh, hwidth]
  · have hhigh : ¬i < field.bitOffset + field.widthBits := by omega
    simp [hstorage, hhigh, BitVec.getLsbD_of_ge raw i (Nat.not_lt.mp hstorage)]

theorem cgStoreBitfield_setTo (word : BitVec field.widthBits) :
    field.SetTo raw (cgStoreBitfield field raw word) word := by
  constructor
  · apply BitVec.eq_of_getLsbD_eq
    intro i hi
    rw [field.value_getLsbD, cgStoreBitfield_getLsbD, if_pos ⟨Nat.le_add_right _ _, by omega⟩,
      Nat.add_sub_cancel_left, ofInt_read]
    simp [hi]
  · intro i hi
    rw [cgStoreBitfield_getLsbD, if_neg (by omega)]

end

-- What is stored

section
variable {m : DataModel} {field : DeclaredBitField m} {raw : BitVec field.storageBits}

theorem DeclaredBitField.content_eq (raw : BitVec field.storageBits) :
    field.content raw = Word.read field.declared.isUnsigned (field.value raw) := by
  rw [content, cgLoadBitfield_eq]

def DeclaredBitField.wordOf (field : DeclaredBitField m) (z : Int) : BitVec field.widthBits :=
  if field.declared = .bool then BitVec.ofInt _ (ofBool (z ≠ 0)) else BitVec.ofInt _ z

theorem DeclaredBitField.bool_width (hbool : field.declared = .bool) : field.widthBits = 1 := by
  have hle := field.within
  have hpos := field.pos
  rw [hbool] at hle
  exact Nat.le_antisymm hle hpos

theorem DeclaredBitField.read_wordOf (field : DeclaredBitField m) (z : Int) :
    Word.read field.declared.isUnsigned (field.wordOf z) = field.convert z := by
  rw [wordOf, convert]
  split
  · rename_i hbool
    have hwidth := field.bool_width hbool
    rw [← wrap_eq_read, hbool, hwidth]
    by_cases hz : z = 0 <;> simp [hz, ofBool, wrap, IntType.isUnsigned]
  · rw [wrap_eq_read]

theorem BitField.SetTo.becomes_iff {word : BitVec field.widthBits}
    (h : field.toBitField.SetTo raw raw' word) (z : Int) :
    field.Becomes raw raw' z ↔ word = field.wordOf z := by
  have hcontent : field.content raw' = Word.read field.declared.isUnsigned word := by
    rw [field.content_eq, h.1]
  constructor
  · intro hbecomes
    have hword := hbecomes.content
    rw [hcontent, ← field.read_wordOf] at hword
    exact read_inj.mp hword
  · rintro rfl
    exact ⟨hcontent.trans (field.read_wordOf z), h.2⟩

-- Simple assignments

def DeclaredBitField.cast (field : DeclaredBitField m) (y : Int) : Int :=
  if field.widthBits = 1 then ofBool (y ≠ 0) else y

def Operand.extended (v : Operand m) : Int := Word.read (v.bits = 1) v.word

theorem cgCastScalar_field (fl : Floats F) (word : BitVec n) (fromParsed : Option ScalarType) :
    cgCastScalar fl (.int n word) (.int field.widthBits) fromParsed none =
      some (.int _ (ofInt field.widthBits
        (field.cast (Word.read (cgShouldTreatAsUnsigned fromParsed n) word)))) := by
  have hcast := @cgCastScalar_bits _ fl n (Word.read (cgShouldTreatAsUnsigned fromParsed n) word)
    field.widthBits fromParsed none
  rw [castBits_eq _ _ (wrap_read _ _ word), intScalar, ofInt_read] at hcast
  exact hcast

theorem codegenAssignmentBitfield_simple (fl : Floats F) (u : Bool) (parsed : ScalarType)
    (word : BitVec n) :
    codegenAssignmentBitfield fl none field.toBitField u raw parsed (.int n word) =
      some (cgStoreBitfield field.toBitField raw (ofInt field.widthBits
        (field.cast (Word.read (n = 1) word)))) := by
  have hcast : cgCastScalar fl (.int n word) (.int field.widthBits) none none = _ :=
    cgCastScalar_field fl word none
  rw [codegenAssignmentBitfield, if_neg (Nat.ne_of_gt field.pos), Option.bind_some, hcast]
  rfl

/-- A field of one bit that is no `_Bool` gets the test for zero, which an even value
fails. -/
def DeclaredBitField.Keeps (field : DeclaredBitField m) (y : Int) : Prop :=
  field.widthBits = 1 → y = 0 ∨ ¬(2 : Int) ∣ y

theorem ofInt_cast (hbool : field.declared ≠ .bool) (y : Int) :
    ofInt field.widthBits (field.cast y) = field.wordOf y ↔ field.Keeps y := by
  rw [DeclaredBitField.wordOf, if_neg hbool, ofInt_eq_iff, DeclaredBitField.cast,
    DeclaredBitField.Keeps]
  by_cases hwidth : field.widthBits = 1
  · by_cases hy : y = 0
    · simp [hy, ofBool]
    · simp only [hwidth, hy, ofBool, ↓reduceIte, ne_eq, not_false_eq_true, decide_true, Int.pow_one,
        false_or, forall_const]
      omega
  · simp [hwidth]

theorem cast_bool (hbool : field.declared = .bool) (y : Int) :
    ofInt field.widthBits (field.cast y) = field.wordOf y := by
  rw [DeclaredBitField.wordOf, if_pos hbool, DeclaredBitField.cast, if_pos (field.bool_width hbool)]

theorem read_of_no_bits (hw : w = 0) (u : Bool) (b : BitVec w) : Word.read u b = 0 := by
  subst hw
  rw [read_eq_zero]
  exact BitVec.of_length_zero

theorem assign_iff (v : Operand m) :
    ofInt field.widthBits (field.cast v.extended) = field.wordOf v.value ↔
      field.declared = .bool ∨ field.Keeps v.value ∧ (field.widthBits ≤ v.bits ∨ v.extended = v.value) := by
  have hzero : v.extended = 0 ↔ v.value = 0 := Word.read_eq_zero_iff _ _ v.word
  by_cases hwidth : field.widthBits = 1
  · have hcast : field.cast v.extended = field.cast v.value := by
      rw [DeclaredBitField.cast, DeclaredBitField.cast, if_pos hwidth, if_pos hwidth]
      simp only [ne_eq, hzero]
    rw [hcast]
    by_cases hbool : field.declared = .bool
    · exact iff_of_true (cast_bool hbool _) (.inl hbool)
    have hcut : field.widthBits ≤ v.bits ∨ v.extended = v.value := by
      rcases Nat.eq_zero_or_pos v.bits with hbits | hbits
      · right
        rw [Operand.extended, Operand.value, read_of_no_bits hbits, read_of_no_bits hbits]
      · left
        omega
    rw [ofInt_cast hbool]
    simp [hbool, hcut]
  · have hbool := mt field.bool_width hwidth
    have hcast : field.cast v.extended = v.extended := if_neg hwidth
    have hkeeps : field.Keeps v.value := fun h => absurd h hwidth
    rw [hcast, DeclaredBitField.wordOf, if_neg hbool, Operand.extended, Operand.value, Word.ofInt_read_iff]
    constructor
    · intro h
      exact .inr ⟨hkeeps, h⟩
    · rintro (h | ⟨-, h⟩)
      · exact absurd h hbool
      · exact h

-- Compound assignments

def opInstruction (u : Bool) : AssignOp → Llvm.BinOp
  | .arith op => arithInstruction u op
  | .bit op => bitInstruction op
  | .shift op => shiftInstruction u op

theorem opInstruction_apply (u : Bool) (op : AssignOp) (x y : Int) :
    (opInstruction u op).apply (ofInt w x) (ofInt w y) =
      ofInt w (exactBinary w u x y op.binary) := by
  cases op with
  | arith op =>
    rw [opInstruction, arithInstruction_apply, ← wrap_eq_read, ← wrap_eq_read]
    rfl
  | bit op =>
    rw [opInstruction, bitInstruction_apply, AssignOp.binary, exactBinary, ofInt_read]
  | shift op => exact shiftInstruction_apply op u x y

theorem compoundValue_words (fl : Floats F) (op : AssignOp) (u : Bool) (x y : Int) :
    compoundValue fl op u (.int w (ofInt w x)) (.int w (ofInt w y)) =
      if (opInstruction u op).isDefined (ofInt w x) (ofInt w y) then
        some (.int w (ofInt w (exactBinary w u x y op.binary)))
      else none := by
  have hbuild : compoundValue fl op u (.int w (ofInt w x)) (.int w (ofInt w y)) =
      Llvm.buildInt (opInstruction u op) (.int w (ofInt w x)) (.int w (ofInt w y)) := by
    cases op <;> rfl
  rw [hbuild, Llvm.buildInt_eq, opInstruction_apply]

/-- The instruction has a result on the field and the value as it is cast. -/
def DeclaredBitField.Computes (field : DeclaredBitField m) (op : AssignOp) (x y : Int) : Prop :=
  (opInstruction field.declared.isUnsigned op).isDefined (BitVec.ofInt field.widthBits x)
    (BitVec.ofInt field.widthBits (field.cast y)) = true

def DeclaredBitField.computed (field : DeclaredBitField m) (op : AssignOp) (x y : Int) : Int :=
  exactBinary field.widthBits field.declared.isUnsigned x (field.cast y) op.binary

theorem codegenAssignmentBitfield_compound (fl : Floats F) (op : AssignOp) (v : Operand m)
    (raw : BitVec field.storageBits) :
    (field.Computes op (field.content raw) v.value →
      (BitFieldUpdate.compound op v).run field fl raw =
        some (cgStoreBitfield field.toBitField raw
          (ofInt field.widthBits (field.computed op (field.content raw) v.value)))) ∧
    (¬field.Computes op (field.content raw) v.value →
      (BitFieldUpdate.compound op v).run field fl raw = none) := by
  have hcast : cgCastScalar fl (.int v.bits v.word) (.int field.widthBits) (some v.parsed) none = _ :=
    cgCastScalar_field fl v.word (some v.parsed)
  have hload : cgLoadBitfield field.toBitField raw field.widthBits =
      ofInt field.widthBits (field.content raw) := (ofInt_read _ _).symm
  have hvalue := compoundValue_words (w := field.widthBits) fl op field.declared.isUnsigned
    (field.content raw) (field.cast v.value)
  have hrun : (BitFieldUpdate.compound op v).run field fl raw =
      ((compoundValue fl op field.declared.isUnsigned
        (.int field.widthBits (ofInt field.widthBits (field.content raw)))
        (.int field.widthBits (ofInt field.widthBits (field.cast v.value)))).bind fun stored =>
          cgCastScalar fl stored (.int field.widthBits) none none).bind fun stored =>
            match stored with
            | .int _ stored => some (cgStoreBitfield field.toBitField raw stored)
            | .float _ _ => none := by
    rw [BitFieldUpdate.run, codegenAssignmentBitfield, if_neg (Nat.ne_of_gt field.pos), hcast, hload]
    rfl
  rw [hrun, hvalue]
  constructor
  · intro h
    unfold DeclaredBitField.Computes at h
    have hself (b : BitVec field.widthBits) :
        cgCastScalar fl (.int field.widthBits b) (.int field.widthBits) none none =
          some (.int field.widthBits b) := if_pos rfl
    rw [if_pos h, Option.bind_some, hself, Option.bind_some]
    rfl
  · intro h
    unfold DeclaredBitField.Computes at h
    rw [if_neg h]
    rfl

theorem compound_exact_iff (op : AssignOp) (v : Operand m) (raw : BitVec field.storageBits) :
    (BitFieldUpdate.compound op v).Exact field raw ↔
      ∀ z, op.binary.apply m field.promoted v.type (field.content raw) v.value = some z →
        field.Computes op (field.content raw) v.value ∧
          ofInt field.widthBits (field.computed op (field.content raw) v.value) =
            field.wordOf z := by
  refine forall₂_congr fun z _ => ?_
  by_cases hcomputes : field.Computes op (field.content raw) v.value
  · have hstored := cgStoreBitfield_setTo field.toBitField raw
      (ofInt field.widthBits (field.computed op (field.content raw) v.value))
    rw [← hstored.becomes_iff]
    constructor
    · intro h
      obtain ⟨raw', hrun, hbecomes⟩ := h Int (constantFloats 0)
      rw [(codegenAssignmentBitfield_compound _ op v raw).1 hcomputes] at hrun
      cases hrun
      exact ⟨hcomputes, hbecomes⟩
    · intro h F fl
      exact ⟨_, (codegenAssignmentBitfield_compound fl op v raw).1 hcomputes, h.2⟩
  · constructor
    · intro h
      obtain ⟨raw', hrun, -⟩ := h Int (constantFloats 0)
      rw [(codegenAssignmentBitfield_compound _ op v raw).2 hcomputes] at hrun
      cases hrun
    · intro h
      exact absurd h.1 hcomputes

-- The results of C in the field

theorem DeclaredBitField.width_le_promoted (field : DeclaredBitField m) :
    field.widthBits ≤ field.promoted.bits m := by
  have hwithin := field.within
  unfold promoted
  split
  · show field.widthBits ≤ 32
    omega
  split
  · split
    all_goals
      show field.widthBits ≤ 32
      omega
  · exact hwithin

theorem ofInt_ring (hop : op ≠ .div ∧ op ≠ .mod)
    (hz : (CInteger.Binary.arith op).apply m field.promoted b x y = some z) :
    ofInt field.widthBits z = ofInt field.widthBits (exactArith x y op) := by
  have hle := Nat.le_trans field.width_le_promoted (bits_le_usual m field.promoted b)
  have hfit := fit_exactArith hz
  rw [convert_usual, convert_usual] at hfit
  rw [← fit_eq_wrap hfit, ofInt_wrap_of_le hle]
  exact ofInt_exactArith hop (ofInt_wrap_of_le hle _ _) (ofInt_wrap_of_le hle _ _)

theorem ofInt_bits (hz : (CInteger.Binary.bit op).apply m field.promoted b x y = some z) :
    ofInt field.widthBits z =
      op.onWords (ofInt field.widthBits x) (ofInt field.widthBits y) := by
  have hle := Nat.le_trans field.width_le_promoted (bits_le_usual m field.promoted b)
  cases hz
  rw [BitOp.apply, Word.ofInt_read_of_le hle, onWords_setWidth, Word.setWidth_ofInt hle,
    Word.setWidth_ofInt hle, convert_usual, convert_usual, ofInt_wrap_of_le hle,
    ofInt_wrap_of_le hle]

theorem DeclaredBitField.holds_promoted (field : DeclaredBitField m) (raw : BitVec field.storageBits) :
    field.promoted.Holds m (field.content raw) := by
  have hpow {i j : Nat} (h : i ≤ j) : (2 : Int) ^ i ≤ 2 ^ j := pow_le_pow_right₀ (by decide) h
  have hrange := Word.read_range field.declared.isUnsigned
    (cgLoadBitfield field.toBitField raw field.widthBits)
  have hint : field.widthBits < 32 ∨ field.widthBits = 32 ∧ field.isSigned = true →
      IntType.int.Holds m (field.content raw) := by
    intro h
    show -2 ^ 31 ≤ field.content raw ∧ field.content raw < 2 ^ 31
    have hhalf := hpow (show field.widthBits - 1 ≤ 31 by omega)
    have hsign := field.signed
    cases hu : field.declared.isUnsigned with
    | false =>
      simp only [hu, Bool.false_eq_true, ↓reduceIte] at hrange
      simp only [content, hu]
      omega
    | true => ?_
    have hfull := hpow (show field.widthBits ≤ 31 by
      simp only [hu, Bool.not_true] at hsign
      simp only [hsign, Bool.false_eq_true, and_false, or_false] at h
      omega)
    simp only [hu, ↓reduceIte] at hrange
    simp only [content, hu]
    omega
  unfold promoted
  split
  · exact hint (.inl ‹_›)
  split
  · rename_i hwidth
    split
    · exact hint (.inr ⟨hwidth, ‹_›⟩)
    rename_i hsigned
    have hsign := field.signed
    have hu : field.declared.isUnsigned = true := by
      simpa [hsign] using hsigned
    simp only [hu, ↓reduceIte, hwidth] at hrange
    show 0 ≤ field.content raw ∧ field.content raw < 2 ^ 32
    simp only [content, hu]
    exact hrange
  · have hwithin := field.within
    have hhalf := hpow (show field.widthBits - 1 ≤ field.declared.bits m - 1 by omega)
    have hfull := hpow hwithin
    rw [IntType.Holds, IntType.least, IntType.limit, content]
    cases hu : field.declared.isUnsigned with
    | false =>
      simp only [hu, Bool.false_eq_true, ↓reduceIte] at hrange ⊢
      omega
    | true =>
      simp only [hu, ↓reduceIte] at hrange ⊢
      omega

theorem ofInt_shift
    (hz : (CInteger.Binary.shift op).apply m field.promoted b (field.content raw) y = some z) :
    0 ≤ y ∧ ofInt field.widthBits z =
      ofInt field.widthBits (shifted op (field.content raw) y.toNat) := by
  have hle := Nat.le_trans field.width_le_promoted (bits_le_promote m field.promoted)
  obtain ⟨hpos, hvalue⟩ := wrap_shifted (field.holds_promoted raw).promote hz
  refine ⟨hpos, ?_⟩
  rw [← hvalue, ofInt_wrap_of_le hle]

-- When a compound assignment is right

def oneBit (op : AssignOp) (p q : Bool) : Option Bool :=
  match op with
  | .arith .mul | .bit .and => some (p && q)
  | .bit .or => some (p || q)
  | .arith .add | .arith .sub | .bit .xor => some (p ^^ q)
  | .arith .div => if q then some p else none
  | .arith .mod => if q then some false else none
  | .shift _ => if q then none else some p

def DeclaredBitField.residue (field : DeclaredBitField m) (y : Int) : Int :=
  wrap field.widthBits field.declared.isUnsigned (field.cast y)

def DeclaredBitField.Divides (field : DeclaredBitField m) (x y : Int) : Prop :=
  field.residue y ≠ 0 ∧
    (field.declared.isUnsigned = true ∨ ¬(x = -2 ^ (field.widthBits - 1) ∧ field.residue y = -1))

/-- A shift by `n` leaves as much as a shift by the width. -/
def ShiftsOut (w : Nat) (op : ShiftOp) (x : Int) (n : Nat) : Prop :=
  match op with
  | .shl => (2 ^ w : Int) ∣ x * 2 ^ n
  | .shr => -2 ^ n ≤ x ∧ x < 2 ^ n

/-- A count of the width or more is taken modulo the power of two. -/
def DeclaredBitField.Shifts (field : DeclaredBitField m) (op : ShiftOp) (x y : Int) : Prop :=
  y < field.widthBits ∨
    field.widthBits ≠ 1 ∧ y % 2 ^ field.widthBits < field.widthBits ∧
      ShiftsOut field.widthBits op x (y % 2 ^ field.widthBits).toNat

/-- The operator, computed in the field, gives what C makes of the field's value, the
other value and their result. -/
def DeclaredBitField.ComputesAsC (field : DeclaredBitField m) (op : AssignOp) (x y z : Int) : Prop :=
  if field.declared = .bool then oneBit op (x ≠ 0) (y ≠ 0) = some (decide (z ≠ 0))
  else match op with
    | .arith .add | .arith .sub | .bit .xor => field.Keeps y
    | .arith .mul | .bit .and => field.Keeps y ∨ x = 0
    | .bit .or => field.Keeps y ∨ x ≠ 0
    | .arith .div => field.Divides x y ∧ field.convert (x.tdiv (field.residue y)) = field.convert z
    | .arith .mod => field.Divides x y ∧ field.convert (x.tmod (field.residue y)) = field.convert z
    | .shift op => field.Shifts op x y

theorem read_one_bit (hw : w = 1) (u : Bool) (b : BitVec w) :
    Word.read u b = 0 ∨ Word.read u b = if u then 1 else -1 := by
  subst hw
  rcases BitVec.eq_zero_or_eq_one b with rfl | rfl
  · exact .inl Word.read_zero
  · cases u <;> exact .inr rfl

theorem oneBit_iff (hw : w = 1) (op : AssignOp) (hx : x = 0 ∨ x = 1) (p q : Bool) :
    (opInstruction true op).isDefined (ofInt w x) (ofInt w (ofBool p)) = true ∧
        ofInt w (exactBinary w true x (ofBool p) op.binary) = ofInt w (ofBool q) ↔
      oneBit op (x ≠ 0) p = some q := by
  subst hw
  rcases hx with rfl | rfl
  all_goals
    cases op with
    | arith op | bit op | shift op => cases op <;> cases p <;> cases q <;> decide

theorem content_bool (hbool : field.declared = .bool) (raw : BitVec field.storageBits) :
    field.content raw = 0 ∨ field.content raw = 1 := by
  have hu : field.declared.isUnsigned = true := by rw [hbool]; rfl
  have hread := read_one_bit (field.bool_width hbool) field.declared.isUnsigned
    (cgLoadBitfield field.toBitField raw field.widthBits)
  rwa [if_pos hu] at hread

theorem computes_bool (hbool : field.declared = .bool) (op : AssignOp) (raw : BitVec field.storageBits)
    (y z : Int) :
    field.Computes op (field.content raw) y ∧
        ofInt field.widthBits (field.computed op (field.content raw) y) = field.wordOf z ↔
      oneBit op (field.content raw ≠ 0) (y ≠ 0) = some (decide (z ≠ 0)) := by
  have hwidth := field.bool_width hbool
  have hu : field.declared.isUnsigned = true := by rw [hbool]; rfl
  have hiff := oneBit_iff hwidth op (content_bool hbool raw) (y ≠ 0) (z ≠ 0)
  rw [DeclaredBitField.Computes, DeclaredBitField.computed, DeclaredBitField.wordOf,
    DeclaredBitField.cast, if_pos hbool, if_pos hwidth, hu]
  exact hiff

theorem DeclaredBitField.not_keeps (h : ¬field.Keeps y) :
    field.widthBits = 1 ∧ field.cast y = 1 ∧ (2 : Int) ∣ y := by
  obtain ⟨hwidth, heven⟩ := Classical.not_imp.mp h
  obtain ⟨hy, hdvd⟩ := not_or.mp heven
  refine ⟨hwidth, ?_, not_not.mp hdvd⟩
  simp [cast, hwidth, hy, ofBool]

theorem DeclaredBitField.Keeps.ofInt_cast (h : field.Keeps y) (hbool : field.declared ≠ .bool) :
    ofInt field.widthBits (field.cast y) = ofInt field.widthBits y := by
  have hword := (Fisics.ofInt_cast hbool y).mpr h
  rwa [wordOf, if_neg hbool] at hword

theorem content_even (hwidth : field.widthBits = 1) (raw : BitVec field.storageBits) :
    (2 : Int) ∣ field.content raw ↔ field.content raw = 0 := by
  have hread : field.content raw = 0 ∨
      field.content raw = if field.declared.isUnsigned then 1 else -1 :=
    read_one_bit hwidth _ _
  split at hread <;> omega

theorem ring_even (hw : w = 1) (hop : op ≠ .div ∧ op ≠ .mod) (hy : (2 : Int) ∣ y) (x : Int) :
    ofInt w (exactArith x 1 op) = ofInt w (exactArith x y op) ↔
      op = .mul ∧ (2 : Int) ∣ x := by
  obtain ⟨c, rfl⟩ := hy
  rw [ofInt_eq_iff, hw, Int.pow_one]
  cases op with
  | mul =>
    rw [exactArith, exactArith, Int.mul_left_comm x 2 c]
    simp only [true_and]
    omega
  | add | sub =>
    simp only [exactArith, reduceCtorEq, false_and, iff_false]
    omega
  | div => exact absurd rfl hop.1
  | mod => exact absurd rfl hop.2

theorem bits_even (hw : w = 1) (op : BitOp) (hy : (2 : Int) ∣ y) (x : Int) :
    op.onWords (ofInt w x) (ofInt w 1) = op.onWords (ofInt w x) (ofInt w y) ↔
      op = .and ∧ (2 : Int) ∣ x ∨ op = .or ∧ ¬(2 : Int) ∣ x := by
  subst hw
  have hzero (z : Int) : ofInt 1 z = 0#1 ↔ (2 : Int) ∣ z := by
    have hiff := ofInt_eq_iff (w := 1) z 0
    rwa [Int.pow_one, Int.sub_zero] at hiff
  rw [(hzero y).mpr hy, ← hzero x]
  rcases BitVec.eq_zero_or_eq_one (ofInt 1 x) with hx | hx
  all_goals
    rw [hx]
    cases op <;> decide

theorem computes_ring (hbool : field.declared ≠ .bool) (raw : BitVec field.storageBits)
    (hop : op ≠ .div ∧ op ≠ .mod)
    (hz : (CInteger.Binary.arith op).apply m field.promoted b (field.content raw) y = some z) :
    field.Computes (.arith op) (field.content raw) y ∧
        ofInt field.widthBits (field.computed (.arith op) (field.content raw) y) = field.wordOf z ↔
      field.Keeps y ∨ op = .mul ∧ field.content raw = 0 := by
  have hcomputes : field.Computes (.arith op) (field.content raw) y := by
    cases op with
    | mul | add | sub => rfl
    | div => exact absurd rfl hop.1
    | mod => exact absurd rfl hop.2
  have hcomputed : ofInt field.widthBits (field.computed (.arith op) (field.content raw) y) =
      ofInt field.widthBits (exactArith (field.content raw) (field.cast y) op) :=
    ofInt_exactArith hop (Word.ofInt_wrap _ _) (Word.ofInt_wrap _ _)
  rw [and_iff_right hcomputes, hcomputed, DeclaredBitField.wordOf, if_neg hbool, ofInt_ring hop hz]
  by_cases hkeeps : field.Keeps y
  · exact iff_of_true (ofInt_exactArith hop rfl (hkeeps.ofInt_cast hbool)) (.inl hkeeps)
  obtain ⟨hwidth, hone, heven⟩ := DeclaredBitField.not_keeps hkeeps
  rw [hone, ring_even hwidth hop heven, content_even hwidth, or_iff_right hkeeps]

theorem computes_bits (hbool : field.declared ≠ .bool) (raw : BitVec field.storageBits)
    (hz : (CInteger.Binary.bit op).apply m field.promoted b (field.content raw) y = some z) :
    field.Computes (.bit op) (field.content raw) y ∧
        ofInt field.widthBits (field.computed (.bit op) (field.content raw) y) = field.wordOf z ↔
      field.Keeps y ∨ op = .and ∧ field.content raw = 0 ∨ op = .or ∧ field.content raw ≠ 0 := by
  have hcomputes : field.Computes (.bit op) (field.content raw) y := by
    cases op <;> rfl
  have hcomputed : ofInt field.widthBits (field.computed (.bit op) (field.content raw) y) =
      op.onWords (ofInt _ (field.content raw)) (ofInt _ (field.cast y)) :=
    ofInt_read _ _
  rw [and_iff_right hcomputes, hcomputed, DeclaredBitField.wordOf, if_neg hbool, ofInt_bits hz]
  by_cases hkeeps : field.Keeps y
  · rw [hkeeps.ofInt_cast hbool]
    exact iff_of_true rfl (.inl hkeeps)
  · obtain ⟨hwidth, hone, heven⟩ := DeclaredBitField.not_keeps hkeeps
    rw [hone, bits_even hwidth op heven, content_even hwidth, or_iff_right hkeeps]

theorem shiftsDefined (u : Bool) (op : ShiftOp) (a b : BitVec w) :
    (opInstruction u (.shift op)).isDefined a b = true ↔ b.toNat < w := by
  cases op with
  | shl => exact decide_eq_true_iff
  | shr => cases u <;> exact decide_eq_true_iff

theorem ofInt_shifted_far (u : Bool) (b : BitVec w) (op : ShiftOp) (hk : k < w) (hn : w ≤ n) :
    ofInt w (shifted op (Word.read u b) k) = ofInt w (shifted op (Word.read u b) n) ↔
      ShiftsOut w op (Word.read u b) k := by
  cases op with
  | shl => ?_
  | shr =>
    rw [ShiftsOut, ← Word.shiftRight_eq_iff u b hk hn, shifted, shifted, ← read_inj (u := u),
      ← wrap_eq_read, ← wrap_eq_read, Word.wrap_shiftRight, Word.wrap_shiftRight]
  have hfar : (2 ^ w : Int) ∣ Word.read u b * 2 ^ n := Dvd.dvd.mul_left (pow_dvd_pow 2 hn) _
  rw [ofInt_eq_iff, shifted, shifted, ShiftsOut]
  constructor
  · intro h
    have hadd := dvd_add h hfar
    rwa [Int.sub_add_cancel] at hadd
  · intro h
    exact dvd_sub h hfar

theorem computes_shift (hbool : field.declared ≠ .bool) (raw : BitVec field.storageBits)
    (hz : (CInteger.Binary.shift op).apply m field.promoted b (field.content raw) y = some z) :
    field.Computes (.shift op) (field.content raw) y ∧
        ofInt field.widthBits (field.computed (.shift op) (field.content raw) y) = field.wordOf z ↔
      field.Shifts op (field.content raw) y := by
  obtain ⟨hpos, hshifted⟩ := ofInt_shift hz
  have hcount : (ofInt field.widthBits (field.cast y)).toNat =
      (wrap field.widthBits true (field.cast y)).toNat := by
    rw [wrap_eq_read]
    rfl
  have hrange : wrap field.widthBits field.declared.isUnsigned (field.content raw) =
      field.content raw := wrap_read _ _ _
  have hcomputed : field.computed (.shift op) (field.content raw) y =
      shifted op (field.content raw) (wrap field.widthBits true (field.cast y)).toNat := by
    cases op with
    | shl => rfl
    | shr =>
      rw [DeclaredBitField.computed, AssignOp.binary, exactBinary, hrange]
      rfl
  rw [DeclaredBitField.Computes, shiftsDefined, hcount, hcomputed, DeclaredBitField.wordOf, if_neg hbool,
    hshifted, DeclaredBitField.Shifts]
  by_cases hwidth : field.widthBits = 1
  · by_cases hy : y = 0
    · subst hy
      have hzero : (wrap field.widthBits true (field.cast 0)).toNat = 0 := by
        simp [DeclaredBitField.cast, ofBool, wrap]
      rw [hzero]
      exact iff_of_true ⟨field.pos, rfl⟩ (.inl (by omega))
    · have hone : (wrap field.widthBits true (field.cast y)).toNat = 1 := by
        simp [DeclaredBitField.cast, hwidth, hy, ofBool, wrap]
      refine iff_of_false (fun h => ?_) fun h => ?_
      · omega
      · rcases h with h | h
        · omega
        · exact h.1 hwidth
  · have hcast : wrap field.widthBits true (field.cast y) = y % 2 ^ field.widthBits := by
      rw [DeclaredBitField.cast, if_neg hwidth]
      rfl
    rw [hcast]
    by_cases hy : y < field.widthBits
    · have hpow : (field.widthBits : Int) < 2 ^ field.widthBits := by
        exact_mod_cast Nat.lt_two_pow_self
      rw [Int.emod_eq_of_lt hpos (Int.lt_trans hy hpow)]
      exact iff_of_true ⟨by omega, rfl⟩ (.inl hy)
    have hcountLt : (y % 2 ^ field.widthBits).toNat < field.widthBits ↔
        y % 2 ^ field.widthBits < field.widthBits := by omega
    rw [hcountLt, or_iff_right hy, and_iff_right hwidth]
    refine and_congr_right fun hlt => ?_
    exact ofInt_shifted_far (n := y.toNat) _ _ op (hcountLt.mpr hlt) (by omega)

theorem divisionDefined (hw : 0 < w) (u : Bool) (hop : op = .div ∨ op = .mod)
    (a b : BitVec w) :
    (opInstruction u (.arith op)).isDefined a b = true ↔
      Word.read u b ≠ 0 ∧ (u = true ∨ ¬(Word.read u a = -2 ^ (w - 1) ∧ Word.read u b = -1)) := by
  cases u with
  | true =>
    have hinstr : (opInstruction true (.arith op)).isDefined a b = (b != 0#w) := by
      rcases hop with rfl | rfl <;> rfl
    rw [hinstr]
    simp [read_eq_zero]
  | false =>
    have hinstr : (opInstruction false (.arith op)).isDefined a b =
        (b != 0#w && !(a == BitVec.intMin w && b == -1#w)) := by
      rcases hop with rfl | rfl <;> rfl
    have hleast : Word.read false a = -2 ^ (w - 1) ↔ a = BitVec.intMin w := by
      have hmin : Word.read false (BitVec.intMin w) = -2 ^ (w - 1) := by
        simp [Word.read, BitVec.toInt_intMin_of_pos hw]
      rw [← hmin, read_inj]
    have hone : Word.read false b = -1 ↔ b = -1#w := by
      have hneg : Word.read false (-1#w) = -1 := by
        rw [BitVec.neg_one_eq_allOnes]
        simp [Word.read, BitVec.toInt_allOnes, hw]
      rw [← hneg, read_inj]
    rw [hinstr, hleast, hone]
    simp [read_eq_zero, imp_iff_not_or]

theorem computes_division (hbool : field.declared ≠ .bool) (raw : BitVec field.storageBits)
    (hop : op = .div ∨ op = .mod) (y z : Int) :
    field.Computes (.arith op) (field.content raw) y ∧
        ofInt field.widthBits (field.computed (.arith op) (field.content raw) y) = field.wordOf z ↔
      field.Divides (field.content raw) y ∧
        field.convert (exactArith (field.content raw) (field.residue y) op) = field.convert z := by
  have hx : Word.read field.declared.isUnsigned (ofInt field.widthBits (field.content raw)) =
      field.content raw := by
    rw [← wrap_eq_read, DeclaredBitField.content, wrap_read]
  have hy : Word.read field.declared.isUnsigned (ofInt field.widthBits (field.cast y)) =
      field.residue y := (wrap_eq_read _ _).symm
  have hcomputed : field.computed (.arith op) (field.content raw) y =
      exactArith (field.content raw) (field.residue y) op := by
    have hrange : wrap field.widthBits field.declared.isUnsigned (field.content raw) =
        field.content raw := (wrap_eq_read _ _).trans hx
    rw [DeclaredBitField.computed, AssignOp.binary, exactBinary, hrange]
    rfl
  have hword (v : Int) : field.wordOf v = ofInt field.widthBits v := if_neg hbool
  rw [DeclaredBitField.Computes, divisionDefined field.pos _ hop, hx, hy, hcomputed,
    DeclaredBitField.Divides, ← field.read_wordOf, ← field.read_wordOf, read_inj, hword, hword]

theorem computesAsC_iff (op : AssignOp) (raw : BitVec field.storageBits)
    (hz : op.binary.apply m field.promoted b (field.content raw) y = some z) :
    field.Computes op (field.content raw) y ∧
        ofInt field.widthBits (field.computed op (field.content raw) y) = field.wordOf z ↔
      field.ComputesAsC op (field.content raw) y z := by
  unfold DeclaredBitField.ComputesAsC
  by_cases hbool : field.declared = .bool
  · rw [if_pos hbool]
    exact computes_bool hbool op raw y z
  rw [if_neg hbool]
  cases op with
  | arith op =>
    cases op with
    | mul | add | sub => simpa using computes_ring hbool raw (by decide) hz
    | div => exact computes_division hbool raw (.inl rfl) y z
    | mod => exact computes_division hbool raw (.inr rfl) y z
  | bit op =>
    have hbits := computes_bits hbool raw hz
    cases op <;> simpa using hbits
  | shift op => exact computes_shift hbool raw hz

-- Steps

theorem stepped_iff (isIncrement : Bool) (raw : BitVec field.storageBits)
    (hz : (CInteger.Binary.arith (stepOp isIncrement)).apply m field.promoted .int (field.content raw) 1 =
      some z) :
    stepped isIncrement (field.value raw) 1 = field.wordOf z ↔
      (field.declared = .bool → isIncrement = false ∨ field.content raw = 0) := by
  have hword : stepped isIncrement (field.value raw) 1 =
      ofInt field.widthBits (exactArith (field.content raw) 1 (stepOp isIncrement)) := by
    have hvalue : ofInt field.widthBits (field.content raw) = field.value raw := by
      rw [field.content_eq, ofInt_read]
    cases isIncrement with
    | true => simp [stepped, stepOp, exactArith, BitVec.ofInt_add, hvalue]
    | false =>
      simp [stepped, stepOp, exactArith, Int.sub_eq_add_neg, BitVec.ofInt_add, BitVec.ofInt_neg, hvalue,
        BitVec.sub_eq_add_neg]
  rw [hword, ← ofInt_ring (stepOp_ne isIncrement) hz, DeclaredBitField.wordOf]
  by_cases hbool : field.declared = .bool
  · have hwidth := field.bool_width hbool
    have hpromoted : field.promoted = .int := by
      rw [DeclaredBitField.promoted, if_pos (by omega)]
    rw [if_pos hbool, ofInt_eq_iff, hwidth, Int.pow_one]
    simp only [hbool, forall_const]
    rw [hpromoted] at hz
    rcases content_bool hbool raw with hx | hx
    · rw [hx] at hz ⊢
      have hresult : z = if isIncrement then 1 else -1 := by
        cases m <;> cases isIncrement <;> exact (Option.some.inj hz).symm
      cases isIncrement <;> simp [hresult, ofBool]
    · rw [hx] at hz ⊢
      have hresult : z = if isIncrement then 2 else 0 := by
        cases m <;> cases isIncrement <;> exact (Option.some.inj hz).symm
      cases isIncrement <;> simp [hresult, ofBool]
  · rw [if_neg hbool]
    exact iff_of_true rfl fun h => absurd h hbool

theorem step_exact_iff (isIncrement : Bool) (raw : BitVec field.storageBits) :
    (BitFieldUpdate.step isIncrement : BitFieldUpdate m).Exact field raw ↔
      ∀ z, (CInteger.Binary.arith (stepOp isIncrement)).apply m field.promoted .int
          (field.content raw) 1 = some z →
        field.widthBits = field.storageBits ∧
          (field.declared = .bool → isIncrement = false ∨ field.content raw = 0) := by
  refine forall₂_congr fun z hz => ?_
  by_cases hwidth : field.widthBits = field.storageBits
  · have hset := setTo_full field.toBitField raw hwidth isIncrement
    have hrun := stepBitfield_full isIncrement field.toBitField raw hwidth
    rw [and_iff_right hwidth, ← stepped_iff isIncrement raw hz, ← hset.becomes_iff]
    constructor
    · intro h
      obtain ⟨raw', hraw', hbecomes⟩ := h Int (constantFloats 0)
      obtain rfl := Option.some.inj (hrun.symm.trans hraw')
      exact hbecomes
    · intro h F fl
      exact ⟨_, hrun, h⟩
  · refine iff_of_false (fun h => ?_) fun h => hwidth h.1
    obtain ⟨raw', hraw', -⟩ := h Int (constantFloats 0)
    cases (stepBitfield_none isIncrement field.toBitField raw hwidth).symm.trans hraw'

theorem assign_exact_iff (v : Operand m) (raw : BitVec field.storageBits) :
    (BitFieldUpdate.assign v).Exact field raw ↔
      field.declared = .bool ∨ field.Keeps v.value ∧ (field.widthBits ≤ v.bits ∨ v.extended = v.value) := by
  have hset := cgStoreBitfield_setTo field.toBitField raw
    (ofInt field.widthBits (field.cast v.extended))
  have hrun (F : Type) (fl : Floats F) := @codegenAssignmentBitfield_simple m field raw F _ fl
    field.declared.isUnsigned v.parsed v.word
  rw [← assign_iff, ← hset.becomes_iff]
  constructor
  · intro h
    obtain ⟨raw', hraw', hbecomes⟩ := h _ rfl Int (constantFloats 0)
    obtain rfl := Option.some.inj ((hrun _ _).symm.trans hraw')
    exact hbecomes
  · intro h z hz F fl
    cases hz
    exact ⟨_, hrun F fl, h⟩

end

-- Every assignment

section
variable {m : DataModel} (field : DeclaredBitField m)

/-- The assignment is right where the field holds `x` and C has the value `z`. -/
def BitFieldUpdate.Fits (x z : Int) : BitFieldUpdate m → Prop
  | .assign v =>
    field.declared = .bool ∨ field.Keeps v.value ∧ (field.widthBits ≤ v.bits ∨ v.extended = v.value)
  | .compound op v => field.ComputesAsC op x v.value z
  | .step isIncrement =>
    field.widthBits = field.storageBits ∧ (field.declared = .bool → isIncrement = false ∨ x = 0)

theorem exact_iff (update : BitFieldUpdate m) (raw : BitVec field.storageBits) :
    update.Exact field raw ↔
      ∀ z, update.result field (field.content raw) = some z → update.Fits field (field.content raw) z := by
  cases update with
  | assign v =>
    rw [assign_exact_iff]
    constructor
    · intro h z _
      exact h
    · intro h
      exact h _ rfl
  | compound op v =>
    rw [compound_exact_iff]
    exact forall₂_congr fun z hz => computesAsC_iff op raw hz
  | step isIncrement => exact step_exact_iff isIncrement raw

end

def unsignedField (width : Nat) (pos : 0 < width) (fits : width ≤ 32) : DeclaredBitField .lp64 where
  storageBits := 32
  bitOffset := 0
  widthBits := width
  isSigned := false
  pos := pos
  fits := (Nat.zero_add width).symm ▸ fits
  declared := .uint
  signed := rfl
  within := fits

/-- An `unsigned char` of 200 is extended by its sign in a field of 16 bits, two is one
in a field of one bit, and `++` on a field of three bits is no code. -/
theorem bitFields_not_exact :
    ¬(BitFieldUpdate.assign ⟨8, 200#8, scalarOfInt .uchar, .uchar, by decide⟩).Exact
        (unsignedField 16 (by decide) (by decide)) 0#32 ∧
      ¬(BitFieldUpdate.assign ⟨32, 2#32, scalarOfInt .int, .int, by decide⟩).Exact
        (unsignedField 1 (by decide) (by decide)) 0#32 ∧
      ¬(BitFieldUpdate.step true).Exact (unsignedField 3 (by decide) (by decide)) 0#32 := by
  refine ⟨fun h => ?_, fun h => ?_, fun h => ?_⟩
  · rcases (assign_exact_iff _ _).mp h with hbool | ⟨-, hcut⟩
    · cases hbool
    · exact absurd hcut (by decide)
  · rcases (assign_exact_iff _ _).mp h with hbool | ⟨hkeeps, -⟩
    · cases hbool
    · exact absurd (hkeeps rfl) (by decide)
  · exact absurd ((step_exact_iff true _).mp h 1 rfl).1 (by decide)

end Fisics
