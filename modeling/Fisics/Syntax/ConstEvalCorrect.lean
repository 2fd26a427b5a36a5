import Fisics.Syntax.ConstEval

/-!
# Constant evaluation against C

Operator by operator the evaluator computes the value of C in a type of the right
width and sign, but for six defects: an enumerator has 64 bits; `+`, `-`, `~` and
the shifts do not promote a narrow operand; `&&` and `||` have 64 bits when the
left operand decides; `?:` has the type of the arm that is taken; a cast to `_Bool`
keeps the lowest bit; and on a target with a 32-bit `long` casts to `long` have 64
bits and a constant may miss `unsigned long`.

The evaluator may also give up where C has a value: a narrow operand shifted by its
own width or more is not constant.
-/

namespace Fisics

open CInteger (DataModel IntType Expr Leaves Unary Binary ArithOp ShiftOp CompareOp BitOp LogicOp ofBool)
open Option (all_some bind_eq_some_iff bind_some map_eq_some_iff)
open BitVec (ofInt ofInt_neg)
open CInteger.IntType (bool convert convert_holds shape_promote_iff wrap_of_holds)
open Word (wrap read)

variable {lhs rhs : ConstEvalResult} {t : IntType} {e : Expr ConstLeaf}

-- Truncation

theorem getLsbD_lowMask (h : bits < 64) (i : Nat) :
    (1#64 <<< bits - 1#64).getLsbD i = decide (i < bits) := by
  have hlt : 2 ^ bits < 2 ^ 64 := Nat.pow_lt_pow_right (by decide) h
  have hpos := Nat.two_pow_pos bits
  have htoNat : (1#64 <<< bits - 1#64).toNat = 2 ^ bits - 1 := by
    rw [BitVec.toNat_sub, BitVec.toNat_shiftLeft, BitVec.toNat_one (by decide), Nat.shiftLeft_eq,
      Nat.one_mul, Nat.mod_eq_of_lt hlt]
    omega
  rw [BitVec.getLsbD, htoNat, Nat.testBit_two_pow_sub_one]

theorem and_bit_ne_zero (h : i < 64) (v : BitVec 64) : (v &&& 1#64 <<< i != 0#64) = v.getLsbD i := by
  rw [← BitVec.twoPow_eq, BitVec.and_twoPow]
  cases v.getLsbD i with
  | true => ?_
  | false => rfl
  have hne : BitVec.twoPow 64 i ≠ 0#64 := by
    intro hzero
    have := congrArg BitVec.toNat hzero
    rw [BitVec.toNat_twoPow_of_lt h] at this
    exact absurd this (Nat.ne_of_gt (Nat.two_pow_pos i))
  simp [hne]

theorem truncateToWidth_extend (hpos : 0 < bits) (h : bits < 64) (u : Bool) (v : BitVec 64) :
    truncateToWidth v bits u =
      if u then (v.setWidth bits).setWidth 64 else (v.setWidth bits).signExtend 64 := by
  have hcond : ¬(bits = 0 ∨ 64 ≤ bits) := by omega
  have hmask := getLsbD_lowMask h
  have hlast : bits - 1 < bits := by omega
  unfold truncateToWidth
  rw [if_neg hcond]
  dsimp only
  generalize 1#64 <<< bits - 1#64 = mask at hmask
  have hsign : ((v &&& mask) &&& 1#64 <<< (bits - 1) != 0#64) = (v.setWidth bits).msb := by
    rw [and_bit_ne_zero (by omega), BitVec.getLsbD_and, hmask, BitVec.msb_eq_getLsbD_last,
      BitVec.getLsbD_setWidth]
    simp [hlast]
  rw [hsign]
  apply BitVec.eq_of_getLsbD_eq
  intro i hi
  cases u with
  | true =>
    simp only [Bool.not_true, Bool.false_and, Bool.false_eq_true, ↓reduceIte, BitVec.getLsbD_and,
      hmask, BitVec.getLsbD_setWidth, hi, decide_true, Bool.true_and, Bool.and_comm]
  | false => ?_
  simp only [Bool.not_false, Bool.true_and, Bool.false_eq_true, ↓reduceIte,
    BitVec.getLsbD_signExtend, hi, decide_true, BitVec.getLsbD_setWidth]
  cases (v.setWidth bits).msb <;> by_cases hlow : i < bits <;>
    simp only [hlow, ↓reduceIte, Bool.false_eq_true, BitVec.getLsbD_or, BitVec.getLsbD_and,
      BitVec.getLsbD_not, hmask, hi, decide_true, decide_false, Bool.and_true, Bool.and_false,
      Bool.not_true, Bool.not_false, Bool.or_false, Bool.false_or, Bool.true_and]

theorem truncateToWidth_eq (hpos : 0 < bits) (hle : bits ≤ 64) (u : Bool) (v : BitVec 64) :
    truncateToWidth v bits u = ofInt 64 (read u (v.setWidth bits)) := by
  obtain rfl | hlt := Nat.eq_or_lt_of_le hle
  · rw [BitVec.setWidth_eq, Word.ofInt_read]
    rfl
  · rw [truncateToWidth_extend hpos hlt]
    cases u with
    | true => simp only [Word.read, ↓reduceIte, BitVec.ofInt_natCast, BitVec.ofNat_toNat]
    | false => rfl

section
variable {m : DataModel} {t : IntType}

theorem truncate_ofInt (m : DataModel) (t : IntType) (z : Int) :
    truncateToWidth (ofInt 64 z) (t.bits m) t.isUnsigned =
      ofInt 64 (wrap (t.bits m) t.isUnsigned z) := by
  rw [truncateToWidth_eq (t.bits_pos m) (t.bits_le m), Word.setWidth_ofInt (t.bits_le m), Word.wrap_eq_read]

theorem read_ofInt (h : t.Holds m z) : read t.isUnsigned (ofInt 64 z) = z := by
  rw [← Word.wrap_eq_read]
  have hbits := t.bits_le m
  unfold IntType.Holds IntType.least IntType.limit at h
  cases hu : t.isUnsigned with
  | true =>
    rw [hu] at h
    refine Int.emod_eq_of_lt h.1 (Int.lt_of_lt_of_le h.2 ?_)
    exact pow_le_pow_right₀ (by decide) hbits
  | false => ?_
  rw [hu] at h
  have hpow : (2 : Int) ^ (t.bits m - 1) ≤ 2 ^ (64 - 1) :=
    pow_le_pow_right₀ (by decide) (Nat.sub_le_sub_right hbits 1)
  have := BitVec.toInt_ofInt_eq_self (w := 64) (by decide)
    (Int.le_trans (Int.neg_le_neg hpow) h.1) (Int.lt_of_lt_of_le h.2 hpow)
  rwa [BitVec.toInt_ofInt] at this

theorem ofInt_inj (hx : t.Holds m x) (hy : t.Holds m y) :
    ofInt 64 x = ofInt 64 y ↔ x = y := by
  constructor
  · intro h
    rw [← read_ofInt hx, h, read_ofInt hy]
  · rintro rfl
    rfl

theorem holds_zero (m : DataModel) (t : IntType) : t.Holds m 0 := by
  cases m <;> cases t <;> decide

theorem ofInt_eq_zero (h : t.Holds m z) : ofInt 64 z = 0 ↔ z = 0 :=
  ofInt_inj h (holds_zero m t)

def ConstEvalResult.HasValue (m : DataModel) (r : ConstEvalResult) (t : IntType) (z : Int) : Prop :=
  (r.bitWidth, r.isUnsigned) = t.shape m ∧ r.value = BitVec.ofInt 64 z

theorem defaultIntBits_dataLayout (m : DataModel) : defaultIntBits (dataLayout m) = 32 := by
  cases m <;> rfl

theorem make_hasValue (m : DataModel) (t : IntType) (z : Int) :
    (makeConstTyped (ofInt 64 z) (t.bits m) t.isUnsigned).HasValue m t
      (wrap (t.bits m) t.isUnsigned z) :=
  ⟨rfl, truncate_ofInt m t z⟩

theorem finalize_of_hasValue (h : r.HasValue m t z) (hz : t.Holds m z)
    (tl : TargetLayout) : finalizeWithExprType tl r = r := by
  obtain ⟨hshape, hvalue⟩ := h
  obtain ⟨value, bits, u⟩ := r
  obtain ⟨rfl, rfl⟩ := Prod.mk.inj hshape
  subst hvalue
  unfold finalizeWithExprType
  dsimp only
  rw [if_neg (Nat.ne_of_gt (t.bits_pos m)), truncate_ofInt, wrap_of_holds hz]

theorem finalize_make (m : DataModel) (t : IntType) (z : Int) (tl : TargetLayout) :
    finalizeWithExprType tl (makeConstTyped (ofInt 64 z) (t.bits m) t.isUnsigned) =
      makeConstTyped (ofInt 64 z) (t.bits m) t.isUnsigned :=
  finalize_of_hasValue (make_hasValue m t z) (t.wrap_holds m z) tl

/-- What `finalizeWithExprType (makeConstTyped ..)` leaves of a value that the type
has room for. -/
theorem finalize_make_hasValue (hz : wrap (t.bits m) t.isUnsigned z = v) (tl : TargetLayout) :
    (finalizeWithExprType tl
      (makeConstTyped (ofInt 64 z) (t.bits m) t.isUnsigned)).HasValue m t v := by
  rw [finalize_make, ← hz]
  exact make_hasValue m t z

theorem fit_eq_wrap (h : t.fit m z = some v) : wrap (t.bits m) t.isUnsigned z = v := by
  unfold IntType.fit at h
  split at h
  · rename_i hu
    rw [hu]
    exact Option.some.inj h
  split at h
  · rename_i hz
    rw [wrap_of_holds hz]
    exact Option.some.inj h
  · cases h

theorem bool_hasValue (m : DataModel) (b : Bool) (p : Prop) [Decidable p] (hb : p ↔ b = true) :
    (finalizeWithExprType (dataLayout m)
      (makeConstTyped (if p then 1 else 0) (defaultIntBits (dataLayout m)) false)).HasValue m .int
      (ofBool b) := by
  have hword : (if p then (1 : BitVec 64) else 0) = ofInt 64 (ofBool b) := by
    cases b with
    | true => rw [if_pos (hb.mpr rfl)]; rfl
    | false => rw [if_neg fun h => Bool.false_ne_true (hb.mp h)]; rfl
  rw [hword, defaultIntBits_dataLayout]
  exact finalize_make_hasValue (wrap_of_holds (IntType.int_holds_ofBool m b)) _

-- Operators

theorem IntType.usual_ne_bool (m : DataModel) (a b : IntType) : a.usual m b ≠ .bool := by
  cases m <;> cases a <;> cases b <;> decide

theorem convert_usual (m : DataModel) (a b : IntType) (z : Int) :
    (a.usual m b).convert m z = wrap ((a.usual m b).bits m) (a.usual m b).isUnsigned z := by
  rw [convert, if_neg (IntType.usual_ne_bool m a b)]

theorem ConstEvalResult.HasValue.operandBits_eq (h : r.HasValue m t z)
    (tl : TargetLayout) : operandBits tl r = t.bits m := by
  obtain ⟨hbits, -⟩ := Prod.mk.inj h.1
  rw [operandBits, hbits, if_neg (Nat.ne_of_gt (t.bits_pos m))]

theorem commonIntegerType_eq (hl : lhs.HasValue m a x) (hr : rhs.HasValue m b y) (tl : TargetLayout) :
    commonIntegerType tl lhs rhs = (a.usual m b).shape m := by
  obtain ⟨-, hlu⟩ := Prod.mk.inj hl.1
  obtain ⟨-, hru⟩ := Prod.mk.inj hr.1
  have h : usualArithmeticConversion 0
      (makeIntegerType (a.bits m) (!a.isUnsigned)) (makeIntegerType (b.bits m) (!b.isUnsigned)) =
      some (makeIntegerType ((a.usual m b).bits m) (!(a.usual m b).isUnsigned)) :=
    usualArithmeticConversion_infoOf m 0 a b
  unfold commonIntegerType
  rw [hl.operandBits_eq, hr.operandBits_eq, hlu, hru]
  dsimp only
  rw [h]
  simp only [makeIntegerType, Nat.ne_of_gt (IntType.bits_pos m _), ↓reduceIte, Bool.not_not]
  rfl

theorem truncate_operand {r : ConstEvalResult} (h : r.HasValue m s x) (m : DataModel) (a b : IntType) :
    truncateToWidth r.value ((a.usual m b).shape m).1 ((a.usual m b).shape m).2 =
      ofInt 64 ((a.usual m b).convert m x) := by
  rw [h.2, convert_usual]
  exact truncate_ofInt m _ x

theorem arithWords_eq (hx : t.Holds m x) (hy : t.Holds m y) (h : op.apply m t x y = some v) :
    ∃ z, arithWords t.isUnsigned (ofInt 64 x) (ofInt 64 y) op = ofInt 64 z ∧
      wrap (t.bits m) t.isUnsigned z = v := by
  have hdiv : y ≠ 0 → ofInt 64 y ≠ 0 := fun hne => mt (ofInt_eq_zero hy).mp hne
  have hrx := read_ofInt hx
  have hry := read_ofInt hy
  cases op with
  | add => exact ⟨x + y, (BitVec.ofInt_add ..).symm, fit_eq_wrap h⟩
  | sub =>
    refine ⟨x - y, ?_, fit_eq_wrap h⟩
    rw [Int.sub_eq_add_neg, BitVec.ofInt_add, ofInt_neg, ← BitVec.sub_eq_add_neg]
    rfl
  | mul => exact ⟨x * y, (BitVec.ofInt_mul ..).symm, fit_eq_wrap h⟩
  | div =>
    simp only [ArithOp.apply] at h
    split at h
    · cases h
    rename_i hne
    refine ⟨x.tdiv y, ?_, fit_eq_wrap h⟩
    rw [arithWords, if_neg (hdiv hne)]
    cases hu : t.isUnsigned with
    | true =>
      rw [hu] at hrx hry
      rw [if_pos rfl, ← Word.ofInt_read true (_ / _), Word.read_udiv, hrx, hry, Word.ofInt_wrap]
    | false =>
      rw [hu] at hrx hry
      rw [if_neg Bool.false_ne_true, ← Word.ofInt_read false (BitVec.sdiv _ _), Word.read_sdiv, hrx,
        hry, Word.ofInt_wrap]
  | mod =>
    simp only [ArithOp.apply] at h
    split at h
    · cases h
    rename_i hne
    obtain ⟨-, -, h⟩ := bind_eq_some_iff.mp h
    refine ⟨x.tmod y, ?_, fit_eq_wrap h⟩
    rw [arithWords, if_neg (hdiv hne)]
    cases hu : t.isUnsigned with
    | true =>
      rw [hu] at hrx hry
      rw [if_pos rfl, ← Word.ofInt_read true (_ % _), Word.read_umod, hrx, hry, Word.ofInt_wrap]
    | false =>
      rw [hu] at hrx hry
      rw [if_neg Bool.false_ne_true, ← Word.ofInt_read false (BitVec.srem _ _), Word.read_srem, hrx,
        hry, Word.ofInt_wrap]

theorem evalArithmetic_eq (hl : lhs.HasValue m a x)
    (hr : rhs.HasValue m b y) (hy : b.Holds m y) (op : ArithOp)
    (h : (Binary.arith op).apply m a b x y = some v) (tl : TargetLayout) :
    ∃ r, evalArithmetic tl op lhs rhs = some r ∧ r.HasValue m (a.usual m b) v := by
  have hnonzero : ¬((op = .div ∨ op = .mod) ∧ rhs.value = 0) := by
    rintro ⟨hop, hzero⟩
    rw [hr.2, ofInt_eq_zero hy] at hzero
    subst hzero
    have hconvert : (a.usual m b).convert m 0 = 0 := by
      rw [convert_usual]
      exact wrap_of_holds (holds_zero m _)
    rcases hop with rfl | rfl <;> simp [Binary.apply, ArithOp.apply, hconvert] at h
  obtain ⟨z, hz, hv⟩ := arithWords_eq (convert_holds m _ x) (convert_holds m _ y) h
  refine ⟨_, ?_, finalize_make_hasValue hv tl⟩
  rw [← hz]
  unfold evalArithmetic
  rw [if_neg hnonzero, commonIntegerType_eq hl hr]
  simp only [truncate_operand hl m a b, truncate_operand hr m a b]
  rfl

theorem onWords_setWidth (k : Nat) (v w : BitVec n) (op : BitOp) :
    (op.onWords v w).setWidth k = op.onWords (v.setWidth k) (w.setWidth k) := by
  cases op with
  | and => exact BitVec.setWidth_and
  | xor => exact BitVec.setWidth_xor
  | or => exact BitVec.setWidth_or

theorem evalBitwise_eq (hl : lhs.HasValue m a x) (hr : rhs.HasValue m b y) (op : BitOp)
    (h : (Binary.bit op).apply m a b x y = some v) (tl : TargetLayout) :
    (evalBitwise tl op lhs rhs).HasValue m (a.usual m b) v := by
  cases h
  have hbits := (a.usual m b).bits_le m
  unfold evalBitwise
  rw [commonIntegerType_eq hl hr]
  simp only [truncate_operand hl m a b, truncate_operand hr m a b]
  generalize hword : op.onWords (ofInt 64 ((a.usual m b).convert m x))
    (ofInt 64 ((a.usual m b).convert m y)) = word
  have hlow : op.onWords (ofInt ((a.usual m b).bits m) ((a.usual m b).convert m x))
      (ofInt ((a.usual m b).bits m) ((a.usual m b).convert m y)) =
      ofInt ((a.usual m b).bits m) word.toInt := by
    rw [← Word.setWidth_ofInt hbits, ← Word.setWidth_ofInt hbits, ← onWords_setWidth, hword,
      ← Word.setWidth_ofInt hbits, BitVec.ofInt_toInt]
  rw [BitOp.apply, hlow, ← Word.wrap_eq_read]
  have hresult := finalize_make_hasValue (m := m) (t := a.usual m b) (z := word.toInt) rfl tl
  rw [BitVec.ofInt_toInt] at hresult
  exact hresult

theorem compareWords_eq (hx : t.Holds m x) (hy : t.Holds m y) (op : CompareOp) :
    compareWords t.isUnsigned (ofInt 64 x) (ofInt 64 y) op = op.apply x y := by
  have hinj := ofInt_inj hx hy
  cases op with
  | lt | gt => rw [compareWords, Word.less_eq, read_ofInt hx, read_ofInt hy]; rfl
  | le | ge => rw [compareWords, Word.lessEqual_eq, read_ofInt hx, read_ofInt hy]; rfl
  | eq => simp [compareWords, CompareOp.apply, hinj, beq_eq_decide]
  | ne => simp [compareWords, CompareOp.apply, hinj, bne, beq_eq_decide]

theorem evalComparison_eq (hl : lhs.HasValue m a x) (hr : rhs.HasValue m b y) (op : CompareOp)
    (h : (Binary.compare op).apply m a b x y = some v) :
    (evalComparison (dataLayout m) op lhs rhs).HasValue m .int v := by
  cases h
  unfold evalComparison
  rw [commonIntegerType_eq hl hr]
  simp only [truncate_operand hl m a b, truncate_operand hr m a b]
  refine bool_hasValue m _ _ ?_
  rw [← compareWords_eq (convert_holds m _ x) (convert_holds m _ y) op]
  exact Iff.rfl

theorem shiftAmount_eq (hlow : 0 ≤ y) (hhigh : y < 64) : (ofInt 64 y).toInt = y := by
  rw [BitVec.toInt_ofInt]
  exact Int.bmod_eq_of_le (by omega) (by omega)

theorem evalShift_eq (hl : lhs.HasValue m a x)
    (hr : rhs.HasValue m b y) (hx : a.Holds m x) (op : ShiftOp) (hlow : 0 ≤ y) (hhigh : y < 64)
    (tl : TargetLayout) :
    if y < a.bits m then ∃ z, evalShift tl op lhs rhs =
        some (finalizeWithExprType tl (makeConstTyped (ofInt 64 z) (a.bits m) a.isUnsigned)) ∧
        (∀ v, op.apply m a x y = some v → wrap (a.bits m) a.isUnsigned z = v)
      else evalShift tl op lhs rhs = none := by
  obtain ⟨-, hu⟩ := Prod.mk.inj hl.1
  have hread := read_ofInt hx
  unfold evalShift
  rw [hl.operandBits_eq, hr.2, shiftAmount_eq hlow hhigh, hu, hl.2]
  dsimp only
  rw [truncate_ofInt, wrap_of_holds hx]
  split
  · have hcond : ¬(y < 0 ∨ (a.bits m : Int) ≤ y) := by omega
    rw [if_neg hcond]
    cases op with
    | shl =>
      refine ⟨x * 2 ^ y.toNat, ?_, ?_⟩
      · rw [BitVec.ofInt_mul, Word.ofInt_two_pow, BitVec.shiftLeft_eq_mul_twoPow]
      · intro v hv
        rw [ShiftOp.apply, if_neg hcond] at hv
        split at hv
        · cases hv
        · exact fit_eq_wrap hv
    | shr =>
      refine ⟨x / 2 ^ y.toNat, ?_, ?_⟩
      · cases hs : a.isUnsigned with
        | true =>
          rw [hs] at hread
          simp only [↓reduceIte]
          rw [← Word.ofInt_read true (_ >>> _), Word.read_ushiftRight, hread, Word.ofInt_wrap]
        | false => ?_
        rw [hs] at hread
        simp only [Bool.false_eq_true, ↓reduceIte]
        rw [← Word.ofInt_read false (BitVec.sshiftRight _ _), Word.read_sshiftRight, hread,
          Word.ofInt_wrap]
      · intro v hv
        rw [ShiftOp.apply, if_neg hcond] at hv
        cases hv
        exact wrap_of_holds (hx.shiftRight _)
  · exact if_pos (by omega)

theorem evalUnaryOp_eq (h : r.HasValue m t z) (hz : t.Holds m z) (op : Unary)
    (hop : op ≠ .logNot) (tl : TargetLayout) :
    ∃ y, evalUnaryOp tl r op =
        finalizeWithExprType tl (makeConstTyped (ofInt 64 y) (t.bits m) t.isUnsigned) ∧
      (t.isNarrow = false → ∀ v, op.apply m t z = some v → wrap (t.bits m) t.isUnsigned y = v) := by
  obtain ⟨-, hu⟩ := Prod.mk.inj h.1
  have hpromote : t.isNarrow = false → t.promote = t := fun hn => by rw [IntType.promote, hn]; rfl
  cases op with
  | plus =>
    refine ⟨z, by rw [evalUnaryOp, h.operandBits_eq, hu, h.2], fun _ v hv => ?_⟩
    cases hv
    exact wrap_of_holds hz
  | minus =>
    refine ⟨-z, by rw [evalUnaryOp, h.operandBits_eq, hu, h.2, ofInt_neg], fun hn v hv => ?_⟩
    rw [Unary.apply, hpromote hn] at hv
    exact fit_eq_wrap hv
  | bitNot =>
    refine ⟨-z - 1, ?_, fun hn v hv => ?_⟩
    · rw [evalUnaryOp, h.operandBits_eq, hu, h.2, Int.sub_eq_add_neg, BitVec.ofInt_add,
        ofInt_neg, ofInt_neg, BitVec.not_eq_neg_add, BitVec.sub_eq_add_neg]
      rfl
    · rw [Unary.apply, hpromote hn] at hv
      exact fit_eq_wrap hv
  | logNot => exact absurd rfl hop

theorem evalUnaryOp_logNot (h : r.HasValue m t z) (hz : t.Holds m z) :
    (evalUnaryOp (dataLayout m) r .logNot).HasValue m .int (ofBool (z = 0)) := by
  refine bool_hasValue m _ _ ?_
  rw [h.2, ofInt_eq_zero hz, decide_eq_true_eq]

theorem typeInfoOfIntType_eq (t : IntType) :
    ((typeInfoOfIntType t).bitWidth, !(typeInfoOfIntType t).isSigned) = t.shape .lp64 := by
  cases t <;> rfl

theorem shape_lp64 (m : DataModel) (t : IntType) :
    t.shape .lp64 = t.shape m ↔ ¬(m = .llp64 ∧ (t = .long ∨ t = .ulong)) := by
  cases m <;> cases t <;> decide

theorem evalCast_eq (tl : TargetLayout) (t : IntType) (z : Int) :
    makeConstTyped (evalCast tl (ofInt 64 z) t).value
      (evalCast tl (ofInt 64 z) t).bitWidth (evalCast tl (ofInt 64 z) t).isUnsigned =
      makeConstTyped (ofInt 64 z) (t.bits .lp64) t.isUnsigned := by
  obtain ⟨hbits, hu⟩ := Prod.mk.inj (typeInfoOfIntType_eq t)
  unfold evalCast makeConstTyped
  dsimp only
  rw [hbits, hu, if_neg (Nat.ne_of_gt (t.bits_pos .lp64)), truncate_ofInt, truncate_ofInt, Word.wrap_wrap]

theorem wrap_bool (z : Int) :
    wrap (bool.bits .lp64) bool.isUnsigned z = bool.convert .lp64 z ↔
      z = 0 ∨ z % 2 ≠ 0 := by
  have hwrap : wrap (bool.bits .lp64) bool.isUnsigned z = z % 2 := rfl
  rw [hwrap, convert, if_pos rfl]
  split <;> omega

end

-- Trees

def enumValue (scope : Scope) (name : String) : Option Int :=
  (scope name).bind fun sym =>
    if sym.kind = .enum then (sym.constValue <|> sym.ordinal).map BitVec.toInt else none

/-- Literals and enumeration constants in C. An enumeration constant is an `int`;
the program has none that an `int` does not hold. -/
def constLeaves (m : DataModel) (scope : Scope) : Leaves m ConstLeaf where
  type
    | .number c => (c.type? m).getD .int
    | .identifier _ => .int
  value
    | .number c => (c.type? m).map fun _ => (c.value : Int)
    | .identifier name => (enumValue scope name).filter fun z => IntType.int.Holds m z
  holds := by
    intro a z h
    cases a with
    | number c =>
      obtain ⟨t, ht, rfl⟩ := Option.map_eq_some_iff.mp h
      simp only [ht, Option.getD_some]
      exact IntConstant.type?_holds ht
    | identifier name =>
      exact of_decide_eq_true (Option.filter_eq_some_iff.mp h).2

section
variable (m : DataModel) (scope : Scope) (allowEnumRefs : Bool)

/-- The evaluator has a result where C has a value: no enumerator where they are
not allowed, and no shift of an operand by its own width or more. -/
def folds : Expr ConstLeaf → Bool
  | .leaf (.number _) => true
  | .leaf (.identifier _) => allowEnumRefs
  | .cast _ e => folds e
  | .unary _ e => folds e
  | .binary op l r =>
    folds l && folds r && (!op.isShift || (r.eval (constLeaves m scope)).all fun y : Int =>
      y < (l.typeOf (constLeaves m scope)).bits m)
  | .logic op l r => folds l && ((l.eval (constLeaves m scope)).all op.decides || folds r)
  | .cond c a b =>
    folds c && (c.eval (constLeaves m scope)).all fun z => if z ≠ 0 then folds a else folds b

def miscomputes : Expr ConstLeaf → Bool
  | .leaf (.number c) => c.missesUnsignedLong m
  | .leaf (.identifier _) => true
  | .cast t e =>
    if t = .bool then (e.eval (constLeaves m scope)).any fun z => z ≠ 0 && z % 2 = 0
    else m = .llp64 && (t = .long || t = .ulong)
  | .unary op e => op ≠ .logNot && (e.typeOf (constLeaves m scope)).isNarrow
  | .binary op l _ => op.isShift && (l.typeOf (constLeaves m scope)).isNarrow
  | .logic op l _ => (l.eval (constLeaves m scope)).any op.decides
  | .cond c a b =>
    (c.eval (constLeaves m scope)).any fun z =>
      ((if z ≠ 0 then a else b).typeOf (constLeaves m scope)).shape m ≠
        ((Expr.cond c a b).typeOf (constLeaves m scope)).shape m

/-- What the evaluator makes of an expression with a value, given that its parts
are computed right. -/
def Computes (e : Expr ConstLeaf) : Prop :=
  ∀ z, e.eval (constLeaves m scope) = some z →
    if folds m scope allowEnumRefs e then
      ∃ r, constEvalInternal (dataLayout m) scope allowEnumRefs e = some r ∧
        (r.HasValue m (e.typeOf (constLeaves m scope)) z ↔ miscomputes m scope e = false)
    else constEvalInternal (dataLayout m) scope allowEnumRefs e = none

def ComputesRight (e : Expr ConstLeaf) : Prop :=
  ∀ z, e.eval (constLeaves m scope) = some z →
    if folds m scope allowEnumRefs e then
      ∃ r, constEvalInternal (dataLayout m) scope allowEnumRefs e = some r ∧
        r.HasValue m (e.typeOf (constLeaves m scope)) z
    else constEvalInternal (dataLayout m) scope allowEnumRefs e = none

variable {m} {scope} {allowEnumRefs}

theorem folds_cast : folds m scope allowEnumRefs (.cast t e) = folds m scope allowEnumRefs e := rfl

theorem folds_unary : folds m scope allowEnumRefs (.unary op e) = folds m scope allowEnumRefs e := rfl

theorem folds_binary :
    folds m scope allowEnumRefs (.binary op l r) =
      (folds m scope allowEnumRefs l && folds m scope allowEnumRefs r &&
        (!op.isShift || (r.eval (constLeaves m scope)).all fun y : Int =>
          y < (l.typeOf (constLeaves m scope)).bits m)) := rfl

theorem folds_logic :
    folds m scope allowEnumRefs (.logic op l r) =
      (folds m scope allowEnumRefs l &&
        ((l.eval (constLeaves m scope)).all op.decides || folds m scope allowEnumRefs r)) := rfl

theorem folds_cond :
    folds m scope allowEnumRefs (.cond c a b) =
      (folds m scope allowEnumRefs c && (c.eval (constLeaves m scope)).all fun z =>
        if z ≠ 0 then folds m scope allowEnumRefs a else folds m scope allowEnumRefs b) := rfl

theorem miscomputes_cast :
    miscomputes m scope (.cast t e) =
      if t = .bool then (e.eval (constLeaves m scope)).any fun z => z ≠ 0 && z % 2 = 0
      else m = .llp64 && (t = .long || t = .ulong) := rfl

theorem miscomputes_unary :
    miscomputes m scope (.unary op e) = (op ≠ .logNot && (e.typeOf (constLeaves m scope)).isNarrow) := rfl

theorem miscomputes_binary :
    miscomputes m scope (.binary op l r) = (op.isShift && (l.typeOf (constLeaves m scope)).isNarrow) := rfl

theorem miscomputes_logic :
    miscomputes m scope (.logic op l r) = (l.eval (constLeaves m scope)).any op.decides := rfl

theorem miscomputes_cond :
    miscomputes m scope (.cond c a b) = (c.eval (constLeaves m scope)).any fun z =>
      ((if z ≠ 0 then a else b).typeOf (constLeaves m scope)).shape m ≠
        ((Expr.cond c a b).typeOf (constLeaves m scope)).shape m := rfl

theorem literalMasked_of_holds {n : Nat} (h : t.Holds m n) :
    literalMasked n (t.bits m) t.isUnsigned false = n := by
  have hlt : n < 2 ^ t.bits m := by
    rw [holds_natCast] at h
    refine Nat.lt_of_lt_of_le h (Nat.pow_le_pow_right (by decide) ?_)
    split
    · exact Nat.le_refl _
    · exact Nat.sub_le _ _
  unfold literalMasked
  split
  · simp only [Bool.and_false, Bool.false_eq_true, ↓reduceIte]
    exact Nat.mod_eq_of_lt hlt
  · rfl

theorem computes_number (c : IntConstant) : Computes m scope allowEnumRefs (.leaf (.number c)) := by
  intro z hz
  obtain ⟨t, ht, rfl⟩ := map_eq_some_iff.mp hz
  have hholds := IntConstant.type?_holds ht
  have htype : (Expr.leaf (ConstLeaf.number c)).typeOf (constLeaves m scope) = t := by
    show (c.type? m).getD .int = t
    rw [ht]
    rfl
  obtain ⟨range, hparse⟩ := c.parse (dataLayout m)
  rw [c.choose ht] at hparse
  have hfolds : folds m scope allowEnumRefs (.leaf (.number c)) = true := rfl
  have hmis : miscomputes m scope (.leaf (.number c)) = c.missesUnsignedLong m := rfl
  rw [if_pos hfolds, htype, constEvalInternal_number, hparse, hmis]
  cases hmiss : c.missesUnsignedLong m with
  | true =>
    obtain ⟨rfl, rfl⟩ := c.ulong_of_misses ht hmiss
    refine ⟨_, rfl, ?_⟩
    simp [ConstEvalResult.HasValue, makeConstTyped, IntType.shape, IntType.bits, IntType.isUnsigned]
  | false => ?_
  refine ⟨_, rfl, ?_⟩
  simp only [iff_true]
  rw [literalMasked_of_holds hholds, ← BitVec.ofInt_natCast]
  have hvalue := make_hasValue m t c.value
  rwa [wrap_of_holds hholds] at hvalue

theorem computes_identifier (name : String) :
    Computes m scope allowEnumRefs (.leaf (.identifier name)) := by
  intro z hz
  obtain ⟨henum, -⟩ := Option.filter_eq_some_iff.mp hz
  obtain ⟨sym, hsym, henum⟩ := bind_eq_some_iff.mp henum
  split at henum
  · rename_i hkind
    obtain ⟨value, hvalue, -⟩ := map_eq_some_iff.mp henum
    have heval : evalIdentifier scope name allowEnumRefs =
        if allowEnumRefs then some value else none := by
      rw [evalIdentifier, hsym, bind_some, hvalue]
      cases allowEnumRefs <;> simp [hkind]
    have hfolds : folds m scope allowEnumRefs (.leaf (.identifier name)) = allowEnumRefs := rfl
    rw [hfolds, constEvalInternal_identifier, heval]
    cases allowEnumRefs with
    | true => ?_
    | false => rfl
    refine ⟨_, rfl, ?_⟩
    have hbits : IntType.int.bits m = 32 := by cases m <;> rfl
    simp [ConstEvalResult.HasValue, makeConst, makeConstTyped, finalizeWithExprType, IntType.shape,
      Expr.typeOf, constLeaves, miscomputes, hbits]
  · cases henum

theorem hasValue_make_iff (m : DataModel) (s t : IntType) (z v : Int) (tl : TargetLayout)
    (h : s.shape m = t.shape m → wrap (s.bits m) s.isUnsigned z = v) :
    (finalizeWithExprType tl
        (makeConstTyped (ofInt 64 z) (s.bits m) s.isUnsigned)).HasValue m t v ↔
      s.shape m = t.shape m := by
  rw [finalize_make]
  constructor
  · intro hvalue
    exact hvalue.1
  · intro hshape
    refine ⟨hshape, ?_⟩
    rw [← h hshape]
    exact truncate_ofInt m s z

theorem hasValue_cast_iff (m : DataModel) (t : IntType) (x : Int) :
    (makeConstTyped (ofInt 64 x) (t.bits .lp64) t.isUnsigned).HasValue m t (t.convert m x) ↔
      t.shape .lp64 = t.shape m ∧ (t = .bool → x = 0 ∨ x % 2 ≠ 0) := by
  constructor
  · rintro ⟨hshape, hvalue⟩
    refine ⟨hshape, ?_⟩
    rintro rfl
    have hbool : bool.convert m x = bool.convert .lp64 x := rfl
    rw [hbool] at hvalue
    refine (wrap_bool x).mp ((ofInt_inj (IntType.wrap_holds .lp64 .bool x)
      (convert_holds .lp64 .bool x)).mp ?_)
    rw [← hvalue]
    exact (truncate_ofInt .lp64 .bool x).symm
  · rintro ⟨hshape, hbool⟩
    refine ⟨hshape, (truncate_ofInt .lp64 t x).trans (congrArg _ ?_)⟩
    by_cases ht : t = .bool
    · subst ht
      exact (wrap_bool x).mpr (hbool rfl)
    · rw [convert, if_neg ht, (Prod.mk.inj hshape).1]

theorem computes_cast (he : ComputesRight m scope allowEnumRefs e) (t : IntType) :
    Computes m scope allowEnumRefs (.cast t e) := by
  intro z hz
  obtain ⟨x, hx, rfl⟩ := map_eq_some_iff.mp hz
  have he := he x hx
  rw [folds_cast, constEvalInternal_cast]
  split at he
  · rename_i hfolds
    obtain ⟨r, hr, hvalue⟩ := he
    rw [if_pos hfolds, hr]
    refine ⟨_, rfl, ?_⟩
    dsimp only
    rw [hvalue.2, evalCast_eq, miscomputes_cast, hx, Expr.typeOf, hasValue_cast_iff, shape_lp64]
    by_cases hbool : t = .bool
    · subst hbool
      simp
      omega
    · simp [hbool]
  · rename_i hfolds
    rw [if_neg hfolds, he]
    rfl

theorem computes_unary (he : ComputesRight m scope allowEnumRefs e) (op : Unary) :
    Computes m scope allowEnumRefs (.unary op e) := by
  intro z hz
  obtain ⟨x, hx, hz⟩ := bind_eq_some_iff.mp hz
  have hholds := e.eval_holds hx
  have he := he x hx
  rw [folds_unary, constEvalInternal_unary]
  split at he
  · rename_i hfolds
    obtain ⟨r, hr, hvalue⟩ := he
    rw [if_pos hfolds, hr]
    refine ⟨_, rfl, ?_⟩
    dsimp only
    rw [miscomputes_unary]
    by_cases hop : op = .logNot
    · subst hop
      cases hz
      have hnot := evalUnaryOp_logNot hvalue hholds
      exact iff_of_true hnot rfl
    obtain ⟨y, hy, hwrap⟩ := evalUnaryOp_eq hvalue hholds op hop (dataLayout m)
    have htype : (Expr.unary op e).typeOf (constLeaves m scope) =
        (e.typeOf (constLeaves m scope)).promote := by
      cases op <;> first | rfl | exact absurd rfl hop
    rw [hy, htype, hasValue_make_iff]
    · rw [shape_promote_iff]
      simp [hop]
    · intro hshape
      exact hwrap ((shape_promote_iff m _).mp hshape) z hz
  · rename_i hfolds
    rw [if_neg hfolds, he]
    rfl

theorem evalShift_computes (hl : lhs.HasValue m a x)
    (hr : rhs.HasValue m b y) (hx : a.Holds m x) (op : ShiftOp)
    (h : op.apply m a.promote x y = some z) (tl : TargetLayout) :
    if y < a.bits m then ∃ r, evalShift tl op lhs rhs = some r ∧
        (r.HasValue m a.promote z ↔ a.isNarrow = false)
      else evalShift tl op lhs rhs = none := by
  have hamount : ¬(y < 0 ∨ (a.promote.bits m : Int) ≤ y) := by
    intro hout
    unfold ShiftOp.apply at h
    rw [if_pos hout] at h
    cases h
  have hbits := a.promote.bits_le m
  have hshift := evalShift_eq hl hr hx op (by omega) (by omega) tl
  split at hshift
  · rename_i hlt
    obtain ⟨w, hw, hvalue⟩ := hshift
    rw [if_pos hlt, hw]
    refine ⟨_, rfl, ?_⟩
    rw [hasValue_make_iff, shape_promote_iff]
    intro hshape
    rw [shape_promote_iff] at hshape
    rw [IntType.promote, hshape] at h
    exact hvalue z h
  · rename_i hge
    rw [if_neg hge]
    exact hshift

theorem computes_binary (hl : ComputesRight m scope allowEnumRefs l)
    (hr : ComputesRight m scope allowEnumRefs r) (op : Binary) :
    Computes m scope allowEnumRefs (.binary op l r) := by
  intro z hz
  obtain ⟨x, hx, hz⟩ := bind_eq_some_iff.mp hz
  obtain ⟨y, hy, hz⟩ := bind_eq_some_iff.mp hz
  have hxholds := l.eval_holds hx
  have hyholds := r.eval_holds hy
  have hl := hl x hx
  have hr := hr y hy
  rw [folds_binary, constEvalInternal_binary]
  split at hl
  · rename_i hlfolds
    obtain ⟨lhs, hlhs, hlvalue⟩ := hl
    rw [hlfolds, hlhs, bind_some, Bool.true_and]
    split at hr
    · rename_i hrfolds
      obtain ⟨rhs, hrhs, hrvalue⟩ := hr
      rw [hrfolds, hrhs, bind_some, Bool.true_and]
      cases op with
      | arith op =>
        obtain ⟨res, hres, hvalue⟩ :=
          evalArithmetic_eq hlvalue hrvalue hyholds op hz (dataLayout m)
        exact ⟨res, hres, iff_of_true hvalue rfl⟩
      | bit op =>
        have hvalue := evalBitwise_eq hlvalue hrvalue op hz (dataLayout m)
        exact ⟨_, rfl, iff_of_true hvalue rfl⟩
      | compare op =>
        have hvalue := evalComparison_eq hlvalue hrvalue op hz
        exact ⟨_, rfl, iff_of_true hvalue rfl⟩
      | shift op =>
        have hshift := evalShift_computes hlvalue hrvalue hxholds op hz (dataLayout m)
        simp only [hy, Binary.isShift, Bool.not_true, Bool.false_or, all_some,
          decide_eq_true_eq, miscomputes_binary, Bool.true_and]
        exact hshift
    · rename_i hrfolds
      rw [hr, eq_false_of_ne_true hrfolds, Bool.false_and, if_neg Bool.false_ne_true]
      rfl
  · rename_i hlfolds
    rw [hl, eq_false_of_ne_true hlfolds, Bool.false_and, Bool.false_and, if_neg Bool.false_ne_true]
    rfl

theorem shortCircuits_eq {r : ConstEvalResult} (h : r.HasValue m t x)
    (hx : t.Holds m x) (op : LogicOp) : shortCircuits r.value op = op.decides x := by
  have hzero : r.value = 0 ↔ x = 0 := by rw [h.2, ofInt_eq_zero hx]
  cases op with
  | and => exact decide_eq_decide.mpr hzero
  | or => exact decide_eq_decide.mpr (not_congr hzero)

theorem computes_logic (hl : ComputesRight m scope allowEnumRefs l)
    (op : LogicOp) (hr : (l.eval (constLeaves m scope)).all op.decides = false →
      ComputesRight m scope allowEnumRefs r) :
    Computes m scope allowEnumRefs (.logic op l r) := by
  intro z hz
  obtain ⟨x, hx, hz⟩ := bind_eq_some_iff.mp hz
  have hl := hl x hx
  have hint : IntType.int.shape m = (32, false) := by cases m <;> rfl
  rw [hx, all_some] at hr
  rw [folds_logic, constEvalInternal_logic, miscomputes_logic, hx]
  split at hl
  · rename_i hlfolds
    obtain ⟨lhs, hlhs, hlvalue⟩ := hl
    rw [hlfolds, hlhs, bind_some, Bool.true_and, shortCircuits_eq hlvalue (l.eval_holds hx)]
    cases hdecides : op.decides x with
    | true =>
      simp only [all_some, Option.any_some, hdecides, Bool.true_or, ↓reduceIte]
      refine ⟨_, rfl, ?_⟩
      refine iff_of_false ?_ Bool.true_eq_false.mp
      rintro ⟨hshape, -⟩
      exact absurd (Prod.mk.inj hshape).1 (by decide : ¬64 = 32)
    | false =>
      rw [hdecides] at hz
      obtain ⟨y, hy, rfl⟩ := map_eq_some_iff.mp hz
      have hr := hr hdecides y hy
      simp only [all_some, Option.any_some, hdecides, Bool.false_or, Bool.false_eq_true, ↓reduceIte]
      split at hr
      · rename_i hrfolds
        obtain ⟨rhs, hrhs, hrvalue⟩ := hr
        rw [if_pos hrfolds, hrhs]
        refine ⟨_, rfl, iff_of_true ?_ trivial⟩
        have hswap : (if rhs.value = 0 then (0 : BitVec 64) else 1) =
            if rhs.value ≠ 0 then 1 else 0 := (ite_not ..).symm
        dsimp only
        rw [hswap]
        refine bool_hasValue m _ _ ?_
        rw [hrvalue.2, Ne, ofInt_eq_zero (r.eval_holds hy), decide_eq_true_eq]
      · rename_i hrfolds
        rw [if_neg hrfolds, hr]
        rfl
  · rename_i hlfolds
    rw [hl, eq_false_of_ne_true hlfolds, Bool.false_and, if_neg Bool.false_ne_true]
    rfl

theorem computes_arm (he : ComputesRight m scope allowEnumRefs e)
    (hx : e.eval (constLeaves m scope) = some x) (t : IntType) (ht : t ≠ .bool) :
    if folds m scope allowEnumRefs e then
      ∃ r, (constEvalInternal (dataLayout m) scope allowEnumRefs e).map
          (finalizeWithExprType (dataLayout m)) = some r ∧
        (r.HasValue m t (t.convert m x) ↔ (e.typeOf (constLeaves m scope)).shape m = t.shape m)
    else (constEvalInternal (dataLayout m) scope allowEnumRefs e).map
      (finalizeWithExprType (dataLayout m)) = none := by
  have hholds := e.eval_holds hx
  have he := he x hx
  split at he
  · rename_i hfolds
    obtain ⟨r, hr, hvalue⟩ := he
    rw [if_pos hfolds, hr]
    refine ⟨_, rfl, ?_⟩
    rw [finalize_of_hasValue hvalue hholds]
    constructor
    · rintro ⟨hshape, -⟩
      exact hvalue.1.symm.trans hshape
    · intro hshape
      obtain ⟨hbits, hu⟩ := Prod.mk.inj hshape
      refine ⟨hvalue.1.trans hshape, ?_⟩
      rw [hvalue.2, convert, if_neg ht, ← hbits, ← hu, wrap_of_holds hholds]
  · rename_i hfolds
    rw [if_neg hfolds, he]
    rfl

theorem computes_cond (hc : ComputesRight m scope allowEnumRefs c)
    (harm : ∀ z, c.eval (constLeaves m scope) = some z →
      ComputesRight m scope allowEnumRefs (if z ≠ 0 then a else b)) :
    Computes m scope allowEnumRefs (.cond c a b) := by
  intro v hv
  obtain ⟨z, hz, hv⟩ := bind_eq_some_iff.mp hv
  have harm := harm z hz
  have hc := hc z hz
  have hne := IntType.usual_ne_bool m (a.typeOf (constLeaves m scope)) (b.typeOf (constLeaves m scope))
  rw [folds_cond, constEvalInternal_cond, miscomputes_cond, hz]
  split at hc
  · rename_i hcfolds
    obtain ⟨cond, hcond, hcvalue⟩ := hc
    have hzero : cond.value ≠ 0 ↔ z ≠ 0 := by
      rw [hcvalue.2, Ne, ofInt_eq_zero (c.eval_holds hz)]
    simp only [hcond, hcfolds, bind_some, all_some, Option.any_some, Bool.true_and, hzero]
    split at hv
    · rename_i htaken
      obtain ⟨x, hx, rfl⟩ := map_eq_some_iff.mp hv
      rw [if_pos htaken] at harm
      have harm := computes_arm harm hx _ hne
      simpa [htaken, Expr.typeOf] using harm
    · rename_i hskipped
      obtain ⟨x, hx, rfl⟩ := map_eq_some_iff.mp hv
      rw [if_neg hskipped] at harm
      have harm := computes_arm harm hx _ hne
      simpa [hskipped, Expr.typeOf] using harm
  · rename_i hcfolds
    rw [hc, eq_false_of_ne_true hcfolds, Bool.false_and, if_neg Bool.false_ne_true]
    rfl

-- Expressions without a defect

def MeetsC (m : DataModel) (scope : Scope) (allowEnumRefs : Bool) (e : Expr ConstLeaf) : Prop :=
  ∀ r z, constEvalInternal (dataLayout m) scope allowEnumRefs e = some r →
    e.eval (constLeaves m scope) = some z → r.HasValue m (e.typeOf (constLeaves m scope)) z

def Clean (m : DataModel) (scope : Scope) (allowEnumRefs : Bool) (e : Expr ConstLeaf) : Prop :=
  ∀ s ∈ e.evaluated (constLeaves m scope), (s.eval (constLeaves m scope)).isSome →
    folds m scope allowEnumRefs s → miscomputes m scope s = false

theorem Computes.right (h : Computes m scope allowEnumRefs e)
    (hclean : (e.eval (constLeaves m scope)).isSome → folds m scope allowEnumRefs e →
      miscomputes m scope e = false) :
    ComputesRight m scope allowEnumRefs e := by
  intro z hz
  have h := h z hz
  split at h
  · rename_i hfolds
    obtain ⟨r, hr, hvalue⟩ := h
    rw [if_pos hfolds]
    exact ⟨r, hr, hvalue.mpr (hclean (by rw [hz]; rfl) hfolds)⟩
  · rename_i hfolds
    rw [if_neg hfolds]
    exact h

structure Settled (m : DataModel) (scope : Scope) (allowEnumRefs : Bool) (e : Expr ConstLeaf) :
    Prop where
  right : Clean m scope allowEnumRefs e → ComputesRight m scope allowEnumRefs e
  clean : (∀ s ∈ e.evaluated (constLeaves m scope), MeetsC m scope allowEnumRefs s) →
    Clean m scope allowEnumRefs e

theorem settled_of_parts (parts : List (Expr ConstLeaf))
    (hparts : e.evaluated (constLeaves m scope) = e :: parts.flatMap (·.evaluated (constLeaves m scope)))
    (hsettled : ∀ p ∈ parts, Settled m scope allowEnumRefs p)
    (hcomputes : (∀ p ∈ parts, ComputesRight m scope allowEnumRefs p) →
      Computes m scope allowEnumRefs e) : Settled m scope allowEnumRefs e := by
  have hmem : ∀ p ∈ parts, ∀ s ∈ p.evaluated (constLeaves m scope),
      s ∈ e.evaluated (constLeaves m scope) := by
    intro p hp s hs
    rw [hparts]
    exact List.mem_cons_of_mem _ (List.mem_flatMap.mpr ⟨p, hp, hs⟩)
  constructor
  · intro hclean
    refine (hcomputes fun p hp => (hsettled p hp).right ?_).right (hclean e (e.mem_evaluated_self _))
    exact fun s hs => hclean s (hmem p hp s hs)
  · intro hmeets
    have hclean : ∀ p ∈ parts, Clean m scope allowEnumRefs p := fun p hp =>
      (hsettled p hp).clean fun s hs => hmeets s (hmem p hp s hs)
    have hcomp := hcomputes fun p hp => (hsettled p hp).right (hclean p hp)
    intro s hs hdefined hfolds
    rw [hparts] at hs
    obtain rfl | hs := List.mem_cons.mp hs
    · obtain ⟨z, hz⟩ := Option.isSome_iff_exists.mp hdefined
      have hcomp := hcomp z hz
      rw [if_pos hfolds] at hcomp
      obtain ⟨r, hr, hvalue⟩ := hcomp
      exact hvalue.mp (hmeets s (s.mem_evaluated_self _) r z hr hz)
    · obtain ⟨p, hp, hs⟩ := List.mem_flatMap.mp hs
      exact hclean p hp s hs hdefined hfolds

theorem settled (m : DataModel) (scope : Scope) (allowEnumRefs : Bool) (e : Expr ConstLeaf) :
    Settled m scope allowEnumRefs e := by
  induction e with
  | leaf a =>
    refine settled_of_parts [] rfl (fun p hp => by cases hp) fun _ => ?_
    cases a with
    | number c => exact computes_number c
    | identifier name => exact computes_identifier name
  | cast t e ih =>
    refine settled_of_parts [e] (by simp [Expr.evaluated]) (by simpa using ih) fun h => ?_
    exact computes_cast (h e List.mem_cons_self) t
  | unary op e ih =>
    refine settled_of_parts [e] (by simp [Expr.evaluated]) (by simpa using ih) fun h => ?_
    exact computes_unary (h e List.mem_cons_self) op
  | binary op l r ihl ihr =>
    refine settled_of_parts [l, r] (by simp [Expr.evaluated]) (by simpa using ⟨ihl, ihr⟩) fun h => ?_
    exact computes_binary (h l (by simp)) (h r (by simp)) op
  | logic op l r ihl ihr =>
    cases hdecides : (l.eval (constLeaves m scope)).all op.decides with
    | true =>
      refine settled_of_parts [l] (by simp [Expr.evaluated, hdecides]) (by simpa using ihl) fun h => ?_
      refine computes_logic (h l (by simp)) op fun hr => ?_
      exact absurd (hdecides.symm.trans hr) Bool.true_eq_false.mp
    | false =>
      refine settled_of_parts [l, r] (by simp [Expr.evaluated, hdecides])
        (by simpa using ⟨ihl, ihr⟩) fun h => ?_
      exact computes_logic (h l (by simp)) op fun _ => h r (by simp)
  | cond c a b ihc iha ihb =>
    cases hc : c.eval (constLeaves m scope) with
    | none =>
      refine settled_of_parts [c] (by simp [Expr.evaluated, hc]) (by simpa using ihc) fun h => ?_
      refine computes_cond (h c (by simp)) fun z hz => ?_
      cases hc.symm.trans hz
    | some z => ?_
    have harm : Settled m scope allowEnumRefs (if z ≠ 0 then a else b) := by
      split
      · exact iha
      · exact ihb
    refine settled_of_parts [c, if z ≠ 0 then a else b] ?_
      (List.forall_mem_cons.mpr ⟨ihc, List.forall_mem_singleton.mpr harm⟩) fun h => ?_
    · by_cases hz : z = 0 <;> simp [Expr.evaluated, hc, hz]
    · refine computes_cond (h c (by simp)) fun z' hz' => ?_
      obtain rfl := Option.some.inj (hc.symm.trans hz')
      exact h _ (by simp)

/-- The evaluator meets C on an expression and all that is evaluated for it exactly
when no operator reached there is one it miscomputes. -/
theorem constEvalInternal_meetsC_iff (m : DataModel) (scope : Scope) (allowEnumRefs : Bool)
    (e : Expr ConstLeaf) :
    (∀ s ∈ e.evaluated (constLeaves m scope), MeetsC m scope allowEnumRefs s) ↔
      Clean m scope allowEnumRefs e := by
  refine ⟨(settled m scope allowEnumRefs e).clean, ?_⟩
  intro hclean s hs r z hr hz
  have hright := (settled m scope allowEnumRefs s).right
    (fun s' hs' => hclean s' (Expr.evaluated_trans e hs hs')) z hz
  split at hright
  · obtain ⟨r', hr', hvalue⟩ := hright
    rw [hr] at hr'
    cases hr'
    exact hvalue
  · rw [hr] at hright
    cases hright

/-- `-(unsigned char)1` is 255 in eight bits. -/
theorem minus_uchar_not_promoted :
    let one : IntConstant :=
      ⟨.decimal, [], ['1'], [], by decide, List.forall_mem_singleton.mpr (by decide), by decide, by decide,
        by decide⟩
    let e : Expr ConstLeaf := .unary .minus (.cast .uchar (.leaf (.number one)))
    constEvalInternal (dataLayout .lp64) (fun _ => none) true e = some ⟨255, 8, true⟩ ∧
      e.eval (constLeaves .lp64 fun _ => none) = some (-1) ∧
      e.typeOf (constLeaves .lp64 fun _ => none) = .int ∧
      ¬MeetsC .lp64 (fun _ => none) true e := by
  intro one e
  have hspelling : one.spelling.toList = ['1'] := String.toList_ofList
  have hresult : constEvalInternal (dataLayout .lp64) (fun _ => none) true e = some ⟨255, 8, true⟩ := by
    decide
  have heval : e.eval (constLeaves .lp64 fun _ => none) = some (-1) := by decide
  have htype : e.typeOf (constLeaves .lp64 fun _ => none) = .int := by decide
  refine ⟨hresult, heval, htype, fun h => ?_⟩
  have hshape := (h _ _ hresult heval).1
  exact absurd hshape (by decide)

end

end Fisics
