import Fisics.CodeGen.IntegerExprLaws
import Fisics.CodeGen.TypeAgreement
import Fisics.Syntax.ConstEvalCorrect

/-!
# Generated code against C

Over operands that have the values of C, an operator has the value of C where it is
generated in the width and with the sign of C; where it is not, whether it has
depends on the operands. So an expression and all that is evaluated for it have the
values of C exactly when no operator that is reached is one that `Miscomputes`.
-/

namespace Fisics

open CInteger (DataModel IntType Expr Leaves Unary Binary ArithOp ShiftOp CompareOp BitOp LogicOp ofBool)
open Option (bind_eq_some_iff map_eq_some_iff)
open BitVec (ofInt)
open Word (ofInt_read ofInt_wrap wrap_eq_read)
open Llvm (Value Memory)
open Word (wrap)

structure Variables (m : DataModel) where
  type : String → IntType
  value : String → Int
  holds : ∀ name, (type name).Holds m (value name)

def Variables.leaves {m : DataModel} (vars : Variables m) : Leaves m ConstLeaf where
  type
    | .number c => (c.type? m).getD .int
    | .identifier name => vars.type name
  value
    | .number c => (c.type? m).map fun _ => (c.value : Int)
    | .identifier name => some (vars.value name)
  holds := by
    intro a z h
    cases a with
    | number c =>
      obtain ⟨t, ht, rfl⟩ := Option.map_eq_some_iff.mp h
      simp only [ht, Option.getD_some]
      exact IntConstant.type?_holds ht
    | identifier name =>
      obtain rfl := Option.some.inj h
      exact vars.holds name

def Variables.memory {m : DataModel} (vars : Variables m) : Memory String := fun name w =>
  BitVec.ofInt w (vars.value name)

def Emitted.readAs (memory : Memory String) (isUnsigned : Bool) (v : Emitted) : Int :=
  Word.read isUnsigned (v.2.eval memory)

section
variable {m : DataModel} (vars : Variables m)

def valueOf (e : Expr ConstLeaf) : Int := (e.eval vars.leaves).getD 0

/-- The generated value, read with the sign that is resolved, is that of C. -/
def LoweredAsC (e : Expr ConstLeaf) : Prop :=
  ∀ z, e.eval vars.leaves = some z → ∀ st st' : Slots, st.WellFormed → st'.WellFormed →
    (codegenNode (dataLayout m) (scopeOfTypes vars.type) e st).1.readAs vars.memory
      (cgExpressionIsUnsigned (dataLayout m) (scopeOfTypes vars.type) e st').1 = z

-- Operators as they are generated

def exactArith (x y : Int) : ArithOp → Int
  | .mul => x * y
  | .div => x.tdiv y
  | .mod => x.tmod y
  | .add => x + y
  | .sub => x - y

/-- An operator on words of the width `w`, by the sign that it is generated for. -/
def exactBinary (w : Nat) (isUnsigned : Bool) (x y : Int) : Binary → Int
  | .arith op => exactArith (wrap w isUnsigned x) (wrap w isUnsigned y) op
  | .bit op => Word.read isUnsigned (op.onWords (BitVec.ofInt w x) (BitVec.ofInt w y))
  | .shift .shl => x * 2 ^ (wrap w true y).toNat
  | .shift .shr => wrap w isUnsigned x / 2 ^ (wrap w true y).toNat
  | .compare op => ofBool (op.apply (wrap w isUnsigned x) (wrap w isUnsigned y))

def operatorUnsigned (op : Binary) (l r : Expr ConstLeaf) : Bool :=
  prefersUnsigned (dataLayout m) op (widthOf m vars.type l) (widthOf m vars.type r)
    (lhsUnsigned m vars.type l r) (rhsUnsigned m vars.type l r)

/-- What is computed for an expression from the values of C of its operands. -/
def computed : Expr ConstLeaf → Int
  | .leaf (.number c) => c.value
  | .leaf (.identifier name) => vars.value name
  | .cast t e => if t = .bool then ofBool (valueOf vars e ≠ 0) else valueOf vars e
  | .unary .plus e => valueOf vars e
  | .unary .minus e => -valueOf vars e
  | .unary .bitNot e => -valueOf vars e - 1
  | .unary .logNot e => ofBool (valueOf vars e = 0)
  | .binary op l r =>
    exactBinary (promotedBits (widthOf m vars.type l) (widthOf m vars.type r))
      (operatorUnsigned vars op l r)
      (wrap (widthOf m vars.type l) (lhsUnsigned m vars.type l r) (valueOf vars l))
      (wrap (widthOf m vars.type r) (rhsUnsigned m vars.type l r) (valueOf vars r)) op
  | .logic op l r =>
    if op.decides (valueOf vars l) then ofBool (valueOf vars l ≠ 0) else ofBool (valueOf vars r ≠ 0)
  | .cond c a b =>
    if valueOf vars c ≠ 0 then
      wrap (widthOf m vars.type a) (trueUnsigned m vars.type a b) (valueOf vars a)
    else valueOf vars b

def TypedAsC (e : Expr ConstLeaf) : Prop :=
  (widthOf m vars.type e, signOf m vars.type e) = (e.typeOf vars.leaves).shape m

instance (e : Expr ConstLeaf) : Decidable (TypedAsC vars e) :=
  inferInstanceAs (Decidable (_ = _))

/-- The operator at the top is generated in the widths and with the signs of C. -/
def GeneratedAsC : Expr ConstLeaf → Prop
  | .leaf _ | .unary .plus _ | .unary .logNot _ | .logic _ _ _ => True
  | .cast t e => TypedAsC vars (.cast t e)
  | .unary op e => TypedAsC vars (.unary op e)
  | .binary op l r =>
    lhsUnsigned m vars.type l r = signOf m vars.type l ∧
      rhsUnsigned m vars.type l r = signOf m vars.type r ∧
      TypedAsC vars (.binary op l r) ∧
      (promotedBits (widthOf m vars.type l) (widthOf m vars.type r), operatorUnsigned vars op l r) =
        (if op.isShift then (l.typeOf vars.leaves).promote
          else (l.typeOf vars.leaves).usual m (r.typeOf vars.leaves)).shape m
  | .cond c a b =>
    trueUnsigned m vars.type a b = signOf m vars.type a ∧ TypedAsC vars (.cond c a b)

instance : DecidablePred (GeneratedAsC vars)
  | .leaf _ | .unary .plus _ | .unary .logNot _ | .logic _ _ _ => inferInstanceAs (Decidable True)
  | .cast _ _ | .unary .minus _ | .unary .bitNot _ => inferInstanceAs (Decidable (_ = _))
  | .binary _ _ _ => inferInstanceAs (Decidable (_ ∧ _ ∧ _ = _ ∧ _))
  | .cond _ _ _ => inferInstanceAs (Decidable (_ ∧ _ = _))

/-- The operator at the top is generated in another width or with another sign than
that of C, and for the operands at hand that makes a difference. -/
def Miscomputes (e : Expr ConstLeaf) : Prop :=
  ¬GeneratedAsC vars e ∧
    wrap (widthOf m vars.type e) (signOf m vars.type e) (computed vars e) ≠ valueOf vars e

instance (e : Expr ConstLeaf) : Decidable (Miscomputes vars e) :=
  inferInstanceAs (Decidable (¬_ ∧ _))

end

-- Words

def Emitted.Has (memory : Memory String) (v : Emitted) (z : Int) : Prop :=
  v.2.eval memory = BitVec.ofInt v.1 z

section
variable {memory : Memory String} {v v' : Emitted} {x y : Int}

theorem Emitted.Has.readAs (h : v.Has memory x) (u : Bool) : v.readAs memory u = wrap v.1 u x := by
  rw [Emitted.readAs, h, ← wrap_eq_read]

theorem Emitted.has_of_readAs (h : v.readAs memory u = x) : v.Has memory x := by
  rw [Emitted.Has, ← h, Emitted.readAs, ofInt_read]

theorem Emitted.Has.intCast (h : v.Has memory x) (u : Bool) (k : Nat) :
    (v.2.intCast u k).eval memory = ofInt k (wrap v.1 u x) := by
  rw [Llvm.eval_intCast, h, ← wrap_eq_read]

theorem ofInt_eq_zero_iff (hx : wrap w u x = x) : ofInt w x = 0#w ↔ x = 0 := by
  have hread := Word.read_eq_zero (u := u) (b := ofInt w x)
  rw [← wrap_eq_read, hx] at hread
  exact hread.symm

theorem Emitted.Has.isNonZero (h : v.Has memory x) (hx : wrap v.1 u x = x) :
    v.2.isNonZero.eval memory = BitVec.ofBool (x ≠ 0) := by
  have hzero := ofInt_eq_zero_iff hx
  rw [Llvm.eval_isNonZero, h, bne, beq_eq_decide, decide_eq_decide.mpr hzero, decide_not]

theorem oneBit_eq (b : BitVec 1) : b = BitVec.ofBool (b != 0#1) := by
  revert b
  decide

theorem Emitted.Has.truthy (h : v.Has memory x) (hx : wrap v.1 u x = x) (t : Option ScalarType) :
    (cgBuildTruthy v.2 t).eval memory = BitVec.ofBool (x ≠ 0) := by
  obtain ⟨w, value⟩ := v
  rw [← h.isNonZero hx, Llvm.eval_isNonZero]
  unfold cgBuildTruthy
  by_cases hone : w = 1
  · subst hone
    split
    · exact oneBit_eq _
    · rfl
  · rw [dif_neg fun h => hone h.1]
    rfl

theorem arithInstruction_apply (op : ArithOp) (u : Bool) (a b : BitVec w) :
    (arithInstruction u op).apply a b = ofInt w (exactArith (Word.read u a) (Word.read u b) op) := by
  cases op with
  | mul => rw [exactArith, ← ofInt_wrap u, ← Word.read_mul, ofInt_read]; rfl
  | add => rw [exactArith, ← ofInt_wrap u, ← Word.read_add, ofInt_read]; rfl
  | sub => rw [exactArith, ← ofInt_wrap u, ← Word.read_sub, ofInt_read]; rfl
  | div =>
    cases u with
    | true => rw [exactArith, ← ofInt_wrap true, ← Word.read_udiv, ofInt_read]; rfl
    | false => rw [exactArith, ← ofInt_wrap false, ← Word.read_sdiv, ofInt_read]; rfl
  | mod =>
    cases u with
    | true => rw [exactArith, ← ofInt_wrap true, ← Word.read_umod, ofInt_read]; rfl
    | false => rw [exactArith, ← ofInt_wrap false, ← Word.read_srem, ofInt_read]; rfl

theorem bitInstruction_apply (op : BitOp) (a b : BitVec w) :
    (bitInstruction op).apply a b = op.onWords a b := by
  cases op <;> rfl

theorem shiftInstruction_apply (op : ShiftOp) (u : Bool) (x y : Int) :
    (shiftInstruction u op).apply (ofInt w x) (ofInt w y) =
      ofInt w (exactBinary w u x y (.shift op)) := by
  have hamount : (wrap w true y).toNat = (ofInt w y).toNat := by
    rw [wrap_eq_read]
    rfl
  cases op with
  | shl =>
    rw [exactBinary, hamount, BitVec.ofInt_mul, Word.ofInt_two_pow, ← BitVec.shiftLeft_eq_mul_twoPow]
    rfl
  | shr => ?_
  rw [exactBinary, hamount, wrap_eq_read]
  cases u with
  | true =>
    show ofInt w x >>> (ofInt w y).toNat = _
    rw [← ofInt_read true (_ >>> _), Word.read_ushiftRight, ofInt_wrap]
  | false =>
    show (ofInt w x).sshiftRight (ofInt w y).toNat = _
    rw [← ofInt_read false (BitVec.sshiftRight _ _), Word.read_sshiftRight, ofInt_wrap]

theorem cgSelectIntPredicate_apply (op : CompareOp) (u : Bool) (a b : BitVec w) :
    (cgSelectIntPredicate op u).apply a b = op.apply (Word.read u a) (Word.read u b) := by
  cases op with
  | eq => simp [cgSelectIntPredicate, Llvm.Pred.apply, CompareOp.apply, Word.read_inj, beq_eq_decide]
  | ne =>
    simp [cgSelectIntPredicate, Llvm.Pred.apply, CompareOp.apply, Word.read_inj, bne, beq_eq_decide]
  | lt | gt =>
    rw [CompareOp.apply, ← Word.less_eq]
    cases u <;> rfl
  | le | ge =>
    rw [CompareOp.apply, ← Word.lessEqual_eq]
    cases u <;> rfl

theorem cgWidenBoolToInt_has (value : Value String 1) (b : Bool)
    (h : value.eval memory = BitVec.ofBool b) : (cgWidenBoolToInt value).Has memory (ofBool b) := by
  show (value.eval memory).setWidth 32 = _
  rw [h]
  exact Llvm.setWidth_ofBool b 32

-- What is computed

theorem codegenBinary_has (tl : TargetLayout) (op : Binary) (hl : v.Has memory x)
    (hr : v'.Has memory y) (u u' : Bool) :
    (codegenBinary tl op v v' u u').Has memory (exactBinary (promotedBits v.1 v'.1)
      (prefersUnsigned tl op v.1 v'.1 u u') (wrap v.1 u x) (wrap v'.1 u' y) op) := by
  have hl := hl.intCast u (promotedBits v.1 v'.1)
  have hr := hr.intCast u' (promotedBits v.1 v'.1)
  unfold codegenBinary
  dsimp only
  generalize v.2.intCast u (promotedBits v.1 v'.1) = l at hl
  generalize v'.2.intCast u' (promotedBits v.1 v'.1) = r at hr
  generalize prefersUnsigned tl op v.1 v'.1 u u' = preferUnsigned
  cases op with
  | arith op =>
    show (arithInstruction preferUnsigned op).apply (l.eval memory) (r.eval memory) = _
    rw [arithInstruction_apply, hl, hr, ← wrap_eq_read, ← wrap_eq_read]
    rfl
  | bit op =>
    show (bitInstruction op).apply (l.eval memory) (r.eval memory) = ofInt _ (Word.read _ _)
    rw [bitInstruction_apply, hl, hr, ofInt_read]
  | shift op =>
    show (shiftInstruction preferUnsigned op).apply (l.eval memory) (r.eval memory) = _
    rw [hl, hr, shiftInstruction_apply]
  | compare op =>
    refine cgWidenBoolToInt_has _ _ ?_
    show BitVec.ofBool ((cgSelectIntPredicate op preferUnsigned).apply (l.eval memory) (r.eval memory)) = _
    rw [cgSelectIntPredicate_apply, hl, hr, ← wrap_eq_read, ← wrap_eq_read]

theorem ofInt_ofBool (hx : wrap 1 u x = x) : ofInt 1 (ofBool (x ≠ 0)) = ofInt 1 x := by
  have hzero := ofInt_eq_zero_iff hx
  by_cases h : x = 0
  · subst h
    rfl
  have hne : (ofInt 1 x != 0#1) = true := by simpa using mt hzero.mp h
  rw [oneBit_eq (ofInt 1 x), hne]
  simp [h, ofBool]

theorem castInteger_has (h : v.Has memory x) (hx : wrap v.1 u x = x) (k : Nat) :
    Emitted.Has memory ⟨k, castInteger v.2 k u⟩ (if k = 1 then ofBool (x ≠ 0) else x) := by
  have hcast := h.intCast u k
  rw [hx] at hcast
  by_cases hself : v.1 = k
  · rw [castInteger_self v hself, Emitted.Has, h]
    split
    · rename_i hone
      rw [← hself] at hone
      rw [hone] at hx ⊢
      exact (ofInt_ofBool hx).symm
    · rfl
  · rw [Emitted.Has, castInteger, dif_neg hself]
    rw [Value.intCast, dif_neg hself] at hcast
    split
    · rename_i hone
      subst hone
      exact (h.isNonZero hx).trans (by cases decide (x ≠ 0) <;> rfl)
    · rename_i hone
      rw [dif_neg hone]
      exact hcast

end

section
variable {m : DataModel} {vars : Variables m} {st : Slots}

theorem LoweredAsC.has (h : LoweredAsC vars p) (hx : p.eval vars.leaves = some x)
    (hst : st.WellFormed) (hv : Generates m vars.type p st v) :
    v.Has vars.memory x ∧ wrap v.1 (signOf m vars.type p) x = x := by
  have hread := h x hx st st hst hst
  rw [hv.code, cgExpressionIsUnsigned_eq m vars.type p hst] at hread
  have hhas := Emitted.has_of_readAs hread
  exact ⟨hhas, (hhas.readAs _).symm.trans hread⟩

theorem valueOf_eq (h : e.eval vars.leaves = some z) : valueOf vars e = z := by
  rw [valueOf, h]
  rfl

def HasComputed (vars : Variables m) (e : Expr ConstLeaf) : Prop :=
  ∀ st : Slots, st.WellFormed → ∃ v, Generates m vars.type e st v ∧ v.Has vars.memory (computed vars e)

theorem loweredAsC_iff (hz : e.eval vars.leaves = some z) (h : HasComputed vars e) :
    LoweredAsC vars e ↔
      wrap (widthOf m vars.type e) (signOf m vars.type e) (computed vars e) = valueOf vars e := by
  have hread : ∀ st st' : Slots, st.WellFormed → st'.WellFormed →
      (codegenNode (dataLayout m) (scopeOfTypes vars.type) e st).1.readAs vars.memory
        (cgExpressionIsUnsigned (dataLayout m) (scopeOfTypes vars.type) e st').1 =
      wrap (widthOf m vars.type e) (signOf m vars.type e) (computed vars e) := by
    intro st st' hst hst'
    obtain ⟨v, hv, hhas⟩ := h st hst
    rw [hv.code, cgExpressionIsUnsigned_eq m vars.type e hst', ← hv.width]
    exact hhas.readAs _
  rw [valueOf_eq hz]
  constructor
  · intro hlowered
    rw [← hread emptySlots emptySlots emptySlots_wellFormed emptySlots_wellFormed]
    exact hlowered z hz _ _ emptySlots_wellFormed emptySlots_wellFormed
  · intro hcomputed z' hz' st st' hst hst'
    rw [hread st st' hst hst', hcomputed]
    exact Option.some.inj (hz.symm.trans hz')

theorem literalType_shape (hc : c.type? m = some t) :
    (literalType m c).shape =
      if c.missesUnsignedLong m then .integer 64 false else (CType.int t).shape m := by
  cases hmiss : c.missesUnsignedLong m with
  | false => exact (intLiteral_shape hc).mpr hmiss
  | true => ?_
  obtain ⟨rfl, -⟩ := c.ulong_of_misses hc hmiss
  obtain ⟨range, hparse⟩ := c.parse (dataLayout .llp64)
  rw [c.choose hc, hmiss] at hparse
  rw [literalType, cgMakeIntLiteralType, hparse]
  rfl

theorem literalValue_eq (hc : c.type? m = some t) :
    literalValue (dataLayout m) c = ofInt 64 c.value := by
  have hholds := IntConstant.type?_holds hc
  obtain ⟨range, hparse⟩ := c.parse (dataLayout m)
  rw [c.choose hc] at hparse
  rw [literalValue, hparse, BitVec.ofInt_natCast]
  cases hmiss : c.missesUnsignedLong m with
  | true => rfl
  | false => exact congrArg (BitVec.ofNat 64) (literalMasked_of_holds hholds)

theorem bits_of_shape (h : t.shape = .integer bits u) :
    llvmBits t = bits ∧ cgIsUnsigned t = u := by
  constructor
  · rw [llvmBits, h]
  · rw [isUnsigned_shape (by rw [h]; rfl), h]
    rfl

theorem literalType_bits (hc : c.type? m = some t) :
    (llvmBits (literalType m c), cgIsUnsigned (literalType m c)) =
      if c.missesUnsignedLong m then (64, false) else t.shape m := by
  have hshape := literalType_shape hc
  split
  · rename_i hmiss
    rw [if_pos hmiss] at hshape
    obtain ⟨hbits, hu⟩ := bits_of_shape hshape
    rw [hbits, hu]
  rename_i hmiss
  rw [if_neg hmiss] at hshape
  obtain ⟨hbits, hu⟩ := bits_of_shape hshape
  rw [hbits, hu]
  rfl

theorem llvmBits_literalType_le (hc : c.type? m = some t) :
    llvmBits (literalType m c) ≤ 64 := by
  have hbits : llvmBits (literalType m c) =
      (if c.missesUnsignedLong m then (64, false) else t.shape m).1 :=
    congrArg Prod.fst (literalType_bits hc)
  rw [hbits]
  split
  · exact Nat.le_refl 64
  · exact t.bits_le m

theorem hasComputed_number (hc : c.type? m = some t) :
    HasComputed vars (.leaf (.number c)) := by
  intro st hst
  have hvalue : (literalValue (dataLayout m) c).setWidth (llvmBits (literalType m c)) =
      ofInt (llvmBits (literalType m c)) c.value := by
    rw [literalValue_eq hc, Word.setWidth_ofInt (llvmBits_literalType_le hc)]
  exact ⟨_, generates_number c hst, hvalue⟩

theorem hasComputed_identifier (name : String) : HasComputed vars (.leaf (.identifier name)) := by
  intro st hst
  exact ⟨_, ⟨rfl, rfl⟩, rfl⟩

theorem hasComputed_cast (he : LoweredAsC vars e) (hx : e.eval vars.leaves = some x) (t : IntType) :
    HasComputed vars (.cast t e) := by
  intro st hst
  obtain ⟨v, hv⟩ := generates m vars.type e hst
  obtain ⟨hhas, hrange⟩ := he.has hx hst hv
  refine ⟨_, generates_cast hst hv t, ?_⟩
  have hcast := castInteger_has hhas hrange (llvmBits (scalarOfInt t))
  rw [computed, valueOf_eq hx]
  have hbool : llvmBits (scalarOfInt t) = 1 ↔ t = .bool := by cases t <;> decide
  simpa only [hbool] using hcast

theorem hasComputed_unary (he : LoweredAsC vars e) (hx : e.eval vars.leaves = some x) (op : Unary) :
    HasComputed vars (.unary op e) := by
  intro st hst
  have hst₁ := pushLiterals_wellFormed hst (literals m e)
  obtain ⟨v, hv⟩ := generates m vars.type e hst₁
  obtain ⟨hhas, hrange⟩ := he.has hx hst₁ hv
  refine ⟨_, generates_unary hst hv op, ?_⟩
  have hvalue := valueOf_eq hx
  cases op with
  | plus =>
    rw [computed, hvalue]
    exact hhas
  | minus =>
    show -v.2.eval _ = ofInt v.1 (-valueOf vars e)
    rw [hvalue, hhas, BitVec.ofInt_neg]
  | bitNot =>
    show ~~~v.2.eval _ = ofInt v.1 (-valueOf vars e - 1)
    rw [hvalue, hhas, Int.sub_eq_add_neg, BitVec.ofInt_add, BitVec.ofInt_neg, BitVec.ofInt_neg,
      BitVec.not_eq_neg_add, BitVec.sub_eq_add_neg]
    rfl
  | logNot =>
    rw [computed, hvalue]
    refine cgWidenBoolToInt_has _ _ ?_
    show ~~~(cgBuildTruthy v.2 _).eval _ = _
    rw [hhas.truthy hrange, Llvm.not_ofBool]
    simp

theorem hasComputed_binary (hl : LoweredAsC vars l) (hx : l.eval vars.leaves = some x)
    (hr : LoweredAsC vars r) (hy : r.eval vars.leaves = some y) (op : Binary) :
    HasComputed vars (.binary op l r) := by
  intro st hst
  have hst₁ := pushLiterals_wellFormed hst (written m vars.type l)
  obtain ⟨v, hv⟩ := generates m vars.type l hst
  obtain ⟨v', hv'⟩ := generates m vars.type r hst₁
  obtain ⟨hhas, -⟩ := hl.has hx hst hv
  obtain ⟨hhas', -⟩ := hr.has hy hst₁ hv'
  refine ⟨_, generates_binary hst hv hv' op, ?_⟩
  rw [computed, valueOf_eq hx, valueOf_eq hy, operatorUnsigned, ← hv.width, ← hv'.width]
  exact codegenBinary_has (dataLayout m) op hhas hhas' _ _

theorem hasComputed_logic (hl : LoweredAsC vars l) (hx : l.eval vars.leaves = some x) (op : LogicOp)
    (hr : op.decides x = false → LoweredAsC vars r ∧ ∃ y, r.eval vars.leaves = some y) :
    HasComputed vars (.logic op l r) := by
  intro st hst
  have hst₁ := pushLiterals_wellFormed hst (written m vars.type l)
  obtain ⟨v, hv⟩ := generates m vars.type l hst
  obtain ⟨v', hv'⟩ := generates m vars.type r hst₁
  obtain ⟨hhas, hrange⟩ := hl.has hx hst hv
  refine ⟨_, generates_logic hv hv' op, ?_⟩
  have hleft := hhas.truthy hrange none
  rw [computed, valueOf_eq hx]
  cases hdecides : op.decides x with
  | true =>
    refine cgWidenBoolToInt_has _ _ ?_
    cases op <;> simp_all [LogicOp.decides, Value.eval]
  | false => ?_
  obtain ⟨hlowered, y, hy⟩ := hr hdecides
  obtain ⟨hhas', hrange'⟩ := hlowered.has hy hst₁ hv'
  have hright := hhas'.truthy hrange' none
  rw [valueOf_eq hy]
  refine cgWidenBoolToInt_has _ _ ?_
  cases op <;> simp_all [LogicOp.decides, Value.eval]

theorem literalType_bits_pos (m : DataModel) (c : IntConstant) : 0 < llvmBits (literalType m c) := by
  unfold literalType cgMakeIntLiteralType
  split
  · generalize (if (dataLayout m).intBits = 0 then 32 else (dataLayout m).intBits) = bits
    split
    · exact Nat.succ_pos 63
    · exact Nat.succ_pos 31
  · decide

theorem promotedBits_eq (x y : Nat) : promotedBits x y = max 32 (max x y) := by
  simp only [promotedBits]
  split <;> split <;> omega

theorem cgMergeTypesForPhi_eq (x y : Nat) : cgMergeTypesForPhi x y = max x y := by
  simp only [cgMergeTypesForPhi]
  split <;> omega

theorem widthOf_pos (m : DataModel) (type : String → IntType) (e : Expr ConstLeaf) :
    0 < widthOf m type e := by
  have hint : ∀ t : IntType, 0 < llvmBits (scalarOfInt t) := by
    intro t
    cases t <;> decide
  induction e with
  | leaf a =>
    cases a with
    | number c => exact literalType_bits_pos m c
    | identifier name => exact hint (type name)
  | cast t e ih => exact hint t
  | unary op e ih =>
    rw [widthOf]
    split
    · decide
    · exact ih
  | binary op l r ihl ihr =>
    rw [widthOf, promotedBits_eq]
    split <;> omega
  | logic op l r ihl ihr => exact Nat.succ_pos 31
  | cond c a b ihc iha ihb =>
    rw [widthOf, cgMergeTypesForPhi_eq]
    omega

theorem castInteger_widens {v : Emitted} (h : v.Has memory x) (hpos : 0 < v.1)
    (hle : v.1 ≤ k) (u : Bool) : Emitted.Has memory ⟨k, castInteger v.2 k u⟩ (wrap v.1 u x) := by
  have hcast := h.intCast u k
  by_cases hself : v.1 = k
  · rw [castInteger_self v hself, Emitted.Has, ofInt_wrap]
    exact h
  have hone : k ≠ 1 := by omega
  rw [Value.intCast, dif_neg hself] at hcast
  rw [Emitted.Has, castInteger, dif_neg hself, dif_neg hone]
  exact hcast

theorem hasComputed_cond (hc : LoweredAsC vars c) (hz : c.eval vars.leaves = some z)
    (harm : LoweredAsC vars (if z ≠ 0 then a else b))
    (hx : (if z ≠ 0 then a else b).eval vars.leaves = some x) : HasComputed vars (.cond c a b) := by
  intro st hst
  have hst₁ := pushLiterals_wellFormed hst (written m vars.type c)
  have hst₂ := pushLiterals_wellFormed hst₁ (written m vars.type a ++ literals m a)
  obtain ⟨v, hv⟩ := generates m vars.type c hst
  obtain ⟨v', hv'⟩ := generates m vars.type a hst₁
  obtain ⟨v'', hv''⟩ := generates m vars.type b hst₂
  obtain ⟨hhas, hrange⟩ := hc.has hz hst hv
  refine ⟨_, generates_cond hst hv hv' hv'', ?_⟩
  have hcond := hhas.truthy hrange none
  rw [computed, valueOf_eq hz]
  have hbranch : ((cgBuildTruthy v.2 none).eval vars.memory = 1#1) ↔ z ≠ 0 := by
    rw [hcond, Llvm.ofBool_eq_one, decide_eq_true_eq]
  have htrue : v'.1 ≤ cgMergeTypesForPhi v'.1 v''.1 := by
    rw [cgMergeTypesForPhi_eq]
    exact Nat.le_max_left _ _
  have hfalse : v''.1 ≤ cgMergeTypesForPhi v'.1 v''.1 := by
    rw [cgMergeTypesForPhi_eq]
    exact Nat.le_max_right _ _
  show (if (cgBuildTruthy v.2 none).eval vars.memory = 1#1
    then (castInteger v'.2 (cgMergeTypesForPhi v'.1 v''.1) (trueUnsigned m vars.type a b)).eval vars.memory
    else (castInteger v''.2 (cgMergeTypesForPhi v'.1 v''.1) (signOf m vars.type b)).eval vars.memory) =
    ofInt (cgMergeTypesForPhi v'.1 v''.1) _
  by_cases hzero : z ≠ 0
  · rw [if_pos hzero] at harm hx
    rw [if_pos (hbranch.mpr hzero), if_pos hzero, valueOf_eq hx, ← hv'.width]
    obtain ⟨hhas', -⟩ := harm.has hx hst₁ hv'
    exact castInteger_widens hhas' (hv'.width ▸ widthOf_pos m vars.type a) htrue _
  rw [if_neg hzero] at harm hx
  rw [if_neg (mt hbranch.mp hzero), if_neg hzero, valueOf_eq hx]
  obtain ⟨hhas'', hrange''⟩ := harm.has hx hst₂ hv''
  have hcast := castInteger_widens hhas'' (hv''.width ▸ widthOf_pos m vars.type b) hfalse
    (signOf m vars.type b)
  rw [hrange''] at hcast
  exact hcast

-- Operators that are generated as in C

theorem LoweredAsC.range (h : LoweredAsC vars p) (hx : p.eval vars.leaves = some x) :
    wrap (widthOf m vars.type p) (signOf m vars.type p) x = x := by
  obtain ⟨v, hv⟩ := generates m vars.type p emptySlots_wellFormed
  rw [← hv.width]
  exact (h.has hx emptySlots_wellFormed hv).2

theorem TypedAsC.wrap_eq (h : TypedAsC vars e) (z : Int) :
    wrap (widthOf m vars.type e) (signOf m vars.type e) z =
      wrap ((e.typeOf vars.leaves).bits m) (e.typeOf vars.leaves).isUnsigned z := by
  obtain ⟨hbits, hu⟩ := Prod.mk.inj h
  rw [hbits, hu]

theorem fit_exactArith {op : ArithOp} (h : op.apply m t x y = some v) :
    t.fit m (exactArith x y op) = some v := by
  cases op with
  | mul | add | sub => exact h
  | div =>
    simp only [ArithOp.apply] at h
    split at h
    · cases h
    · exact h
  | mod =>
    simp only [ArithOp.apply] at h
    split at h
    · cases h
    obtain ⟨-, -, h⟩ := bind_eq_some_iff.mp h
    exact h

theorem exactBinary_eq {op : Binary} (h : op.apply m a b x y = some v)
    (hx : a.Holds m x) (hy : 0 ≤ y → y < 64 → wrap w true y = y)
    (hshape : (w, u) = (if op.isShift then a.promote else a.usual m b).shape m) :
    wrap ((op.type m a b).bits m) (op.type m a b).isUnsigned (exactBinary w u x y op) = v := by
  cases op with
  | arith op =>
    obtain ⟨rfl, rfl⟩ := Prod.mk.inj hshape
    have hfit := fit_exactArith h
    rw [convert_usual, convert_usual] at hfit
    exact fit_eq_wrap hfit
  | bit op =>
    have hshape : (w, u) = (a.usual m b).shape m := hshape
    obtain ⟨rfl, rfl⟩ := Prod.mk.inj hshape
    cases h
    show wrap ((a.usual m b).bits m) (a.usual m b).isUnsigned (exactBinary _ _ x y (.bit op)) = _
    rw [exactBinary, Word.wrap_read, BitOp.apply, convert_usual, convert_usual, ofInt_wrap,
      ofInt_wrap]
  | shift op =>
    have hshape : (w, u) = a.promote.shape m := hshape
    obtain ⟨rfl, rfl⟩ := Prod.mk.inj hshape
    have h : op.apply m a.promote x y = some v := h
    unfold ShiftOp.apply at h
    split at h
    · cases h
    have hle := a.promote.bits_le m
    have hamount : (wrap (a.promote.bits m) true y).toNat = y.toNat := by
      have hy := hy (by omega) (by omega)
      exact congrArg Int.toNat hy
    cases op with
    | shl =>
      dsimp only at h
      split at h
      · cases h
      show wrap (a.promote.bits m) a.promote.isUnsigned (exactBinary _ _ x y (.shift .shl)) = _
      rw [exactBinary, hamount]
      exact fit_eq_wrap h
    | shr =>
      cases h
      show wrap (a.promote.bits m) a.promote.isUnsigned (exactBinary _ _ x y (.shift .shr)) = _
      rw [exactBinary, hamount, IntType.wrap_of_holds hx.promote]
      exact IntType.wrap_of_holds (hx.promote.shiftRight _)
  | compare op =>
    obtain ⟨rfl, rfl⟩ := Prod.mk.inj hshape
    cases h
    show wrap (IntType.int.bits m) IntType.int.isUnsigned (exactBinary _ _ x y (.compare op)) = _
    rw [exactBinary, convert_usual, convert_usual]
    exact IntType.wrap_of_holds (IntType.int_holds_ofBool m _)

theorem binary_generatedAsC (hl : LoweredAsC vars l) (hx : l.eval vars.leaves = some x)
    (hr : LoweredAsC vars r) (hy : r.eval vars.leaves = some y)
    (hgen : GeneratedAsC vars (.binary op l r))
    (hz : op.apply m (l.typeOf vars.leaves) (r.typeOf vars.leaves) x y = some z) :
    wrap (widthOf m vars.type (.binary op l r)) (signOf m vars.type (.binary op l r))
      (computed vars (.binary op l r)) = z := by
  obtain ⟨hlhs, hrhs, htyped, hshape⟩ := hgen
  have hyrange := hr.range hy
  rw [htyped.wrap_eq, computed, hlhs, hrhs, valueOf_eq hx, valueOf_eq hy, hl.range hx, hyrange]
  refine exactBinary_eq hz (l.eval_holds hx) ?_ hshape
  intro hlow hhigh
  have hle : 32 ≤ promotedBits (widthOf m vars.type l) (widthOf m vars.type r) := by
    rw [promotedBits_eq]
    exact Nat.le_max_left _ _
  refine Int.emod_eq_of_lt hlow (Int.lt_trans hhigh ?_)
  calc (64 : Int) < 2 ^ 32 := by decide
    _ ≤ 2 ^ promotedBits (widthOf m vars.type l) (widthOf m vars.type r) :=
      pow_le_pow_right₀ (by decide) hle

theorem scalarOfInt_bits (t : IntType) :
    (llvmBits (scalarOfInt t), cgIsUnsigned (scalarOfInt t)) = t.shape .lp64 := by
  cases t <;> decide

theorem holds_lp64 {t : IntType} (h : t.Holds m z) : t.Holds .lp64 z := by
  cases m with
  | lp64 => exact h
  | llp64 =>
    unfold IntType.Holds IntType.least IntType.limit at h ⊢
    cases t <;> simp [IntType.isUnsigned, IntType.bits] at h ⊢ <;> omega

theorem number_right (hc : c.type? m = some t) :
    wrap (widthOf m vars.type (.leaf (.number c))) (signOf m vars.type (.leaf (.number c))) c.value =
      c.value := by
  have hbits := literalType_bits hc
  have hholds := IntConstant.type?_holds hc
  have hwrap : wrap (llvmBits (literalType m c)) (cgIsUnsigned (literalType m c)) c.value = c.value := by
    split at hbits
    · rename_i hmiss
      obtain ⟨hwidth, hu⟩ := Prod.mk.inj hbits
      obtain ⟨rfl, rfl⟩ := c.ulong_of_misses hc hmiss
      rw [hwidth, hu]
      refine IntType.wrap_of_holds (m := .lp64) (t := .long) ?_
      unfold IntType.Holds IntType.least IntType.limit at hholds ⊢
      simp [IntType.isUnsigned, IntType.bits] at hholds ⊢
      omega
    · obtain ⟨hwidth, hu⟩ := Prod.mk.inj hbits
      rw [hwidth, hu]
      exact IntType.wrap_of_holds hholds
  exact hwrap

theorem identifier_right (name : String) :
    wrap (widthOf m vars.type (.leaf (.identifier name)))
      (signOf m vars.type (.leaf (.identifier name))) (vars.value name) = vars.value name := by
  obtain ⟨hwidth, hu⟩ := Prod.mk.inj (scalarOfInt_bits (vars.type name))
  show wrap (llvmBits (scalarOfInt (vars.type name))) (cgIsUnsigned (scalarOfInt (vars.type name))) _ = _
  rw [hwidth, hu]
  exact IntType.wrap_of_holds (holds_lp64 (vars.holds name))

theorem wrap_ofBool (b : Bool) : wrap 32 false (ofBool b) = ofBool b := by
  cases b <;> decide

theorem computed_generatedAsC
    (hoperands : ∀ p ∈ e.operands vars.leaves, LoweredAsC vars p) (hgen : GeneratedAsC vars e)
    (hz : e.eval vars.leaves = some z) :
    wrap (widthOf m vars.type e) (signOf m vars.type e) (computed vars e) = z := by
  cases e with
  | leaf a =>
    cases a with
    | number c =>
      obtain ⟨t, ht, rfl⟩ := map_eq_some_iff.mp hz
      exact number_right ht
    | identifier name =>
      cases hz
      exact identifier_right name
  | cast t e =>
    obtain ⟨x, hx, rfl⟩ := map_eq_some_iff.mp hz
    rw [hgen.wrap_eq, computed, valueOf_eq hx, IntType.convert]
    show wrap (t.bits m) t.isUnsigned _ = _
    split
    · rename_i hbool
      subst hbool
      cases m <;> by_cases h : x = 0 <;> simp [h, ofBool] <;> decide
    · rfl
  | unary op e =>
    obtain ⟨x, hx, hz⟩ := bind_eq_some_iff.mp hz
    have hrange := (hoperands e (by simp [Expr.operands])).range hx
    cases op with
    | plus =>
      cases hz
      rw [computed, valueOf_eq hx]
      exact hrange
    | minus =>
      rw [hgen.wrap_eq, computed, valueOf_eq hx]
      exact fit_eq_wrap hz
    | bitNot =>
      rw [hgen.wrap_eq, computed, valueOf_eq hx]
      exact fit_eq_wrap hz
    | logNot =>
      cases hz
      rw [computed, valueOf_eq hx]
      exact wrap_ofBool _
  | binary op l r =>
    obtain ⟨x, hx, hz⟩ := bind_eq_some_iff.mp hz
    obtain ⟨y, hy, hz⟩ := bind_eq_some_iff.mp hz
    exact binary_generatedAsC (hoperands l (by simp [Expr.operands])) hx
      (hoperands r (by simp [Expr.operands])) hy hgen hz
  | logic op l r =>
    obtain ⟨x, hx, hz⟩ := bind_eq_some_iff.mp hz
    rw [computed, valueOf_eq hx]
    split at hz
    · rename_i hdecides
      cases hz
      rw [if_pos hdecides]
      exact wrap_ofBool _
    · rename_i hdecides
      obtain ⟨y, hy, rfl⟩ := map_eq_some_iff.mp hz
      rw [if_neg hdecides, valueOf_eq hy]
      exact wrap_ofBool _
  | cond c a b =>
    obtain ⟨x, hx, hz⟩ := bind_eq_some_iff.mp hz
    obtain ⟨y, hy, rfl⟩ := map_eq_some_iff.mp hz
    obtain ⟨htrue, htyped⟩ := hgen
    have harm : LoweredAsC vars (if x ≠ 0 then a else b) := by
      refine hoperands _ ?_
      rw [Expr.operands, hx]
      simp
    rw [htyped.wrap_eq, computed, htrue, valueOf_eq hx, convert_usual]
    show wrap ((Expr.typeOf vars.leaves a).usual m (Expr.typeOf vars.leaves b)|>.bits m) _ _ = _
    split at hy
    · rename_i hne
      rw [if_pos hne] at harm ⊢
      rw [valueOf_eq hy, harm.range hy]
      rfl
    · rename_i heq
      rw [if_neg heq, valueOf_eq hy]
      rfl

-- Expressions

theorem hasComputed (hoperands : ∀ p ∈ e.operands vars.leaves, LoweredAsC vars p)
    (hz : e.eval vars.leaves = some z) : HasComputed vars e := by
  cases e with
  | leaf a =>
    cases a with
    | number c =>
      obtain ⟨t, ht, -⟩ := map_eq_some_iff.mp hz
      exact hasComputed_number ht
    | identifier name => exact hasComputed_identifier name
  | cast t e =>
    obtain ⟨x, hx, -⟩ := map_eq_some_iff.mp hz
    exact hasComputed_cast (hoperands e (by simp [Expr.operands])) hx t
  | unary op e =>
    obtain ⟨x, hx, -⟩ := bind_eq_some_iff.mp hz
    exact hasComputed_unary (hoperands e (by simp [Expr.operands])) hx op
  | binary op l r =>
    obtain ⟨x, hx, hz⟩ := bind_eq_some_iff.mp hz
    obtain ⟨y, hy, -⟩ := bind_eq_some_iff.mp hz
    exact hasComputed_binary (hoperands l (by simp [Expr.operands])) hx
      (hoperands r (by simp [Expr.operands])) hy op
  | logic op l r =>
    obtain ⟨x, hx, hz⟩ := bind_eq_some_iff.mp hz
    have hl : LoweredAsC vars l := by
      refine hoperands l ?_
      rw [Expr.operands]
      split <;> simp
    refine hasComputed_logic hl hx op fun hdecides => ?_
    rw [hdecides, if_neg Bool.false_ne_true] at hz
    obtain ⟨y, hy, -⟩ := map_eq_some_iff.mp hz
    refine ⟨hoperands r ?_, y, hy⟩
    rw [Expr.operands, hx, Option.all_some, hdecides]
    simp
  | cond c a b =>
    obtain ⟨x, hx, hz⟩ := bind_eq_some_iff.mp hz
    obtain ⟨y, hy, -⟩ := map_eq_some_iff.mp hz
    rw [Expr.operands, hx] at hoperands
    refine hasComputed_cond (x := y) (hoperands c (by simp)) hx (hoperands _ (by simp)) ?_
    split at hy
    · rename_i hne
      rw [if_pos hne]
      exact hy
    · rename_i heq
      rw [if_neg heq]
      exact hy

theorem loweredAsC_iff_operator
    (hoperands : ∀ p ∈ e.operands vars.leaves, LoweredAsC vars p) :
    LoweredAsC vars e ↔ ((e.eval vars.leaves).isSome → ¬Miscomputes vars e) := by
  cases hz : e.eval vars.leaves with
  | none =>
    refine iff_of_true ?_ nofun
    intro z hz'
    cases hz.symm.trans hz'
  | some z => ?_
  rw [loweredAsC_iff hz (hasComputed hoperands hz)]
  simp only [Option.isSome_some, forall_const, Miscomputes, not_and, ne_eq, not_not]
  constructor
  · intro h _
    exact h
  · intro h
    by_cases hgen : GeneratedAsC vars e
    · rw [valueOf_eq hz]
      exact computed_generatedAsC hoperands hgen hz
    · exact h hgen

/-- The generated values of an expression and of all that is evaluated for it are
those of C exactly when no operator that is reached miscomputes. -/
theorem codegenNode_loweredAsC_iff (vars : Variables m) (e : Expr ConstLeaf) :
    (∀ s ∈ e.evaluated vars.leaves, LoweredAsC vars s) ↔
      ∀ s ∈ e.evaluated vars.leaves, (s.eval vars.leaves).isSome → ¬Miscomputes vars s :=
  Expr.forall_evaluated_iff (fun _ => loweredAsC_iff_operator) e

end

/-- `unsigned char c = 1;` -/
def exampleVariables : Variables .lp64 := ⟨fun _ => .uchar, fun _ => 1, fun _ => by decide⟩

/-- `-c` is negated in the eight bits of `c`, and read as unsigned. -/
theorem codegenUnary_keeps_uchar :
    let e : Expr ConstLeaf := .unary .minus (.leaf (.identifier "c"))
    e.eval exampleVariables.leaves = some (-1) ∧
      (codegenNode (dataLayout .lp64) (scopeOfTypes exampleVariables.type) e emptySlots).1.readAs
        exampleVariables.memory
        (cgExpressionIsUnsigned (dataLayout .lp64) (scopeOfTypes exampleVariables.type) e
          emptySlots).1 = 255 ∧
      ¬LoweredAsC exampleVariables e := by
  intro e
  have heval : e.eval exampleVariables.leaves = some (-1) := by decide
  have hread : (codegenNode (dataLayout .lp64) (scopeOfTypes exampleVariables.type) e
      emptySlots).1.readAs exampleVariables.memory
      (cgExpressionIsUnsigned (dataLayout .lp64) (scopeOfTypes exampleVariables.type) e
        emptySlots).1 = 255 := by decide
  refine ⟨heval, hread, fun h => ?_⟩
  have hvalue := h (-1) heval _ _ emptySlots_wellFormed emptySlots_wellFormed
  exact absurd (hvalue.symm.trans hread) (by decide)

-- Against the evaluator

def IsLiteral : Expr ConstLeaf → Prop
  | .leaf (.number _) => True
  | .leaf (.identifier _) => False
  | .cast _ e | .unary _ e => IsLiteral e
  | .binary _ l r | .logic _ l r => IsLiteral l ∧ IsLiteral r
  | .cond c a b => IsLiteral c ∧ IsLiteral a ∧ IsLiteral b

/-- The value that is generated is the one that the expression is folded to. -/
def GeneratedAsFolded (vars : Variables m) (scope : Scope) (allowEnumRefs : Bool) (e : Expr ConstLeaf) : Prop :=
  ∀ r, constEvalInternal (dataLayout m) scope allowEnumRefs e = some r → (e.eval vars.leaves).isSome →
    ∀ st st' : Slots, st.WellFormed → st'.WellFormed →
      (codegenNode (dataLayout m) (scopeOfTypes vars.type) e st).1.readAs vars.memory
        (cgExpressionIsUnsigned (dataLayout m) (scopeOfTypes vars.type) e st').1 =
          Word.read r.isUnsigned r.value

section
variable {m : DataModel} {vars : Variables m} {scope : Scope} {allowEnumRefs : Bool} {e : Expr ConstLeaf}

theorem IsLiteral.agrees (h : IsLiteral e) (vars : Variables m) (scope : Scope) :
    e.typeOf (constLeaves m scope) = e.typeOf vars.leaves ∧ e.eval (constLeaves m scope) = e.eval vars.leaves ∧
      e.evaluated (constLeaves m scope) = e.evaluated vars.leaves := by
  induction e with
  | leaf a =>
    cases a with
    | number c => exact ⟨rfl, rfl, rfl⟩
    | identifier name => exact h.elim
  | cast t e ih | unary op e ih => simp [Expr.typeOf, Expr.eval, Expr.evaluated, ih h]
  | binary op l r ihl ihr | logic op l r ihl ihr =>
    simp [Expr.typeOf, Expr.eval, Expr.evaluated, ihl h.1, ihr h.2]
  | cond c a b ihc iha ihb => simp [Expr.typeOf, Expr.eval, Expr.evaluated, ihc h.1, iha h.2.1, ihb h.2.2]

theorem folds_operands (h : IsLiteral e ∧ folds m scope allowEnumRefs e = true) :
    ∀ p ∈ e.operands (constLeaves m scope), IsLiteral p ∧ folds m scope allowEnumRefs p = true := by
  cases e with
  | leaf a => simp [Expr.operands]
  | cast t e | unary op e => exact List.forall_mem_singleton.mpr h
  | binary op l r => simp_all [Expr.operands, IsLiteral, folds]
  | logic op l r =>
    rw [Expr.operands]
    split <;> simp_all [IsLiteral, folds]
  | cond c a b =>
    cases hc : c.eval (constLeaves m scope) with
    | none => simp_all [Expr.operands, IsLiteral, folds]
    | some z => by_cases hz : z = 0 <;> simp_all [Expr.operands, IsLiteral, folds]

theorem folds_evaluated (h : IsLiteral e ∧ folds m scope allowEnumRefs e = true) :
    ∀ s ∈ e.evaluated (constLeaves m scope), IsLiteral s ∧ folds m scope allowEnumRefs s = true := by
  induction e using Expr.induct_operands (constLeaves m scope) with
  | step e ih =>
    rw [Expr.evaluated_eq, List.forall_mem_cons]
    refine ⟨h, fun s hs => ?_⟩
    obtain ⟨p, hp, hs⟩ := List.mem_flatMap.mp hs
    exact ih p hp (folds_operands h p hp) s hs

/-- Where the evaluator folds an expression of literals without a defect, the values generated for it and
for all that is evaluated are the folded ones exactly when no operator that is reached miscomputes. -/
theorem generatedAsFolded_iff (vars : Variables m) (hliteral : IsLiteral e)
    (hfolds : folds m scope allowEnumRefs e = true) (hclean : Clean m scope allowEnumRefs e) :
    (∀ s ∈ e.evaluated vars.leaves, GeneratedAsFolded vars scope allowEnumRefs s) ↔
      ∀ s ∈ e.evaluated vars.leaves, (s.eval vars.leaves).isSome → ¬Miscomputes vars s := by
  rw [← Expr.forall_evaluated_iff (fun _ => loweredAsC_iff_operator) e]
  refine forall₂_congr fun s hs => ?_
  rw [← (hliteral.agrees vars scope).2.2] at hs
  obtain ⟨hsliteral, hsfolds⟩ := folds_evaluated ⟨hliteral, hfolds⟩ s hs
  have hagrees := (hsliteral.agrees vars scope).2.1
  have hright := (settled m scope allowEnumRefs s).right fun s' hs' => hclean s' (Expr.evaluated_trans e hs hs')
  -- the folded value is that of C
  have hvalue : ∀ z, s.eval vars.leaves = some z →
      ∃ r, constEvalInternal (dataLayout m) scope allowEnumRefs s = some r ∧
        Word.read r.isUnsigned r.value = z := by
    intro z hz
    rw [← hagrees] at hz
    have hcomputes := hright z hz
    rw [if_pos hsfolds] at hcomputes
    obtain ⟨r, hr, hshape, hword⟩ := hcomputes
    refine ⟨r, hr, ?_⟩
    rw [hword, (Prod.mk.inj hshape).2]
    exact read_ofInt (s.eval_holds hz)
  constructor
  · intro hfolded z hz st st' hst hst'
    obtain ⟨r, hr, hread⟩ := hvalue z hz
    rw [hfolded r hr (Option.isSome_of_eq_some hz) st st' hst hst', hread]
  · intro hlowered r hr hdefined st st' hst hst'
    obtain ⟨z, hz⟩ := Option.isSome_iff_exists.mp hdefined
    obtain ⟨r', hr', hread⟩ := hvalue z hz
    obtain rfl := Option.some.inj (hr.symm.trans hr')
    rw [hlowered z hz st st' hst hst', hread]

end

/-- `-1` -/
theorem generatedAsFolded_minus :
    let one : IntConstant :=
      ⟨.decimal, [], ['1'], [], by decide, List.forall_mem_singleton.mpr (by decide), by decide, by decide,
        by decide⟩
    GeneratedAsFolded exampleVariables (fun _ => none) true (.unary .minus (.leaf (.number one))) := by
  intro one
  have hsound : ∀ s ∈ (Expr.unary .minus (.leaf (.number one))).evaluated (constLeaves .lp64 fun _ => none),
      miscomputes .lp64 (fun _ => none) s = false := by decide
  refine (generatedAsFolded_iff exampleVariables ?_ rfl fun s hs _ _ => hsound s hs).mpr ?_ _
    (Expr.mem_evaluated_self _ _)
  · exact trivial
  · decide

end Fisics
