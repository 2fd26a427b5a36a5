import Fisics.Library.CInteger

/-!
# Arithmetic that a host carries out

An operation on words of `w` bits as a C program hands it to its host. The behaviour is
defined where the exact result is one of the type, the divisor is not zero and a word
is shifted by fewer bits than it has; unsigned results wrap.
-/

namespace HostArith

open CInteger (ArithOp)
open Word (read)

/-- Two's complement of `w` bits has the integer. -/
def InRange (w : Nat) (z : Int) : Prop := -2 ^ (w - 1) ≤ z ∧ z < 2 ^ (w - 1)

instance : Decidable (InRange w z) := inferInstanceAs (Decidable (_ ∧ _))

theorem InRange.mono (h : InRange b z) (hle : b ≤ w) : InRange w z := by
  have hpow : (2 : Int) ^ (b - 1) ≤ 2 ^ (w - 1) :=
    pow_le_pow_right₀ (by decide) (Nat.sub_le_sub_right hle 1)
  exact ⟨Int.le_trans (Int.neg_le_neg hpow) h.1, Int.lt_of_lt_of_le h.2 hpow⟩

theorem inRange_toInt (x : BitVec w) : InRange w x.toInt := ⟨BitVec.le_toInt x, BitVec.toInt_lt⟩

/-- The integer that has to be one of the type; for a remainder it is the quotient. -/
def exact (x y : Int) : ArithOp → Int
  | .add => x + y
  | .sub => x - y
  | .mul => x * y
  | .div | .mod => x.tdiv y

def divides : ArithOp → Bool
  | .div | .mod => true
  | _ => false

inductive HostOp (w : Nat)
  | neg (x : BitVec w)
  | arith (op : ArithOp) (isUnsigned : Bool) (x y : BitVec w)
  | shl (isUnsigned : Bool) (x : BitVec w) (amount : Int)
  | shr (isUnsigned : Bool) (x : BitVec w) (amount : Int)

namespace HostOp

def Defined : HostOp w → Prop
  | neg x => InRange w (-x.toInt)
  | arith op isUnsigned x y =>
    (divides op → y ≠ 0) ∧ (isUnsigned = false → InRange w (exact x.toInt y.toInt op))
  | shl isUnsigned x amount =>
    (0 ≤ amount ∧ amount < w) ∧ (isUnsigned = false → 0 ≤ x.toInt ∧ InRange w (x.toInt * 2 ^ amount.toNat))
  | shr _ _ amount => 0 ≤ amount ∧ amount < w

instance (o : HostOp w) : Decidable o.Defined := by
  cases o <;> unfold Defined <;> infer_instance

def result : HostOp w → BitVec w
  | neg x => -x
  | arith .add _ x y => x + y
  | arith .sub _ x y => x - y
  | arith .mul _ x y => x * y
  | arith .div isUnsigned x y => if isUnsigned then x / y else x.sdiv y
  | arith .mod isUnsigned x y => if isUnsigned then x % y else x.srem y
  | shl _ x amount => x <<< amount.toNat
  | shr isUnsigned x amount => if isUnsigned then x >>> amount.toNat else x.sshiftRight amount.toNat

end HostOp

-- Where an operation is defined

theorem inRange_neg_iff (hx : InRange w x) : InRange w (-x) ↔ x ≠ -2 ^ (w - 1) := by
  unfold InRange at *
  omega

/-- The truncated quotient of two integers of the type is one of it, but for the least one
by minus one. -/
theorem inRange_tdiv_iff (hx : InRange w x) (hy : y ≠ 0) :
    InRange w (x.tdiv y) ↔ ¬(x = -2 ^ (w - 1) ∧ y = -1) := by
  by_cases hone : y = -1
  · subst hone
    rw [Int.tdiv_neg, Int.tdiv_one, inRange_neg_iff hx]
    simp
  refine iff_of_true ?_ fun h => hone h.2
  obtain rfl | hne := eq_or_ne y 1
  · rwa [Int.tdiv_one]
  · -- the divisor at least halves the magnitude
    have hnatAbs : (x.tdiv y).natAbs ≤ x.natAbs / 2 := by
      rw [Int.natAbs_tdiv]
      exact Nat.div_le_div_left (by omega) (by decide)
    unfold InRange at *
    omega

theorem neg_defined_iff (x : BitVec w) : (HostOp.neg x).Defined ↔ x.toInt ≠ -2 ^ (w - 1) :=
  inRange_neg_iff (inRange_toInt x)

/-- What makes an arithmetic operation on words undefined: a result out of range, a zero
divisor, or the least word by minus one. -/
def ArithDefined (w : Nat) (op : ArithOp) (isUnsigned : Bool) (x y : Int) : Prop :=
  match op with
  | .div | .mod => y ≠ 0 ∧ (isUnsigned = false → ¬(x = -2 ^ (w - 1) ∧ y = -1))
  | op => isUnsigned = false → InRange w (exact x y op)

theorem arith_defined_iff (op : ArithOp) (isUnsigned : Bool) (x y : BitVec w) :
    (HostOp.arith op isUnsigned x y).Defined ↔ ArithDefined w op isUnsigned x.toInt y.toInt := by
  have hzero : y ≠ 0 ↔ y.toInt ≠ 0 := not_congr (Word.read_eq_zero (u := false)).symm
  have hquotient : y ≠ 0 → (InRange w (x.toInt.tdiv y.toInt) ↔ _) := fun hy =>
    inRange_tdiv_iff (inRange_toInt x) (hzero.mp hy)
  cases op <;> simp only [HostOp.Defined, ArithDefined, divides, exact, Bool.false_eq_true, false_imp_iff,
    true_and, true_imp_iff]
  all_goals
    rw [← hzero]
    exact and_congr_right fun hy => imp_congr_right fun _ => hquotient hy

/-- A shift to the left stays in range where the word lies under the greatest one shifted
back. -/
theorem inRange_shl_iff (hx : 0 ≤ x) (n : Nat) : InRange w (x * 2 ^ n) ↔ x * 2 ^ n < 2 ^ (w - 1) := by
  have hnonneg : 0 ≤ x * 2 ^ n := Int.mul_nonneg hx (by positivity)
  unfold InRange
  omega

end HostArith
