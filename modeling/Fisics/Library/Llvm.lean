import Fisics.Library.Word

/-!
# Integer values of LLVM

The integer instructions as operations on bit vectors. A value is the tree of the
instructions it is computed by; `branch` stands for a conditional branch whose two
blocks meet in a `phi`. A division by zero is the one of bit vectors.
-/

namespace Llvm

open Word (read wrap)

inductive BinOp
  | add | sub | mul
  | udiv | sdiv | urem | srem
  | shl | lshr | ashr
  | and | or | xor
  deriving DecidableEq

inductive Pred
  | eq | ne
  | ult | ule | ugt | uge
  | slt | sle | sgt | sge
  deriving DecidableEq

/-- Values of `w` bits over variables in memory. -/
inductive Value (ν : Type) : Nat → Type
  | load (x : ν) : Value ν w
  | const (b : BitVec w) : Value ν w
  | zext (k : Nat) (a : Value ν w) : Value ν k
  | sext (k : Nat) (a : Value ν w) : Value ν k
  | trunc (k : Nat) (a : Value ν w) : Value ν k
  | neg (a : Value ν w) : Value ν w
  | not (a : Value ν w) : Value ν w
  | binary (op : BinOp) (a b : Value ν w) : Value ν w
  | icmp (pred : Pred) (a b : Value ν w) : Value ν 1
  | branch (c : Value ν 1) (a b : Value ν w) : Value ν w

def BinOp.apply (a b : BitVec w) : BinOp → BitVec w
  | .add => a + b
  | .sub => a - b
  | .mul => a * b
  | .udiv => a / b
  | .sdiv => a.sdiv b
  | .urem => a % b
  | .srem => a.srem b
  | .shl => a <<< b.toNat
  | .lshr => a >>> b.toNat
  | .ashr => a.sshiftRight b.toNat
  | .and => a &&& b
  | .or => a ||| b
  | .xor => a ^^^ b

def Pred.apply (a b : BitVec w) : Pred → Bool
  | .eq => a == b
  | .ne => a != b
  | .ult => a.ult b
  | .ule => a.ule b
  | .ugt => b.ult a
  | .uge => b.ule a
  | .slt => a.slt b
  | .sle => a.sle b
  | .sgt => b.slt a
  | .sge => b.sle a

abbrev Memory (ν : Type) := ν → (w : Nat) → BitVec w

def Value.eval (memory : Memory ν) : Value ν w → BitVec w
  | .load x => memory x w
  | .const b => b
  | .zext k a => (a.eval memory).setWidth k
  | .sext k a => (a.eval memory).signExtend k
  | .trunc k a => (a.eval memory).setWidth k
  | .neg a => -a.eval memory
  | .not a => ~~~a.eval memory
  | .binary op a b => op.apply (a.eval memory) (b.eval memory)
  | .icmp pred a b => BitVec.ofBool (pred.apply (a.eval memory) (b.eval memory))
  | .branch c a b => if c.eval memory = 1#1 then a.eval memory else b.eval memory

-- Building values

/-- `LLVMBuildIntCast2`. -/
def Value.intCast (isUnsigned : Bool) (k : Nat) (a : Value ν w) : Value ν k :=
  if h : w = k then h ▸ a
  else if w < k then if isUnsigned then .zext k a else .sext k a
  else .trunc k a

def Value.isNonZero (a : Value ν w) : Value ν 1 := .icmp .ne a (.const 0#w)

section
variable {memory : Memory ν} {a b : Value ν w}

theorem eval_intCast (u : Bool) (k : Nat) (a : Value ν w) :
    (a.intCast u k).eval memory = BitVec.ofInt k (read u (a.eval memory)) := by
  unfold Value.intCast
  split
  · rename_i h
    subst h
    simp
  split
  · cases u with
    | true =>
      show (a.eval memory).setWidth k = BitVec.ofInt k ((a.eval memory).toNat : Int)
      rw [BitVec.ofInt_natCast, BitVec.ofNat_toNat]
    | false => rfl
  · have hle : k ≤ w := by omega
    calc (a.eval memory).setWidth k = (BitVec.ofInt w (read u (a.eval memory))).setWidth k := by simp
      _ = BitVec.ofInt k (read u (a.eval memory)) := Word.setWidth_ofInt hle _

@[simp] theorem eval_isNonZero (a : Value ν w) :
    a.isNonZero.eval memory = BitVec.ofBool (a.eval memory != 0#w) := rfl

@[simp] theorem ofBool_eq_one (p : Bool) : BitVec.ofBool p = 1#1 ↔ p = true := by
  cases p <;> decide

@[simp] theorem not_ofBool (p : Bool) : ~~~BitVec.ofBool p = BitVec.ofBool !p := by
  cases p <;> decide

theorem setWidth_ofBool (p : Bool) (k : Nat) :
    (BitVec.ofBool p).setWidth k = BitVec.ofInt k (if p then 1 else 0) := by
  apply BitVec.eq_of_toNat_eq
  cases p <;> simp

end

end Llvm
