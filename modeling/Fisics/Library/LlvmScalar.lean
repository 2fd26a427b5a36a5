import Fisics.Library.CArith
import Fisics.Library.Llvm

/-!
# Scalar values of LLVM

Integers and floating values with their types. `none` is an instruction that the
verifier refuses, that is undefined, or whose result is poison.
-/

namespace Llvm

open CArith (FloatType FloatOp Floats)

inductive Ty
  | int (w : Nat)
  | float (k : FloatType)
  deriving DecidableEq

inductive Scalar (F : Type)
  | int (w : Nat) (b : BitVec w)
  | float (k : FloatType) (x : F)

def Scalar.type : Scalar F → Ty
  | .int w _ => .int w
  | .float k _ => .float k

def BinOp.isDefined (a b : BitVec w) : BinOp → Bool
  | .udiv | .urem => b != 0#w
  | .sdiv | .srem => b != 0#w && !(a == BitVec.intMin w && b == -1#w)
  | .shl | .lshr | .ashr => b.toNat < w
  | _ => true

def buildInt (op : BinOp) : Scalar F → Scalar F → Option (Scalar F)
  | .int w a, .int w' b =>
    if h : w' = w then
      let b : BitVec w := h ▸ b
      if op.isDefined a b then some (.int w (op.apply a b)) else none
    else none
  | _, _ => none

section
variable (fl : Floats F)

def buildFloat (op : FloatOp) : Scalar F → Scalar F → Option (Scalar F)
  | .float k x, .float k' y => if k = k' then some (.float k (fl.apply k op x y)) else none
  | _, _ => none

/-- `fptoui` and `fptosi`. -/
def floatToInt (isUnsigned : Bool) (k : FloatType) (x : F) (w : Nat) : Option (Scalar F) :=
  (fl.truncate k x).bind fun n =>
    if Word.wrap w isUnsigned n = n then some (.int w (BitVec.ofInt w n)) else none

/-- `uitofp` and `sitofp`. -/
def intToFloat (isUnsigned : Bool) (b : BitVec w) (k : FloatType) : Scalar F :=
  .float k (fl.ofInt k (Word.read isUnsigned b))

end

theorem buildInt_eq (op : BinOp) (a b : BitVec w) :
    buildInt op (.int w a : Scalar F) (.int w b) =
      if op.isDefined a b then some (.int w (op.apply a b)) else none := by
  rw [buildInt, dif_pos rfl]

end Llvm
