import Fisics.Library.CInteger

/-!
# Assignments of C to arithmetic objects

The integer types with `float` and `double`. Floating arithmetic has no
interpretation: `Floats` is any choice of the operations, each given the type that C
computes it in. `none` is what C leaves undefined or does not allow.
-/

namespace CArith

open CInteger (DataModel IntType Binary ArithOp ShiftOp BitOp ofBool)

inductive FloatType
  | float | double
  deriving DecidableEq

inductive FloatOp
  | mul | div | add | sub
  deriving DecidableEq

structure Floats (F : Type) where
  ofInt : FloatType → Int → F
  convert : FloatType → FloatType → F → F
  /-- Towards zero, where the value is finite. -/
  truncate : FloatType → F → Option Int
  isZero : FloatType → F → Bool
  apply : FloatType → FloatOp → F → F → F

inductive ArithType
  | int (t : IntType)
  | float (k : FloatType)
  deriving DecidableEq

abbrev Meaning (F : Type) : ArithType → Type
  | .int _ => Int
  | .float _ => F

/-- The value of a type that is an integer or a floating value by the type. -/
def meaning (z : Int) (x : F) : (t : ArithType) → Meaning F t
  | .int _ => z
  | .float _ => x

def ArithType.Holds (m : DataModel) (z : Int) : ArithType → Prop
  | .int t => t.Holds m z
  | .float _ => True

inductive AssignOp
  | arith (op : ArithOp)
  | shift (op : ShiftOp)
  | bit (op : BitOp)
  deriving DecidableEq

def AssignOp.binary : AssignOp → Binary
  | .arith op => .arith op
  | .shift op => .shift op
  | .bit op => .bit op

def AssignOp.floating : AssignOp → Option FloatOp
  | .arith .mul => some .mul
  | .arith .div => some .div
  | .arith .add => some .add
  | .arith .sub => some .sub
  | _ => none

def FloatType.common (k k' : FloatType) : FloatType := if k = k' then k else .double

section
variable (m : DataModel) (fl : Floats F)

def convert : (s t : ArithType) → Meaning F s → Option (Meaning F t)
  | .int _, .int t, z => some (t.convert m z)
  | .int _, .float k, z => some (fl.ofInt k z)
  | .float k, .int t, x =>
    if t = .bool then some (ofBool (!fl.isZero k x))
    else (fl.truncate k x).filter fun n => t.Holds m n
  | .float k, .float k', x => some (if k = k' then x else fl.convert k k' x)

/-- `E1 op= E2` where one of the two is floating. -/
def assignFloating (op : AssignOp) (k : FloatType) (s t : ArithType) (x : Meaning F s)
    (y : Meaning F t) : Option (Meaning F s) :=
  op.floating.bind fun op =>
    (convert m fl s (.float k) x).bind fun x =>
      (convert m fl t (.float k) y).bind fun y => convert m fl (.float k) s (fl.apply k op x y)

/-- What `E1 op= E2` stores, in the types of the usual arithmetic conversions, and a
shift in the promoted type of its left operand. -/
def assignOp (op : AssignOp) : (s t : ArithType) → Meaning F s → Meaning F t → Option (Meaning F s)
  | .int a, .int b, x, y => (op.binary.apply m a b x y).map fun z => a.convert m z
  | .float k, .float k', x, y => assignFloating m fl op (k.common k') (.float k) (.float k') x y
  | .float k, .int b, x, y => assignFloating m fl op k (.float k) (.int b) x y
  | .int a, .float k, x, y => assignFloating m fl op k (.int a) (.float k) x y

/-- What an assignment stores: `E1 = E2` without an operator. -/
def assign (op : Option AssignOp) (s t : ArithType) (x : Meaning F s) (y : Meaning F t) :
    Option (Meaning F s) :=
  match op with
  | none => convert m fl t s y
  | some op => assignOp m fl op s t x y

/-- `++` and `--` add and subtract the `int` one. -/
def step (isIncrement : Bool) (s : ArithType) (x : Meaning F s) : Option (Meaning F s) :=
  assignOp m fl (.arith (if isIncrement then .add else .sub)) s (.int .int) x 1

end

end CArith
