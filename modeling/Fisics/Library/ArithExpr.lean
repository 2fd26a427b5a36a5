import Fisics.Library.CArith

/-!
# Arithmetic constant expressions of C

Casts, signs, the arithmetic operators, comparisons and `?:` on integers and on floating
values, which are exact rationals. `none` is what C leaves undefined or does not allow.
-/

namespace CArith

open CInteger (DataModel IntType ArithOp CompareOp ofBool)
open Option (bind_eq_some_iff map_eq_some_iff)

-- Rationals

/-- Towards zero. -/
def truncate (q : Rat) : Int := q.num.tdiv q.den

/-- The floating operations without rounding. -/
def rationals : Floats Rat where
  ofInt _ z := z
  convert _ _ q := q
  truncate _ q := some (truncate q)
  isZero _ q := q = 0
  apply _ op p q :=
    match op with
    | .mul => p * q
    | .div => p / q
    | .add => p + q
    | .sub => p - q

def asRational : (t : ArithType) → Meaning Rat t → Rat
  | .int _, z => Int.cast z
  | .float _, q => q

def compareRationals (p q : Rat) : CompareOp → Bool
  | .lt => p < q
  | .le => p ≤ q
  | .gt => q < p
  | .ge => q ≤ p
  | .eq => p = q
  | .ne => p ≠ q

-- Operators

inductive Sign
  | plus | minus
  deriving DecidableEq

inductive Operator
  | arith (op : ArithOp)
  | compare (op : CompareOp)
  deriving DecidableEq

def Sign.on [Neg α] (x : α) : Sign → α
  | .plus => x
  | .minus => -x

def Sign.unary : Sign → CInteger.Unary
  | .plus => .plus
  | .minus => .minus

def Operator.binary : Operator → CInteger.Binary
  | .arith op => .arith op
  | .compare op => .compare op

def ArithType.promote : ArithType → ArithType
  | .int t => .int t.promote
  | .float k => .float k

def ArithType.common (m : DataModel) : ArithType → ArithType → ArithType
  | .int a, .int b => .int (a.usual m b)
  | .float k, .float k' => .float (k.common k')
  | .float k, .int _ => .float k
  | .int _, .float k => .float k

def Operator.type (m : DataModel) (s t : ArithType) : Operator → ArithType
  | .arith _ => s.common m t
  | .compare _ => .int .int

section
variable (m : DataModel)

def Sign.apply (op : Sign) : (t : ArithType) → Meaning Rat t → Option (Meaning Rat t.promote)
  | .int t, z => op.unary.apply m t z
  | .float _, q => some (op.on (α := Rat) q)

def applyArith (op : ArithOp) : (t : ArithType) → Meaning Rat t → Meaning Rat t →
    Option (Meaning Rat t)
  | .int t, x, y => op.apply m t x y
  | .float k, p, q =>
    (AssignOp.arith op).floating.bind fun op =>
      if op = .div ∧ (q : Rat) = 0 then none else some (rationals.apply k op p q)

def applyCompare (op : CompareOp) : (t : ArithType) → Meaning Rat t → Meaning Rat t → Bool
  | .int _, x, y => op.apply x y
  | .float _, p, q => compareRationals p q op

def Operator.apply (s t : ArithType) (x : Meaning Rat s) (y : Meaning Rat t) :
    (op : Operator) → Option (Meaning Rat (op.type m s t))
  | .arith op =>
    (convert m rationals s (s.common m t) x).bind fun x =>
      (convert m rationals t (s.common m t) y).bind fun y => applyArith m op (s.common m t) x y
  | .compare op =>
    (convert m rationals s (s.common m t) x).bind fun x =>
      (convert m rationals t (s.common m t) y).map fun y =>
        ofBool (applyCompare op (s.common m t) x y)

end

-- Expressions

inductive Expr (α : Type)
  | leaf (a : α)
  | cast (t : ArithType) (e : Expr α)
  | unary (op : Sign) (e : Expr α)
  | binary (op : Operator) (l r : Expr α)
  | cond (c a b : Expr α)

structure Leaves (α : Type) where
  type : α → ArithType
  value : (a : α) → Option (Meaning Rat (type a))

section
variable (m : DataModel) (L : Leaves α)

def Expr.typeOf : Expr α → ArithType
  | .leaf a => L.type a
  | .cast t _ => t
  | .unary _ e => e.typeOf.promote
  | .binary op l r => op.type m l.typeOf r.typeOf
  | .cond _ a b => a.typeOf.common m b.typeOf

def Expr.eval : (e : Expr α) → Option (Meaning Rat (e.typeOf m L))
  | .leaf a => L.value a
  | .cast t e => e.eval.bind (convert m rationals (e.typeOf m L) t)
  | .unary op e => e.eval.bind (op.apply m (e.typeOf m L))
  | .binary op l r =>
    l.eval.bind fun x => r.eval.bind fun y => op.apply m (l.typeOf m L) (r.typeOf m L) x y
  | .cond c a b =>
    c.eval.bind fun z =>
      if asRational _ z ≠ 0 then
        a.eval.bind (convert m rationals (a.typeOf m L) ((Expr.cond c a b).typeOf m L))
      else b.eval.bind (convert m rationals (b.typeOf m L) ((Expr.cond c a b).typeOf m L))

def Expr.value (e : Expr α) : Option Rat := (e.eval m L).map (asRational _)

def Expr.valueAs (t : ArithType) (e : Expr α) : Option (Meaning Rat t) :=
  (e.eval m L).bind (convert m rationals (e.typeOf m L) t)

def Expr.isTrue (e : Expr α) : Bool := (e.value m L).any fun z => z ≠ 0

def Expr.arm (c a b : Expr α) : Expr α := if c.isTrue m L then a else b

end

-- Operands

section
variable {m : DataModel} {L : Leaves α} {c a b e l r : Expr α}

theorem truncate_intCast (z : Int) : truncate z = z := by
  simp [truncate]

theorem Expr.value_cast (h : (Expr.cast t e).value m L = some v) : ∃ x, e.value m L = some x := by
  obtain ⟨z, hz, -⟩ := map_eq_some_iff.mp h
  obtain ⟨x, hx, -⟩ := bind_eq_some_iff.mp hz
  exact ⟨_, map_eq_some_iff.mpr ⟨x, hx, rfl⟩⟩

theorem Expr.value_unary (h : (Expr.unary op e).value m L = some v) : ∃ x, e.value m L = some x := by
  obtain ⟨z, hz, -⟩ := map_eq_some_iff.mp h
  obtain ⟨x, hx, -⟩ := bind_eq_some_iff.mp hz
  exact ⟨_, map_eq_some_iff.mpr ⟨x, hx, rfl⟩⟩

theorem Expr.value_binary (h : (Expr.binary op l r).value m L = some v) :
    ∃ x y, l.value m L = some x ∧ r.value m L = some y := by
  obtain ⟨z, hz, -⟩ := map_eq_some_iff.mp h
  obtain ⟨x, hx, hz⟩ := bind_eq_some_iff.mp hz
  obtain ⟨y, hy, -⟩ := bind_eq_some_iff.mp hz
  exact ⟨_, _, map_eq_some_iff.mpr ⟨x, hx, rfl⟩, map_eq_some_iff.mpr ⟨y, hy, rfl⟩⟩

theorem Expr.value_cond (h : (Expr.cond c a b).value m L = some v) :
    ∃ z x, c.value m L = some z ∧ (c.arm m L a b).value m L = some x := by
  obtain ⟨w, hw, -⟩ := map_eq_some_iff.mp h
  obtain ⟨z, hz, hw⟩ := bind_eq_some_iff.mp hw
  have hc : c.value m L = some (asRational _ z) := map_eq_some_iff.mpr ⟨z, hz, rfl⟩
  by_cases hzero : asRational _ z = 0
  · have harm : c.arm m L a b = b := by
      simp [Expr.arm, Expr.isTrue, hc, hzero]
    rw [if_neg (not_not.mpr hzero)] at hw
    obtain ⟨x, hx, -⟩ := bind_eq_some_iff.mp hw
    rw [harm]
    exact ⟨_, _, hc, map_eq_some_iff.mpr ⟨x, hx, rfl⟩⟩
  · have harm : c.arm m L a b = a := by
      simp [Expr.arm, Expr.isTrue, hc, hzero]
    rw [if_pos hzero] at hw
    obtain ⟨x, hx, -⟩ := bind_eq_some_iff.mp hw
    rw [harm]
    exact ⟨_, _, hc, map_eq_some_iff.mpr ⟨x, hx, rfl⟩⟩

theorem Expr.isTrue_of_value (h : c.value m L = some z) : c.isTrue m L = true ↔ z ≠ 0 := by
  simp [Expr.isTrue, h]

-- Conversions

theorem convert_toFloat (s : ArithType) (k : FloatType) (x : Meaning Rat s) :
    convert m rationals s (.float k) x = some (asRational s x) := by
  cases s with
  | int a => rfl
  | float k' =>
    rw [convert]
    split <;> rfl

theorem convert_ofInt (s : ArithType) (x : Meaning Rat s) (t : IntType) (hx : asRational s x = (z : Int))
    (h : convert m rationals s (.int t) x = some v) : v = t.convert m z := by
  cases s with
  | int a =>
    obtain rfl : x = z := Rat.intCast_inj.mp hx
    exact (Option.some.inj h).symm
  | float k => ?_
  obtain rfl : x = z := hx
  rw [convert] at h
  by_cases ht : t = .bool
  · rw [if_pos ht] at h
    cases h
    rw [ht, IntType.convert, if_pos rfl]
    by_cases hz : z = 0 <;> simp [rationals, hz, ofBool]
  rw [if_neg ht] at h
  obtain ⟨hz, hholds⟩ := Option.filter_eq_some_iff.mp h
  obtain rfl : z = v := (truncate_intCast z).symm.trans (Option.some.inj hz)
  rw [IntType.convert, if_neg ht]
  exact (IntType.wrap_of_holds (of_decide_eq_true hholds)).symm

theorem convert_zero (s t : ArithType) (x : Meaning Rat s) {y : Meaning Rat t}
    (hx : asRational s x = 0) (h : convert m rationals s t x = some y) : asRational t y = 0 := by
  cases t with
  | int t =>
    obtain rfl := convert_ofInt s x t hx h
    rw [asRational, IntType.convert]
    split <;> simp [Word.wrap]
  | float k =>
    rw [convert_toFloat, hx] at h
    exact (Option.some.inj h).symm

theorem applyArith_div_zero (t : ArithType) (x y : Meaning Rat t) (hy : asRational t y = 0) :
    applyArith m .div t x y = none := by
  cases t with
  | int t =>
    obtain rfl : y = 0 := Rat.intCast_inj.mp hy
    rw [applyArith, ArithOp.apply, if_pos rfl]
  | float k =>
    have hzero : FloatOp.div = .div ∧ (y : Rat) = 0 := ⟨rfl, hy⟩
    show (if FloatOp.div = .div ∧ (y : Rat) = 0 then none else _) = none
    exact if_pos hzero

theorem Expr.divisor_ne_zero (h : (Expr.binary (.arith .div) l r).value m L = some v)
    (hy : r.value m L = some y) : y ≠ 0 := by
  rintro rfl
  obtain ⟨z, hz, -⟩ := map_eq_some_iff.mp h
  obtain ⟨x, -, hz⟩ := bind_eq_some_iff.mp hz
  obtain ⟨y, hyr, hz⟩ := bind_eq_some_iff.mp hz
  obtain ⟨y, hyr', hzero⟩ := map_eq_some_iff.mp hy
  obtain rfl := Option.some.inj (hyr.symm.trans hyr')
  obtain ⟨x, -, hz⟩ := bind_eq_some_iff.mp hz
  obtain ⟨y, hy, hz⟩ := bind_eq_some_iff.mp hz
  rw [applyArith_div_zero _ _ _ (convert_zero _ _ _ hzero hy)] at hz
  cases hz

theorem Expr.value_of_valueAs (h : e.valueAs m L t = some v) : ∃ q, e.value m L = some q := by
  obtain ⟨x, hx, -⟩ := bind_eq_some_iff.mp h
  exact ⟨_, map_eq_some_iff.mpr ⟨x, hx, rfl⟩⟩

theorem Expr.valueAs_float (hq : e.value m L = some q) (h : e.valueAs m L (.float k) = some v) : v = q := by
  obtain ⟨x, hx, rfl⟩ := map_eq_some_iff.mp hq
  rw [Expr.valueAs, hx, Option.bind_some, convert_toFloat] at h
  exact (Option.some.inj h).symm

end

end CArith
