import Fisics.Library.Word

/-!
# Integer expressions of C

The integer types of C99 on a data model, the conversions between them, and the
value of an expression over leaves of any kind: `none` where C leaves the
behaviour undefined. Where C leaves a choice to the implementation: `char` is
signed, a value that a signed type does not hold wraps on conversion, and a right
shift of a negative value keeps the sign.
-/

namespace CInteger

open Word (wrap read)

-- Types

/-- With a `long` of 64 or of 32 bits. -/
inductive DataModel
  | lp64
  | llp64
  deriving DecidableEq

inductive IntType
  | bool
  | char | uchar
  | short | ushort
  | int | uint
  | long | ulong
  | llong | ullong
  deriving DecidableEq

def IntType.isUnsigned : IntType → Bool
  | .bool | .uchar | .ushort | .uint | .ulong | .ullong => true
  | _ => false

def IntType.rank : IntType → Nat
  | .bool => 0
  | .char | .uchar => 1
  | .short | .ushort => 2
  | .int | .uint => 3
  | .long | .ulong => 4
  | .llong | .ullong => 5

def IntType.bits (m : DataModel) : IntType → Nat
  | .bool => 1
  | .char | .uchar => 8
  | .short | .ushort => 16
  | .int | .uint => 32
  | .long | .ulong => match m with
    | .lp64 => 64
    | .llp64 => 32
  | .llong | .ullong => 64

def IntType.shape (m : DataModel) (t : IntType) : Nat × Bool := (t.bits m, t.isUnsigned)

def IntType.toUnsigned : IntType → IntType
  | .char => .uchar
  | .short => .ushort
  | .int => .uint
  | .long => .ulong
  | .llong => .ullong
  | t => t

def IntType.isNarrow (t : IntType) : Bool := t.rank < IntType.int.rank

def IntType.promote (t : IntType) : IntType := if t.isNarrow then .int else t

def IntType.usual (m : DataModel) (a b : IntType) : IntType :=
  let a := a.promote
  let b := b.promote
  if a.isUnsigned = b.isUnsigned then if a.rank < b.rank then b else a
  else
    let (s, u) := if a.isUnsigned then (b, a) else (a, b)
    if s.rank ≤ u.rank then u
    else if u.bits m < s.bits m then s
    else s.toUnsigned

def IntType.least (m : DataModel) (t : IntType) : Int :=
  if t.isUnsigned then 0 else -2 ^ (t.bits m - 1)

def IntType.limit (m : DataModel) (t : IntType) : Int :=
  if t.isUnsigned then 2 ^ t.bits m else 2 ^ (t.bits m - 1)

def IntType.Holds (m : DataModel) (t : IntType) (z : Int) : Prop := t.least m ≤ z ∧ z < t.limit m

instance (m : DataModel) (t : IntType) (z : Int) : Decidable (t.Holds m z) :=
  inferInstanceAs (Decidable (_ ∧ _))

def IntType.convert (m : DataModel) (t : IntType) (z : Int) : Int :=
  if t = .bool then if z = 0 then 0 else 1 else wrap (t.bits m) t.isUnsigned z

/-- The result of an operation: an unsigned type wraps, a signed type has to have
the value. -/
def IntType.fit (m : DataModel) (t : IntType) (z : Int) : Option Int :=
  if t.isUnsigned then some (wrap (t.bits m) true z)
  else if t.Holds m z then some z else none

-- Operators

inductive Unary
  | plus | minus | bitNot | logNot
  deriving DecidableEq

inductive ArithOp
  | mul | div | mod | add | sub
  deriving DecidableEq

inductive ShiftOp
  | shl | shr
  deriving DecidableEq

inductive CompareOp
  | lt | le | gt | ge | eq | ne
  deriving DecidableEq

inductive BitOp
  | and | xor | or
  deriving DecidableEq

inductive LogicOp
  | and | or
  deriving DecidableEq

inductive Binary
  | arith (op : ArithOp)
  | shift (op : ShiftOp)
  | compare (op : CompareOp)
  | bit (op : BitOp)
  deriving DecidableEq

def Binary.isShift : Binary → Bool
  | .shift _ => true
  | _ => false

def Unary.type (t : IntType) : Unary → IntType
  | .logNot => .int
  | _ => t.promote

def Binary.type (m : DataModel) (a b : IntType) : Binary → IntType
  | .compare _ => .int
  | .shift _ => a.promote
  | _ => a.usual m b

def ofBool (b : Bool) : Int := if b then 1 else 0

@[grind] def Unary.apply (m : DataModel) (t : IntType) (z : Int) : Unary → Option Int
  | .plus => some z
  | .minus => t.promote.fit m (-z)
  | .bitNot => t.promote.fit m (-z - 1)
  | .logNot => some (ofBool (z = 0))

/-- Operands and result of the type `t`. -/
def ArithOp.apply (m : DataModel) (t : IntType) (x y : Int) : ArithOp → Option Int
  | .mul => t.fit m (x * y)
  | .add => t.fit m (x + y)
  | .sub => t.fit m (x - y)
  | .div => if y = 0 then none else t.fit m (x.tdiv y)
  | .mod => if y = 0 then none else (t.fit m (x.tdiv y)).bind fun _ => t.fit m (x.tmod y)

/-- The left operand and the result are of the type `t`. -/
def ShiftOp.apply (m : DataModel) (t : IntType) (x y : Int) (op : ShiftOp) : Option Int :=
  if y < 0 ∨ t.bits m ≤ y then none
  else match op with
    | .shl => if x < 0 then none else t.fit m (x * 2 ^ y.toNat)
    | .shr => some (x / 2 ^ y.toNat)

@[grind] def CompareOp.apply (x y : Int) : CompareOp → Bool
  | .lt => x < y
  | .le => x ≤ y
  | .gt => y < x
  | .ge => y ≤ x
  | .eq => x = y
  | .ne => x ≠ y

def BitOp.onWords (a b : BitVec w) : BitOp → BitVec w
  | .and => a &&& b
  | .xor => a ^^^ b
  | .or => a ||| b

def BitOp.apply (m : DataModel) (t : IntType) (x y : Int) (op : BitOp) : Int :=
  read t.isUnsigned (op.onWords (BitVec.ofInt (t.bits m) x) (BitVec.ofInt (t.bits m) y))

/-- Operands of the types `a` and `b`. -/
@[grind] def Binary.apply (m : DataModel) (a b : IntType) (x y : Int) : Binary → Option Int
  | .arith op =>
    let t := a.usual m b
    op.apply m t (t.convert m x) (t.convert m y)
  | .shift op => op.apply m a.promote x y
  | .compare op =>
    let t := a.usual m b
    some (ofBool (op.apply (t.convert m x) (t.convert m y)))
  | .bit op =>
    let t := a.usual m b
    some (op.apply m t (t.convert m x) (t.convert m y))

-- Expressions

inductive Expr (α : Type)
  | leaf (a : α)
  | cast (t : IntType) (e : Expr α)
  | unary (op : Unary) (e : Expr α)
  | binary (op : Binary) (l r : Expr α)
  | logic (op : LogicOp) (l r : Expr α)
  | cond (c a b : Expr α)

structure Leaves (m : DataModel) (α : Type) where
  type : α → IntType
  value : α → Option Int
  holds : ∀ a z, value a = some z → (type a).Holds m z

/-- The value of the left operand that makes the right one superfluous. -/
def LogicOp.decides (z : Int) : LogicOp → Bool
  | .and => z = 0
  | .or => z ≠ 0

section
variable {m : DataModel} (L : Leaves m α)

@[grind] def Expr.typeOf : Expr α → IntType
  | .leaf a => L.type a
  | .cast t _ => t
  | .unary op e => op.type e.typeOf
  | .binary op l r => op.type m l.typeOf r.typeOf
  | .logic _ _ _ => .int
  | .cond _ a b => a.typeOf.usual m b.typeOf

def Expr.eval : Expr α → Option Int
  | .leaf a => L.value a
  | .cast t e => e.eval.map (t.convert m)
  | .unary op e => e.eval.bind fun z => op.apply m (e.typeOf L) z
  | .binary op l r =>
    l.eval.bind fun x => r.eval.bind fun y => op.apply m (l.typeOf L) (r.typeOf L) x y
  | .logic op l r =>
    l.eval.bind fun x =>
      if op.decides x then some (ofBool (x ≠ 0)) else r.eval.map fun y => ofBool (y ≠ 0)
  | .cond c a b =>
    c.eval.bind fun z =>
      (if z ≠ 0 then a.eval else b.eval).map (((a.typeOf L).usual m (b.typeOf L)).convert m)

def Expr.evaluated : Expr α → List (Expr α)
  | .leaf a => [.leaf a]
  | .cast t e => .cast t e :: e.evaluated
  | .unary op e => .unary op e :: e.evaluated
  | .binary op l r => .binary op l r :: (l.evaluated ++ r.evaluated)
  | .logic op l r =>
    .logic op l r :: (l.evaluated ++
      if (l.eval L).all op.decides then [] else r.evaluated)
  | .cond c a b =>
    .cond c a b :: (c.evaluated ++ match c.eval L with
      | none => []
      | some z => if z ≠ 0 then a.evaluated else b.evaluated)

end

-- Values lie in their types

section
variable (m : DataModel) (t : IntType)

theorem IntType.shape_promote_iff :
    t.shape m = t.promote.shape m ↔ t.isNarrow = false := by
  cases m <;> cases t <;> decide

theorem IntType.bits_pos : 0 < t.bits m := by
  cases m <;> cases t <;> decide

theorem IntType.bits_le : t.bits m ≤ 64 := by
  cases m <;> cases t <;> decide

theorem IntType.read_holds (b : BitVec (t.bits m)) :
    t.Holds m (read t.isUnsigned b) := by
  unfold IntType.Holds IntType.least IntType.limit Word.read
  cases t.isUnsigned with
  | true => ?_
  | false => exact ⟨BitVec.le_toInt b, BitVec.toInt_lt⟩
  refine ⟨Int.natCast_nonneg _, ?_⟩
  have := b.isLt
  simp only [↓reduceIte]
  exact_mod_cast this

theorem IntType.wrap_holds (z : Int) :
    t.Holds m (wrap (t.bits m) t.isUnsigned z) := by
  rw [Word.wrap_eq_read]
  exact t.read_holds m _

end

variable {m : DataModel} {t : IntType}

theorem IntType.wrap_of_holds (h : t.Holds m z) : wrap (t.bits m) t.isUnsigned z = z := by
  unfold IntType.Holds IntType.least IntType.limit at h
  cases hu : t.isUnsigned with
  | true =>
    rw [hu] at h
    exact Int.emod_eq_of_lt h.1 h.2
  | false =>
    rw [hu] at h
    have := BitVec.toInt_ofInt_eq_self (t.bits_pos m) h.1 h.2
    rwa [BitVec.toInt_ofInt] at this

theorem IntType.convert_holds (m : DataModel) (t : IntType) (z : Int) : t.Holds m (t.convert m z) := by
  unfold IntType.convert
  split
  · rename_i hbool
    subst hbool
    cases m <;> split <;> decide
  · exact t.wrap_holds m z

theorem IntType.fit_holds (h : t.fit m z = some v) : t.Holds m v := by
  unfold IntType.fit at h
  split at h
  · rename_i hu
    cases h
    have := t.wrap_holds m z
    rwa [hu] at this
  · split at h
    · cases h
      assumption
    · cases h

theorem IntType.int_holds_ofBool (m : DataModel) (b : Bool) : IntType.int.Holds m (ofBool b) := by
  cases m <;> cases b <;> decide

theorem IntType.Holds.promote (h : t.Holds m z) : t.promote.Holds m z := by
  unfold IntType.Holds IntType.least IntType.limit at h
  cases t <;> simp [IntType.isUnsigned, IntType.bits] at h <;>
    simp [IntType.promote, IntType.isNarrow, IntType.rank, IntType.Holds, IntType.least,
      IntType.limit, IntType.isUnsigned, IntType.bits] <;> omega

theorem Unary.apply_holds {op : Unary} (h : op.apply m t z = some v)
    (hz : t.Holds m z) : (op.type t).Holds m v := by
  cases op with
  | plus =>
    cases h
    exact hz.promote
  | minus | bitNot => exact IntType.fit_holds h
  | logNot =>
    cases h
    exact IntType.int_holds_ofBool m _

theorem ArithOp.apply_holds {op : ArithOp} (h : op.apply m t x y = some v) : t.Holds m v := by
  cases op with
  | mul | add | sub => exact IntType.fit_holds h
  | div =>
    simp only [ArithOp.apply] at h
    split at h
    · cases h
    · exact IntType.fit_holds h
  | mod =>
    simp only [ArithOp.apply] at h
    split at h
    · cases h
    obtain ⟨-, -, h⟩ := Option.bind_eq_some_iff.mp h
    exact IntType.fit_holds h

/-- A right shift goes towards zero or minus one. -/
theorem IntType.Holds.shiftRight (h : t.Holds m x) (n : Nat) : t.Holds m (x / 2 ^ n) := by
  have hpos : (0 : Int) < 2 ^ n := by positivity
  have hone : (1 : Int) ≤ 2 ^ n := hpos
  obtain ⟨hleast, hlimit⟩ := h
  have hneg : t.least m ≤ 0 := by
    unfold IntType.least
    split
    · exact le_refl _
    · exact Int.neg_nonpos_of_nonneg (by positivity)
  constructor
  · rw [Int.le_ediv_iff_mul_le hpos]
    calc t.least m * 2 ^ n ≤ t.least m * 1 := Int.mul_le_mul_of_nonpos_left hneg hone
      _ ≤ x := by rw [Int.mul_one]; exact hleast
  · obtain hx | hx := Int.lt_or_le x 0
    · exact Int.lt_of_lt_of_le (Int.ediv_neg_of_neg_of_pos hx hpos)
        (by unfold IntType.limit; split <;> positivity)
    · exact Int.lt_of_le_of_lt (Int.ediv_le_self _ hx) hlimit

theorem ShiftOp.apply_holds {op : ShiftOp} (h : op.apply m t x y = some v)
    (hx : t.Holds m x) : t.Holds m v := by
  unfold ShiftOp.apply at h
  split at h
  · cases h
  cases op with
  | shl => ?_
  | shr =>
    cases h
    exact hx.shiftRight _
  dsimp only at h
  split at h
  · cases h
  · exact IntType.fit_holds h

theorem Binary.apply_holds {op : Binary} (h : op.apply m a b x y = some v)
    (hx : a.Holds m x) : (op.type m a b).Holds m v := by
  cases op with
  | arith op => exact ArithOp.apply_holds h
  | shift op => exact ShiftOp.apply_holds h hx.promote
  | compare op =>
    cases h
    exact IntType.int_holds_ofBool m _
  | bit op =>
    cases h
    exact (a.usual m b).read_holds m _

theorem Expr.eval_holds {L : Leaves m α} (e : Expr α) (h : e.eval L = some v) : (e.typeOf L).Holds m v := by
  induction e generalizing v with
  | leaf a => exact L.holds a v h
  | cast t e ih =>
    obtain ⟨z, -, rfl⟩ := Option.map_eq_some_iff.mp h
    exact t.convert_holds m z
  | unary op e ih =>
    obtain ⟨z, hz, h⟩ := Option.bind_eq_some_iff.mp h
    exact Unary.apply_holds h (ih hz)
  | binary op l r ihl ihr =>
    obtain ⟨x, hx, h⟩ := Option.bind_eq_some_iff.mp h
    obtain ⟨y, -, h⟩ := Option.bind_eq_some_iff.mp h
    exact Binary.apply_holds h (ihl hx)
  | logic op l r ihl ihr =>
    obtain ⟨x, -, h⟩ := Option.bind_eq_some_iff.mp h
    split at h
    · cases h
      exact IntType.int_holds_ofBool m _
    · obtain ⟨y, -, rfl⟩ := Option.map_eq_some_iff.mp h
      exact IntType.int_holds_ofBool m _
  | cond c a b ihc iha ihb =>
    obtain ⟨z, -, h⟩ := Option.bind_eq_some_iff.mp h
    obtain ⟨w, -, rfl⟩ := Option.map_eq_some_iff.mp h
    exact IntType.convert_holds m _ w

-- Evaluated subexpressions

theorem Expr.mem_evaluated_self (L : Leaves m α) (e : Expr α) : e ∈ e.evaluated L := by
  cases e <;> exact List.mem_cons_self

def Expr.operands {m : DataModel} (L : Leaves m α) : Expr α → List (Expr α)
  | .leaf _ => []
  | .cast _ e | .unary _ e => [e]
  | .binary _ l r => [l, r]
  | .logic op l r => if (l.eval L).all op.decides then [l] else [l, r]
  | .cond c a b =>
    match c.eval L with
    | none => [c]
    | some z => [c, if z ≠ 0 then a else b]

theorem Expr.evaluated_eq (L : Leaves m α) (e : Expr α) :
    e.evaluated L = e :: (e.operands L).flatMap (·.evaluated L) := by
  cases e with
  | leaf a => rfl
  | cast t e | unary op e | binary op l r => simp [evaluated, operands]
  | logic op l r =>
    cases hdecides : (l.eval L).all op.decides <;> simp [evaluated, operands, hdecides]
  | cond c a b =>
    cases hc : c.eval L with
    | none => simp [evaluated, operands, hc]
    | some z =>
      by_cases hz : z = 0 <;> simp [evaluated, operands, hc, hz]

/-- Induction over what is evaluated for an expression. -/
theorem Expr.induct_operands (L : Leaves m α) {motive : Expr α → Prop}
    (step : ∀ e : Expr α, (∀ p ∈ e.operands L, motive p) → motive e) (e : Expr α) : motive e := by
  induction e with
  | leaf a => exact step _ (by simp [operands])
  | cast t e ih | unary op e ih => exact step _ (by simpa [operands] using ih)
  | binary op l r ihl ihr => exact step _ (by simpa [operands] using ⟨ihl, ihr⟩)
  | logic op l r ihl ihr =>
    refine step _ ?_
    rw [operands]
    split
    · simpa using ihl
    · simpa using ⟨ihl, ihr⟩
  | cond c a b ihc iha ihb =>
    refine step _ ?_
    rw [operands]
    split
    · simpa using ihc
    split
    · simpa using ⟨ihc, iha⟩
    · simpa using ⟨ihc, ihb⟩

theorem Expr.forall_evaluated_iff {Right Fine : Expr α → Prop}
    (step : ∀ e : Expr α, (∀ p ∈ e.operands L, Right p) → (Right e ↔ Fine e)) (e : Expr α) :
    (∀ s ∈ e.evaluated L, Right s) ↔ ∀ s ∈ e.evaluated L, Fine s := by
  induction e using Expr.induct_operands L with
  | step e ih =>
    have hoperands : (∀ s ∈ (e.operands L).flatMap (·.evaluated L), Right s) ↔
        ∀ s ∈ (e.operands L).flatMap (·.evaluated L), Fine s := by
      simp only [List.mem_flatMap, forall_exists_index, and_imp]
      constructor
      · intro h s p hp
        exact (ih p hp).mp (fun s hs => h s p hp hs) s
      · intro h s p hp
        exact (ih p hp).mpr (fun s hs => h s p hp hs) s
    rw [evaluated_eq, List.forall_mem_cons, List.forall_mem_cons, ← hoperands]
    refine and_congr_left fun h => step e ?_
    intro p hp
    exact h p (List.mem_flatMap.mpr ⟨p, hp, p.mem_evaluated_self L⟩)

theorem Expr.evaluated_trans (e : Expr α)
    (h' : e' ∈ e.evaluated L) (h'' : e'' ∈ e'.evaluated L) : e'' ∈ e.evaluated L := by
  induction e generalizing e' with
  | leaf a =>
    obtain rfl := List.mem_singleton.mp h'
    exact h''
  | cast t e ih | unary op e ih =>
    obtain rfl | h' := List.mem_cons.mp h'
    · exact h''
    · exact List.mem_cons_of_mem _ (ih h' h'')
  | binary op l r ihl ihr =>
    obtain rfl | h' := List.mem_cons.mp h'
    · exact h''
    · refine List.mem_cons_of_mem _ (List.mem_append.mpr ?_)
      exact (List.mem_append.mp h').imp (ihl · h'') (ihr · h'')
  | logic op l r ihl ihr =>
    obtain rfl | h' := List.mem_cons.mp h'
    · exact h''
    · refine List.mem_cons_of_mem _ (List.mem_append.mpr ?_)
      refine (List.mem_append.mp h').imp (ihl · h'') fun h' => ?_
      split at h'
      · cases h'
      rename_i hopen
      rw [if_neg hopen]
      exact ihr h' h''
  | cond c a b ihc iha ihb =>
    obtain rfl | h' := List.mem_cons.mp h'
    · exact h''
    · refine List.mem_cons_of_mem _ (List.mem_append.mpr ?_)
      refine (List.mem_append.mp h').imp (ihc · h'') fun h' => ?_
      cases hc : c.eval L with
      | none =>
        rw [hc] at h'
        cases h'
      | some z => ?_
      rw [hc] at h'
      dsimp only at h' ⊢
      split at h'
      · rename_i hz
        rw [if_pos hz]
        exact iha h' h''
      · rename_i hz
        rw [if_neg hz]
        exact ihb h' h''

end CInteger
