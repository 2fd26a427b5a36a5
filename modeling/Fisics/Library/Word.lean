import Mathlib.Tactic.Positivity

/-!
# Machine words as integers

A word has two readings, as an unsigned and as a signed integer. `wrap` reduces
an integer into the range of a reading. Each operation on words is the operation
on their readings, wrapped.
-/

namespace Word

open BitVec (ofInt ofInt_neg)

def read (isUnsigned : Bool) (b : BitVec w) : Int := if isUnsigned then b.toNat else b.toInt

def wrap (w : Nat) (isUnsigned : Bool) (z : Int) : Int :=
  if isUnsigned then z % 2 ^ w else z.bmod (2 ^ w)

variable {u v : Bool} {a b : BitVec w}

theorem wrap_eq_read (u : Bool) (z : Int) : wrap w u z = read u (ofInt w z) := by
  cases u with
  | true =>
    have : 0 ≤ z % 2 ^ w := Int.emod_nonneg z (by positivity)
    simp [wrap, read, this]
  | false => simp [wrap, read]

@[simp] theorem ofInt_read (u : Bool) (b : BitVec w) : ofInt w (read u b) = b := by
  cases u <;> simp [read]

@[simp] theorem wrap_read (u v : Bool) (b : BitVec w) : wrap w v (read u b) = read v b := by
  rw [wrap_eq_read, ofInt_read]

theorem read_inj : read u a = read u b ↔ a = b := by
  constructor
  · intro h
    rw [← ofInt_read u a, h, ofInt_read]
  · rintro rfl
    rfl

@[simp] theorem read_zero : read u (0 : BitVec w) = 0 := by
  cases u <;> simp [read]

theorem read_eq_zero : read u b = 0 ↔ b = 0 := by
  rw [← read_zero (u := u), read_inj]

-- Ring operations

theorem read_mul : read u (a * b) = wrap w u (read u a * read u b) := by
  rw [wrap_eq_read, BitVec.ofInt_mul, ofInt_read, ofInt_read]

theorem read_add : read u (a + b) = wrap w u (read u a + read u b) := by
  rw [wrap_eq_read, BitVec.ofInt_add, ofInt_read, ofInt_read]

theorem read_sub : read u (a - b) = wrap w u (read u a - read u b) := by
  rw [wrap_eq_read, Int.sub_eq_add_neg, BitVec.ofInt_add, ofInt_neg, ofInt_read, ofInt_read,
    BitVec.sub_eq_add_neg]

theorem read_neg : read u (-a) = wrap w u (-read u a) := by
  rw [wrap_eq_read, ofInt_neg, ofInt_read]

theorem read_not : read u (~~~a) = wrap w u (-read u a - 1) := by
  rw [wrap_eq_read, Int.sub_eq_add_neg, BitVec.ofInt_add, ofInt_neg, ofInt_neg,
    ofInt_read, BitVec.not_eq_neg_add, BitVec.sub_eq_add_neg]
  rfl

-- Division

theorem wrap_natCast {n : Nat} (h : n < 2 ^ w) : wrap w true (n : Int) = n := by
  have hmod : ((n : Int) % 2 ^ w) = ((n % 2 ^ w : Nat) : Int) := by
    push_cast
    rfl
  rw [wrap, if_pos rfl, hmod, Nat.mod_eq_of_lt h]

theorem read_ofNat (h : n < 2 ^ w) (hs : u = false → n < 2 ^ (w - 1)) :
    read u (BitVec.ofNat w n) = n := by
  cases u with
  | true =>
    rw [read, if_pos rfl, BitVec.toNat_ofNat, Nat.mod_eq_of_lt h]
  | false => ?_
  have hlow := hs rfl
  have hhalf : 2 * (BitVec.ofNat w n).toNat < 2 ^ w := by
    rw [BitVec.toNat_ofNat, Nat.mod_eq_of_lt h]
    cases w with
    | zero =>
      omega
    | succ w =>
      rw [Nat.pow_succ']
      exact Nat.mul_lt_mul_of_pos_left hlow (by decide)
  rw [read, if_neg Bool.false_ne_true, BitVec.toInt_eq_toNat_of_lt hhalf, BitVec.toNat_ofNat,
    Nat.mod_eq_of_lt h]

theorem read_udiv : read true (a / b) = wrap w true ((read true a).tdiv (read true b)) := by
  have hlt : a.toNat / b.toNat < 2 ^ w := Nat.lt_of_le_of_lt (Nat.div_le_self _ _) a.isLt
  simp only [read, ↓reduceIte, BitVec.toNat_udiv]
  rw [← Int.ofNat_tdiv, wrap_natCast hlt]

theorem read_umod : read true (a % b) = wrap w true ((read true a).tmod (read true b)) := by
  have hlt : a.toNat % b.toNat < 2 ^ w := Nat.lt_of_le_of_lt (Nat.mod_le _ _) a.isLt
  simp only [read, ↓reduceIte, BitVec.toNat_umod]
  rw [← Int.ofNat_tmod, wrap_natCast hlt]

theorem read_sdiv : read false (a.sdiv b) = wrap w false ((read false a).tdiv (read false b)) := by
  simp [read, wrap, BitVec.toInt_sdiv]

theorem read_srem : read false (a.srem b) = wrap w false ((read false a).tmod (read false b)) := by
  have h := BitVec.toInt_bmod_cancel (a.srem b)
  rw [BitVec.toInt_srem] at h
  simp [read, wrap, BitVec.toInt_srem, h]

-- Shifts

theorem ofInt_two_pow (n : Nat) : ofInt w (2 ^ n) = BitVec.twoPow w n := by
  apply BitVec.eq_of_toNat_eq
  have hmod : ((2 : Int) ^ n) % 2 ^ w = ((2 ^ n % 2 ^ w : Nat) : Int) := by
    push_cast
    rfl
  rw [BitVec.toNat_ofInt, BitVec.toNat_twoPow]
  push_cast
  rw [hmod, Int.toNat_natCast]

theorem read_shiftLeft (n : Nat) : read u (a <<< n) = wrap w u (read u a * 2 ^ n) := by
  rw [wrap_eq_read, BitVec.ofInt_mul, ofInt_read, ofInt_two_pow, BitVec.shiftLeft_eq_mul_twoPow]

theorem read_ushiftRight (n : Nat) : read true (a >>> n) = wrap w true (read true a / 2 ^ n) := by
  have hlt : a.toNat / 2 ^ n < 2 ^ w := Nat.lt_of_le_of_lt (Nat.div_le_self _ _) a.isLt
  have := wrap_natCast hlt
  push_cast at this
  simp [read, Nat.shiftRight_eq_div_pow, this]

theorem read_sshiftRight (n : Nat) :
    read false (a.sshiftRight n) = wrap w false (read false a / 2 ^ n) := by
  have h := BitVec.toInt_bmod_cancel (a.sshiftRight n)
  rw [BitVec.toInt_sshiftRight, Int.shiftRight_eq_div_pow] at h
  push_cast at h
  simp only [read, wrap, Bool.false_eq_true, ↓reduceIte, BitVec.toInt_sshiftRight,
    Int.shiftRight_eq_div_pow]
  push_cast
  rw [h]

theorem read_emod (hk : k ≤ w) : read u b % 2 ^ k = ((b.toNat % 2 ^ k : Nat) : Int) := by
  have hdvd : ((2 : Int) ^ k) ∣ 2 ^ w := Dvd.intro_left _ (by rw [← pow_add, Nat.sub_add_cancel hk])
  cases u with
  | true => simp [read]
  | false => ?_
  simp only [read, Bool.false_eq_true, ↓reduceIte]
  rw [BitVec.toInt_eq_toNat_bmod]
  push_cast
  have hb : (b.toNat : Int).bmod (2 ^ w) % 2 ^ k = (b.toNat : Int) % 2 ^ k := by
    rw [← Int.emod_emod_of_dvd _ hdvd]
    have := Int.bmod_emod (x := (b.toNat : Int)) (m := 2 ^ w)
    push_cast at this
    rw [this, Int.emod_emod_of_dvd _ hdvd]
  exact hb

-- Comparisons

theorem less_eq : (if u then a.ult b else a.slt b) = decide (read u a < read u b) := by
  cases u <;> simp [read, BitVec.ult_eq_decide, BitVec.slt_eq_decide]

theorem lessEqual_eq : (if u then a.ule b else a.sle b) = decide (read u a ≤ read u b) := by
  cases u <;> simp [read, BitVec.ule_eq_decide, BitVec.sle_eq_decide]

-- Widths

theorem setWidth_ofInt (h : k ≤ w) (z : Int) : (ofInt w z).setWidth k = ofInt k z := by
  have hdvd : ((2 : Int) ^ k) ∣ 2 ^ w := Dvd.intro_left _ (by rw [← pow_add, Nat.sub_add_cancel h])
  have hread := read_emod (u := true) (b := ofInt w z) h
  rw [← wrap_eq_read, wrap, if_pos rfl, Int.emod_emod_of_dvd _ hdvd] at hread
  have hright : (ofInt k z).toNat = (z % 2 ^ k).toNat := by
    rw [BitVec.toNat_ofInt]
    push_cast
    rfl
  apply BitVec.eq_of_toNat_eq
  rw [BitVec.toNat_setWidth, hright, hread, Int.toNat_natCast]

@[simp] theorem ofInt_wrap (u : Bool) (z : Int) : ofInt w (wrap w u z) = ofInt w z := by
  rw [wrap_eq_read, ofInt_read]

theorem ofInt_wrap_of_le (h : k ≤ w) (u : Bool) (z : Int) :
    ofInt k (wrap w u z) = ofInt k z := by
  rw [← setWidth_ofInt h, ofInt_wrap, setWidth_ofInt h]

theorem ofInt_read_of_le (h : k ≤ w) (u : Bool) (b : BitVec w) :
    ofInt k (read u b) = b.setWidth k := by
  rw [← setWidth_ofInt h, ofInt_read]

theorem wrap_wrap_of_le (h : k ≤ w) (u v : Bool) (z : Int) : wrap k u (wrap w v z) = wrap k u z := by
  rw [wrap_eq_read, ofInt_wrap_of_le h, ← wrap_eq_read]

@[simp] theorem wrap_wrap (u v : Bool) (z : Int) : wrap w u (wrap w v z) = wrap w u z := by
  rw [wrap_eq_read v, wrap_read, ← wrap_eq_read]

-- Both readings

theorem ofInt_eq_iff (a b : Int) : ofInt w a = ofInt w b ↔ (2 ^ w : Int) ∣ a - b := by
  have hread (z : Int) : wrap w true z = z % 2 ^ w := rfl
  rw [← read_inj (u := true), ← wrap_eq_read, ← wrap_eq_read, hread, hread,
    Int.emod_eq_emod_iff_emod_sub_eq_zero, Int.dvd_iff_emod_eq_zero]

theorem read_eq_zero_iff (u v : Bool) (b : BitVec w) : read u b = 0 ↔ read v b = 0 := by
  rw [read_eq_zero, read_eq_zero]

theorem read_sub_read (u v : Bool) (b : BitVec w) :
    read u b = read v b ∨ read u b - read v b = 2 ^ w ∨ read v b - read u b = 2 ^ w := by
  have hsigned : read false b = read true b ∨
      read true b - read false b = 2 ^ w := by
    show b.toInt = b.toNat ∨ b.toNat - b.toInt = 2 ^ w
    rw [BitVec.toInt_eq_toNat_cond]
    split
    · exact .inl rfl
    right
    push_cast
    omega
  cases u with
  | true | false => cases v <;> omega

/-- A value that is extended by the other reading is another value, unless it is cut. -/
theorem ofInt_read_iff (u v : Bool) (b : BitVec w) :
    ofInt k (read u b) = ofInt k (read v b) ↔ k ≤ w ∨ read u b = read v b := by
  constructor
  · intro h
    by_contra hcon
    obtain ⟨hle, hne⟩ := not_or.mp hcon
    have hdvd := (ofInt_eq_iff _ _).mp h
    have hlt : (2 : Int) ^ w < 2 ^ k := pow_lt_pow_right₀ (by decide) (Nat.not_le.mp hle)
    have hpos : (0 : Int) < 2 ^ w := by positivity
    rcases read_sub_read u v b with heq | heq | heq
    · exact hne heq
    · have := Int.le_of_dvd (by omega) hdvd
      omega
    · have := Int.le_of_dvd (by omega) ((Int.dvd_neg).mpr hdvd)
      omega
  · rintro (hle | heq)
    · rw [ofInt_read_of_le hle, ofInt_read_of_le hle]
    · rw [heq]

theorem read_range (u : Bool) (b : BitVec w) :
    (if u then 0 else -2 ^ (w - 1)) ≤ read u b ∧ read u b < if u then 2 ^ w else 2 ^ (w - 1) := by
  cases u with
  | true =>
    refine ⟨Int.natCast_nonneg _, ?_⟩
    show (b.toNat : Int) < 2 ^ w
    exact_mod_cast b.isLt
  | false => exact ⟨b.le_toInt, b.toInt_lt⟩

theorem wrap_shiftRight (u : Bool) (b : BitVec w) (n : Nat) :
    wrap w u (read u b / 2 ^ n) = read u b / 2 ^ n := by
  cases u with
  | true =>
    have hshift : read true (b >>> n) = read true b / 2 ^ n := by
      simp [read, Nat.shiftRight_eq_div_pow]
    rw [← hshift, wrap_read]
  | false =>
    have hshift : read false (b.sshiftRight n) = read false b / 2 ^ n := by
      simp [read, Int.shiftRight_eq_div_pow]
    rw [← hshift, wrap_read]

theorem ediv_eq_neg_one (hc : 0 < c) (hx : x < 0) : x / c = -1 ↔ -c ≤ x := by
  have hlow := Int.le_ediv_iff_mul_le (a := -1) (b := x) hc
  have hhigh := Int.ediv_lt_iff_lt_mul (a := x) (b := 0) hc
  omega

theorem shiftRight_eq_iff (u : Bool) (b : BitVec w) (hk : k < w) (hn : w ≤ n) :
    read u b / 2 ^ k = read u b / 2 ^ n ↔ -2 ^ k ≤ read u b ∧ read u b < 2 ^ k := by
  have hpow {i j : Nat} (h : i ≤ j) : (2 : Int) ^ i ≤ 2 ^ j := pow_le_pow_right₀ (by decide) h
  have hkpos : (0 : Int) < 2 ^ k := by positivity
  have hnpos : (0 : Int) < 2 ^ n := by positivity
  have hhalf := hpow (show w - 1 ≤ n by omega)
  have hfull := hpow hn
  have hrange : -2 ^ n ≤ read u b ∧ read u b < 2 ^ n := by
    have hread := read_range u b
    cases u with
    | true =>
      omega
    | false =>
      omega
  by_cases hneg : read u b < 0
  · rw [(ediv_eq_neg_one hnpos hneg).mpr hrange.1, ediv_eq_neg_one hkpos hneg]
    omega
  have hnonneg := Int.not_lt.mp hneg
  rw [Int.ediv_eq_zero_of_lt hnonneg hrange.2]
  have hlow := Int.le_ediv_iff_mul_le (a := 1) (b := read u b) hkpos
  have hdiv := Int.ediv_nonneg hnonneg (Int.le_of_lt hkpos)
  omega

def extend (isUnsigned : Bool) (k : Nat) (b : BitVec w) : BitVec k :=
  if isUnsigned then b.setWidth k else b.signExtend k

theorem extend_eq (u : Bool) (k : Nat) (b : BitVec w) : extend u k b = ofInt k (read u b) := by
  cases u with
  | true => simp [extend, read, BitVec.ofNat_toNat]
  | false => rfl

end Word
