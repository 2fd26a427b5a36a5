import Mathlib.Data.Fintype.Card
import Mathlib.Algebra.Order.Ring.Nat

/-!
# Open addressing

A table of `n` slots in which the slots for a key are tried in turn from the slot
of its hash on, around the end. A slot that was taken is never given up, only its
contents change: `key` is what the slots are taken by. `Chained` says that every
key is in one slot and that no free slot comes before it in its turn; `seek`
then finds the keys that are there and a free slot for the others.
-/

namespace ProbeTable

variable {n : Nat} [NeZero n] {κ : Type}

/-- The slot that is tried after `i` others. -/
def turn (n : Nat) [NeZero n] (start i : Nat) : Fin n := Fin.ofNat n (start + i)

theorem turn_surjective (start : Nat) (k : Fin n) : ∃ i < n, turn n start i = k := by
  have hn : 0 < n := Nat.pos_of_neZero n
  refine ⟨(k + (n - start % n)) % n, Nat.mod_lt _ hn, Fin.ext ?_⟩
  have hle : start % n ≤ n := Nat.le_of_lt (Nat.mod_lt _ hn)
  show (start + (k + (n - start % n)) % n) % n = k
  calc (start + (k + (n - start % n)) % n) % n
      = (start % n + (k + (n - start % n))) % n := by rw [Nat.add_mod_mod, Nat.mod_add_mod]
    _ = (k + n) % n := by
        congr 1
        omega
    _ = k := by rw [Nat.add_mod_right, Nat.mod_eq_of_lt k.isLt]

-- The first slot that stops a search

def firstStop (stop : Fin n → Bool) (start : Nat) : (left i : Nat) → Option (Fin n)
  | 0, _ => none
  | left + 1, i =>
    if stop (turn n start i) then some (turn n start i) else firstStop stop start left (i + 1)

theorem firstStop_some (h : firstStop stop start left i = some k) :
    stop k = true ∧ ∃ d, i ≤ d ∧ d < i + left ∧ turn n start d = k ∧
      ∀ j, i ≤ j → j < d → stop (turn n start j) = false := by
  induction left generalizing i with
  | zero => cases h
  | succ left ih =>
    unfold firstStop at h
    split at h
    · rename_i hstop
      cases h
      refine ⟨hstop, i, Nat.le_refl i, by omega, rfl, fun j hj hlt => ?_⟩
      exact absurd hlt (Nat.not_lt_of_le hj)
    rename_i hstop
    obtain ⟨hk, d, hle, hlt, hturn, hbefore⟩ := ih h
    refine ⟨hk, d, by omega, by omega, hturn, fun j hj hjd => ?_⟩
    obtain rfl | hne := Nat.eq_or_lt_of_le hj
    · exact eq_false_of_ne_true hstop
    · exact hbefore j hne hjd

theorem firstStop_none (h : firstStop stop start left i = none)
    (hle : i ≤ d) (hlt : d < i + left) : stop (turn n start d) = false := by
  induction left generalizing i with
  | zero => omega
  | succ left ih =>
    unfold firstStop at h
    split at h
    · cases h
    rename_i hstop
    obtain rfl | hne := Nat.eq_or_lt_of_le hle
    · exact eq_false_of_ne_true hstop
    · exact ih h hne (by omega)

/-- A search through all slots misses none. -/
theorem exists_firstStop {stop : Fin n → Bool} (h : stop k = true) (start : Nat) :
    ∃ k', firstStop stop start n 0 = some k' := by
  cases hfirst : firstStop stop start n 0 with
  | some k' => exact ⟨k', rfl⟩
  | none =>
    obtain ⟨d, hd, rfl⟩ := turn_surjective start k
    rw [firstStop_none hfirst (Nat.zero_le d) (by omega)] at h
    cases h

-- Keys

variable (hash : κ → Nat)

structure Chained (key : Fin n → Option κ) : Prop where
  distinct : ∀ {i j x}, key i = some x → key j = some x → i = j
  reached : ∀ {k x}, key k = some x → ∃ d < n, turn n (hash x) d = k ∧
    ∀ j < d, key (turn n (hash x) j) ≠ none

theorem chained_empty : Chained hash (fun _ : Fin n => (none : Option κ)) :=
  ⟨nofun, nofun⟩

variable {hash} in
/-- A slot is free while fewer keys than slots are there. -/
theorem Chained.exists_free {key : Fin n → Option κ} (h : Chained hash key) (keys : Finset κ)
    (hkeys : ∀ k x, key k = some x → x ∈ keys) (hcard : keys.card < n) : ∃ k, key k = none := by
  by_contra hfull
  simp only [not_exists] at hfull
  have hsome : ∀ k, ∃ x, key k = some x := fun k => Option.ne_none_iff_exists'.mp (hfull k)
  choose stored hstored using hsome
  have hinj : Function.Injective stored :=
    fun i j hij => h.distinct (hstored i) (hij ▸ hstored j)
  have hle : (Finset.univ.map ⟨stored, hinj⟩).card ≤ keys.card := by
    refine Finset.card_le_card fun x hx => ?_
    obtain ⟨k, -, rfl⟩ := Finset.mem_map.mp hx
    exact hkeys k _ (hstored k)
  rw [Finset.card_map, Finset.card_univ, Fintype.card_fin] at hle
  omega

variable [DecidableEq κ]

def seek (key : Fin n → Option κ) (x : κ) : Option (Fin n) :=
  firstStop (fun k => key k = none ∨ key k = some x) (hash x) n 0

variable {hash}

theorem seek_taken {key : Fin n → Option κ} (h : seek hash key x = some k) :
    key k = none ∨ key k = some x := by
  obtain ⟨hstop, -⟩ := firstStop_some h
  simpa using hstop

theorem exists_seek {key : Fin n → Option κ} (hk : key k = none ∨ key k = some x) :
    ∃ k', seek hash key x = some k' := by
  have hstop : (fun k => decide (key k = none ∨ key k = some x)) k = true := decide_eq_true hk
  exact exists_firstStop hstop (hash x)

theorem Chained.seek_eq {key : Fin n → Option κ} (h : Chained hash key) (hk : key k = some x) :
    seek hash key x = some k := by
  obtain ⟨d, hd, hturn, hbefore⟩ := h.reached hk
  obtain ⟨k', hk'⟩ : ∃ k', seek hash key x = some k' := exists_seek (.inr hk)
  obtain ⟨hstop, d', -, -, hturn', hbefore'⟩ := firstStop_some hk'
  have hle : d' ≤ d := by
    by_contra hlt
    have hmiss := hbefore' d (Nat.zero_le d) (Nat.lt_of_not_le hlt)
    simp [hturn, hk] at hmiss
  obtain rfl | hlt := Nat.eq_or_lt_of_le hle
  · rw [hk', ← hturn', hturn]
  · have htaken := hbefore d' hlt
    rw [hturn'] at htaken
    have hx : key k' = some x := by simpa [htaken] using hstop
    rw [hk', h.distinct hx hk]

omit [DecidableEq κ] in
/-- A slot can be taken by a key that stands in no other, when no slot before it is free. -/
theorem Chained.set (h : Chained hash key) (hsame : ∀ {i}, key i = some x → i = k)
    (hreached : ∃ d < n, turn n (hash x) d = k ∧ ∀ j < d, key (turn n (hash x) j) ≠ none) :
    Chained hash (Function.update key k (some x)) := by
  have hother : ∀ {i y}, i ≠ k → Function.update key k (some x) i = some y → key i = some y :=
    fun hne hi => by rwa [Function.update_of_ne hne] at hi
  have hself : ∀ {y}, Function.update key k (some x) k = some y → x = y :=
    fun hk => by simpa using hk
  constructor
  · intro i j y hi hj
    by_cases hik : i = k <;> by_cases hjk : j = k
    · exact hik.trans hjk.symm
    · subst hik
      obtain rfl := hself hi
      exact absurd (hsame (hother hjk hj)) hjk
    · subst hjk
      obtain rfl := hself hj
      exact hsame (hother hik hi)
    · exact h.distinct (hother hik hi) (hother hjk hj)
  · intro i y hi
    have htaken : ∀ {m}, key m ≠ none → Function.update key k (some x) m ≠ none := by
      intro m hm
      by_cases hmk : m = k
      · simp [hmk]
      · rwa [Function.update_of_ne hmk]
    by_cases hik : i = k
    · subst hik
      obtain rfl := hself hi
      obtain ⟨d, hd, hturn, hbefore⟩ := hreached
      exact ⟨d, hd, hturn, fun j hj => htaken (hbefore j hj)⟩
    · obtain ⟨d, hd, hturn, hbefore⟩ := h.reached (hother hik hi)
      exact ⟨d, hd, hturn, fun j hj => htaken (hbefore j hj)⟩

theorem Chained.put {key : Fin n → Option κ} (h : Chained hash key)
    (hseek : seek hash key x = some k) : Chained hash (Function.update key k (some x)) := by
  refine h.set (fun hi => Option.some.inj ((h.seek_eq hi).symm.trans hseek)) ?_
  obtain ⟨-, d, -, hd, hturn, hbefore⟩ := firstStop_some hseek
  refine ⟨d, by omega, hturn, fun j hj => ?_⟩
  have hmiss := hbefore j (Nat.zero_le j) hj
  simp only [decide_eq_false_iff_not, not_or] at hmiss
  exact hmiss.1

end ProbeTable
