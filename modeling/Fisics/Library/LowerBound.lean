import Mathlib.Data.List.Basic

/-!
# Binary search for a lower bound

The first place of a sorted list that is not below what is searched for: the interval
is halved until nothing is left of it. `fuel` bounds the halvings by the length.
-/

namespace LowerBound

def search (below : α → Bool) (xs : List α) : (fuel lo hi : Nat) → Nat
  | 0, lo, _ => lo
  | fuel + 1, lo, hi =>
    if lo < hi then
      let mid := lo + (hi - lo) / 2
      if xs[mid]?.all below then search below xs fuel (mid + 1) hi
      else search below xs fuel lo mid
    else lo

def lowerBound (below : α → Bool) (xs : List α) : Nat := search below xs xs.length 0 xs.length

def find (below same : α → Bool) (xs : List α) : Option (Nat × α) :=
  (xs[lowerBound below xs]?.filter same).map fun a => (lowerBound below xs, a)

theorem of_find (h : find below same xs = some (i, a)) : xs[i]? = some a ∧ same a = true := by
  obtain ⟨b, hb, heq⟩ := Option.map_eq_some_iff.mp h
  obtain ⟨hget, hsame⟩ := Option.filter_eq_some_iff.mp hb
  cases heq
  exact ⟨hget, hsame⟩

/-- The interval closes on the place before which all is below. -/
theorem search_eq (hbelow : ∀ i b, xs[i]? = some b → (below b = true ↔ i < t)) (hlo : lo ≤ t)
    (hhi : t ≤ hi) (hlength : hi ≤ xs.length) (hfuel : hi ≤ lo + fuel) :
    search below xs fuel lo hi = t := by
  induction fuel generalizing lo hi with
  | zero =>
    rw [search]
    omega
  | succ fuel ih =>
    rw [search]
    split
    · have hmid : lo + (hi - lo) / 2 < xs.length := by omega
      have hiff := hbelow _ _ (List.getElem?_eq_getElem hmid)
      dsimp only
      rw [List.getElem?_eq_getElem hmid, Option.all_some]
      split
      · next hlt =>
        have := hiff.mp hlt
        exact ih (by omega) hhi hlength (by omega)
      · next hge =>
        have := mt hiff.mpr hge
        exact ih hlo (by omega) (by omega) (by omega)
    · omega

/-- In a sorted list an entry is found where those before it are below it, and it and
those after it are not. -/
theorem find_of_pairwise {R : α → α → Prop} (h : xs.Pairwise R) (ha : a ∈ xs) (hbefore : ∀ b, R b a →
    below b = true)
    (hafter : ∀ b, R a b → below b = false) (hself : below a = false) (hsame : same a = true) :
    (find below same xs).map (·.2) = some a := by
  obtain ⟨t, ht, rfl⟩ := List.mem_iff_getElem.mp ha
  have hplace : lowerBound below xs = t := by
    refine search_eq (fun i b hb => ?_) (Nat.zero_le t) (Nat.le_of_lt ht) (Nat.le_refl _) (by omega)
    obtain ⟨hi, rfl⟩ := List.getElem?_eq_some_iff.mp hb
    rw [List.pairwise_iff_getElem] at h
    rcases Nat.lt_trichotomy i t with hlt | rfl | hgt
    · exact iff_of_true (hbefore _ (h i t hi ht hlt)) hlt
    · rw [hself]
      simp
    · rw [hafter _ (h t i ht hi hgt)]
      simpa using Nat.le_of_lt hgt
  rw [find, hplace, List.getElem?_eq_getElem ht]
  simp [hsame]

end LowerBound
