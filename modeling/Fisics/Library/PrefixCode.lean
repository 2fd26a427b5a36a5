import Mathlib.Data.List.Basic

/-!
# Codes that show where they end

Two sequences are comparable when one is the beginning of the other. A code delimits its
key when two codes with anything behind them are comparable only if the keys are the same
and what is behind them is comparable. Lists of a known length keep this; of lists of
unknown lengths one may go on where the other has ended.
-/

namespace PrefixCode

variable {α β γ : Type}

def Comparable (xs ys : List β) : Prop := xs <+: ys ∨ ys <+: xs

theorem Comparable.symm (h : Comparable xs ys) : Comparable ys xs := Or.symm h

@[simp] theorem comparable_refl (xs : List β) : Comparable xs xs := .inl (List.prefix_refl xs)

@[simp] theorem comparable_nil_left (ys : List β) : Comparable [] ys := .inl List.nil_prefix

@[simp] theorem comparable_cons :
    Comparable (x :: xs) (y :: ys) ↔ x = y ∧ Comparable xs ys := by
  simp only [Comparable, List.cons_prefix_cons, @eq_comm _ y x, ← and_or_left]

@[simp] theorem comparable_append_left (zs xs ys : List β) :
    Comparable (zs ++ xs) (zs ++ ys) ↔ Comparable xs ys := by
  induction zs with
  | nil => rfl
  | cons z zs ih => simp [ih]

/-- Beside anything behind them two codes can be told apart up to the key. -/
def Delimits (code : α → List β) (key : α → γ) : Prop :=
  ∀ a b xs ys, Comparable (code a ++ xs) (code b ++ ys) → key a = key b ∧ Comparable xs ys

theorem Delimits.flatMap (h : Delimits code key) {as bs : List α}
    (hlength : as.length = bs.length) (hcodes : Comparable (as.flatMap code ++ xs) (bs.flatMap code ++ ys)) :
    as.map key = bs.map key ∧ Comparable xs ys := by
  induction as generalizing bs with
  | nil =>
    obtain rfl := List.length_eq_zero_iff.mp hlength.symm
    exact ⟨rfl, hcodes⟩
  | cons a as ih =>
    cases bs with
    | nil => cases hlength
    | cons b bs => ?_
    rw [List.flatMap_cons, List.flatMap_cons, List.append_assoc, List.append_assoc] at hcodes
    obtain ⟨hkey, hrest⟩ := h a b _ _ hcodes
    obtain ⟨hkeys, hbehind⟩ := ih (Nat.succ.inj hlength) hrest
    exact ⟨by rw [List.map_cons, List.map_cons, hkey, hkeys], hbehind⟩

/-- Lists of any lengths: the same, or one goes on. -/
theorem Delimits.flatMap_cases (h : Delimits code id)
    (hcodes : Comparable (as.flatMap code ++ xs) (bs.flatMap code ++ ys)) :
    (as = bs ∧ Comparable xs ys) ∨
    (∃ b rest, bs = as ++ b :: rest ∧ Comparable xs (code b ++ (rest.flatMap code ++ ys))) ∨
    (∃ a rest, as = bs ++ a :: rest ∧ Comparable (code a ++ (rest.flatMap code ++ xs)) ys) := by
  induction as generalizing bs with
  | nil =>
    cases bs with
    | nil => exact .inl ⟨rfl, hcodes⟩
    | cons b bs =>
      rw [List.flatMap_cons, List.append_assoc] at hcodes
      exact .inr (.inl ⟨b, bs, rfl, hcodes⟩)
  | cons a as ih =>
    cases bs with
    | nil =>
      rw [List.flatMap_cons, List.append_assoc] at hcodes
      exact .inr (.inr ⟨a, as, rfl, hcodes⟩)
    | cons b bs => ?_
    rw [List.flatMap_cons, List.flatMap_cons, List.append_assoc, List.append_assoc] at hcodes
    obtain ⟨hkey, hrest⟩ := h a b _ _ hcodes
    obtain rfl : a = b := hkey
    rcases ih hrest with ⟨rfl, hbehind⟩ | ⟨c, rest, rfl, hbehind⟩ | ⟨c, rest, rfl, hbehind⟩
    · exact .inl ⟨rfl, hbehind⟩
    · exact .inr (.inl ⟨c, rest, rfl, hbehind⟩)
    · exact .inr (.inr ⟨c, rest, rfl, hbehind⟩)

end PrefixCode
