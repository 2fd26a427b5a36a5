import Mathlib.Data.List.Perm.Subperm

/-!
# Walks in a finite set

A walk with no fewer steps than there are items goes round. Where every item that is
stuck has a step to another one that is, there are walks of every length.
-/

namespace Walks

open Relation

def Walk (items : List α) (step : α → α → Prop) : Nat → α → Prop
  | 0, _ => True
  | n + 1, a => ∃ b ∈ items, step a b ∧ Walk items step n b

variable {items : List α} {step : α → α → Prop}

theorem Walk.cycle_behind (n : Nat) {seen : List α} (hstart : ReflTransGen step start a)
    (hnodup : seen.Nodup) (hseen : ∀ c ∈ seen, c ∈ items ∧ TransGen step c a) (ha : a ∈ items)
    (hlong : items.length ≤ seen.length + n) (h : Walk items step n a) :
    ∃ c, ReflTransGen step start c ∧ TransGen step c c := by
  induction n generalizing a seen with
  | zero =>
    by_cases hmem : a ∈ seen
    · exact ⟨a, hstart, (hseen a hmem).2⟩
    have hall : a :: seen ⊆ items := by
      rintro c (_ | ⟨_, hc⟩)
      · exact ha
      · exact (hseen c hc).1
    have hle := (List.subperm_of_subset (List.nodup_cons.mpr ⟨hmem, hnodup⟩) hall).length_le
    simp only [List.length_cons] at hle
    omega
  | succ n ih =>
    by_cases hmem : a ∈ seen
    · exact ⟨a, hstart, (hseen a hmem).2⟩
    obtain ⟨b, hb, hstep, hrest⟩ := h
    have hseen' : ∀ c ∈ a :: seen, c ∈ items ∧ TransGen step c b := by
      rintro c (_ | ⟨_, hc⟩)
      · exact ⟨ha, .single hstep⟩
      · exact ⟨(hseen c hc).1, (hseen c hc).2.tail hstep⟩
    refine ih (hstart.tail hstep) (List.nodup_cons.mpr ⟨hmem, hnodup⟩) hseen' hb ?_ hrest
    simp only [List.length_cons]
    omega

theorem Walk.cycle (ha : a ∈ items) (h : Walk items step items.length a) :
    ∃ c, ReflTransGen step a c ∧ TransGen step c c :=
  h.cycle_behind items.length .refl .nil nofun ha (Nat.le_add_left _ _)

theorem walk_of_stuck {stuck : α → Prop} (hnext : ∀ a, stuck a → ∃ b ∈ items, step a b ∧ stuck b)
    (n : Nat) (ha : stuck a) : Walk items step n a := by
  induction n generalizing a with
  | zero => trivial
  | succ n ih =>
    obtain ⟨b, hb, hstep, hstuck⟩ := hnext a ha
    exact ⟨b, hb, hstep, ih hstuck⟩

end Walks
