import Mathlib.Data.List.Forall2

/-!
# Laying one list over another

`overlay f as bs` combines the entries of `as` with those of `bs` at the same places and
keeps the rest of `as`. Laws of `f` at each place are laws of the whole; two lists can be
laid over each other in both orders exactly when their entries can.
-/

namespace Overlay

@[grind] def overlay (f : α → β → α) : List α → List β → List α
  | [], _ => []
  | a :: as, [] => a :: as
  | a :: as, b :: bs => f a b :: overlay f as bs

variable {α β γ δ : Type}

@[simp] theorem overlay_length (f : α → β → α) (as : List α) (bs : List β) :
    (overlay f as bs).length = as.length := by
  induction as generalizing bs with
  | nil => rfl
  | cons a as ih => cases bs <;> simp [overlay, ih]

theorem map_overlay
    (h : ∀ a b, g (f a b) = f' (g a) (g' b)) (as : List α) (bs : List β) :
    (overlay f as bs).map g = overlay f' (as.map g) (bs.map g') := by
  induction as generalizing bs with
  | nil => rfl
  | cons a as ih => cases bs <;> simp [overlay, ih, h]

theorem overlay_self (h : ∀ a, f a a = a) (as : List α) : overlay f as as = as := by
  induction as with
  | nil => rfl
  | cons a as ih => rw [overlay, h, ih]

theorem overlay_comm_iff (as bs : List α) :
    overlay f as bs = overlay f bs as ↔ List.Forall₂ (fun a b => f a b = f b a) as bs := by
  induction as generalizing bs with
  | nil => cases bs <;> simp [overlay]
  | cons a as ih => cases bs <;> simp [overlay, ih]

theorem overlay_assoc
    (h : ∀ a b c, R a b → R b c → R a c → f (f a b) c = f a (f b c))
    (hab : List.Forall₂ R as bs) (hbc : List.Forall₂ R bs cs) (hac : List.Forall₂ R as cs) :
    overlay f (overlay f as bs) cs = overlay f as (overlay f bs cs) := by
  induction hab generalizing cs with
  | nil => rfl
  | cons hab _ ih =>
    cases hbc with
    | cons hbc hbcs =>
      cases hac with
      | cons hac hacs => rw [overlay, overlay, overlay, overlay, h _ _ _ hab hbc hac, ih hbcs hacs]

theorem overlay_keeps_left (h : ∀ a b, R a b → K a (f a b))
    (hab : List.Forall₂ R as bs) : List.Forall₂ K as (overlay f as bs) := by
  induction hab with
  | nil => exact .nil
  | cons hab _ ih => exact .cons (h _ _ hab) ih

theorem overlay_keeps_right (h : ∀ a b, R a b → K b (f a b))
    (hab : List.Forall₂ R as bs) : List.Forall₂ K bs (overlay f as bs) := by
  induction hab with
  | nil => exact .nil
  | cons hab _ ih => exact .cons (h _ _ hab) ih

end Overlay
