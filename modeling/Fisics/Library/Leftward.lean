/-!
# Elements that move to the left

One list follows another by moves to the left of elements that satisfy `p`. An inversion
is an element that stays with one after it that may move; no move adds one, and gathering
elements before one that stays takes some away.
-/

/-- Elements that satisfy `p` have moved to the left. -/
inductive Leftward (p : α → Bool) : List α → List α → Prop
  | refl (l : List α) : Leftward p l l
  | swap (hx : p x = true) (y : α) (l : List α) : Leftward p (y :: x :: l) (x :: y :: l)
  | cons (x : α) (h : Leftward p l m) : Leftward p (x :: l) (x :: m)
  | trans (h : Leftward p l m) (h' : Leftward p m n) : Leftward p l n

/-- The pairs of an element that stays and one after it that may move. -/
def inversions (p : α → Bool) : List α → Nat
  | [] => 0
  | x :: l => inversions p l + if p x then 0 else l.countP p

namespace Leftward

variable {p : α → Bool} {l m : List α}

theorem perm (h : Leftward p l m) : l.Perm m := by
  induction h with
  | refl l => exact .refl l
  | swap hx y l => exact .swap _ _ l
  | cons x h ih => exact ih.cons x
  | trans h h' ih ih' => exact ih.trans ih'

theorem append_left (k : List α) (h : Leftward p l m) : Leftward p (k ++ l) (k ++ m) := by
  induction k with
  | nil => exact h
  | cons x k ih => exact ih.cons x

theorem append_right (k : List α) (h : Leftward p l m) : Leftward p (l ++ k) (m ++ k) := by
  induction h with
  | refl l => exact .refl _
  | swap hx y l => exact .swap hx y _
  | cons x h ih => exact ih.cons x
  | trans h h' ih ih' => exact ih.trans ih'

theorem pass (x : α) (l : List α) : Leftward p (x :: (l.filter p ++ k)) (l.filter p ++ x :: k) := by
  induction l with
  | nil => exact .refl _
  | cons y l ih =>
    cases hy : p y with
    | false => simpa [List.filter_cons, hy] using ih
    | true => simpa [List.filter_cons, hy] using (Leftward.swap hy x _).trans (ih.cons y)

theorem pass_all (k : List α) (l : List α) :
    Leftward p (k ++ (l.filter p ++ m)) (l.filter p ++ (k ++ m)) := by
  induction k with
  | nil => exact .refl _
  | cons x k ih => exact (ih.cons x).trans (pass x l)

theorem gather (l : List α) : Leftward p l (l.filter p ++ l.filter (!p ·)) := by
  induction l with
  | nil => exact .refl _
  | cons x l ih =>
    cases hx : p x with
    | true => simpa [List.filter_cons, hx] using ih.cons x
    | false => simpa [List.filter_cons, hx] using (ih.cons x).trans (pass x l)

theorem filter_not (h : Leftward p l m) : l.filter (!p ·) = m.filter (!p ·) := by
  induction h with
  | refl l => rfl
  | swap hx y l => simp [List.filter_cons, hx]
  | cons x h ih => simp only [List.filter_cons, ih]
  | trans h h' ih ih' => exact ih.trans ih'

theorem inversions_le (h : Leftward p l m) : inversions p m ≤ inversions p l := by
  induction h with
  | refl l => exact Nat.le_refl _
  | swap hx y l =>
    simp only [inversions, hx, if_true, List.countP_cons]
    split <;> omega
  | cons x h ih =>
    simp only [inversions, h.perm.countP_eq p]
    omega
  | trans h h' ih ih' => exact Nat.le_trans ih' ih

end Leftward

-- Inversions

variable {p : α → Bool} {l m : List α}

theorem inversions_append_lt (k : List α) (h : l.Perm m) (hlt : inversions p l < inversions p m) :
    inversions p (k ++ l) < inversions p (k ++ m) := by
  induction k with
  | nil => exact hlt
  | cons x k ih =>
    have hcount := (h.append_left k).countP_eq p
    simp only [List.cons_append, inversions, hcount]
    omega

theorem inversions_filter_append (l k : List α) : inversions p (l.filter p ++ k) = inversions p k := by
  induction l with
  | nil => rfl
  | cons x l ih =>
    cases hx : p x with
    | false => simpa [List.filter_cons, hx] using ih
    | true => simpa [List.filter_cons, hx, inversions] using ih

/-- An element that stays loses an inversion with each that passes it. -/
theorem inversions_pass (hx : p x = false) (l k : List α) :
    inversions p (l.filter p ++ x :: k) + l.countP p = inversions p (x :: (l.filter p ++ k)) := by
  have hcount : (l.filter p).countP p = l.countP p := by simp [List.countP_eq_length_filter]
  simp only [inversions, inversions_filter_append, hx, Bool.false_eq_true, if_false,
    List.countP_append, hcount]
  omega
