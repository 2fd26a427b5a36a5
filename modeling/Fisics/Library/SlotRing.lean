/-!
# Rotating slots

A few slots that are written in turn: a new value goes to the slot after the last
one written, and what stood there is lost. A slot that was written keeps its value
for `size - 1` more writes; `track` follows one slot through a list of writes by
the number of writes it still survives.
-/

structure SlotRing (α : Type) where
  next : Nat
  slots : Nat → α

namespace SlotRing

def get (r : SlotRing α) (i : Nat) : α := r.slots i

def push (size : Nat) (r : SlotRing α) (a : α) : SlotRing α :=
  ⟨(r.next + 1) % size, fun i => if i = r.next then a else r.slots i⟩

/-- The value of a slot and the number of writes to the others before it is
overwritten, after one more write. -/
def trackStep (size : Nat) (slot : Nat × α) (a : α) : Nat × α :=
  if slot.1 = 0 then (size - 1, a) else (slot.1 - 1, slot.2)

def track (size : Nat) (slot : Nat × α) (writes : List α) : Nat × α :=
  writes.foldl (trackStep size) slot

/-- Slot `i` has the value, and is the one that is written after so many others. -/
structure Holds (size : Nat) (r : SlotRing α) (i : Nat) (slot : Nat × α) : Prop where
  value : r.get i = slot.2
  turn : (r.next + slot.1) % size = i
  inTurn : slot.1 < size

def WellFormed (size : Nat) (r : SlotRing α) : Prop := r.next < size

theorem push_wellFormed (h : 0 < size) (r : SlotRing α) (a : α) : (r.push size a).WellFormed size :=
  Nat.mod_lt _ h

theorem foldl_push_wellFormed (h : 0 < size) (hr : r.WellFormed size)
    (writes : List α) : (writes.foldl (push size) r).WellFormed size := by
  induction writes generalizing r with
  | nil => exact hr
  | cons a writes ih => exact ih (push_wellFormed h r a)

theorem holds_push {r : SlotRing α} (hr : r.WellFormed size) (a : α) :
    Holds size (r.push size a) r.next (size - 1, a) := by
  have hpos : 0 < size := Nat.lt_of_le_of_lt (Nat.zero_le _) hr
  refine ⟨?_, ?_, Nat.sub_lt hpos Nat.one_pos⟩
  · simp [get, push]
  · show ((r.next + 1) % size + (size - 1)) % size = r.next
    rw [Nat.mod_add_mod, Nat.add_assoc, Nat.add_sub_cancel' hpos, Nat.add_mod_right]
    exact Nat.mod_eq_of_lt hr

theorem Holds.push {r : SlotRing α} (h : Holds size r i slot) (hr : r.WellFormed size) (a : α) :
    Holds size (r.push size a) i (trackStep size slot a) := by
  obtain ⟨hvalue, hturn, hlt⟩ := h
  by_cases hzero : slot.1 = 0
  · -- the slot is the one that is written
    rw [hzero, Nat.add_zero, Nat.mod_eq_of_lt hr] at hturn
    subst hturn
    rw [trackStep, if_pos hzero]
    exact holds_push hr a
  · rw [trackStep, if_neg hzero]
    refine ⟨?_, ?_, by omega⟩
    · have hne : i ≠ r.next := by
        have hnext : r.next < size := hr
        rintro rfl
        obtain hle | hgt := Nat.lt_or_ge (r.next + slot.1) size
        · rw [Nat.mod_eq_of_lt hle] at hturn
          omega
        · rw [Nat.mod_eq_sub_mod hgt, Nat.mod_eq_of_lt (by omega)] at hturn
          omega
      show (if i = r.next then a else r.slots i) = slot.2
      rw [if_neg hne]
      exact hvalue
    · show ((r.next + 1) % size + (slot.1 - 1)) % size = i
      rw [Nat.mod_add_mod, Nat.add_assoc, Nat.add_sub_cancel' (Nat.one_le_iff_ne_zero.mpr hzero)]
      exact hturn

theorem Holds.foldl_push {r : SlotRing α} (h : Holds size r i slot) (hr : r.WellFormed size)
    (writes : List α) :
    Holds size (writes.foldl (SlotRing.push size) r) i (track size slot writes) := by
  have hpos : 0 < size := Nat.lt_of_le_of_lt (Nat.zero_le _) hr
  induction writes generalizing r slot with
  | nil => exact h
  | cons a writes ih => exact ih (h.push hr a) (push_wellFormed hpos r a)

theorem track_map (size : Nat) (f : α → β) (slot : Nat × α) (writes : List α) :
    track size (slot.1, f slot.2) (writes.map f) =
      ((track size slot writes).1, f (track size slot writes).2) := by
  induction writes generalizing slot with
  | nil => rfl
  | cons a writes ih =>
    have hstep : trackStep size (slot.1, f slot.2) (f a) =
        ((trackStep size slot a).1, f (trackStep size slot a).2) := by
      unfold trackStep
      split <;> rfl
    show track size (trackStep size (slot.1, f slot.2) (f a)) (writes.map f) = _
    rw [hstep, ih]
    rfl

theorem track_mem (size : Nat) (slot : Nat × α) (writes : List α) :
    (track size slot writes).2 ∈ slot.2 :: writes := by
  induction writes generalizing slot with
  | nil => exact List.mem_cons_self
  | cons a writes ih =>
    have hstep : (trackStep size slot a).2 = slot.2 ∨ (trackStep size slot a).2 = a := by
      unfold trackStep
      split <;> simp
    have htrack := ih (trackStep size slot a)
    show (track size (trackStep size slot a) writes).2 ∈ _
    rcases List.mem_cons.mp htrack with heq | hmem
    · rw [heq]
      rcases hstep with hslot | ha
      · simp [hslot]
      · simp [ha]
    · simp [hmem]

end SlotRing
