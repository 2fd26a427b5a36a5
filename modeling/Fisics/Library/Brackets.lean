import Mathlib.Data.List.Basic

/-!
# Bracketed lists

Lists in which brackets match, and the closing bracket that matches one opened
before the list. `untilClose` is the usual scan with a depth counter. Separators inside
brackets do not split a list into items.
-/

namespace Brackets

section
variable (opens closes : α → Prop)

inductive Balanced : List α → Prop
  | nil : Balanced []
  | plain : ¬opens a → ¬closes a → Balanced rest → Balanced (a :: rest)
  | group : opens a → closes b → Balanced inside → Balanced rest →
      Balanced (a :: (inside ++ b :: rest))

/-- What stands behind `depth` open brackets: it closes them all. -/
inductive Nested : Nat → List α → Prop
  | done : Balanced opens closes xs → Nested 0 xs
  | close : Balanced opens closes xs → closes b → Nested depth rest →
      Nested (depth + 1) (xs ++ b :: rest)

variable (separates : α → Prop)

inductive Item : List α → Prop
  | nil : Item []
  | plain : ¬opens a → ¬closes a → ¬separates a → Item rest → Item (a :: rest)
  | group : opens a → closes b → Balanced opens closes inside → Item rest →
      Item (a :: (inside ++ b :: rest))

inductive Separated : List α → List (List α) → Prop
  | last : Item opens closes separates xs → Separated xs [xs]
  | next : Item opens closes separates xs → separates c → Separated rest items →
      Separated (xs ++ c :: rest) (xs :: items)

variable [DecidablePred opens] [DecidablePred closes]

/-- What stands before the bracket that closes an outer one and what stands behind
it, with `depth` brackets open inside. -/
def untilClose : (depth : Nat) → List α → Option (List α × List α)
  | _, [] => none
  | depth, a :: rest =>
    if closes a then
      match depth with
      | 0 => some ([], rest)
      | depth + 1 => (untilClose depth rest).map fun p => (a :: p.1, p.2)
    else
      (untilClose (if opens a then depth + 1 else depth) rest).map fun p => (a :: p.1, p.2)

end

section
variable {opens closes : α → Prop}

theorem Nested.plain (hopen : ¬opens a) (hclose : ¬closes a) (h : Nested opens closes depth xs) :
    Nested opens closes depth (a :: xs) := by
  cases h with
  | done hxs => exact .done (.plain hopen hclose hxs)
  | close hxs hb hrest => exact .close (.plain hopen hclose hxs) hb hrest

theorem Nested.group (hopen : opens a) (h : Nested opens closes (depth + 1) xs) :
    Nested opens closes depth (a :: xs) := by
  cases h with
  | close hinside hb hrest =>
    cases hrest with
    | done hxs => exact .done (.group hopen hb hinside hxs)
    | @close ys c _ _ hys hc hrest =>
      have := Nested.close (.group hopen hb hinside hys) hc hrest
      rwa [List.cons_append, List.append_assoc] at this

variable [DecidablePred opens] [DecidablePred closes]

theorem untilClose_append (hexcl : ∀ a, opens a → ¬closes a) (h : Balanced opens closes xs) :
    untilClose opens closes depth (xs ++ rest)
      = (untilClose opens closes depth rest).map fun p => (xs ++ p.1, p.2) := by
  induction h generalizing depth rest with
  | nil => simp
  | plain hopen hclose _ ih =>
    simp only [List.cons_append, untilClose, if_neg hclose, if_neg hopen, ih, Option.map_map]
    rfl
  | group hopen hb _ _ ihInside ihRest =>
    simp only [List.cons_append, List.append_assoc, untilClose, if_neg (hexcl _ hopen),
      if_pos hopen, ihInside, if_pos hb, ihRest, Option.map_map]
    rfl

theorem nested_of_untilClose (h : untilClose opens closes depth xs = some (inside, rest)) :
    Nested opens closes depth inside ∧ ∃ b, closes b ∧ xs = inside ++ b :: rest := by
  induction xs generalizing depth inside with
  | nil => simp [untilClose] at h
  | cons a xs ih =>
    simp only [untilClose] at h
    split at h
    · rename_i hclose
      cases depth with
      | zero =>
        cases h
        exact ⟨.done .nil, a, hclose, rfl⟩
      | succ depth =>
        obtain ⟨⟨inside', rest'⟩, hscan, heq⟩ := Option.map_eq_some_iff.mp h
        cases heq
        obtain ⟨hnested, b, hb, hxs⟩ := ih hscan
        exact ⟨.close .nil hclose hnested, b, hb, by rw [hxs, List.cons_append]⟩
    · rename_i hclose
      obtain ⟨⟨inside', rest'⟩, hscan, heq⟩ := Option.map_eq_some_iff.mp h
      cases heq
      obtain ⟨hnested, b, hb, hxs⟩ := ih hscan
      refine ⟨?_, b, hb, by rw [hxs, List.cons_append]⟩
      by_cases hopen : opens a
      · rw [if_pos hopen] at hnested
        exact hnested.group hopen
      · rw [if_neg hopen] at hnested
        exact hnested.plain hopen hclose

theorem untilClose_eq_some_iff (hexcl : ∀ a, opens a → ¬closes a) :
    untilClose opens closes 0 xs = some (inside, rest) ↔
      Balanced opens closes inside ∧ ∃ b, closes b ∧ xs = inside ++ b :: rest := by
  constructor
  · intro h
    obtain ⟨hnested, hb⟩ := nested_of_untilClose h
    cases hnested with
    | done hinside => exact ⟨hinside, hb⟩
  · rintro ⟨hinside, b, hb, rfl⟩
    rw [untilClose_append hexcl hinside]
    simp [untilClose, hb]

end

-- Items

section
variable {opens closes separates : α → Prop}

theorem Separated.items_ne_nil (h : Separated opens closes separates xs items) : items ≠ [] := by
  cases h <;> simp

theorem Separated.eq_nil_iff (h : Separated opens closes separates xs items) : xs = [] ↔ items = [[]] := by
  cases h with
  | last _ => simp
  | next _ _ hrest => simp [hrest.items_ne_nil]

theorem Separated.cons (front : List α) (h : Separated opens closes separates xs items)
    (hitem : ∀ {ys}, Item opens closes separates ys → Item opens closes separates (front ++ ys)) :
    ∃ items', Separated opens closes separates (front ++ xs) items' := by
  cases h with
  | last hxs => exact ⟨_, .last (hitem hxs)⟩
  | next hxs hc hrest =>
    rw [← List.append_assoc]
    exact ⟨_, .next (hitem hxs) hc hrest⟩

theorem Balanced.separated (separates : α → Prop) [DecidablePred separates] (h : Balanced opens closes xs) :
    ∃ items, Separated opens closes separates xs items := by
  induction h with
  | nil => exact ⟨_, .last .nil⟩
  | @plain a rest hopen hclose _ ih =>
    obtain ⟨items, hitems⟩ := ih
    by_cases hsep : separates a
    · exact ⟨_, .next .nil hsep hitems⟩
    · exact hitems.cons [a] (.plain hopen hclose hsep)
  | @group a b inside rest hopen hclose hinside _ _ ih =>
    obtain ⟨items, hitems⟩ := ih
    have := hitems.cons (a :: (inside ++ [b])) fun hys => by
      simpa using Item.group hopen hclose hinside hys
    simpa using this

/-- The items with separators between them are the list, as far as a reading of
the elements goes that does not tell separators apart. -/
theorem Separated.join {read : α → β} (h : Separated opens closes separates xs items)
    (hread : ∀ c ∈ xs, separates c → read c = read sep) :
    ((items.intersperse [sep]).flatten).map read = xs.map read := by
  induction h with
  | last _ => simp
  | @next xs c rest items _ hc hrest ih =>
    have hsep : read c = read sep := hread c (by simp) hc
    have hjoin := ih fun e he => hread e (by simp [he])
    cases items with
    | nil => exact absurd rfl hrest.items_ne_nil
    | cons item items => simp [hsep, ← hjoin]

end

end Brackets
