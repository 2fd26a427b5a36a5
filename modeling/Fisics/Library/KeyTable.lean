/-!
# Tables with one entry for each key

A list of entries in which an entry is replaced where its key stands, and otherwise
added at the end.
-/

namespace KeyTable

variable [DecidableEq κ]

@[grind] def set (key : κ) (value : β) : List (κ × β) → List (κ × β)
  | [] => [(key, value)]
  | entry :: entries =>
    if entry.1 = key then (key, value) :: entries else entry :: set key value entries

@[grind] def get (key : κ) : List (κ × β) → Option β
  | [] => none
  | entry :: entries => if entry.1 = key then some entry.2 else get key entries

variable {entries : List (κ × β)}

@[simp] theorem get_set (key other : κ) (value : β) :
    get other (set key value entries) = if key = other then some value else get other entries := by
  induction entries with
  | nil => simp [set, get]
  | cons entry entries ih =>
    by_cases hentry : entry.1 = key
    · simp only [set, hentry, if_true, get]
      split
      all_goals rfl
    simp only [set, hentry, if_false, get, ih]
    by_cases hother : entry.1 = other
    · have hne : key ≠ other := fun h => hentry (hother.trans h.symm)
      simp [hother, hne]
    · simp [hother]

theorem mem_keys_set :
    other ∈ (set key value entries).map Prod.fst ↔ other = key ∨ other ∈ entries.map Prod.fst := by
  induction entries with
  | nil => simp [set]
  | cons entry entries ih =>
    by_cases hentry : entry.1 = key
    · simp [set, hentry]
    simp only [set, hentry, if_false, List.map_cons, List.mem_cons, ih]
    constructor
    all_goals
      rintro (h | h | h)
      · exact .inr (.inl h)
      · exact .inl h
      · exact .inr (.inr h)

theorem nodup_set (h : (entries.map Prod.fst).Nodup) (key : κ) (value : β) :
    ((set key value entries).map Prod.fst).Nodup := by
  induction entries with
  | nil => simp [set]
  | cons entry entries ih =>
    obtain ⟨hfresh, hrest⟩ := List.nodup_cons.mp h
    by_cases hentry : entry.1 = key
    · simp only [set, hentry, if_true, List.map_cons]
      exact List.nodup_cons.mpr ⟨hentry ▸ hfresh, hrest⟩
    simp only [set, hentry, if_false, List.map_cons]
    refine List.nodup_cons.mpr ⟨fun hmem => ?_, ih hrest⟩
    rcases mem_keys_set.mp hmem with hkey | hmem
    · exact hentry hkey
    · exact hfresh hmem

theorem set_new (h : key ∉ entries.map Prod.fst) (value : β) :
    set key value entries = entries ++ [(key, value)] := by
  induction entries with
  | nil => rfl
  | cons entry entries ih =>
    simp only [List.map_cons, List.mem_cons, not_or] at h
    simp [set, Ne.symm h.1, ih h.2]

theorem get_new (h : key ∉ entries.map Prod.fst) : get key entries = none := by
  induction entries with
  | nil => rfl
  | cons entry entries ih =>
    simp only [List.map_cons, List.mem_cons, not_or] at h
    simp [get, Ne.symm h.1, ih h.2]

theorem at_place (hnodup : (entries.map Prod.fst).Nodup)
    (h : entries[i]? = some (key, old)) (value : β) :
    entries.set i (key, value) = set key value entries ∧ get key entries = some old := by
  induction entries generalizing i with
  | nil => cases h
  | cons entry entries ih =>
    obtain ⟨hfresh, hrest⟩ := List.nodup_cons.mp hnodup
    cases i with
    | zero =>
      obtain rfl : entry = (key, old) := Option.some.inj h
      simp [set, get]
    | succ i =>
      have hne : entry.1 ≠ key := by
        rintro rfl
        exact hfresh (List.mem_map.mpr ⟨_, List.mem_of_getElem? h, rfl⟩)
      obtain ⟨hset, hget⟩ := ih hrest h
      simp [set, get, hne, hset, hget]

end KeyTable
