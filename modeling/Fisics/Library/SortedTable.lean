import Mathlib.Data.List.Sort

/-!
# Tables sorted by a comparison

A table is sorted by a three-way comparison, entries with equal keys are looked for
among its neighbours, and a key is looked up by halving the table. Where the comparison
looks at the key first and no neighbours share theirs, the keys are strictly ascending.
-/

namespace SortedTable

open List (mem_cons mem_cons_self rel_of_pairwise_cons)

variable {α β : Type} {cmp : α → α → Ordering}

-- Sorting

def sort (cmp : α → α → Ordering) (l : List α) : List α :=
  l.insertionSort fun a b => (cmp a b).isLE = true

theorem sort_perm (cmp : α → α → Ordering) (l : List α) : (sort cmp l).Perm l :=
  List.perm_insertionSort _ l

@[simp] theorem mem_sort : a ∈ sort cmp l ↔ a ∈ l := (sort_perm cmp l).mem_iff

theorem sort_sorted [Std.TransCmp cmp] (l : List α) :
    (sort cmp l).Pairwise fun a b => (cmp a b).isLE = true := by
  have htotal : Std.Total fun a b => (cmp a b).isLE = true := ⟨fun a b => by
    rcases h : cmp a b with _ | _ | _
    · exact .inl rfl
    · exact .inl rfl
    · exact .inr (by rw [Std.OrientedCmp.lt_of_gt h]; rfl)⟩
  have htrans : IsTrans α fun a b => (cmp a b).isLE = true := ⟨fun _ _ _ => Std.TransCmp.isLE_trans⟩
  exact List.pairwise_insertionSort _ l

/-- The order of the input does not show where only one entry compares equal to another. -/
theorem sort_eq_of_perm [Std.TransCmp cmp] (h : l.Perm l')
    (heq : ∀ a ∈ l, ∀ b ∈ l, cmp a b = .eq → a = b) : sort cmp l = sort cmp l' := by
  have hperm : (sort cmp l).Perm (sort cmp l') := (sort_perm cmp l).trans (h.trans (sort_perm cmp l').symm)
  refine List.Perm.eq_of_pairwise (fun a b ha hb hab hba => ?_) (sort_sorted l) (sort_sorted l') hperm
  exact heq a (mem_sort.mp ha) b (h.mem_iff.mpr (mem_sort.mp hb)) (Std.OrientedCmp.isLE_antisymm hab hba)

theorem insertionSort_eq_of_perm [DecidableRel r] [Std.Total r] [IsTrans α r] {l l' : List α}
    (h : l.Perm l') (hanti : ∀ a ∈ l, ∀ b ∈ l, r a b → r b a → a = b) :
    l.insertionSort r = l'.insertionSort r := by
  have hleft := List.perm_insertionSort r l
  have hright := List.perm_insertionSort r l'
  refine List.Perm.eq_of_pairwise (fun a b ha hb => ?_) (List.pairwise_insertionSort r l)
    (List.pairwise_insertionSort r l') (hleft.trans (h.trans hright.symm))
  exact hanti a (hleft.mem_iff.mp ha) b (h.mem_iff.mpr (hright.mem_iff.mp hb))

-- Neighbours

@[grind] def neighbours (same : α → α → Bool) : List α → Option (α × α)
  | [] => none
  | [_] => none
  | a :: b :: rest => if same a b then some (a, b) else neighbours same (b :: rest)

variable {same : α → α → Bool}

theorem same_of_neighbours (h : neighbours same l = some (a, b)) : same a b = true := by
  induction l with
  | nil => cases h
  | cons x l ih =>
    cases l with
    | nil => cases h
    | cons y rest => ?_
    rw [neighbours] at h
    split at h
    · cases h
      assumption
    · exact ih h

theorem neighbours_sublist (h : neighbours same l = some (a, b)) : [a, b].Sublist l := by
  induction l with
  | nil => cases h
  | cons x l ih =>
    cases l with
    | nil => cases h
    | cons y rest => ?_
    rw [neighbours] at h
    split at h
    · cases h
      exact .cons_cons _ (.cons_cons _ (List.nil_sublist _))
    · exact .cons _ (ih h)

theorem pairwise_lt_of_neighbours [Std.TransCmp cmp] (hsame : ∀ a b, cmp a b = .eq → same a b = true)
    (hsorted : l.Pairwise fun a b => (cmp a b).isLE = true) (h : neighbours same l = none) :
    l.Pairwise fun a b => cmp a b = .lt := by
  induction l with
  | nil => exact .nil
  | cons a l ih =>
    cases l with
    | nil => exact List.pairwise_singleton _ a
    | cons b rest => ?_
    rw [neighbours] at h
    split at h
    · cases h
    rename_i hne
    have hrest := ih hsorted.of_cons h
    have hab : cmp a b = .lt := by
      have hle := rel_of_pairwise_cons hsorted mem_cons_self
      rcases Ordering.isLE_iff_eq_lt_or_eq_eq.mp hle with hlt | heq
      · exact hlt
      · exact absurd (hsame a b heq) hne
    refine List.pairwise_cons.mpr ⟨fun c hc => ?_, hrest⟩
    rcases mem_cons.mp hc with rfl | hc
    · exact hab
    · exact Std.TransCmp.lt_trans hab (rel_of_pairwise_cons hrest hc)

theorem neighbours_split (h : neighbours same l = some (a, b)) : ∃ l₁ l₂, l = l₁ ++ a :: b :: l₂ := by
  induction l with
  | nil => cases h
  | cons x l ih =>
    cases l with
    | nil => cases h
    | cons y rest => ?_
    rw [neighbours] at h
    split at h
    · cases h
      exact ⟨[], rest, rfl⟩
    · obtain ⟨l₁, l₂, heq⟩ := ih h
      exact ⟨x :: l₁, l₂, by rw [heq, List.cons_append]⟩

/-- Two entries that are the same, with none between them. -/
def Adjacent (cmp : α → α → Ordering) (same : α → α → Bool) (l : List α) : Prop :=
  ∃ a b rest, l.Perm (a :: b :: rest) ∧ same a b = true ∧ (cmp a b).isLE = true ∧
    ∀ c ∈ l, ¬(cmp a c = .lt ∧ cmp c b = .lt)

theorem eq_of_pairwise_lt [Std.TransCmp cmp] {l : List α} (h : l.Pairwise fun a b => cmp a b = .lt) (ha : a ∈ l)
    (hb : b ∈ l) (heq : cmp a b = .eq) : a = b := by
  induction h with
  | nil => cases ha
  | cons hlt _ ih =>
    rcases mem_cons.mp ha with rfl | ha' <;> rcases mem_cons.mp hb with rfl | hb'
    · rfl
    · cases heq.symm.trans (hlt _ hb')
    · cases (Std.OrientedCmp.eq_symm heq).symm.trans (hlt _ ha')
    · exact ih ha' hb'

theorem not_lt_self [Std.ReflCmp cmp] (a : α) : cmp a a ≠ .lt := by
  intro h
  cases (Std.ReflCmp.compare_self : cmp a a = .eq).symm.trans h

theorem not_lt_of_isLE [Std.OrientedCmp cmp] (h : (cmp a b).isLE = true) : cmp b a ≠ .lt := by
  intro hlt
  rw [Std.OrientedCmp.gt_of_lt hlt] at h
  cases h

theorem between_of_pairwise_lt [Std.TransCmp cmp] (hlt : l.Pairwise fun a b => cmp a b = .lt)
    (h : neighbours same l = none) (ha : a ∈ l) (hb : b ∈ l) (hab : cmp a b = .lt) (hsame : same a b = true) :
    ∃ c ∈ l, cmp a c = .lt ∧ cmp c b = .lt := by
  induction l with
  | nil => cases ha
  | cons x l ih =>
    -- the earlier one is not behind the later one
    have hbl : b ∈ l := by
      rcases mem_cons.mp hb with rfl | hb
      · rcases mem_cons.mp ha with rfl | ha
        · exact absurd hab (not_lt_self _)
        · exact absurd hab (not_lt_of_isLE (Ordering.isLE_of_eq_lt (rel_of_pairwise_cons hlt ha)))
      · exact hb
    cases l with
    | nil => cases hbl
    | cons y rest => ?_
    rw [neighbours] at h
    split at h
    · cases h
    rename_i hne
    rcases mem_cons.mp ha with heq | ha
    · subst heq
      rcases mem_cons.mp hbl with heq | hb
      · exact absurd (heq ▸ hsame) hne
      · exact ⟨y, List.mem_cons_of_mem _ mem_cons_self,
          rel_of_pairwise_cons hlt mem_cons_self, rel_of_pairwise_cons hlt.of_cons hb⟩
    · obtain ⟨c, hc, hbetween⟩ := ih hlt.of_cons h ha hbl
      exact ⟨c, List.mem_cons_of_mem _ hc, hbetween⟩

/-- Neighbours that are the same are found exactly where such entries are adjacent. -/
theorem neighbours_sort_isSome_iff [Std.TransCmp cmp] (hsame : ∀ a b, cmp a b = .eq → same a b = true)
    (l : List α) : (neighbours same (sort cmp l)).isSome = true ↔ Adjacent cmp same l := by
  have hsorted : (sort cmp l).Pairwise fun a b => (cmp a b).isLE = true := sort_sorted l
  constructor
  · intro h
    obtain ⟨⟨a, b⟩, h⟩ := Option.isSome_iff_exists.mp h
    obtain ⟨l₁, l₂, heq⟩ := neighbours_split h
    have hperm := sort_perm cmp l
    rw [heq] at hsorted hperm
    obtain ⟨-, hright, hcross⟩ := List.pairwise_append.mp hsorted
    refine ⟨a, b, l₁ ++ l₂, hperm.symm.trans ?_, same_of_neighbours h,
      rel_of_pairwise_cons hright mem_cons_self, ?_⟩
    · exact List.perm_middle.trans (List.perm_middle.cons a)
    · rintro c hc ⟨hac, hcb⟩
      have hmem := hperm.mem_iff.mpr hc
      simp only [List.mem_append, mem_cons] at hmem
      rcases hmem with hc | rfl | rfl | hc
      · exact not_lt_of_isLE (hcross c hc a mem_cons_self) hac
      · exact not_lt_self _ hac
      · exact not_lt_self _ hcb
      · exact not_lt_of_isLE (rel_of_pairwise_cons hright.of_cons hc) hcb
  · rintro ⟨a, b, rest, hperm, hab, hle, hbetween⟩
    by_contra hnone
    rw [Bool.not_eq_true, Option.isSome_eq_false_iff, Option.isNone_iff_eq_none] at hnone
    have hlt := pairwise_lt_of_neighbours hsame hsorted hnone
    have hpair : (sort cmp l).Perm (a :: b :: rest) := (sort_perm cmp l).trans hperm
    have ha := hpair.mem_iff.mpr mem_cons_self
    have hb := hpair.mem_iff.mpr (List.mem_cons_of_mem _ mem_cons_self)
    rcases Ordering.isLE_iff_eq_lt_or_eq_eq.mp hle with hablt | heq
    · obtain ⟨c, hc, hac, hcb⟩ := between_of_pairwise_lt hlt hnone ha hb hablt hab
      exact hbetween c (mem_sort.mp hc) ⟨hac, hcb⟩
    · obtain rfl := eq_of_pairwise_lt hlt ha hb heq
      have hnodup : (sort cmp l).Nodup := by
        refine hlt.imp fun {x y} hxy heq => ?_
        subst heq
        exact not_lt_self _ hxy
      rw [hpair.nodup_iff, List.nodup_cons] at hnodup
      exact hnodup.1 mem_cons_self

/-- Where all between two entries that are the same is the same too, none are left. -/
theorem pairwise_of_neighbours (hconvex : ∀ a b c, (cmp a b).isLE = true → (cmp b c).isLE = true →
      same a c = true → same a b = true)
    (hsorted : l.Pairwise fun a b => (cmp a b).isLE = true) (h : neighbours same l = none) :
    l.Pairwise fun a b => same a b = false := by
  induction l with
  | nil => exact .nil
  | cons a l ih =>
    cases l with
    | nil => exact List.pairwise_singleton _ a
    | cons b rest => ?_
    rw [neighbours] at h
    split at h
    · cases h
    rename_i hne
    refine List.pairwise_cons.mpr ⟨fun c hc => ?_, ih hsorted.of_cons h⟩
    rcases mem_cons.mp hc with rfl | hc
    · exact Bool.eq_false_of_not_eq_true hne
    · by_contra hac
      have hab := rel_of_pairwise_cons hsorted mem_cons_self
      have hbc := rel_of_pairwise_cons hsorted.of_cons hc
      exact hne (hconvex a b c hab hbc (by simpa using hac))

/-- Where a sorted table has no neighbours that are the same, no other order of the input
gives another table. -/
theorem sort_eq_of_neighbours [Std.TransCmp cmp] (hsame : ∀ a b, cmp a b = .eq → same a b = true)
    (hperm : l.Perm l') (h : neighbours same (sort cmp l) = none) : sort cmp l = sort cmp l' := by
  have hlt := pairwise_lt_of_neighbours hsame (sort_sorted l) h
  exact sort_eq_of_perm hperm fun a ha b hb =>
    eq_of_pairwise_lt hlt (mem_sort.mpr ha) (mem_sort.mpr hb)

/-- Two orders of one input give the same table, or both have neighbours that are the same. -/
theorem sort_perm_cases [Std.TransCmp cmp] (hsame : ∀ a b, cmp a b = .eq → same a b = true)
    (hperm : l.Perm l') :
    (neighbours same (sort cmp l) = none ∧ sort cmp l' = sort cmp l) ∨
      ((neighbours same (sort cmp l)).isSome = true ∧ (neighbours same (sort cmp l')).isSome = true) := by
  cases h : neighbours same (sort cmp l) with
  | none => exact .inl ⟨rfl, (sort_eq_of_neighbours hsame hperm h).symm⟩
  | some p => ?_
  cases h' : neighbours same (sort cmp l') with
  | some p' => exact .inr ⟨rfl, rfl⟩
  | none =>
    rw [← sort_eq_of_neighbours hsame hperm.symm h', h'] at h
    cases h

def Ascending [Ord β] (key : α → β) (l : List α) : Prop :=
  l.Pairwise fun a b => compare (key a) (key b) = .lt

section
variable [Ord β] {key : α → β}

theorem ascending_of_neighbours [Std.TransOrd β] [Std.LawfulEqOrd β]
    (hsame : ∀ a b, same a b = true ↔ key a = key b)
    (hsorted : l.Pairwise fun a b => (compare (key a) (key b)).isLE = true)
    (h : neighbours same l = none) : Ascending key l := by
  have heq : ∀ a b, compareOn key a b = .eq → same a b = true :=
    fun a b heq => (hsame a b).mpr (Std.LawfulEqOrd.eq_of_compare heq)
  have hcmp : l.Pairwise fun a b => (compareOn key a b).isLE = true := hsorted
  have hlt : l.Pairwise fun a b => compareOn key a b = .lt := pairwise_lt_of_neighbours heq hcmp h
  exact hlt

theorem Ascending.nodup_keys [Std.TransOrd β] (h : Ascending key l) : (l.map key).Nodup := by
  refine List.pairwise_map.mpr (h.imp fun hlt heq => ?_)
  rw [heq, Std.ReflOrd.compare_self] at hlt
  cases hlt

/-- Neighbours that are the same are found exactly where a key is there twice. -/
theorem neighbours_eq_none_iff [Std.TransOrd β] [Std.LawfulEqOrd β]
    (hsame : ∀ a b, same a b = true ↔ key a = key b)
    (hsorted : l.Pairwise fun a b => (compare (key a) (key b)).isLE = true) :
    neighbours same l = none ↔ (l.map key).Nodup := by
  constructor
  · intro h
    exact (ascending_of_neighbours hsame hsorted h).nodup_keys
  · intro hnodup
    cases h : neighbours same l with
    | none => rfl
    | some p =>
      have hpair : [key p.1, key p.2].Nodup := hnodup.sublist ((neighbours_sublist h).map key)
      have hne := rel_of_pairwise_cons hpair (List.mem_singleton_self _)
      exact absurd ((hsame p.1 p.2).mp (same_of_neighbours h)) hne

end

-- Looking up

/-- `probe` compares an entry with what is looked up; `fuel` bounds the halvings. -/
@[grind] def searchIn (probe : α → Ordering) (table : List α) : (fuel low high : Nat) → Option α
  | 0, _, _ => none
  | fuel + 1, low, high =>
    if low < high then
      let middle := low + (high - low) / 2
      match table[middle]? with
      | none => none
      | some a =>
        match probe a with
        | .eq => some a
        | .lt => searchIn probe table fuel (middle + 1) high
        | .gt => searchIn probe table fuel low middle
    else none

def search (probe : α → Ordering) (table : List α) : Option α :=
  searchIn probe table table.length 0 table.length

variable {probe : α → Ordering}

theorem of_searchIn (h : searchIn probe table fuel low high = some a) : a ∈ table ∧ probe a = .eq := by
  induction fuel generalizing low high with
  | zero => cases h
  | succ fuel ih =>
    rw [searchIn] at h
    split at h
    · cases hget : table[low + (high - low) / 2]? with
      | none => simp [hget] at h
      | some b => ?_
      simp only [hget] at h
      split at h
      · rename_i heq
        cases h
        exact ⟨List.mem_of_getElem? hget, heq⟩
      all_goals exact ih h
    · cases h

theorem of_search (h : search probe table = some a) : a ∈ table ∧ probe a = .eq := of_searchIn h

section
variable [Ord β] {key : α → β}

theorem Ascending.lt_of_lt {i j : Nat} (h : Ascending key table) (hi : table[i]? = some a)
    (hj : table[j]? = some b)
    (hij : i < j) : compare (key a) (key b) = .lt := by
  obtain ⟨hi', rfl⟩ := List.getElem?_eq_some_iff.mp hi
  obtain ⟨hj', rfl⟩ := List.getElem?_eq_some_iff.mp hj
  exact List.pairwise_iff_getElem.mp h i j hi' hj' hij

variable [Std.TransOrd β]

theorem searchIn_of_mem (h : Ascending key table) (ht : table[t]? = some a) (hlow : low ≤ t)
    (hhigh : t < high) (hlength : high ≤ table.length) (hfuel : high ≤ low + fuel) :
    searchIn (fun e => compare (key e) (key a)) table fuel low high = some a := by
  induction fuel generalizing low high with
  | zero => omega
  | succ fuel ih =>
    have hmiddle : low + (high - low) / 2 < table.length := by omega
    rw [searchIn, if_pos (Nat.lt_of_le_of_lt hlow hhigh)]
    dsimp only
    rw [List.getElem?_eq_getElem hmiddle]
    dsimp only
    rcases Nat.lt_trichotomy (low + (high - low) / 2) t with hlt | heq | hgt
    · rw [h.lt_of_lt (List.getElem?_eq_getElem hmiddle) ht hlt]
      exact ih (by omega) hhigh hlength (by omega)
    · have hsame : table[low + (high - low) / 2] = a :=
        Option.some.inj ((List.getElem?_eq_getElem hmiddle).symm.trans (heq ▸ ht))
      rw [hsame, Std.ReflOrd.compare_self]
    · rw [Std.OrientedCmp.gt_of_lt (h.lt_of_lt ht (List.getElem?_eq_getElem hmiddle) hgt)]
      exact ih hlow hgt (by omega) (by omega)

theorem search_of_mem (h : Ascending key table) (ha : a ∈ table) :
    search (fun e => compare (key e) (key a)) table = some a := by
  obtain ⟨t, ht⟩ := List.mem_iff_getElem?.mp ha
  have hlt : t < table.length := (List.getElem?_eq_some_iff.mp ht).1
  exact searchIn_of_mem h ht (Nat.zero_le t) hlt (Nat.le_refl _) (by omega)

theorem search_eq_none_iff [Std.LawfulEqOrd β] (h : Ascending key table) :
    search (fun e => compare (key e) k) table = none ↔ ∀ a ∈ table, key a ≠ k := by
  constructor
  · rintro hnone a ha rfl
    rw [search_of_mem h ha] at hnone
    cases hnone
  · intro hnot
    cases hsearch : search (fun e => compare (key e) k) table with
    | none => rfl
    | some a =>
      obtain ⟨hmem, heq⟩ := of_search hsearch
      exact absurd (Std.LawfulEqOrd.eq_of_compare heq) (hnot a hmem)

end

end SortedTable
