import Mathlib.Data.List.Basic

/-!
# Joined items

A list of items, joints and gaps. A joint joins the items on its two sides; a gap
stands where an item is missing, so that the joints beside it have nothing to join
on that side. `chains` are the items that are joined, in their order.

`reread` forgets the gaps and reads some of the items as joints.
`chains_reread_iff` says when the items that are then joined are the same.
-/

namespace Joints

inductive Item (α : Type)
  | item (a : α)
  | gap
  | joint
  deriving DecidableEq

@[grind] def Item.map (f : α → β) : Item α → Item β
  | .item a => .item (f a)
  | .gap => .gap
  | .joint => .joint

def values (xs : List (Item α)) : List α :=
  xs.filterMap fun
    | .item a => some a
    | .gap => none
    | .joint => none

@[simp] theorem values_nil : values ([] : List (Item α)) = [] := rfl

@[simp] theorem values_item (a : α) (xs : List (Item α)) : values (.item a :: xs) = a :: values xs := rfl

@[simp] theorem values_gap (xs : List (Item α)) : values (.gap :: xs) = values xs := rfl

@[simp] theorem values_joint (xs : List (Item α)) : values (.joint :: xs) = values xs := rfl

theorem values_map (f : α → β) (xs : List (Item α)) : values (xs.map (Item.map f)) = (values xs).map f := by
  induction xs with
  | nil => rfl
  | cons x xs ih => cases x <;> simp [Item.map, ih]

-- Chains

@[grind] def closed : List α → List (List α)
  | [] => []
  | a :: chain => [a :: chain]

/-- The chains of the rest, after the `chain` being read; `joined` is whether a
joint stands right before. -/
@[grind] def chains : (joined : Bool) → (chain : List α) → List (Item α) → List (List α)
  | _, chain, [] => closed chain
  | true, chain, .item a :: rest => chains false (chain ++ [a]) rest
  | false, chain, .item a :: rest => closed chain ++ chains false [a] rest
  | true, chain, .gap :: rest => chains false chain rest
  | false, chain, .gap :: rest => closed chain ++ chains false [] rest
  | _, chain, .joint :: rest => chains true chain rest

@[simp] theorem chains_end (joined : Bool) (chain : List α) : chains joined chain [] = closed chain := by
  cases joined <;> rfl

@[simp] theorem chains_joint (joined : Bool) (chain : List α) (rest : List (Item α)) :
    chains joined chain (.joint :: rest) = chains true chain rest := by
  cases joined <;> rfl

@[simp] theorem closed_nil : closed ([] : List α) = [] := rfl

theorem closed_of_ne (h : chain ≠ []) : closed chain = [chain] := by
  obtain ⟨a, chain, rfl⟩ := List.exists_cons_of_ne_nil h
  rfl

@[simp] theorem closed_eq_singleton : closed chain = [chain] ↔ chain ≠ [] := by
  cases chain <;> simp [closed]

@[simp] theorem flatten_closed (chain : List α) : (closed chain).flatten = chain := by
  cases chain with
  | nil => rfl
  | cons a chain => simp [closed]

/-- Nothing is lost and nothing changes places. -/
theorem flatten_chains (joined : Bool) (chain : List α) (xs : List (Item α)) :
    (chains joined chain xs).flatten = chain ++ values xs := by
  induction xs generalizing joined chain with
  | nil => simp
  | cons x xs ih =>
    cases x with
    | item a | gap => cases joined <;> simp [chains, ih]
    | joint => simp [ih]

theorem ne_nil_of_mem_chains (joined : Bool) (chain : List α) (xs : List (Item α)) :
    ∀ c ∈ chains joined chain xs, c ≠ [] := by
  have hclosed : ∀ chain : List α, ∀ c ∈ closed chain, c ≠ [] := by
    intro chain c hc
    cases chain with
    | nil => cases hc
    | cons a chain =>
      obtain rfl := List.mem_singleton.mp hc
      exact List.cons_ne_nil a chain
  induction xs generalizing joined chain with
  | nil => simpa using hclosed chain
  | cons x xs ih =>
    cases x with
    | item a =>
      cases joined with
      | true => exact ih false (chain ++ [a])
      | false =>
        intro c hc
        exact (List.mem_append.mp hc).elim (hclosed chain c) (ih false [a] c)
    | gap =>
      cases joined with
      | true => exact ih false chain
      | false =>
        intro c hc
        exact (List.mem_append.mp hc).elim (hclosed chain c) (ih false [] c)
    | joint => simpa using ih true chain

/-- How the rest goes on does not depend on the chain being read. -/
theorem chains_extend (joined : Bool) (xs : List (Item α)) :
    ∃ more others, ∀ chain, chain ≠ [] → chains joined chain xs = (chain ++ more) :: others := by
  induction xs generalizing joined with
  | nil =>
    refine ⟨[], [], ?_⟩
    intro chain h
    simp [closed_of_ne h]
  | cons x xs ih =>
    cases x with
    | item a =>
      cases joined with
      | true =>
        obtain ⟨more, others, h⟩ := ih false
        refine ⟨a :: more, others, ?_⟩
        intro chain _
        rw [chains, h _ (by simp), List.append_assoc, List.singleton_append]
      | false =>
        refine ⟨[], chains false [a] xs, ?_⟩
        intro chain h
        rw [chains, closed_of_ne h, List.append_nil, List.singleton_append]
    | gap =>
      cases joined with
      | true =>
        obtain ⟨more, others, h⟩ := ih false
        exact ⟨more, others, h⟩
      | false =>
        refine ⟨[], chains false [] xs, ?_⟩
        intro chain h
        rw [chains, closed_of_ne h, List.append_nil, List.singleton_append]
    | joint =>
      obtain ⟨more, others, h⟩ := ih true
      refine ⟨more, others, ?_⟩
      intro chain hne
      rw [chains_joint, h chain hne]

theorem chains_nil (joined : Bool) (xs : List (Item α)) : chains joined [] xs = chains false [] xs := by
  cases xs with
  | nil => simp
  | cons x xs => cases x <;> cases joined <;> simp [chains, closed]

theorem map_chains (f : α → β) (joined : Bool) (chain : List α) (xs : List (Item α)) :
    chains joined (chain.map f) (xs.map (Item.map f)) = (chains joined chain xs).map (List.map f) := by
  have hclosed : ∀ chain : List α, closed (chain.map f) = (closed chain).map (List.map f) := by
    intro chain
    cases chain <;> rfl
  induction xs generalizing joined chain with
  | nil => simp [hclosed]
  | cons x xs ih =>
    cases x with
    | item a =>
      cases joined with
      | true => simpa [chains, Item.map] using ih false (chain ++ [a])
      | false => simpa [chains, Item.map, hclosed] using ih false [a]
    | gap =>
      cases joined with
      | true => simpa [chains, Item.map] using ih false chain
      | false => simpa [chains, Item.map, hclosed] using ih false []
    | joint => simpa [Item.map] using ih true chain

-- Forgetting the gaps

/-- The gaps are dropped, and the items for which `isJoint` holds become joints. -/
@[grind] def reread (isJoint : α → Bool) : List (Item α) → List (Item α)
  | [] => []
  | .item a :: rest => (if isJoint a then .joint else .item a) :: reread isJoint rest
  | .gap :: rest => reread isJoint rest
  | .joint :: rest => .joint :: reread isJoint rest

theorem reread_append (isJoint : α → Bool) (xs ys : List (Item α)) :
    reread isJoint (xs ++ ys) = reread isJoint xs ++ reread isJoint ys := by
  induction xs with
  | nil => rfl
  | cons x xs ih => cases x <;> simp [reread, ih]

theorem values_reread (isJoint : α → Bool) (xs : List (Item α)) :
    values (reread isJoint xs) = (values xs).filter fun a => !isJoint a := by
  induction xs with
  | nil => rfl
  | cons x xs ih =>
    cases x with
    | item a => by_cases h : isJoint a <;> simp [reread, h, ih]
    | gap | joint => simpa [reread] using ih

inductive Standing
  /-- No item yet. -/
  | start
  /-- Right behind the item, or behind a joint and a gap on it that a further joint joins. -/
  | live
  /-- A joint on the item waits for what it joins. -/
  | joined
  /-- The joint has met a gap. -/
  | filled
  /-- A gap ends the chain of the item, which has no joint behind it. -/
  | apart
  /-- The chain has ended, and a joint stands between the item and here. -/
  | crossed
  deriving DecidableEq

@[grind] def Standing.gap : Standing → Standing
  | .start => .start
  | .live => .apart
  | .joined => .filled
  | .filled => .crossed
  | .apart => .apart
  | .crossed => .crossed

@[grind] def Standing.joint : Standing → Standing
  | .start => .start
  | .live => .joined
  | .joined => .joined
  | .filled => .joined
  | .apart => .crossed
  | .crossed => .crossed

/-- No joint stands between two items that it does not join. -/
@[grind] def Tidy : Standing → List (Item α) → Prop
  | _, [] => True
  | s, .item _ :: rest => s ≠ .filled ∧ s ≠ .crossed ∧ Tidy .live rest
  | s, .gap :: rest => Tidy s.gap rest
  | s, .joint :: rest => Tidy s.joint rest

instance Tidy.decidable : (s : Standing) → (xs : List (Item α)) → Decidable (Tidy s xs)
  | _, [] => .isTrue trivial
  | _, .item _ :: rest =>
    have := Tidy.decidable .live rest
    inferInstanceAs (Decidable (_ ∧ _ ∧ _))
  | s, .gap :: rest => Tidy.decidable s.gap rest
  | s, .joint :: rest => Tidy.decidable s.joint rest

theorem tidy_map (f : α → β) (s : Standing) (xs : List (Item α)) :
    Tidy s (xs.map (Item.map f)) ↔ Tidy s xs := by
  induction xs generalizing s with
  | nil => exact Iff.rfl
  | cons x xs ih => cases x <;> simp [Item.map, Tidy, ih]

/-- The chains of `ys` against those of `xs`, behind an item of the chain `chain`. -/
@[grind] def SameFrom (chain : List α) (xs ys : List (Item α)) : Standing → Prop
  | .start => chains false [] ys = chains false [] xs
  | .live => chains false chain ys = chains false chain xs
  | .joined => chains true chain ys = chains true chain xs
  | .filled => chains true chain ys = chains false chain xs
  | .apart => chains false chain ys = chain :: chains false [] xs
  | .crossed => chains true chain ys = chain :: chains false [] xs

theorem sameFrom_iff (chain : List α)
    (hno : ∀ a ∈ values xs, isJoint a = false) (s : Standing) (hne : s = .start ∨ chain ≠ []) :
    SameFrom chain xs (reread isJoint xs) s ↔ Tidy s xs := by
  induction xs generalizing chain s with
  | nil =>
    cases s with
    | start | live | joined | filled => simp [SameFrom, reread, Tidy]
    | apart | crossed => simpa [SameFrom, reread, Tidy] using hne
  | cons x xs ih =>
    cases x with
    | item a =>
      obtain ⟨ha, hrest⟩ := List.forall_mem_cons.mp hno
      have hlive := ih _ hrest .live (.inr (List.cons_ne_nil a []))
      have hlong := ih _ hrest .live (.inr (show chain ++ [a] ≠ [] by simp))
      -- a chain that goes on is longer than one that ends
      have hother : ∀ others, chains false (chain ++ [a]) (reread isJoint xs) ≠ chain :: others := by
        intro others heq
        obtain ⟨more, rest, hmore⟩ := chains_extend false (reread isJoint xs)
        rw [hmore _ (by simp)] at heq
        have hlen := congrArg List.length (List.cons.inj heq).1
        simp at hlen
      have hread : reread isJoint (.item a :: xs) = .item a :: reread isJoint xs := by
        simp [reread, ha]
      rw [hread]
      cases s with
      | start | live => simpa [SameFrom, chains, Tidy] using hlive
      | joined => simpa [SameFrom, chains, Tidy] using hlong
      | filled =>
        have hchain : chain ≠ [] := by simpa using hne
        simp [SameFrom, chains, closed_of_ne hchain, Tidy, hother]
      | apart =>
        have hchain : chain ≠ [] := by simpa using hne
        simpa [SameFrom, chains, closed_of_ne hchain, Tidy] using hlive
      | crossed => simp [SameFrom, chains, Tidy, hother]
    | gap =>
      refine Iff.trans ?_ (ih _ hno s.gap (hne.imp (fun h => congrArg Standing.gap h) id))
      cases s with
      | start | joined | apart | crossed => simp [SameFrom, reread, chains, Standing.gap]
      | live | filled =>
        have hchain : chain ≠ [] := by simpa using hne
        simp [SameFrom, reread, chains, closed_of_ne hchain, Standing.gap]
    | joint =>
      refine Iff.trans ?_ (ih _ hno s.joint (hne.imp (fun h => congrArg Standing.joint h) id))
      cases s <;> simp [SameFrom, reread, chains_nil true, Standing.joint]

theorem chains_reread_iff (isJoint : α → Bool) (xs : List (Item α)) :
    chains false [] (reread isJoint xs) = chains false [] xs ↔
      (∀ a ∈ values xs, isJoint a = false) ∧ Tidy .start xs := by
  constructor
  · intro heq
    have hno : ∀ a ∈ values xs, isJoint a = false := by
      intro a ha
      have hflat := congrArg List.flatten heq
      simp only [flatten_chains, List.nil_append, values_reread] at hflat
      rw [← hflat] at ha
      simpa using (List.mem_filter.mp ha).2
    exact ⟨hno, (sameFrom_iff [] hno .start (.inl rfl)).mp heq⟩
  · rintro ⟨hno, htidy⟩
    exact (sameFrom_iff [] hno .start (.inl rfl)).mpr htidy

end Joints
