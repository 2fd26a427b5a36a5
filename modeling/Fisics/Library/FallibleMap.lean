import Mathlib.Data.List.Forall2

/-!
# Maps that may fail

`mapM` over a list with a function that may give no value: there is a result exactly when
each entry has one, and then the results stand in the order of the entries.
-/

namespace FallibleMap

variable {α β : Type}

/-- Two orders of one list are mapped to two orders of one list, or both fail. -/
theorem mapM_perm_cases (f : α → Option β) {l l' : List α} (h : l.Perm l') :
    (∃ bs bs', l.mapM f = some bs ∧ l'.mapM f = some bs' ∧ bs.Perm bs') ∨
      (l.mapM f = none ∧ l'.mapM f = none) := by
  induction h with
  | nil => exact .inl ⟨[], [], rfl, rfl, .nil⟩
  | cons a _ ih =>
    cases ha : f a with
    | none => exact .inr ⟨by simp [ha], by simp [ha]⟩
    | some b =>
      rcases ih with ⟨bs, bs', hbs, hbs', hperm⟩ | ⟨hnone, hnone'⟩
      · exact .inl ⟨b :: bs, b :: bs', by simp [ha, hbs], by simp [ha, hbs'], hperm.cons b⟩
      · exact .inr ⟨by simp [ha, hnone], by simp [ha, hnone']⟩
  | swap a a' l =>
    cases ha : f a with
    | none =>
      refine .inr ⟨?_, by simp [ha]⟩
      cases ha' : f a' <;> simp [ha, ha']
    | some b => ?_
    cases ha' : f a' with
    | none => exact .inr ⟨by simp [ha'], by simp [ha, ha']⟩
    | some b' => ?_
    cases hl : l.mapM f with
    | none => exact .inr ⟨by simp [ha, ha', hl], by simp [ha, ha', hl]⟩
    | some bs =>
      exact .inl ⟨b' :: b :: bs, b :: b' :: bs, by simp [ha, ha', hl], by simp [ha, ha', hl],
        .swap b b' bs⟩
  | trans _ _ ih ih' =>
    rcases ih with ⟨bs, bs', hbs, hbs', hperm⟩ | ⟨hnone, hnone'⟩
    · rcases ih' with ⟨cs, cs', hcs, hcs', hperm'⟩ | ⟨hnone', _⟩
      · obtain rfl := Option.some.inj (hbs'.symm.trans hcs)
        exact .inl ⟨bs, cs', hbs, hcs', hperm.trans hperm'⟩
      · cases hbs'.symm.trans hnone'
    · rcases ih' with ⟨cs, cs', hcs, hcs', hperm'⟩ | ⟨_, hnone''⟩
      · cases hnone'.symm.trans hcs
      · exact .inr ⟨hnone, hnone''⟩

theorem mapM_congr_mem {f g : α → Option β} {l : List α} (h : ∀ a ∈ l, f a = g a) :
    l.mapM f = l.mapM g := by
  induction l with
  | nil => rfl
  | cons a l ih =>
    rw [List.mapM_cons, List.mapM_cons, h a List.mem_cons_self,
      ih fun a ha => h a (List.mem_cons_of_mem _ ha)]

theorem mapM_forall₂ (h : l.mapM f = some bs) :
    List.Forall₂ (fun a b => f a = some b) l bs := by
  induction l generalizing bs with
  | nil =>
    cases h
    exact .nil
  | cons a l ih =>
    rw [List.mapM_cons] at h
    obtain ⟨b, hb, h⟩ := Option.bind_eq_some_iff.mp h
    obtain ⟨bs', hbs, h⟩ := Option.bind_eq_some_iff.mp h
    cases h
    exact .cons hb (ih hbs)

theorem exists_of_mem_left (h : List.Forall₂ R l l')
    (ha : a ∈ l) : ∃ b ∈ l', R a b := by
  induction h with
  | nil => cases ha
  | cons hab _ ih =>
    rcases List.mem_cons.mp ha with rfl | ha
    · exact ⟨_, List.mem_cons_self, hab⟩
    · obtain ⟨b, hb, hab⟩ := ih ha
      exact ⟨b, List.mem_cons_of_mem _ hb, hab⟩

theorem mapM_isSome {l : List α} (h : ∀ a ∈ l, ∃ b, f a = some b) :
    ∃ bs, l.mapM f = some bs := by
  induction l with
  | nil => exact ⟨[], rfl⟩
  | cons a l ih =>
    obtain ⟨b, hb⟩ := h a List.mem_cons_self
    obtain ⟨bs, hbs⟩ := ih fun a ha => h a (List.mem_cons_of_mem _ ha)
    exact ⟨b :: bs, by simp [hb, hbs]⟩

-- Success

section
variable {ε : Type}

@[simp] theorem toOption_bind (x : Except ε α) (f : α → Except ε β) :
    (x >>= f).toOption = x.toOption.bind fun a => (f a).toOption := by
  cases x <;> rfl

@[simp] theorem toOption_pure (a : α) : (pure a : Except ε α).toOption = some a := rfl

theorem toOption_eq_some {x : Except ε α} : x.toOption = some a ↔ x = .ok a := by
  cases x <;> simp [Except.toOption]

theorem toOption_mapM (f : α → Except ε β) (l : List α) :
    (l.mapM f).toOption = l.mapM fun a => (f a).toOption := by
  induction l with
  | nil => rfl
  | cons a l ih =>
    simp only [List.mapM_cons, toOption_bind, toOption_pure, ih]
    rfl

theorem ok_of_perm {f : α → Except ε β} {l l' : List α} (h : l.Perm l') (hl : l.mapM f = .ok bs) :
    ∃ bs', l'.mapM f = .ok bs' ∧ bs.Perm bs' := by
  rw [← toOption_eq_some, toOption_mapM] at hl
  rcases mapM_perm_cases (fun a => (f a).toOption) h with ⟨cs, cs', hcs, hcs', hperm⟩ | ⟨hnone, -⟩
  · cases hl.symm.trans hcs
    exact ⟨cs', by rw [← toOption_eq_some, toOption_mapM, hcs'], hperm⟩
  · cases hl.symm.trans hnone

end

end FallibleMap
