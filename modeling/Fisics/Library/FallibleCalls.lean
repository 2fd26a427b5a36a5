import Fisics.Library.MemoCall

/-!
# Programs whose calls may fail

A program ends without a value when a call fails. Run in a state, a call may also not
return: then there is no outcome at all. The rules carry a property of single calls
over to programs: what happens to the state, that there is an outcome, and that the
outcome is the one under answers that are given in advance, where these grow with a
depth and with the state.
-/

namespace MemoCall.Calls

def andThen (p : Calls α β (Option γ)) (f : γ → Calls α β (Option δ)) : Calls α β (Option δ) :=
  p.bind fun c => c.elim (.ret none) f

def result (f : α → Option β) (p : Calls α β (Option γ)) : Option γ := (p.run f).join

/-- A call that fails ends the program, one without an outcome does not return. -/
def attempt (g : α → σ → Option (Option β × σ)) : Calls α β (Option γ) → σ → Option (Option γ × σ)
  | .ret c, s => some (c, s)
  | .call a k, s =>
    match g a s with
    | none => none
    | some (none, s) => some (none, s)
    | some (some b, s) => (k b).attempt g s

-- Values

@[simp] theorem result_ret (f : α → Option β) (c : Option γ) :
    (Calls.ret c : Calls α β (Option γ)).result f = c := rfl

@[simp] theorem result_call (f : α → Option β) (a : α) (k : β → Calls α β (Option γ)) :
    (Calls.call a k).result f = (f a).bind fun b => (k b).result f := by
  cases h : f a <;> simp [result, run, h]

@[simp] theorem result_andThen (f : α → Option β) (p : Calls α β (Option γ))
    (k : γ → Calls α β (Option δ)) : (p.andThen k).result f = (p.result f).bind fun c => (k c).result f := by
  induction p with
  | ret c => cases c <;> rfl
  | call a next ih =>
    have hcall : (Calls.call a next).andThen k = .call a fun b => (next b).andThen k := rfl
    rw [hcall, result_call, result_call]
    cases f a with
    | none => rfl
    | some b => exact ih b

@[simp] theorem ret_andThen (c : γ) (k : γ → Calls α β (Option δ)) :
    (Calls.ret (some c) : Calls α β (Option γ)).andThen k = k c := rfl

theorem result_mono {f g : α → Option β} (h : ∀ a b, f a = some b → g a = some b)
    (p : Calls α β (Option γ)) (hrun : p.result f = some c) : p.result g = some c := by
  rw [result, run_mono h p (Option.join_eq_some_iff.mp hrun)]
  rfl

theorem asks_andThen {p : Calls α β (Option γ)}
    (h : (p.andThen f).Asks a) : p.Asks a ∨ ∃ c, (f c).Asks a := by
  induction p with
  | ret c =>
    cases c with
    | none => cases h
    | some c => exact .inr ⟨c, h⟩
  | call a' next ih =>
    cases h with
    | here => exact .inl .here
    | later hnext =>
      rcases ih _ hnext with hask | hask
      · exact .inl (.later hask)
      · exact .inr hask

inductive Needs (answer : α → β → Prop) : Calls α β (Option γ) → α → Prop
  | here : Needs answer (.call a k) a
  | later : answer a b → Needs answer (k b) a' → Needs answer (.call a k) a'

/-- The program ends without a value although its calls have answers. -/
inductive Refuses (answer : α → β → Prop) : Calls α β (Option γ) → Prop
  | ret : Refuses answer (.ret none)
  | call : answer a b → Refuses answer (k b) → Refuses answer (.call a k)

theorem Needs.asks (h : Needs answer p a) : p.Asks a := by
  induction h with
  | here => exact .here
  | later _ _ ih => exact .later ih

-- Runs

section
variable {σ : Type} {g : α → σ → Option (Option β × σ)}

theorem attempt_andThen (p : Calls α β (Option γ)) (k : γ → Calls α β (Option δ)) :
    (p.andThen k).attempt g s = some (r, t) ↔
      (p.attempt g s = some (none, t) ∧ r = none) ∨
        ∃ c u, p.attempt g s = some (some c, u) ∧ (k c).attempt g u = some (r, t) := by
  induction p generalizing s with
  | ret c =>
    cases c with
    | none =>
      have hnone : (Calls.ret none : Calls α β (Option γ)).andThen k = .ret none := rfl
      simp [hnone, attempt, and_comm, eq_comm]
    | some c => ?_
    constructor
    · exact fun h => .inr ⟨c, s, rfl, h⟩
    · rintro (⟨h, -⟩ | ⟨c', u, h, hrest⟩)
      · cases h
      · obtain ⟨hsame, rfl⟩ := Prod.mk.inj (Option.some.inj h)
        cases hsame
        exact hrest
  | call a next ih =>
    have hcall : (Calls.call a next).andThen k = .call a fun b => (next b).andThen k := rfl
    rw [hcall, attempt, attempt]
    cases g a s with
    | none => simp
    | some outcome => ?_
    obtain ⟨b, u⟩ := outcome
    cases b with
    | none => simp [and_comm, eq_comm]
    | some b => exact ih b

theorem attempt_ends {ok : σ → Prop} (p : Calls α β (Option γ))
    (hcall : ∀ a, p.Asks a → ∀ s, ok s → ∃ r t, g a s = some (r, t) ∧ ok t) (hs : ok s) :
    ∃ r t, p.attempt g s = some (r, t) ∧ ok t := by
  induction p generalizing s with
  | ret c => exact ⟨c, s, rfl, hs⟩
  | call a k ih =>
    obtain ⟨r, t, hr, ht⟩ := hcall a .here s hs
    cases r with
    | none => exact ⟨none, t, by rw [attempt, hr], ht⟩
    | some b =>
      obtain ⟨r, u, hrest, hu⟩ := ih b (fun a' ha' => hcall a' (.later ha')) ht
      exact ⟨r, u, by rw [attempt, hr]; exact hrest, hu⟩

/-- A run keeps its outcome where single calls keep theirs. -/
theorem attempt_mono
    (h : ∀ a s r, g a s = some r → g' a s = some r) (p : Calls α β (Option γ))
    (hrun : p.attempt g s = some r) : p.attempt g' s = some r := by
  induction p generalizing s with
  | ret c => exact hrun
  | call a k ih =>
    rw [attempt] at hrun ⊢
    split at hrun
    · cases hrun
    · rename_i t hfail
      rw [h _ _ _ hfail]
      exact hrun
    · rename_i b t hvalue
      rw [h _ _ _ hvalue]
      exact ih b hrun

/-- Answers at a depth in a state; `blame` is what explains a failure where there is an answer. -/
structure Answers (α β σ : Type) where
  ok : σ → Prop
  later : σ → σ → Prop
  answer : σ → Nat → α → Option β
  blame : σ → Nat → Prop
  later_refl : ∀ s, later s s
  later_trans : ∀ s t u, later s t → later t u → later s u
  deeper : ∀ s n a b, answer s n a = some b → answer s (n + 1) a = some b
  grows : ∀ s t n a b, later s t → answer s n a = some b → answer t n a = some b

structure Answers.Outcome (A : Answers α β σ) (s t : σ) (value : Nat → Option γ) (r : Option γ) :
    Prop where
  ok : A.ok t
  later : A.later s t
  sound : r = some c → ∃ n, value n = some c
  blamed : r = none → ∀ n, (value n).isSome = true → A.blame t n

variable {A : Answers α β σ}

theorem Answers.deeper_le (A : Answers α β σ) (hn : n ≤ m) (h : A.answer s n a = some b) :
    A.answer s m a = some b := by
  induction hn with
  | refl => exact h
  | step _ ih => exact A.deeper _ _ _ _ ih

theorem Answers.unique (A : Answers α β σ) (h : A.answer s n a = some b)
    (h' : A.answer s m a = some b') : b = b' := by
  have hmax := A.deeper_le (Nat.le_max_left n m) h
  rw [A.deeper_le (Nat.le_max_right n m) h'] at hmax
  exact (Option.some.inj hmax).symm

def Answers.Given (A : Answers α β σ) (s : σ) (a : α) (b : β) : Prop := ∃ n, A.answer s n a = some b

/-- With a value at a depth, what a program needs has an answer at that depth. -/
theorem needs_of_result (h : p.result (A.answer s n) = some c)
    (hneeds : Needs (A.Given s) p a) : ∃ b, A.answer s n a = some b := by
  induction hneeds with
  | here =>
    rw [result_call] at h
    obtain ⟨b, hb, -⟩ := Option.bind_eq_some_iff.mp h
    exact ⟨b, hb⟩
  | later hgiven _ ih =>
    rw [result_call] at h
    obtain ⟨b', hb', hrest⟩ := Option.bind_eq_some_iff.mp h
    obtain ⟨m, hm⟩ := hgiven
    rw [A.unique hb' hm] at hrest
    exact ih hrest

theorem not_refuses_of_result (h : p.result (A.answer s n) = some c) :
    ¬ Refuses (A.Given s) p := by
  intro hrefuses
  induction hrefuses with
  | ret => cases h
  | call hgiven _ ih =>
    rw [result_call] at h
    obtain ⟨b', hb', hrest⟩ := Option.bind_eq_some_iff.mp h
    obtain ⟨m, hm⟩ := hgiven
    rw [A.unique hb' hm] at hrest
    exact ih hrest

theorem refuses_or_needs (p : Calls α β (Option γ)) (h : ∀ n, p.result (A.answer s n) = none) :
    Refuses (A.Given s) p ∨ ∃ a, Needs (A.Given s) p a ∧ ∀ n, A.answer s n a = none := by
  induction p with
  | ret c =>
    obtain rfl : c = none := h 0
    exact .inl .ret
  | call a k ih =>
    by_cases hgiven : ∃ b, A.Given s a b
    · obtain ⟨b, m, hm⟩ := hgiven
      have hrest : ∀ n, (k b).result (A.answer s n) = none := by
        intro n
        cases hc : (k b).result (A.answer s n) with
        | none => rfl
        | some c => ?_
        have hmax := h (max m n)
        rw [result_call, A.deeper_le (Nat.le_max_left m n) hm, Option.bind_some,
          result_mono (fun _ _ => A.deeper_le (Nat.le_max_right m n)) _ hc] at hmax
        cases hmax
      rcases ih b hrest with hrefuses | ⟨a', hneeds, hnone⟩
      · exact .inl (.call ⟨m, hm⟩ hrefuses)
      · exact .inr ⟨a', .later ⟨m, hm⟩ hneeds, hnone⟩
    · refine .inr ⟨a, .here, fun n => ?_⟩
      cases hanswer : A.answer s n a with
      | none => rfl
      | some b => exact absurd ⟨b, n, hanswer⟩ hgiven

theorem attempt_outcome
    (hcall : ∀ a s r t, A.ok s → g a s = some (r, t) → A.Outcome s t (fun n => A.answer t n a) r)
    (p : Calls α β (Option γ)) (hs : A.ok s) (hrun : p.attempt g s = some (r, t)) :
    A.Outcome s t (fun n => p.result (A.answer t n)) r := by
  induction p generalizing s with
  | ret c =>
    obtain ⟨rfl, rfl⟩ := Prod.mk.inj (Option.some.inj hrun)
    refine ⟨hs, A.later_refl _, fun h => ⟨0, h⟩, ?_⟩
    rintro rfl n hsome
    cases hsome
  | call a k ih =>
    rw [attempt] at hrun
    split at hrun
    · cases hrun
    · rename_i t' hfail
      obtain ⟨rfl, rfl⟩ := Prod.mk.inj (Option.some.inj hrun)
      have hout := hcall a _ _ _ hs hfail
      refine ⟨hout.ok, hout.later, nofun, fun _ n hsome => hout.blamed rfl n ?_⟩
      cases hanswer : A.answer t' n a with
      | none => simp [hanswer] at hsome
      | some b => rfl
    · rename_i b t' hvalue
      have hfirst := hcall a _ _ _ hs hvalue
      have hrest := ih b hfirst.ok hrun
      obtain ⟨m, hm⟩ := hfirst.sound rfl
      have hm' := A.grows _ _ _ _ _ hrest.later hm
      refine ⟨hrest.ok, A.later_trans _ _ _ hfirst.later hrest.later, ?_, ?_⟩
      · intro c hc
        obtain ⟨n, hn⟩ := hrest.sound hc
        refine ⟨max m n, ?_⟩
        rw [result_call, A.deeper_le (Nat.le_max_left m n) hm']
        exact result_mono (fun a b => A.deeper_le (Nat.le_max_right m n)) _ hn
      · intro hnone n hsome
        rw [result_call] at hsome
        cases hanswer : A.answer t n a with
        | none => simp [hanswer] at hsome
        | some b' =>
          rw [hanswer, Option.bind_some, A.unique hanswer hm'] at hsome
          exact hrest.blamed hnone n hsome

end

end MemoCall.Calls
