/-!
# A memo table in front of a recursive function

The body of a function is a program that may call the function on other
arguments; what it calls for depends on an environment. `plain` runs it as it is,
`memo` looks the key of an argument up first and stores what it computed. The keys
need not tell all arguments apart, and the environment may change from one call to
the next: `Transparent` says when the table does not show.
-/

namespace MemoCall

/-- A program that calls a function from `α` to `β`. -/
inductive Calls (α β γ : Type) where
  | ret (c : γ)
  | call (a : α) (k : β → Calls α β γ)

namespace Calls

def bind : Calls α β γ → (γ → Calls α β δ) → Calls α β δ
  | .ret c, f => f c
  | .call a k, f => .call a fun b => (k b).bind f

instance : Monad (Calls α β) where
  pure := .ret
  bind := Calls.bind

def run (f : α → Option β) : Calls α β γ → Option γ
  | .ret c => some c
  | .call a k => (f a).bind fun b => (k b).run f

def runState (f : α → σ → Option (β × σ)) : Calls α β γ → σ → Option (γ × σ)
  | .ret c, s => some (c, s)
  | .call a k, s => (f a s).bind fun (b, s) => (k b).runState f s

inductive Asks : Calls α β γ → α → Prop
  | here : Asks (.call a k) a
  | later : Asks (k b) a' → Asks (.call a k) a'

theorem run_mono {f g : α → Option β} (h : ∀ a b, f a = some b → g a = some b)
    (p : Calls α β γ) (hrun : p.run f = some c) : p.run g = some c := by
  induction p with
  | ret c => exact hrun
  | call a k ih =>
    obtain ⟨b, hb, hk⟩ := Option.bind_eq_some_iff.mp hrun
    rw [run, h a b hb]
    exact ih b hk

theorem run_congr (p : Calls α β γ) (h : ∀ a, p.Asks a → f a = g a) :
    p.run f = p.run g := by
  induction p with
  | ret c => rfl
  | call a k ih =>
    rw [run, run, h a .here]
    congr 1
    funext b
    exact ih b fun a' ha' => h a' (.later ha')

theorem runState_of_run {Ok : σ → Prop} (p : Calls α β γ)
    (h : ∀ a, p.Asks a → ∀ b s, f a = some b → Ok s → ∃ s', g a s = some (b, s') ∧ Ok s')
    (hrun : p.run f = some c) (hs : Ok s) : ∃ s', p.runState g s = some (c, s') ∧ Ok s' := by
  induction p generalizing s with
  | ret c' =>
    cases hrun
    exact ⟨s, rfl, hs⟩
  | call a k ih =>
    obtain ⟨b, hb, hk⟩ := Option.bind_eq_some_iff.mp hrun
    obtain ⟨s₁, hcall, hs₁⟩ := h a .here b s hb hs
    obtain ⟨s₂, hrest, hs₂⟩ := ih b (fun a' ha' => h a' (.later ha')) hk hs₁
    refine ⟨s₂, ?_, hs₂⟩
    rw [runState, hcall]
    exact hrest

end Calls

structure Memoized (ε α β κ : Type) where
  body : ε → α → Calls α β β
  key : α → κ
  cacheable : ε → α → Bool

section
variable {ε α β κ : Type} [DecidableEq κ] (f : Memoized ε α β κ)

def Memoized.plain (env : ε) : Nat → α → Option β
  | 0, _ => none
  | n + 1, a => (f.body env a).run (plain env n)

/-- A key that is there already keeps its value. -/
def store (table : List (κ × β)) (key : κ) (value : β) : List (κ × β) :=
  if (table.lookup key).isSome then table else table ++ [(key, value)]

def Memoized.memo (env : ε) : Nat → α → List (κ × β) → Option (β × List (κ × β))
  | 0, _, _ => none
  | n + 1, a, table =>
    if f.cacheable env a then
      match table.lookup (f.key a) with
      | some value => some (value, table)
      | none =>
        ((f.body env a).runState (memo env n) table).map fun (value, table) =>
          (value, store table (f.key a) value)
    else (f.body env a).runState (memo env n) table

def Memoized.memoRun (n : Nat) : List (ε × α) → List (κ × β) → List (Option β)
  | [], _ => []
  | (env, a) :: calls, table =>
    match f.memo env n a table with
    | some (value, table) => some value :: memoRun n calls table
    | none => none :: memoRun n calls table

/-- What a run calls for, and in which environment. -/
inductive Called (run : List (ε × α)) : ε → α → Prop
  | call : (env, a) ∈ run → Called run env a
  | asked : Called run env a → (f.body env a).Asks a' → Called run env a'

/-- What may be stored in one environment and found in another, and what its value is
computed from. -/
inductive Shared (run : List (ε × α)) (env env' : ε) : α → Prop
  | stored : Called f run env a → Called f run env' a → f.cacheable env a = true →
      f.cacheable env' a = true → Shared run env env' a
  | asked : Shared run env env' a → (f.body env a).Asks a' → Shared run env env' a'

/-- What is shared does not depend on the environment, and the keys of arguments that
may be stored tell them apart. -/
structure Transparent (run : List (ε × α)) : Prop where
  body : ∀ env env' a, Shared f run env env' a → f.body env a = f.body env' a
  key : ∀ env env' a a', Called f run env a → Called f run env' a' →
    f.cacheable env a = true → f.cacheable env' a' = true → f.key a = f.key a' → a = a'

end

section
variable {ε α β κ : Type} {f : Memoized ε α β κ} {run : List (ε × α)}

theorem plain_succ {env : ε} (h : f.plain env n a = some b) :
    f.plain env (n + 1) a = some b := by
  induction n generalizing a b with
  | zero => cases h
  | succ n ih => exact Calls.run_mono (fun a b => ih) (f.body env a) h

theorem plain_mono (hn : n ≤ n') (h : f.plain env n a = some b) :
    f.plain env n' a = some b := by
  induction hn with
  | refl => exact h
  | step hn ih => exact plain_succ ih

theorem plain_unique (h : f.plain env n a = some b)
    (h' : f.plain env n' a = some b') : b = b' := by
  have hmax := plain_mono (Nat.le_max_left n n') h
  rw [plain_mono (Nat.le_max_right n n') h'] at hmax
  exact (Option.some.inj hmax).symm

theorem plain_shared (h : Transparent f run) (n : Nat) (ha : Shared f run env env' a) :
    f.plain env n a = f.plain env' n a := by
  induction n generalizing a with
  | zero => rfl
  | succ n ih =>
    rw [Memoized.plain, Memoized.plain, ← h.body env env' a ha]
    refine Calls.run_congr _ ?_
    intro a' hasks
    exact ih (ha.asked hasks)

variable [DecidableEq κ]

theorem memo_hit (hcacheable : f.cacheable env a = true) (hkey : f.key a = key)
    (n : Nat) (value : β) (table : List (κ × β)) :
    f.memo env (n + 1) a ((key, value) :: table) = some (value, (key, value) :: table) := by
  rw [Memoized.memo, if_pos hcacheable, hkey, List.lookup_cons_self]

def Sound (f : Memoized ε α β κ) (run : List (ε × α)) (table : List (κ × β)) : Prop :=
  ∀ key value, table.lookup key = some value → ∃ env a n, Called f run env a ∧
    f.cacheable env a = true ∧ f.key a = key ∧ f.plain env n a = some value

theorem sound_nil : Sound f run [] := nofun

theorem Sound.store (h : Sound f run table) (ha : Called f run env a)
    (hcacheable : f.cacheable env a = true) (hv : f.plain env n a = some value) :
    Sound f run (store table (f.key a) value) := by
  intro key v hv'
  unfold MemoCall.store at hv'
  split at hv'
  · exact h key v hv'
  rw [List.lookup_append] at hv'
  cases hold : table.lookup key with
  | some old =>
    rw [hold] at hv'
    obtain rfl := Option.some.inj hv'
    exact h key old hold
  | none =>
    rw [hold, Option.none_or, List.lookup_cons] at hv'
    split at hv'
    · rename_i hkey
      cases hv'
      exact ⟨env, a, n, ha, hcacheable, (eq_of_beq hkey).symm, hv⟩
    · cases hv'

theorem memo_of_plain (h : Transparent f run) (ha : Called f run env a)
    (htable : Sound f run table) (hplain : f.plain env n a = some b) :
    ∃ table', f.memo env n a table = some (b, table') ∧ Sound f run table' := by
  induction n generalizing a b table with
  | zero => cases hplain
  | succ n ih =>
    obtain ⟨table₁, hrun, hsound⟩ := Calls.runState_of_run (g := f.memo env n)
      (f.body env a) (fun a' hasks b' table' hb' htable' => ih (ha.asked hasks) htable' hb') hplain htable
    rw [Memoized.memo]
    split
    · rename_i hcacheable
      split
      · -- the entry was stored for an argument with the same key, so for this one
        rename_i value hlookup
        obtain ⟨env', a', n', ha', hcacheable', hkey, hvalue⟩ := htable _ _ hlookup
        obtain rfl := h.key env' env a' a ha' ha hcacheable' hcacheable hkey
        rw [plain_shared h n' (.stored ha' ha hcacheable' hcacheable)] at hvalue
        obtain rfl := plain_unique hvalue hplain
        exact ⟨table, rfl, htable⟩
      · rw [hrun]
        exact ⟨_, rfl, hsound.store ha hcacheable hplain⟩
    · exact ⟨table₁, hrun, hsound⟩

theorem memoRun_of_plain (h : Transparent f run) (n : Nat) (calls : List (ε × α))
    (htable : Sound f run table)
    (hcalls : ∀ c ∈ calls, c ∈ run ∧ (f.plain c.1 n c.2).isSome) :
    f.memoRun n calls table = calls.map fun c => f.plain c.1 n c.2 := by
  induction calls generalizing table with
  | nil => rfl
  | cons c calls ih =>
    obtain ⟨env, a⟩ := c
    obtain ⟨hc, hplain⟩ := hcalls (env, a) List.mem_cons_self
    obtain ⟨b, hb⟩ := Option.isSome_iff_exists.mp hplain
    obtain ⟨table', hmemo, hsound⟩ := memo_of_plain h (.call hc) htable hb
    have hrest := ih hsound fun c hc => hcalls c (List.mem_cons_of_mem _ hc)
    rw [Memoized.memoRun, hmemo, List.map_cons, hb]
    exact congrArg _ hrest

end

end MemoCall
