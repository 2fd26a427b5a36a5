import Fisics.Runtime.Memcheck

/-!
# Runs of the memory-check runtime

The allocator of the host as a relation between the blocks it holds, a call, its
answer and the blocks it holds afterwards: it never hands out an address that is
live, and `realloc(p, 0)` may release `p` and answer `NULL`. `Run` interleaves the
entry points with it in any order. In every run in which no such `realloc` occurs the
table, the counters and the allocator agree (`tracker_sound`); one of them is enough
to leave a block in the table that is gone.
-/

namespace Fisics.Memcheck

open Function (update update_of_ne update_self)
open ProbeTable (firstStop seek seek_taken turn)

variable {slots : Slots} {slot : Slot}

-- The allocator

/-- The live blocks and their sizes. -/
abbrev Held := Ptr → Option Nat

/-- What the host may answer to a call, and what it holds then. There is no answer to
a call on a block that is not live. -/
inductive Answers (held : Held) : Call → Ptr → Held → Prop
  | mallocFails : Answers held (.malloc size) null held
  | malloc (hp : p ≠ null) (hnew : held p = none) :
      Answers held (.malloc size) p (Function.update held p (some size.toNat))
  | callocFails : Answers held (.calloc count size) null held
  | calloc (hp : p ≠ null) (hnew : held p = none) (hfits : count.toNat * size.toNat < 2 ^ 64) :
      Answers held (.calloc count size) p (Function.update held p (some (count.toNat * size.toNat)))
  | reallocNullFails : Answers held (.realloc null size) null held
  | reallocNull (hp : p ≠ null) (hnew : held p = none) :
      Answers held (.realloc null size) p (Function.update held p (some size.toNat))
  | reallocFails (hlive : held p = some old) : Answers held (.realloc p size) null held
  | reallocReleases (hlive : held p = some old) :
      Answers held (.realloc p 0) null (Function.update held p none)
  | realloc (hlive : held p = some old) (hq : q ≠ null) (hnew : q = p ∨ held q = none) :
      Answers held (.realloc p size) q (Function.update (Function.update held p none) q (some size.toNat))
  | free (hlive : held p = some old) :
      Answers held (.free p) null (Function.update held p none)

structure World where
  tracker : Tracker
  held : Held
  /-- The addresses handed out so far. -/
  seen : Finset Ptr

def World.start (t : Tracker) : World := ⟨t.reset, fun _ => none, ∅⟩

def seenAfter (seen : Finset Ptr) (answer : Ptr) : Finset Ptr :=
  if answer = null then seen else insert answer seen

inductive Step (w : World) (ev : Event) : World → Prop
  | alone (hhost : (perform ev w.tracker).host = none) :
      Step w ev ⟨(perform ev w.tracker).tracker, w.held, w.seen⟩
  | answered (hhost : (perform ev w.tracker).host = some call)
      (hanswer : Answers w.held call ev.answer held) :
      Step w ev ⟨(perform ev w.tracker).tracker, held, seenAfter w.seen ev.answer⟩

/-- Any sequence of calls whose steps are all allowed. -/
inductive Run (allowed : World → Event → World → Prop) : World → World → Prop
  | refl : Run allowed w w
  | step (run : Run allowed w w') (step : Step w' ev w'') (ok : allowed w' ev w'') :
      Run allowed w w''

/-- `realloc(p, 0)` on a live block that the host releases, answering `NULL`. -/
def ReleasesOnNull (w : World) (ev : Event) (w' : World) : Prop :=
  ∃ p, ev.call = .realloc p 0 ∧ ev.answer = null ∧ w.held p ≠ none ∧ w'.held p = none

-- Soundness

def activeSlots (slots : Slots) : Finset (Fin capacity) :=
  Finset.univ.filter fun k => (slots k).state = .active

structure Sound (w : World) : Prop where
  /-- An address occupies at most one slot. -/
  distinct : ∀ i j, (w.tracker.slots i).state ≠ .empty → (w.tracker.slots j).state ≠ .empty →
    (w.tracker.slots i).ptr = (w.tracker.slots j).ptr → i = j
  /-- `find_slot` finds every address that was handed out. -/
  found : ∀ p ∈ w.seen, ∃ k, findSlot w.tracker.slots p = some k ∧ (w.tracker.slots k).ptr = p
  count : w.tracker.activeCount.toNat = (activeSlots w.tracker.slots).card
  balance : w.tracker.activeCount = w.tracker.totalAllocs - w.tracker.totalFrees
  /-- The active slots are the blocks of the host. -/
  live : ∀ p n, w.held p = some n ↔ ∃ k, (w.tracker.slots k).state = .active ∧
    (w.tracker.slots k).ptr = p ∧ (w.tracker.slots k).size.toNat = n

/-- The address that `free` or `realloc` is given. -/
def Call.given? : Call → Option Ptr
  | .free p | .realloc p _ => if p = null then none else some p
  | _ => none

/-- The counter is one more exactly under the condition, and else the same. -/
def GrowsWhen (condition : Prop) (before after : BitVec 64) : Prop :=
  (condition → after = before + 1) ∧ (¬condition → after = before)

/-- One more call, whatever the host answers. -/
structure SoundCall (w : World) (ev : Event) : Prop where
  /-- `free` and `realloc` of the host are called on live blocks only. -/
  host : ∀ call p, (perform ev w.tracker).host = some call → call.given? = some p →
    w.held p ≠ none
  doubleFrees : GrowsWhen (∃ p, ev.call.given? = some p ∧ p ∈ w.seen ∧ w.held p = none)
    w.tracker.doubleFrees (perform ev w.tracker).tracker.doubleFrees
  unknownFrees : GrowsWhen (∃ p, ev.call.given? = some p ∧ p ∉ w.seen)
    w.tracker.unknownFrees (perform ev w.tracker).tracker.unknownFrees

-- The table by its addresses

def keyOf (slots : Slots) (k : Fin capacity) : Option Ptr :=
  if (slots k).state = .empty then none else some (slots k).ptr

theorem keyOf_eq_none : keyOf slots k = none ↔ (slots k).state = .empty := by
  simp [keyOf]

theorem keyOf_eq_some : keyOf slots k = some p ↔ (slots k).state ≠ .empty ∧ (slots k).ptr = p := by
  simp [keyOf]

theorem keyOf_update (slots : Slots) (k : Fin capacity) (h : slot.state ≠ .empty) :
    keyOf (update slots k slot) = update (keyOf slots) k (some slot.ptr) := by
  funext i
  by_cases hi : i = k
  · subst hi
    simp [keyOf, h]
  · simp [keyOf, hi]

/-- The loop stops where the search of the library does. -/
theorem findSlotFrom_eq (slots : Slots) (p : Ptr) (start left i : Nat) :
    findSlotFrom slots p start left i =
      (firstStop (fun k => keyOf slots k = none ∨ keyOf slots k = some p) start left
        i).filter fun k => keyOf slots k ≠ none := by
  induction left generalizing i with
  | zero => rfl
  | succ left ih =>
    unfold findSlotFrom firstStop
    by_cases hempty : (slots (turn capacity start i)).state = .empty
    · simp [keyOf, hempty, Option.filter_some]
    by_cases hp : (slots (turn capacity start i)).ptr = p
    · simp [keyOf, hempty, hp, Option.filter_some]
    · simpa [keyOf, hempty, hp] using ih (i + 1)

theorem findSlot_eq (slots : Slots) (hp : p ≠ null) :
    findSlot slots p = (seek startOf (keyOf slots) p).filter fun k => keyOf slots k ≠ none := by
  rw [findSlot, if_neg hp, findSlotFrom_eq]
  rfl

theorem findInsertSlotFrom_eq
    (h : firstStop (fun k => keyOf slots k = none ∨ keyOf slots k = some p) start left
      i = some k) (firstFreed : Option (Fin capacity)) :
    findInsertSlotFrom slots p start firstFreed left i = some k := by
  induction left generalizing i firstFreed with
  | zero => cases h
  | succ left ih =>
    unfold firstStop at h
    unfold findInsertSlotFrom
    by_cases hempty : (slots (turn capacity start i)).state = .empty
    · simp [keyOf, hempty] at h
      subst h
      simp [hempty]
    by_cases hptr : (slots (turn capacity start i)).ptr = p
    · simp [keyOf, hempty, hptr] at h
      subst h
      simp [hptr]
    · simp [keyOf, hempty, hptr] at h
      simpa [hptr, hempty] using ih (by simpa [keyOf] using h) _

theorem findInsertSlot_eq (hp : p ≠ null)
    (h : seek startOf (keyOf slots) p = some k) : findInsertSlot slots p = some k := by
  rw [findInsertSlot, if_neg hp]
  exact findInsertSlotFrom_eq h none

-- The invariant

/-- The table holds the addresses handed out, and its active slots the live blocks. -/
structure TableAgrees (slots : Slots) (held : Held) (seen : Finset Ptr) : Prop where
  chained : ProbeTable.Chained startOf (keyOf slots)
  stored : ∀ p, p ∈ seen ↔ ∃ k, keyOf slots k = some p
  live : ∀ p n, held p = some n ↔ ∃ k, (slots k).state = .active ∧ (slots k).ptr = p ∧
    (slots k).size.toNat = n

section
variable {slots : Slots}

theorem tableAgrees_reset : TableAgrees (fun _ => emptySlot) (fun _ => none) ∅ := by
  have hkey : keyOf (fun _ => emptySlot) = fun _ => none := by
    funext k
    simp [keyOf, emptySlot]
  refine ⟨?_, ?_, ?_⟩
  · exact ProbeTable.chained_empty startOf
  · simp [hkey]
  · simp [emptySlot]

section
variable (h : TableAgrees slots held seen)

include h

theorem TableAgrees.findSlot_of_key (hp : p ≠ null)
    (hk : keyOf slots k = some p) : findSlot slots p = some k := by
  rw [findSlot_eq _ hp, h.chained.seek_eq hk, Option.filter_some, if_pos (by simp [hk])]

theorem TableAgrees.findSlot_none (hp : p ≠ null)
    (hunseen : p ∉ seen) : findSlot slots p = none := by
  rw [findSlot_eq _ hp, Option.filter_eq_none_iff]
  intro k hk hkey
  obtain hfree | htaken := seek_taken hk
  · simp [hfree] at hkey
  · exact hunseen ((h.stored p).mpr ⟨k, htaken⟩)

theorem TableAgrees.exists_seek (hroom : (insert p seen).card ≤ capacity) :
    ∃ k, seek startOf (keyOf slots) p = some k := by
  by_cases hp : p ∈ seen
  · obtain ⟨k, hk⟩ := (h.stored p).mp hp
    exact ProbeTable.exists_seek (.inr hk)
  rw [Finset.card_insert_of_notMem hp] at hroom
  obtain ⟨k, hk⟩ := h.chained.exists_free seen (fun k x hx => (h.stored x).mpr ⟨k, hx⟩) hroom
  exact ProbeTable.exists_seek (.inl hk)

theorem TableAgrees.seek_inactive (hnew : held p = none)
    (hk : seek startOf (keyOf slots) p = some k) : (slots k).state ≠ .active := by
  intro hactive
  obtain hfree | htaken := seek_taken hk
  · rw [keyOf_eq_none, hactive] at hfree
    cases hfree
  · have hlive := (h.live p _).mpr ⟨k, hactive, (keyOf_eq_some.mp htaken).2, rfl⟩
    rw [hnew] at hlive
    cases hlive

theorem TableAgrees.put (hnew : held p = none)
    (hk : seek startOf (keyOf slots) p = some k)
    (hactive : slot.state = .active) (hptr : slot.ptr = p) :
    TableAgrees (update slots k slot) (update held p (some slot.size.toNat))
      (insert p seen) := by
  have hinactive := h.seek_inactive hnew hk
  have hkey := keyOf_update slots k (by simp [hactive] : slot.state ≠ .empty)
  rw [hptr] at hkey
  constructor
  · rw [hkey]
    exact h.chained.put hk
  · intro q
    rw [hkey, Finset.mem_insert, h.stored q]
    constructor
    · rintro (rfl | ⟨i, hi⟩)
      · exact ⟨k, by simp⟩
      · by_cases hik : i = k
        · subst hik
          refine ⟨i, ?_⟩
          obtain hfree | htaken := seek_taken hk
          · rw [hfree] at hi
            cases hi
          · rw [htaken] at hi
            simp [Option.some.inj hi]
        · exact ⟨i, by rwa [update_of_ne hik]⟩
    · rintro ⟨i, hi⟩
      by_cases hik : i = k
      · subst hik
        exact .inl (by simpa using hi.symm)
      · rw [update_of_ne hik] at hi
        exact .inr ⟨i, hi⟩
  · intro q n
    by_cases hq : q = p
    · subst hq
      simp only [update_self, Option.some.injEq]
      constructor
      · rintro rfl
        exact ⟨k, by simp [hactive, hptr]⟩
      · rintro ⟨i, hi, hiptr, hn⟩
        by_cases hik : i = k
        · subst hik
          simpa using hn
        rw [update_of_ne hik] at hi hiptr hn
        have hlive := (h.live q n).mpr ⟨i, hi, hiptr, hn⟩
        rw [hnew] at hlive
        cases hlive
    · rw [update_of_ne hq, h.live q n]
      constructor
      · rintro ⟨i, hi, hrest⟩
        have hik : i ≠ k := fun hik => hinactive (hik ▸ hi)
        refine ⟨i, ?_⟩
        rw [update_of_ne hik]
        exact ⟨hi, hrest⟩
      · rintro ⟨i, hi, hiptr, hn⟩
        have hik : i ≠ k := by
          rintro rfl
          rw [update_self] at hiptr
          exact hq (hiptr.symm.trans hptr)
        rw [update_of_ne hik] at hi hiptr hn
        exact ⟨i, hi, hiptr, hn⟩

theorem TableAgrees.release (hactive : (slots k).state = .active)
    (hfreed : slot.state = .freed) (hptr : slot.ptr = (slots k).ptr) :
    TableAgrees (update slots k slot) (update held (slots k).ptr none) seen := by
  have hself : keyOf slots k = some (slots k).ptr := keyOf_eq_some.mpr ⟨by simp [hactive], rfl⟩
  have hkey := keyOf_update slots k (by simp [hfreed] : slot.state ≠ .empty)
  rw [hptr, ← hself, Function.update_eq_self] at hkey
  constructor
  · rw [hkey]
    exact h.chained
  · rw [hkey]
    exact h.stored
  · intro q n
    by_cases hq : q = (slots k).ptr
    · subst hq
      simp only [update_self, reduceCtorEq, false_iff, not_exists]
      rintro i ⟨hi, hiptr, -⟩
      by_cases hik : i = k
      · subst hik
        simp [hfreed] at hi
      · rw [update_of_ne hik] at hi hiptr
        exact hik (h.chained.distinct (keyOf_eq_some.mpr ⟨by simp [hi], hiptr⟩) hself)
    · rw [update_of_ne hq, h.live q n]
      constructor
      · rintro ⟨i, hi, hiptr, hn⟩
        have hik : i ≠ k := by
          rintro rfl
          exact hq hiptr.symm
        refine ⟨i, ?_⟩
        rw [update_of_ne hik]
        exact ⟨hi, hiptr, hn⟩
      · rintro ⟨i, hi, hiptr, hn⟩
        have hik : i ≠ k := by
          rintro rfl
          simp [hfreed] at hi
        rw [update_of_ne hik] at hi hiptr hn
        exact ⟨i, hi, hiptr, hn⟩

end

end

-- The counters

theorem activeSlots_active (slots : Slots) (k : Fin capacity) (h : slot.state = .active) :
    activeSlots (update slots k slot) = insert k (activeSlots slots) := by
  ext i
  by_cases hi : i = k
  · subst hi
    simp [activeSlots, h]
  · simp [activeSlots, hi]

theorem activeSlots_freed (slots : Slots) (k : Fin capacity) (h : slot.state = .freed) :
    activeSlots (update slots k slot) = (activeSlots slots).erase k := by
  ext i
  by_cases hi : i = k
  · subst hi
    simp [activeSlots, h]
  · simp [activeSlots, hi]

theorem card_activeSlots_lt (slots : Slots) : (activeSlots slots).card + 1 < 2 ^ 64 := by
  have hle : (activeSlots slots).card ≤ capacity :=
    (Finset.card_le_univ _).trans (Nat.le_of_eq (Fintype.card_fin capacity))
  exact Nat.lt_of_le_of_lt (Nat.succ_le_succ hle) (by decide)

/-- The table, the counters and the allocator agree. -/
structure Agrees (t : Tracker) (held : Held) (seen : Finset Ptr) : Prop where
  table : TableAgrees t.slots held seen
  heldNull : held null = none
  count : t.activeCount.toNat = (activeSlots t.slots).card
  balance : t.activeCount = t.totalAllocs - t.totalFrees

theorem agrees_reset (t : Tracker) : Agrees t.reset (fun _ => none) ∅ := by
  refine ⟨tableAgrees_reset, rfl, ?_, ?_⟩
  · simp [Tracker.reset, activeSlots, emptySlot]
  · simp [Tracker.reset]

theorem Agrees.trackAllocation (h : Agrees t held seen) (hp : p ≠ null) (hnew : held p = none)
    (hroom : (insert p seen).card ≤ capacity) (size : BitVec 64) (site : Site) :
    Agrees (trackAllocation t p size site) (update held p (some size.toNat)) (insert p seen) := by
  obtain ⟨k, hk⟩ := h.table.exists_seek hroom
  have hinactive := h.table.seek_inactive hnew hk
  have hnot : k ∉ activeSlots t.slots := by simpa [activeSlots] using hinactive
  have hlt := card_activeSlots_lt t.slots
  rw [Memcheck.trackAllocation, if_neg hp, findInsertSlot_eq hp hk]
  constructor
  · exact h.table.put hnew hk rfl rfl
  · rw [update_of_ne (Ne.symm hp), h.heldNull]
  · show (if (t.slots k).state ≠ .active then t.activeCount + 1 else t.activeCount).toNat =
      (activeSlots (update t.slots k _)).card
    rw [if_pos hinactive, activeSlots_active _ _ rfl, Finset.card_insert_of_notMem hnot,
      BitVec.toNat_add, h.count]
    exact Nat.mod_eq_of_lt hlt
  · show (if (t.slots k).state ≠ .active then t.activeCount + 1 else t.activeCount) = _
    rw [if_pos hinactive, h.balance]
    simp only [BitVec.sub_eq_add_neg]
    ac_rfl

theorem Agrees.markReleased (h : Agrees t held seen) (hactive : (t.slots k).state = .active) :
    Agrees (markReleased t k) (update held (t.slots k).ptr none) seen := by
  have hmem : k ∈ activeSlots t.slots := by simpa [activeSlots] using hactive
  have hpos : 0 < (activeSlots t.slots).card := Finset.card_pos.mpr ⟨k, hmem⟩
  have hlt := card_activeSlots_lt t.slots
  have hcount : 0 < t.activeCount := by
    rw [BitVec.lt_def, h.count]
    exact hpos
  rw [Memcheck.markReleased, if_neg (not_not_intro hactive)]
  constructor
  · exact h.table.release hactive rfl rfl
  · rw [Function.update_apply, h.heldNull, ite_self]
  · show (if 0 < t.activeCount then t.activeCount - 1 else t.activeCount).toNat =
      (activeSlots (update t.slots k _)).card
    rw [if_pos hcount, activeSlots_freed _ _ rfl, Finset.card_erase_of_mem hmem, BitVec.toNat_sub, h.count]
    show (2 ^ 64 - 1 + _) % 2 ^ 64 = _
    omega
  · show (if 0 < t.activeCount then t.activeCount - 1 else t.activeCount) = _
    rw [if_pos hcount, h.balance]
    simp only [BitVec.sub_eq_add_neg, BitVec.neg_add]
    ac_rfl

/-- What the invariant and the two counters of misuse read of the tracker. -/
structure SameTable (t t' : Tracker) : Prop where
  slots : t'.slots = t.slots
  activeCount : t'.activeCount = t.activeCount
  totalAllocs : t'.totalAllocs = t.totalAllocs
  totalFrees : t'.totalFrees = t.totalFrees

theorem Agrees.congr (h : Agrees t held seen) (hsame : SameTable t t') : Agrees t' held seen := by
  obtain ⟨hslots, hactive, hallocs, hfrees⟩ := hsame
  refine ⟨?_, h.heldNull, ?_, ?_⟩
  · rw [hslots]
    exact h.table
  · rw [hslots, hactive]
    exact h.count
  · rw [hactive, hallocs, hfrees]
    exact h.balance

theorem ensureAtexitRegistered_same (env : Environment) (t : Tracker) :
    SameTable t (ensureAtexitRegistered env t) ∧
      (ensureAtexitRegistered env t).doubleFrees = t.doubleFrees ∧
      (ensureAtexitRegistered env t).unknownFrees = t.unknownFrees := by
  have hinit : SameTable t (initReportPolicy env t) ∧
      (initReportPolicy env t).doubleFrees = t.doubleFrees ∧
      (initReportPolicy env t).unknownFrees = t.unknownFrees := by
    unfold initReportPolicy
    split <;> exact ⟨⟨rfl, rfl, rfl, rfl⟩, rfl, rfl⟩
  obtain ⟨⟨hslots, hactive, hallocs, hfrees⟩, hdouble, hunknown⟩ := hinit
  unfold ensureAtexitRegistered
  dsimp only
  split
  · exact ⟨⟨hslots, hactive, hallocs, hfrees⟩, hdouble, hunknown⟩
  · split <;> exact ⟨⟨hslots, hactive, hallocs, hfrees⟩, hdouble, hunknown⟩

-- One call

theorem findSlotFrom_ptr (h : findSlotFrom slots p start left i = some k) : (slots k).ptr = p := by
  induction left generalizing i with
  | zero => cases h
  | succ left ih =>
    unfold findSlotFrom at h
    dsimp only at h
    split at h
    · cases h
    split at h
    · rename_i hptr
      cases h
      exact hptr
    · exact ih h

theorem findSlot_ptr (h : findSlot slots p = some k) : (slots k).ptr = p := by
  unfold findSlot at h
  split at h
  · cases h
  · exact findSlotFrom_ptr h

section
variable (h : Agrees t held seen)

include h

theorem Agrees.answered (hnew : p ≠ null → held p = none)
    (hroom : (seenAfter seen p).card ≤ capacity) (size : BitVec 64) (site : Site) :
    Agrees (if p ≠ null then Memcheck.trackAllocation t p size site else t)
      (if p ≠ null then update held p (some size.toNat) else held) (seenAfter seen p) := by
  by_cases hp : p = null
  · simpa [seenAfter, hp] using h
  have htrack := h.trackAllocation hp (hnew hp) (by simpa [seenAfter, hp] using hroom) size site
  simpa [seenAfter, hp] using htrack

theorem mallocSite_agrees (ha : Answers held (.malloc size) answer held')
    (hroom : (seenAfter seen answer).card ≤ capacity) (site : Site) :
    Agrees (mallocSite size site answer t).tracker held' (seenAfter seen answer) := by
  cases ha with
  | mallocFails => simpa [mallocSite] using h.answered (by simp) hroom size site
  | malloc hp hnew => simpa [mallocSite, hp] using h.answered (fun _ => hnew) hroom size site

theorem callocSite_agrees (ha : Answers held (.calloc count size) answer held')
    (hroom : (seenAfter seen answer).card ≤ capacity) (site : Site) :
    Agrees (callocSite count size site answer t).tracker held' (seenAfter seen answer) := by
  cases ha with
  | callocFails => simpa [callocSite] using h.answered (by simp) hroom (count * size) site
  | calloc hp hnew hfits => ?_
  have hsize : (count * size).toNat = count.toNat * size.toNat := by
    rw [BitVec.toNat_mul, Nat.mod_eq_of_lt hfits]
  have hagrees := h.answered (fun _ => hnew) hroom (count * size) site
  rw [hsize] at hagrees
  simpa [callocSite, hp] using hagrees

theorem reallocNull_agrees (ha : Answers held (.realloc null size) answer held')
    (hroom : (seenAfter seen answer).card ≤ capacity) (site : Site) :
    Agrees (if answer ≠ null then Memcheck.trackAllocation t answer size site else t) held'
      (seenAfter seen answer) := by
  have hnull := h.heldNull
  cases ha with
  | reallocNullFails => simpa using h.answered (by simp) hroom size site
  | reallocNull hp hnew => simpa [hp] using h.answered (fun _ => hnew) hroom size site
  | reallocFails hlive | reallocReleases hlive | realloc hlive => simp [hnull] at hlive

theorem reallocActive_agrees (hactive : (t.slots k).state = .active)
    (hptr : (t.slots k).ptr = p) (hp : p ≠ null)
    (ha : Answers held (.realloc p size) answer held') (hkept : answer = null → held' p ≠ none)
    (hroom : (seenAfter seen answer).card ≤ capacity) (site : Site) :
    Agrees (if answer = null then t else
      Memcheck.trackAllocation (Memcheck.markReleased t k) answer size site) held'
      (seenAfter seen answer) := by
  cases ha with
  | reallocNullFails | reallocNull => exact absurd rfl hp
  | reallocFails hlive => simpa [seenAfter] using h
  | reallocReleases hlive => simp at hkept
  | realloc hlive hq hnew =>
    have hrelease := h.markReleased hactive
    rw [hptr] at hrelease
    have hgone : update held p none answer = none := by
      obtain rfl | hnew := hnew
      · exact update_self ..
      · rw [Function.update_apply, hnew, ite_self]
    have hagrees := hrelease.answered (fun _ => hgone) hroom size site
    simpa [hq] using hagrees

/-- The slot of an address that was handed out: active while its block is live. -/
theorem Agrees.slot_of_seen (hp : p ≠ null) (hseen : p ∈ seen) :
    ∃ k, findSlot t.slots p = some k ∧
      ((t.slots k).state = .active ∧ held p ≠ none ∨ (t.slots k).state = .freed ∧ held p = none) := by
  obtain ⟨k, hk⟩ := (h.table.stored p).mp hseen
  obtain ⟨hstate, hptr⟩ := keyOf_eq_some.mp hk
  refine ⟨k, h.table.findSlot_of_key hp hk, ?_⟩
  cases hs : (t.slots k).state with
  | empty => exact absurd hs hstate
  | active =>
    refine .inl ⟨rfl, ?_⟩
    rw [(h.table.live p _).mpr ⟨k, hs, hptr, rfl⟩]
    simp
  | freed =>
    refine .inr ⟨rfl, ?_⟩
    cases hheld : held p with
    | none => rfl
    | some n => ?_
    obtain ⟨i, hi, hiptr, -⟩ := (h.table.live p n).mp hheld
    have hik := h.table.chained.distinct (keyOf_eq_some.mpr ⟨by simp [hi], hiptr⟩) hk
    rw [hik, hs] at hi
    cases hi

theorem Agrees.slot_active (hfind : findSlot t.slots p = some k)
    (hactive : (t.slots k).state = .active) : held p ≠ none := by
  rw [(h.table.live p _).mpr ⟨k, hactive, findSlot_ptr hfind, rfl⟩]
  simp

theorem reallocSite_agrees (hhost : (reallocSite p size site answer t).host = some call)
    (ha : Answers held call answer held') (hkept : size = 0 → answer = null → held p ≠ none →
      held' p ≠ none) (hroom : (seenAfter seen answer).card ≤ capacity) :
    Agrees (reallocSite p size site answer t).tracker held' (seenAfter seen answer) := by
  unfold reallocSite at hhost ⊢
  by_cases hp : p = null
  · rw [if_pos hp] at hhost ⊢
    cases hhost
    exact reallocNull_agrees h ha hroom site
  rw [if_neg hp] at hhost ⊢
  cases hfind : findSlot t.slots p with
  | none => simp [hfind] at hhost
  | some k => ?_
  cases hstate : (t.slots k).state with
  | empty | freed => simp [hfind, hstate] at hhost
  | active => ?_
  have hlive := h.slot_active hfind hstate
  simp only [hfind, hstate] at hhost ⊢
  have hcall : call = .realloc p size := by
    split at hhost <;> exact (Option.some.inj hhost).symm
  subst hcall
  have hkept' : answer = null → held' p ≠ none := by
    intro hanswer
    by_cases hsize : size = 0
    · exact hkept hsize hanswer hlive
    cases ha with
    | reallocNullFails | reallocNull => exact absurd rfl hp
    | reallocFails => exact hlive
    | reallocReleases => exact absurd rfl hsize
    | realloc _ hq => exact absurd hanswer hq
  have hagrees := reallocActive_agrees h hstate (findSlot_ptr hfind) hp ha hkept' hroom site
  split <;> simpa [*] using hagrees

theorem freeSite_agrees (hhost : (freeSite p site t).host = some call)
    (ha : Answers held call answer held') :
    answer = null ∧ Agrees (freeSite p site t).tracker held' seen := by
  unfold freeSite at hhost ⊢
  by_cases hp : p = null
  · simp [hp] at hhost
  rw [if_neg hp] at hhost ⊢
  cases hfind : findSlot t.slots p with
  | none => simp [hfind] at hhost
  | some k => ?_
  cases hstate : (t.slots k).state with
  | empty | freed => simp [hfind, hstate] at hhost
  | active => ?_
  simp only [hfind, hstate, Option.some.injEq] at hhost ⊢
  subst hhost
  cases ha with
  | free hlive =>
    have hrelease := h.markReleased hstate
    rw [findSlot_ptr hfind] at hrelease
    exact ⟨rfl, hrelease⟩

end

theorem reallocSite_alone (hhost : (reallocSite p size site answer t).host = none) :
    SameTable t (reallocSite p size site answer t).tracker := by
  unfold reallocSite at hhost ⊢
  split at hhost
  · cases hhost
  rename_i hp
  rw [if_neg hp]
  cases hfind : findSlot t.slots p with
  | none => exact ⟨rfl, rfl, rfl, rfl⟩
  | some k => ?_
  cases hstate : (t.slots k).state with
  | empty | freed =>
    simp only [hstate]
    exact ⟨rfl, rfl, rfl, rfl⟩
  | active =>
    simp only [hfind, hstate] at hhost
    split at hhost <;> cases hhost

theorem reportFreeSite_same (site : Site) (t : Tracker) :
    SameTable t (reportFreeSite site t) ∧ (reportFreeSite site t).doubleFrees = t.doubleFrees ∧
      (reportFreeSite site t).unknownFrees = t.unknownFrees := by
  unfold reportFreeSite
  split <;> exact ⟨⟨rfl, rfl, rfl, rfl⟩, rfl, rfl⟩

theorem freeSite_alone (hhost : (freeSite p site t).host = none) :
    SameTable t (freeSite p site t).tracker := by
  unfold freeSite at hhost ⊢
  split
  · exact ⟨rfl, rfl, rfl, rfl⟩
  rename_i hp
  rw [if_neg hp] at hhost
  cases hfind : findSlot t.slots p with
  | none =>
    obtain ⟨hslots, hactive, hallocs, hfrees⟩ := (reportFreeSite_same site _).1
    exact ⟨hslots, hactive, hallocs, hfrees⟩
  | some k => ?_
  cases hstate : (t.slots k).state with
  | empty | freed =>
    simp only [hstate]
    obtain ⟨hslots, hactive, hallocs, hfrees⟩ := (reportFreeSite_same site _).1
    exact ⟨hslots, hactive, hallocs, hfrees⟩
  | active => simp [hfind, hstate] at hhost

theorem Agrees.step (h : Agrees w.tracker w.held w.seen) (hstep : Step w ev w')
    (hok : ¬ReleasesOnNull w ev w') (hroom : w'.seen.card ≤ capacity) :
    Agrees w'.tracker w'.held w'.seen := by
  obtain ⟨call, site, env, answer⟩ := ev
  have h := h.congr (ensureAtexitRegistered_same env w.tracker).1
  cases hstep with
  | alone hhost =>
    cases call with
    | malloc size | calloc count size => cases hhost
    | realloc p size => exact h.congr (reallocSite_alone hhost)
    | free p => exact h.congr (freeSite_alone hhost)
  | answered hhost hanswer =>
    cases call with
    | malloc size =>
      cases hhost
      exact mallocSite_agrees h hanswer hroom site
    | calloc count size =>
      cases hhost
      exact callocSite_agrees h hanswer hroom site
    | realloc p size =>
      refine reallocSite_agrees h hhost hanswer (fun hsize hnull hlive hgone => ?_) hroom
      subst hsize
      exact hok ⟨p, rfl, hnull, hlive, hgone⟩
    | free p =>
      obtain ⟨hnull, hagrees⟩ := freeSite_agrees h hhost hanswer
      have hseen : seenAfter w.seen answer = w.seen := if_pos hnull
      show Agrees _ _ (seenAfter w.seen answer)
      rw [hseen]
      exact hagrees

theorem trackAllocation_misuse (t : Tracker) (p : Ptr) (size : BitVec 64) (site : Site) :
    (trackAllocation t p size site).doubleFrees = t.doubleFrees ∧
      (trackAllocation t p size site).unknownFrees = t.unknownFrees := by
  unfold trackAllocation
  split
  · exact ⟨rfl, rfl⟩
  · split <;> exact ⟨rfl, rfl⟩

theorem markReleased_misuse (t : Tracker) (k : Fin capacity) :
    (markReleased t k).doubleFrees = t.doubleFrees ∧ (markReleased t k).unknownFrees = t.unknownFrees := by
  unfold markReleased
  split <;> exact ⟨rfl, rfl⟩

theorem answered_misuse (t : Tracker) (p : Ptr) (size : BitVec 64) (site : Site) :
    (if p ≠ null then trackAllocation t p size site else t).doubleFrees = t.doubleFrees ∧
      (if p ≠ null then trackAllocation t p size site else t).unknownFrees = t.unknownFrees := by
  split
  · exact trackAllocation_misuse t p size site
  · exact ⟨rfl, rfl⟩

/-- The counters of misuse after `free` or `realloc` of an address. -/
structure Judges (seen : Finset Ptr) (held : Held) (p : Ptr) (t t' : Tracker) : Prop where
  double : p ∈ seen → held p = none → t'.doubleFrees = t.doubleFrees + 1 ∧
    t'.unknownFrees = t.unknownFrees
  unknown : p ∉ seen → t'.doubleFrees = t.doubleFrees ∧ t'.unknownFrees = t.unknownFrees + 1
  fine : p ∈ seen → held p ≠ none → t'.doubleFrees = t.doubleFrees ∧
    t'.unknownFrees = t.unknownFrees

theorem reallocSite_judges (h : Agrees t held seen) (hp : p ≠ null) :
    Judges seen held p t (reallocSite p size site answer t).tracker := by
  unfold reallocSite
  rw [if_neg hp]
  constructor
  · intro hseen hgone
    obtain ⟨k, hfind, ⟨-, hlive⟩ | ⟨hstate, -⟩⟩ := h.slot_of_seen hp hseen
    · exact absurd hgone hlive
    · simp only [hfind, hstate]
      exact ⟨rfl, rfl⟩
  · intro hunseen
    simp only [h.table.findSlot_none hp hunseen]
    exact ⟨rfl, rfl⟩
  · intro hseen hlive
    obtain ⟨k, hfind, ⟨hstate, -⟩ | ⟨-, hgone⟩⟩ := h.slot_of_seen hp hseen
    · simp only [hfind, hstate]
      split
      · exact ⟨rfl, rfl⟩
      obtain ⟨hdouble, hunknown⟩ := trackAllocation_misuse (markReleased t k) answer size site
      obtain ⟨hdouble', hunknown'⟩ := markReleased_misuse t k
      exact ⟨hdouble.trans hdouble', hunknown.trans hunknown'⟩
    · exact absurd hgone hlive

theorem freeSite_judges (h : Agrees t held seen) (hp : p ≠ null) :
    Judges seen held p t (freeSite p site t).tracker := by
  unfold freeSite
  rw [if_neg hp]
  constructor
  · intro hseen hgone
    obtain ⟨k, hfind, ⟨-, hlive⟩ | ⟨hstate, -⟩⟩ := h.slot_of_seen hp hseen
    · exact absurd hgone hlive
    · simp only [hfind, hstate]
      exact (reportFreeSite_same site _).2
  · intro hunseen
    simp only [h.table.findSlot_none hp hunseen]
    exact (reportFreeSite_same site _).2
  · intro hseen hlive
    obtain ⟨k, hfind, ⟨hstate, -⟩ | ⟨-, hgone⟩⟩ := h.slot_of_seen hp hseen
    · simp only [hfind, hstate]
      exact markReleased_misuse t k
    · exact absurd hgone hlive

variable {w : World}

theorem perform_judges (h : Agrees w.tracker w.held w.seen) (hp : ev.call.given? = some p) :
    Judges w.seen w.held p w.tracker (perform ev w.tracker).tracker := by
  obtain ⟨call, site, env, answer⟩ := ev
  obtain ⟨hsame, hdouble, hunknown⟩ := ensureAtexitRegistered_same env w.tracker
  have h := h.congr hsame
  have hjudges : Judges w.seen w.held p (ensureAtexitRegistered env w.tracker)
      (perform ⟨call, site, env, answer⟩ w.tracker).tracker := by
    cases call with
    | malloc size | calloc count size => cases hp
    | realloc q size =>
      simp only [Call.given?, Option.ite_none_left_eq_some, Option.some.injEq] at hp
      obtain ⟨hq, rfl⟩ := hp
      exact reallocSite_judges h hq
    | free q =>
      simp only [Call.given?, Option.ite_none_left_eq_some, Option.some.injEq] at hp
      obtain ⟨hq, rfl⟩ := hp
      exact freeSite_judges h hq
  constructor
  · rw [← hdouble, ← hunknown]
    exact hjudges.double
  · rw [← hdouble, ← hunknown]
    exact hjudges.unknown
  · rw [← hdouble, ← hunknown]
    exact hjudges.fine

theorem perform_misuse_of_not_given (hp : ev.call.given? = none) (t : Tracker) :
    (perform ev t).tracker.doubleFrees = t.doubleFrees ∧
      (perform ev t).tracker.unknownFrees = t.unknownFrees := by
  obtain ⟨call, site, env, answer⟩ := ev
  obtain ⟨-, hdouble, hunknown⟩ := ensureAtexitRegistered_same env t
  rw [← hdouble, ← hunknown]
  cases call with
  | malloc size => exact answered_misuse _ answer size site
  | calloc count size => exact answered_misuse _ answer (count * size) site
  | realloc q size =>
    have hq : q = null := by simpa [Call.given?] using hp
    subst hq
    exact answered_misuse _ answer size site
  | free q =>
    have hq : q = null := by simpa [Call.given?] using hp
    subst hq
    simp [perform, freeSite]

theorem perform_host (h : Agrees w.tracker w.held w.seen)
    (hhost : (perform ev w.tracker).host = some call) (hp : call.given? = some p) :
    w.held p ≠ none := by
  obtain ⟨request, site, env, answer⟩ := ev
  have h := h.congr (ensureAtexitRegistered_same env w.tracker).1
  cases request with
  | malloc size | calloc count size =>
    cases hhost
    cases hp
  | realloc q size =>
    simp only [perform, reallocSite] at hhost
    split at hhost
    · cases hhost
      simp [Call.given?] at hp
    split at hhost
    · cases hhost
    rename_i k hfind
    split at hhost
    · cases hhost
    · cases hhost
    rename_i hstate
    have hcall : call = .realloc q size := by
      split at hhost <;> exact (Option.some.inj hhost).symm
    subst hcall
    simp only [Call.given?, Option.ite_none_left_eq_some, Option.some.injEq] at hp
    obtain ⟨-, rfl⟩ := hp
    exact h.slot_active hfind hstate
  | free q =>
    simp only [perform, freeSite] at hhost
    split at hhost
    · cases hhost
    split at hhost
    · cases hhost
    rename_i k hfind
    split at hhost
    · cases hhost
    · cases hhost
    rename_i hstate
    cases hhost
    simp only [Call.given?, Option.ite_none_left_eq_some, Option.some.injEq] at hp
    obtain ⟨-, rfl⟩ := hp
    exact h.slot_active hfind hstate

-- Every run

theorem Agrees.sound (h : Agrees w.tracker w.held w.seen) (hnull : null ∉ w.seen) : Sound w := by
  refine ⟨?_, ?_, h.count, h.balance, h.table.live⟩
  · intro i j hi hj hptr
    exact h.table.chained.distinct (keyOf_eq_some.mpr ⟨hi, rfl⟩) (keyOf_eq_some.mpr ⟨hj, hptr.symm⟩)
  · intro p hp
    obtain ⟨k, hk⟩ := (h.table.stored p).mp hp
    have hne : p ≠ null := fun hpn => hnull (hpn ▸ hp)
    exact ⟨k, h.table.findSlot_of_key hne hk, (keyOf_eq_some.mp hk).2⟩

theorem Agrees.soundCall (h : Agrees w.tracker w.held w.seen) (ev : Event) : SoundCall w ev := by
  suffices hmisuse : GrowsWhen (∃ p, ev.call.given? = some p ∧ p ∈ w.seen ∧ w.held p = none)
      w.tracker.doubleFrees (perform ev w.tracker).tracker.doubleFrees ∧
      GrowsWhen (∃ p, ev.call.given? = some p ∧ p ∉ w.seen) w.tracker.unknownFrees
        (perform ev w.tracker).tracker.unknownFrees from
    ⟨fun call p => perform_host h, hmisuse.1, hmisuse.2⟩
  cases hgiven : ev.call.given? with
  | none =>
    obtain ⟨hdouble, hunknown⟩ := perform_misuse_of_not_given hgiven w.tracker
    simp [GrowsWhen, hdouble, hunknown]
  | some p => ?_
  have hjudges := perform_judges h hgiven
  simp only [GrowsWhen, Option.some.injEq, exists_eq_left']
  by_cases hseen : p ∈ w.seen
  · by_cases hlive : w.held p = none
    · simp [hseen, hlive, hjudges.double hseen hlive]
    · simp [hseen, hlive, hjudges.fine hseen hlive]
  · simp [hseen, hjudges.unknown hseen]

theorem Step.seen_subset (h : Step w ev w') : w.seen ⊆ w'.seen := by
  cases h with
  | alone => exact fun p hp => hp
  | answered => ?_
  intro p hp
  show p ∈ seenAfter w.seen ev.answer
  unfold seenAfter
  split
  · exact hp
  · exact Finset.mem_insert_of_mem hp

theorem Step.null_unseen (h : Step w ev w') (hnull : null ∉ w.seen) : null ∉ w'.seen := by
  cases h with
  | alone => exact hnull
  | answered => ?_
  show null ∉ seenAfter w.seen ev.answer
  unfold seenAfter
  split
  · exact hnull
  rename_i hne
  simp [Ne.symm hne, hnull]

/-- In every run in which no `realloc(p, 0)` releases its block and answers `NULL`, and
which sees no more addresses than the table has slots, the table, the counters and
the allocator agree in every state, and the next call is judged right. -/
theorem tracker_sound (t : Tracker) (hrun : Run (fun w ev w' => ¬ReleasesOnNull w ev w') (World.start t) w)
    (hseen : w.seen.card ≤ capacity) : Sound w ∧ ∀ ev, SoundCall w ev := by
  have hagrees : Agrees w.tracker w.held w.seen ∧ null ∉ w.seen := by
    generalize hstart : World.start t = w₀ at hrun
    induction hrun with
    | refl =>
      subst hstart
      exact ⟨agrees_reset t, Finset.notMem_empty _⟩
    | step run hstep hok ih =>
      obtain ⟨hbefore, hnull⟩ := ih ((Finset.card_le_card hstep.seen_subset).trans hseen)
      exact ⟨hbefore.step hstep hok hseen, hstep.null_unseen hnull⟩
  exact ⟨hagrees.1.sound hagrees.2, hagrees.1.soundCall⟩

-- `realloc` after `malloc`

def freshTracker : Tracker :=
  ⟨fun _ => emptySlot, 0, 0, 0, 0, 0, 0, 0, false, false, .always, []⟩

def block : Ptr := 0x1000

/-- A call in a process with no report variable. -/
def plainCall (call : Call) (answer : Ptr) : Event := ⟨call, ⟨some "a.c", 3⟩, ⟨none, true⟩, answer⟩

def afterMalloc : World :=
  ⟨(perform (plainCall (.malloc 8) block) freshTracker.reset).tracker,
    Function.update (fun _ => none) block (some 8), {block}⟩

theorem step_malloc : Step (World.start freshTracker) (plainCall (.malloc 8) block) afterMalloc :=
  .answered rfl (.malloc (by decide) rfl)

theorem afterMalloc_held : afterMalloc.held block = some 8 := by
  simp [afterMalloc]

/-- `realloc(p, 16)` moves the block. -/
theorem tracker_sound_moved :
    ∃ w, Run (fun w ev w' => ¬ReleasesOnNull w ev w') (World.start freshTracker) w ∧
      w.seen.card ≤ capacity ∧ w.held 0x2000 = some 16 ∧ Sound w ∧ ∀ ev, SoundCall w ev := by
  have hmoves : Step afterMalloc (plainCall (.realloc block 16) 0x2000)
      ⟨(perform (plainCall (.realloc block 16) 0x2000) afterMalloc.tracker).tracker,
        Function.update (Function.update afterMalloc.held block none) 0x2000 (some 16),
        insert 0x2000 {block}⟩ := by
    have hhost : (perform (plainCall (.realloc block 16) 0x2000) afterMalloc.tracker).host =
        some (.realloc block 16) := by decide
    have hnew : afterMalloc.held 0x2000 = none := by decide
    exact .answered hhost (.realloc afterMalloc_held (by decide) (.inr hnew))
  have hfirst : ¬ReleasesOnNull (World.start freshTracker) (plainCall (.malloc 8) block)
      afterMalloc := by
    rintro ⟨p, hcall, -⟩
    cases hcall
  have hsecond (w' : World) :
      ¬ReleasesOnNull afterMalloc (plainCall (.realloc block 16) 0x2000) w' := by
    rintro ⟨p, -, hnull, -⟩
    exact absurd hnull (by decide)
  have hrun : Run (fun w ev w' => ¬ReleasesOnNull w ev w') (World.start freshTracker) _ :=
    .step (.step .refl step_malloc hfirst) hmoves (hsecond _)
  have hroom : (insert 0x2000 {block} : Finset Ptr).card ≤ capacity := by decide
  exact ⟨_, hrun, hroom, by simp, tracker_sound freshTracker hrun hroom⟩

/-- `realloc(p, 0)` releases the block: its slot stays active, and the next `free` of
it goes to the host. -/
theorem reallocZero_not_sound :
    ∃ w, Run (fun _ _ _ => True) (World.start freshTracker) w ∧ w.seen.card ≤ capacity ∧
      ¬Sound w ∧ ¬SoundCall w (plainCall (.free block) null) := by
  have hreleases : Step afterMalloc (plainCall (.realloc block 0) null)
      ⟨(perform (plainCall (.realloc block 0) null) afterMalloc.tracker).tracker,
        Function.update afterMalloc.held block none, {block}⟩ := by
    have hhost : (perform (plainCall (.realloc block 0) null) afterMalloc.tracker).host =
        some (.realloc block 0) := by decide
    exact .answered hhost (.reallocReleases afterMalloc_held)
  refine ⟨_, .step (.step .refl step_malloc trivial) hreleases trivial, by decide, ?_, ?_⟩
  · intro hsound
    have hlive := (hsound.live block 8).mpr
      ⟨Fin.ofNat capacity (startOf block), by decide, by decide, by decide⟩
    simp at hlive
  · intro hcall
    exact hcall.host (.free block) block (by decide) (by decide) (by simp)

end Fisics.Memcheck
