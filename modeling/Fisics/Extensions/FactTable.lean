import Fisics.Library.KeyTable
import Fisics.Library.ProbeTable

/-!
# The table of physical facts

The facts stand in an array in the order in which their keys first came. An index with
open addressing holds their places, one more than the place so that zero is an empty
cell, and doubles while more than half full. Either growth can fail.
-/

namespace Fisics.Facts

open ProbeTable (turn firstStop firstStop_some exists_firstStop seek exists_seek Chained chained_empty)

structure FactKey where
  node : BitVec 64
  domain : BitVec 32
  slot : BitVec 64
  deriving DecidableEq

def hash (key : FactKey) : BitVec 64 :=
  ((key.node >>> 4) * 11400714819323198485) ^^^ (key.slot * 33 + key.domain.setWidth 64)

/-- `PHYSICAL_MAX_FACTS` -/
def maxFacts : Nat := 1048576

/-- An index of `2 ^ bits` cells. -/
structure Index where
  bits : Nat
  cells : Fin (2 ^ bits) → Nat

def Index.empty (bits : Nat) : Index := ⟨bits, fun _ => 0⟩

/-- The state as far as the facts go; there is no index while its capacity is zero. -/
structure FactState (F : Type) where
  entries : List (FactKey × F)
  capacity : Nat
  index : Option Index
  allocations : Nat
  failed : Bool
  errors : List (Nat × String)

def FactState.initial : FactState F := ⟨[], 0, none, 0, false, []⟩

/-- Where allocations are made to fail, whether the host's next one succeeds, and the
fact of a node without an entry. -/
structure Environment (F : Type) where
  failAfter : Nat
  hostAllocates : Nat → Bool
  missing : BitVec 64 → F

variable {F : Type} (env : Environment F)

/-- Whether there is memory. -/
def physicalStateGrow (s : FactState F) : Bool × FactState F :=
  let s' := { s with allocations := s.allocations + 1 }
  if s.failed then (false, s)
  else if s.allocations < env.failAfter ∧ env.hostAllocates s.allocations then (true, s')
  else
    (false, { s' with
      failed := true
      errors := s.errors ++ [(4305, "physical facts allocation failed; analysis is incomplete")] })

/-- The first cell on the way of a key that stops its search; `none` is a loop without an end. -/
def Index.probe (ix : Index) (stop : Nat → Bool) (key : FactKey) : Option (Fin (2 ^ ix.bits)) :=
  firstStop (fun p => stop (ix.cells p)) (hash key).toNat (2 ^ ix.bits) 0

/-- The outer `none` is a loop without an end, the inner one is `SIZE_MAX`. -/
def find (s : FactState F) (key : FactKey) : Option (Option Nat) :=
  match s.index with
  | none => some none
  | some ix =>
    (ix.probe (fun cell => cell = 0 ∨ (s.entries.map Prod.fst)[cell - 1]? = some key) key).map fun p =>
      if ix.cells p = 0 then none else some (ix.cells p - 1)

def Index.insert (ix : Index) (key : FactKey) (cell : Nat) : Option Index :=
  (ix.probe (fun cell => cell = 0) key).map fun p => { ix with cells := Function.update ix.cells p cell }

/-- The loop over the entries, of which `done` are in the index. -/
def Index.insertAll : (done : Nat) → List FactKey → Index → Option Index
  | _, [], ix => some ix
  | done, key :: rest, ix => (ix.insert key (done + 1)).bind (Index.insertAll (done + 1) rest)

/-- The part of `physical_put` that doubles the index. -/
def growIndex (s : FactState F) : Option (Bool × FactState F) :=
  let indexCapacity := s.index.elim 0 fun ix => 2 ^ ix.bits
  if (s.entries.length + 1) * 2 > indexCapacity then
    match physicalStateGrow env s with
    | (false, s) => some (false, s)
    | (true, s) =>
      (Index.insertAll 0 (s.entries.map Prod.fst) (.empty (s.index.elim 5 fun ix => ix.bits + 1))).map
        fun ix => (true, { s with index := some ix })
  else some (true, s)

def growEntries (s : FactState F) : Bool × FactState F :=
  if s.entries.length = s.capacity then
    match physicalStateGrow env s with
    | (false, s) => (false, s)
    | (true, s) => (true, { s with capacity := if s.capacity = 0 then 16 else s.capacity * 2 })
  else (true, s)

/-- The part of `physical_put` behind the growth. -/
def appendEntry (s : FactState F) (key : FactKey) (fact : F) : Option (FactState F) :=
  s.index.bind fun ix =>
    (ix.insert key (s.entries.length + 1)).map fun ix =>
      { s with entries := s.entries ++ [(key, fact)], index := some ix }

def physicalPut (s : FactState F) (key : FactKey) (fact : F) : Option (Bool × FactState F) :=
  if key.node = 0 ∨ s.failed then some (false, s)
  else
    (find s key).bind fun
      | some i => some (true, { s with entries := s.entries.set i (key, fact) })
      | none =>
        if maxFacts ≤ s.entries.length then
          some (false, { s with
            failed := true
            errors := s.errors ++ [(4304, "physical fact limit exceeded; analysis is incomplete")] })
        else
          (growIndex env s).bind fun
            | (false, s) => some (false, s)
            | (true, s) =>
              match growEntries env s with
              | (false, s) => some (false, s)
              | (true, s) => (appendEntry s key fact).map fun s => (true, s)

def physicalGet (s : FactState F) (key : FactKey) : Option F :=
  (find s key).map fun found => ((found.bind (s.entries[·]?)).map Prod.snd).getD (env.missing key.node)

-- Runs and what they bind

inductive Call (F : Type)
  | put (key : FactKey) (fact : F)
  | get (key : FactKey)

inductive Answer (F : Type)
  | stored (ok : Bool)
  | found (fact : F)

def step (s : FactState F) : Call F → Option (Answer F × FactState F)
  | .put key fact => (physicalPut env s key fact).map fun (ok, s) => (.stored ok, s)
  | .get key => (physicalGet env s key).map fun fact => (.found fact, s)

def run (s : FactState F) : List (Call F) → Option (List (Call F × Answer F) × FactState F)
  | [] => some ([], s)
  | call :: calls =>
    (step env s call).bind fun (answer, s) => (run s calls).map fun (trace, s) => ((call, answer) :: trace, s)

/-- The binding of a key by the calls of a trace: that of the last put that succeeded. -/
def bound (bindings : FactKey → Option F) : List (Call F × Answer F) → FactKey → Option F
  | [] => bindings
  | (.put key fact, .stored true) :: trace => bound (Function.update bindings key (some fact)) trace
  | _ :: trace => bound bindings trace

/-- Every `get` of a trace answers with the binding before it. -/
def AnswersBound (bindings : FactKey → Option F) : List (Call F × Answer F) → Prop
  | [] => True
  | (.put key fact, .stored true) :: trace => AnswersBound (Function.update bindings key (some fact)) trace
  | (.get key, .found fact) :: trace =>
    fact = (bindings key).getD (env.missing key.node) ∧ AnswersBound bindings trace
  | _ :: trace => AnswersBound bindings trace

-- The index

/-- The keys that the cells stand for. -/
def keyAt (keys : List FactKey) (ix : Index) (p : Fin (2 ^ ix.bits)) : Option FactKey :=
  if ix.cells p = 0 then none else keys[ix.cells p - 1]?

/-- The index leads to every key of the list, and to nothing else. -/
structure Indexes (keys : List FactKey) (ix : Index) : Prop where
  range : ∀ p, ix.cells p ≤ keys.length
  complete : ∀ i < keys.length, ∃ p, ix.cells p = i + 1
  chained : Chained (fun key => (hash key).toNat) (keyAt keys ix)

theorem indexes_empty (bits : Nat) : Indexes [] (.empty bits) where
  range _ := Nat.le_refl 0
  complete i hi := absurd hi (Nat.not_lt_zero i)
  chained := chained_empty _

namespace Indexes

variable {keys : List FactKey} {ix : Index}

theorem keyAt_eq_none (h : Indexes keys ix) (p : Fin (2 ^ ix.bits)) :
    keyAt keys ix p = none ↔ ix.cells p = 0 := by
  have hrange := h.range p
  unfold keyAt
  split
  · simp_all
  rw [List.getElem?_eq_none_iff]
  omega

theorem keyAt_some (hp : keyAt keys ix p = some key) : ix.cells p ≠ 0 ∧ keys[ix.cells p - 1]? = some key := by
  unfold keyAt at hp
  split at hp
  · cases hp
  · exact ⟨‹_›, hp⟩

theorem exists_cell (h : Indexes keys ix) (hkey : keys[i]? = some key) :
    ∃ p, ix.cells p = i + 1 ∧ keyAt keys ix p = some key := by
  obtain ⟨hi, -⟩ := List.getElem?_eq_some_iff.mp hkey
  obtain ⟨p, hp⟩ := h.complete i hi
  exact ⟨p, hp, by simp [keyAt, hp, hkey]⟩

theorem nodup (h : Indexes keys ix) : keys.Nodup := by
  rw [List.nodup_iff_injective_getElem]
  rintro ⟨i, hi⟩ ⟨j, hj⟩ heq
  obtain ⟨p, hp, hkey⟩ := h.exists_cell (List.getElem?_eq_getElem hi)
  obtain ⟨q, hq, hkey'⟩ := h.exists_cell (List.getElem?_eq_getElem hj)
  obtain rfl := h.chained.distinct hkey (hkey'.trans (congrArg some heq.symm))
  exact Fin.ext (by simp only; omega)

theorem exists_free (h : Indexes keys ix) (hroom : keys.length < 2 ^ ix.bits) : ∃ p, ix.cells p = 0 := by
  have hcard : keys.toFinset.card < 2 ^ ix.bits := Nat.lt_of_le_of_lt (List.toFinset_card_le keys) hroom
  obtain ⟨p, hp⟩ := h.chained.exists_free keys.toFinset (fun p key hkey =>
    List.mem_toFinset.mpr (List.mem_of_getElem? (keyAt_some hkey).2)) hcard
  exact ⟨p, (h.keyAt_eq_none p).mp hp⟩

theorem probe_eq_seek (hstop : ∀ p, stop (ix.cells p) = true ↔
    keyAt keys ix p = none ∨ keyAt keys ix p = some key) :
    ix.probe stop key = seek (fun key => (hash key).toNat) (keyAt keys ix) key := by
  have hsame : (fun p => stop (ix.cells p)) =
      fun p => decide (keyAt keys ix p = none ∨ keyAt keys ix p = some key) := by
    funext p
    rw [Bool.eq_iff_iff, hstop p, decide_eq_true_iff]
  rw [Index.probe, hsame]
  rfl

theorem insert (h : Indexes keys ix) (hnew : key ∉ keys) (hroom : keys.length < 2 ^ ix.bits) :
    ∃ ix', ix.insert key (keys.length + 1) = some ix' ∧ ix'.bits = ix.bits ∧ Indexes (keys ++ [key]) ix' := by
  obtain ⟨free, hfree⟩ := h.exists_free hroom
  have hprobe : ix.probe (fun cell => cell = 0) key =
      seek (fun key => (hash key).toNat) (keyAt keys ix) key := by
    refine probe_eq_seek fun p => ?_
    rw [decide_eq_true_iff, ← h.keyAt_eq_none]
    refine (or_iff_left fun hkey => hnew ?_).symm
    exact List.mem_of_getElem? (keyAt_some hkey).2
  obtain ⟨p, hp⟩ : ∃ p, seek (fun key => (hash key).toNat) (keyAt keys ix) key = some p :=
    exists_seek (.inl ((h.keyAt_eq_none free).mpr hfree))
  have hzero : ix.cells p = 0 := by
    obtain ⟨hstop, -⟩ := firstStop_some (hprobe.trans hp)
    simpa using hstop
  refine ⟨{ ix with cells := Function.update ix.cells p (keys.length + 1) },
    by rw [Index.insert, hprobe, hp, Option.map_some], rfl, ?_, ?_, ?_⟩
  · intro q
    have hrange := h.range q
    simp only [Function.update_apply, List.length_append, List.length_singleton]
    split <;> omega
  · intro i hi
    obtain rfl | hlt := Nat.eq_or_lt_of_le (Nat.le_of_lt_succ (by simpa using hi))
    · exact ⟨p, Function.update_self ..⟩
    · obtain ⟨q, hq⟩ := h.complete i hlt
      have hne : q ≠ p := by
        rintro rfl
        omega
      exact ⟨q, by simp [Function.update_of_ne hne, hq]⟩
  · have hkeys : keyAt (keys ++ [key]) { ix with cells := Function.update ix.cells p (keys.length + 1) } =
        Function.update (keyAt keys ix) p (some key) := by
      funext q
      have hrange := h.range q
      by_cases hq : q = p
      · rw [hq]
        simp [keyAt]
      simp only [keyAt, Function.update_of_ne hq]
      split
      · rfl
      · rw [List.getElem?_append_left (by omega)]
    rw [hkeys]
    exact h.chained.put hp

theorem insertAll (h : Indexes done ix) (hnodup : (done ++ rest).Nodup)
    (hroom : (done ++ rest).length ≤ 2 ^ ix.bits) :
    ∃ ix', Index.insertAll done.length rest ix = some ix' ∧ ix'.bits = ix.bits ∧
      Indexes (done ++ rest) ix' := by
  induction rest generalizing done ix with
  | nil => exact ⟨ix, rfl, rfl, by simpa using h⟩
  | cons key rest ih =>
    have hnew : key ∉ done := fun hmem =>
      (List.nodup_append.mp hnodup).2.2 key hmem key List.mem_cons_self rfl
    obtain ⟨ix₁, hinsert, hbits, h₁⟩ := h.insert hnew (by simp at hroom; omega)
    have happend : done ++ key :: rest = (done ++ [key]) ++ rest := by simp
    rw [happend] at hnodup hroom ⊢
    obtain ⟨ix₂, hall, hbits', h₂⟩ := ih h₁ hnodup (by rw [hbits]; exact hroom)
    refine ⟨ix₂, ?_, hbits'.trans hbits, h₂⟩
    simpa [Index.insertAll, hinsert] using hall

end Indexes

-- The table

/-- The index leads to the entries and is at most half full. -/
structure Sound (s : FactState F) : Prop where
  indexed : ∀ ix, s.index = some ix →
    Indexes (s.entries.map Prod.fst) ix ∧ s.entries.length * 2 ≤ 2 ^ ix.bits
  unindexed : s.index = none → s.entries = []

theorem Sound.nodup (h : Sound s) : (s.entries.map Prod.fst).Nodup := by
  cases hix : s.index with
  | none => simp [h.unindexed hix]
  | some ix => exact (h.indexed ix hix).1.nodup

theorem find_spec (h : Sound s) (key : FactKey) :
    (∃ i fact, find s key = some (some i) ∧ s.entries[i]? = some (key, fact)) ∨
      (find s key = some none ∧ key ∉ s.entries.map Prod.fst) := by
  unfold find
  cases hix : s.index with
  | none => exact .inr ⟨rfl, by simp [h.unindexed hix]⟩
  | some ix => ?_
  obtain ⟨hindexes, hhalf⟩ := h.indexed ix hix
  have hprobe : ix.probe (fun cell => cell = 0 ∨ (s.entries.map Prod.fst)[cell - 1]? = some key) key =
      seek (fun key => (hash key).toNat) (keyAt (s.entries.map Prod.fst) ix) key := by
    refine Indexes.probe_eq_seek fun p => ?_
    rw [decide_eq_true_iff, hindexes.keyAt_eq_none]
    unfold keyAt
    split <;> simp_all
  have hlength : (s.entries.map Prod.fst).length = s.entries.length := List.length_map _
  dsimp only
  rw [hprobe]
  by_cases hmem : key ∈ s.entries.map Prod.fst
  · obtain ⟨i, hi⟩ := List.mem_iff_getElem?.mp hmem
    obtain ⟨p, hp, hkey⟩ := hindexes.exists_cell hi
    obtain ⟨⟨_, fact⟩, hentry, rfl⟩ : ∃ e, s.entries[i]? = some e ∧ e.1 = key := by
      simpa [List.getElem?_map] using hi
    refine .inl ⟨i, fact, ?_, hentry⟩
    rw [hindexes.chained.seek_eq hkey]
    simp [hp]
  · obtain ⟨free, hfree⟩ := hindexes.exists_free (by
      have hpos := Nat.two_pow_pos ix.bits
      omega)
    obtain ⟨p, hp⟩ : ∃ p, seek (fun key => (hash key).toNat) (keyAt (s.entries.map Prod.fst) ix) key = some p :=
      exists_seek (.inl ((hindexes.keyAt_eq_none free).mpr hfree))
    have hzero : ix.cells p = 0 := by
      rcases ProbeTable.seek_taken hp with hnone | hsome
      · exact (hindexes.keyAt_eq_none p).mp hnone
      · exact absurd (List.mem_of_getElem? (Indexes.keyAt_some hsome).2) hmem
    exact .inr ⟨by simp [hp, hzero], hmem⟩

theorem physicalGet_eq (h : Sound s) (key : FactKey) :
    physicalGet env s key = some ((KeyTable.get key s.entries).getD (env.missing key.node)) := by
  rcases find_spec h key with ⟨i, fact, hfind, hentry⟩ | ⟨hfind, hnew⟩
  · simp [physicalGet, hfind, hentry, (KeyTable.at_place h.nodup hentry fact).2]
  · simp [physicalGet, hfind, KeyTable.get_new hnew]

theorem physicalStateGrow_keeps (s : FactState F) :
    (physicalStateGrow env s).2.entries = s.entries ∧ (physicalStateGrow env s).2.index = s.index := by
  unfold physicalStateGrow
  split
  · exact ⟨rfl, rfl⟩
  · split <;> exact ⟨rfl, rfl⟩

theorem Sound.congr (h : Sound s) (hentries : s'.entries = s.entries)
    (hindex : s'.index = s.index) : Sound s' := by
  refine ⟨?_, ?_⟩
  · rw [hentries, hindex]
    exact h.indexed
  · rw [hentries, hindex]
    exact h.unindexed

theorem growIndex_spec (h : Sound s) :
    ∃ ok s', growIndex env s = some (ok, s') ∧ Sound s' ∧ s'.entries = s.entries ∧
      (ok = true → ∃ ix, s'.index = some ix ∧ (s.entries.length + 1) * 2 ≤ 2 ^ ix.bits) := by
  unfold growIndex
  dsimp only
  split
  · obtain ⟨hentries, hindex⟩ := physicalStateGrow_keeps env s
    generalize physicalStateGrow env s = grown at hentries hindex
    obtain ⟨ok, s₁⟩ := grown
    cases ok with
    | false => exact ⟨false, s₁, rfl, h.congr hentries hindex, hentries, nofun⟩
    | true => ?_
    have hroom : (s.entries.length + 1) * 2 ≤ 2 ^ (s.index.elim 5 fun ix => ix.bits + 1) := by
      cases hix : s.index with
      | none => simp [h.unindexed hix]
      | some ix => ?_
      have hhalf := (h.indexed ix hix).2
      have hpos := Nat.two_pow_pos ix.bits
      simp only [Option.elim, Nat.pow_succ]
      omega
    dsimp only at hentries hindex ⊢
    rw [hentries, hindex]
    have hnodup : ([] ++ s.entries.map Prod.fst).Nodup := by simpa using h.nodup
    obtain ⟨ix, hall, hbits, hindexes⟩ :=
      (indexes_empty (s.index.elim 5 fun ix => ix.bits + 1)).insertAll hnodup (by
        simp only [List.nil_append, List.length_map, Index.empty]
        omega)
    rw [List.length_nil] at hall
    rw [hall]
    have hbits' : 2 ^ ix.bits = 2 ^ (s.index.elim 5 fun ix => ix.bits + 1) := by rw [hbits]; rfl
    refine ⟨true, { s₁ with entries := s.entries, index := some ix }, rfl, ⟨?_, nofun⟩, rfl,
      fun _ => ⟨ix, rfl, by omega⟩⟩
    rintro ix' ⟨⟩
    have hhalf : s.entries.length * 2 ≤ 2 ^ ix.bits := by omega
    exact ⟨hindexes, hhalf⟩
  · rename_i hroom
    refine ⟨true, s, rfl, h, rfl, fun _ => ?_⟩
    cases hix : s.index with
    | none => simp [hix] at hroom
    | some ix => exact ⟨ix, rfl, by simpa [hix] using hroom⟩

theorem growEntries_keeps (s : FactState F) :
    (growEntries env s).2.entries = s.entries ∧ (growEntries env s).2.index = s.index := by
  have hgrow := physicalStateGrow_keeps env s
  unfold growEntries
  split
  · generalize physicalStateGrow env s = grown at hgrow
    obtain ⟨_ | _, s₁⟩ := grown <;> exact hgrow
  · exact ⟨rfl, rfl⟩

theorem appendEntry_spec (h : Sound s) (hix : s.index = some ix)
    (hroom : (s.entries.length + 1) * 2 ≤ 2 ^ ix.bits) (hnew : key ∉ s.entries.map Prod.fst) (fact : F) :
    ∃ s', appendEntry s key fact = some s' ∧ Sound s' ∧ s'.entries = s.entries ++ [(key, fact)] := by
  obtain ⟨ix', hinsert, hbits, hindexes⟩ := (h.indexed ix hix).1.insert hnew (by
    rw [List.length_map]
    omega)
  rw [List.length_map] at hinsert
  refine ⟨{ s with entries := s.entries ++ [(key, fact)], index := some ix' },
    by simp [appendEntry, hix, hinsert], ⟨?_, nofun⟩, rfl⟩
  rintro ix'' ⟨⟩
  refine ⟨by simpa using hindexes, ?_⟩
  rw [hbits]
  simpa using hroom

/-- A put returns; it binds the key, or changes no entry. -/
theorem physicalPut_spec (h : Sound s) (key : FactKey) (fact : F) :
    ∃ ok s', physicalPut env s key fact = some (ok, s') ∧ Sound s' ∧
      s'.entries = if ok then KeyTable.set key fact s.entries else s.entries := by
  unfold physicalPut
  split
  · exact ⟨false, s, rfl, h, rfl⟩
  rcases find_spec h key with ⟨i, old, hfind, hentry⟩ | ⟨hfind, hnew⟩
  · have hset := (KeyTable.at_place h.nodup hentry fact).1
    have hkeys : (s.entries.set i (key, fact)).map Prod.fst = s.entries.map Prod.fst := by
      obtain ⟨hi, -⟩ := List.getElem?_eq_some_iff.mp hentry
      rw [List.map_set]
      refine List.ext_getElem? fun j => ?_
      by_cases hj : i = j
      · subst hj
        rw [List.getElem?_set_self (by simpa using hi), List.getElem?_map, hentry]
        rfl
      · rw [List.getElem?_set_ne hj]
    refine ⟨true, { s with entries := s.entries.set i (key, fact) }, by rw [hfind]; rfl, ?_, hset⟩
    refine ⟨fun ix hix => ?_, fun hix => ?_⟩
    · rw [hkeys, List.length_set]
      exact h.indexed ix hix
    · have hnil := h.unindexed hix
      simp [hnil] at hentry
  · rw [hfind, Option.bind_some]
    dsimp only
    split
    · exact ⟨false, _, rfl, h.congr rfl rfl, rfl⟩
    obtain ⟨ok, s₁, hgrow, h₁, hentries₁, hroom⟩ := growIndex_spec env h
    rw [hgrow, Option.bind_some]
    cases ok with
    | false => exact ⟨false, s₁, rfl, h₁, hentries₁⟩
    | true => ?_
    obtain ⟨ix, hix, hroom⟩ := hroom rfl
    obtain ⟨hentries₂, hindex₂⟩ := growEntries_keeps env s₁
    dsimp only
    generalize growEntries env s₁ = grown at hentries₂ hindex₂ ⊢
    obtain ⟨ok, s₂⟩ := grown
    have h₂ : Sound s₂ := h₁.congr hentries₂ hindex₂
    have hentries : s₂.entries = s.entries := hentries₂.trans hentries₁
    cases ok with
    | false => exact ⟨false, s₂, rfl, h₂, hentries⟩
    | true => ?_
    obtain ⟨s₃, happend, h₃, hentries₃⟩ := appendEntry_spec h₂ (hindex₂.trans hix)
      (by rw [hentries]; exact hroom) (by rw [hentries]; exact hnew) fact
    refine ⟨true, s₃, by dsimp only; rw [happend]; rfl, h₃, ?_⟩
    rw [hentries₃, hentries]
    exact (KeyTable.set_new hnew fact).symm

theorem get_set_update (key : FactKey) (fact : F) (entries : List (FactKey × F)) :
    (fun other => KeyTable.get other (KeyTable.set key fact entries)) =
      Function.update (fun other => KeyTable.get other entries) key (some fact) := by
  funext other
  rw [KeyTable.get_set, Function.update_apply]
  exact if_congr eq_comm rfl rfl

theorem run_spec (h : Sound s) (calls : List (Call F)) :
    ∃ trace s', run env s calls = some (trace, s') ∧ trace.map Prod.fst = calls ∧ Sound s' ∧
      AnswersBound env (fun key => KeyTable.get key s.entries) trace ∧
      bound (fun key => KeyTable.get key s.entries) trace = fun key => KeyTable.get key s'.entries := by
  induction calls generalizing s with
  | nil => exact ⟨[], s, rfl, rfl, h, trivial, rfl⟩
  | cons call calls ih =>
    cases call with
    | get key =>
      obtain ⟨trace, s', hrun, hcalls, h', hanswers, hbound⟩ := ih h
      refine ⟨(.get key, .found _) :: trace, s', ?_, by rw [List.map_cons, hcalls], h', ⟨rfl, hanswers⟩, hbound⟩
      simp [run, step, physicalGet_eq env h, hrun]
    | put key fact => ?_
    obtain ⟨ok, s₁, hput, h₁, hentries⟩ := physicalPut_spec env h key fact
    obtain ⟨trace, s', hrun, hcalls, h', hanswers, hbound⟩ := ih h₁
    refine ⟨(.put key fact, .stored ok) :: trace, s', ?_, by rw [List.map_cons, hcalls], h', ?_⟩
    · simp [run, step, hput, hrun]
    · cases ok with
      | false =>
        rw [hentries, if_neg Bool.false_ne_true] at hanswers hbound
        exact ⟨hanswers, hbound⟩
      | true =>
        rw [hentries, if_pos rfl, get_set_update] at hanswers hbound
        exact ⟨hanswers, hbound⟩

/-- Whatever allocations fail, every call returns, a `get` gives the fact of the last put
of its key that succeeded, and no key has two entries. -/
theorem physicalFacts_refine_map (calls : List (Call F)) :
    ∃ trace s, run env .initial calls = some (trace, s) ∧ trace.map Prod.fst = calls ∧
      AnswersBound env (fun _ => none) trace ∧
      (∀ key, physicalGet env s key =
        some ((bound (fun _ => none) trace key).getD (env.missing key.node))) ∧
      (s.entries.map Prod.fst).Nodup := by
  have hinitial : Sound (FactState.initial : FactState F) := ⟨nofun, fun _ => rfl⟩
  obtain ⟨trace, s, hrun, hcalls, h, hanswers, hbound⟩ := run_spec env hinitial calls
  refine ⟨trace, s, hrun, hcalls, hanswers, fun key => ?_, h.nodup⟩
  have hkey : bound (fun _ => none) trace key = KeyTable.get key s.entries := congrFun hbound key
  rw [physicalGet_eq env h, hkey]

end Fisics.Facts
