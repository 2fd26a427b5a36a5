import Fisics.CodeGen.SwitchDispatch

/-!
# Case labels and their switch

`analyzeStatementInternal` keeps a frame for each `switch` around a statement, with the
values its labels have had. There is room for a fixed number of frames; a `switch` without
a frame of its own still removes one behind its body. Values are compared as words of 64
bits, and a controlling type may be wider.
-/

namespace Fisics.Switch

open Word (wrap)
open List (append_assoc flatMap_cons length_append mem_map)

/-- `switchBits` and `switchIsUnsigned` of a promoted integer type. -/
structure SwitchType where
  bits : Nat
  isUnsigned : Bool
  positive : 0 < bits
  deriving DecidableEq

/-- What follows `case` has been evaluated; it may be no constant. -/
inductive LabelValue
  | default
  | constant (value : ConstEvalResult)
  | notConstant

structure Label where
  id : Nat
  value : LabelValue

/-- A controlling expression that is no integer has no type here. -/
inductive StmtKind
  | switch (type : Option SwitchType)
  | label (l : Label)
  | other

/-- A statement with the statements inside it, in the order they are analyzed: below a
label its body and the next case. -/
inductive Stmt
  | node (kind : StmtKind) (parts : List Stmt)

structure SwitchFrame where
  type : Option SwitchType
  values : List (BitVec 64)
  hasDefault : Bool
  deriving DecidableEq

/-- The frames, the top first; the labels reported; and for each `switch` the frames before
and behind it. -/
structure Analysis where
  frames : List SwitchFrame
  reports : List Label
  visits : List (List SwitchFrame × List SwitchFrame)

def switchStackMax : Nat := 32

def pushSwitchFrame (type : Option SwitchType) (frames : List SwitchFrame) : List SwitchFrame :=
  if switchStackMax ≤ frames.length then frames else ⟨type, [], false⟩ :: frames

def normalized (type : Option SwitchType) (value : ConstEvalResult) : BitVec 64 :=
  match type with
  | some t => normalizeSwitchCaseValue value t.bits t.isUnsigned
  | none => normalizeSwitchCaseValue value 0 value.isUnsigned

/-- A duplicate is reported and leaves the frame as it was. -/
def recordLabel (frame : SwitchFrame) (l : Label) : SwitchFrame × List Label :=
  match l.value with
  | .notConstant => (frame, [])
  | .default => if frame.hasDefault then (frame, [l]) else ({ frame with hasDefault := true }, [])
  | .constant value =>
    match switchFrameRecordValue frame.values (normalized frame.type value) with
    | some values => ({ frame with values := values }, [])
    | none => (frame, [l])

def recordAtTop (l : Label) : List SwitchFrame → List SwitchFrame × List Label
  | [] => ([], [])
  | frame :: rest => ((recordLabel frame l).1 :: rest, (recordLabel frame l).2)

mutual
def analyzeStatementInternal : Stmt → Analysis → Analysis
  | .node (.switch type) parts, st =>
    let body := analyzeAll parts { st with frames := pushSwitchFrame type st.frames }
    { body with
      frames := body.frames.tail
      visits := body.visits ++ [(st.frames, body.frames.tail)] }
  | .node (.label l) parts, st =>
    analyzeAll parts { st with
      frames := (recordAtTop l st.frames).1
      reports := st.reports ++ (recordAtTop l st.frames).2 }
  | .node .other parts, st => analyzeAll parts st
def analyzeAll : List Stmt → Analysis → Analysis
  | [], st => st
  | s :: rest, st => analyzeAll rest (analyzeStatementInternal s st)
end

def analyzeStatement (s : Stmt) : Analysis := analyzeStatementInternal s ⟨[], [], []⟩

-- The labels of a switch

mutual
/-- The labels that belong to the `switch` around a statement. -/
def Stmt.labels : Stmt → List Label
  | .node (.switch _) _ => []
  | .node (.label l) parts => l :: labelsAll parts
  | .node .other parts => labelsAll parts
def labelsAll : List Stmt → List Label
  | [] => []
  | s :: rest => s.labels ++ labelsAll rest
end

mutual
def Stmt.switches : Stmt → List (Option SwitchType × List Label)
  | .node (.switch type) parts => (type, labelsAll parts) :: switchesAll parts
  | .node (.label _) parts => switchesAll parts
  | .node .other parts => switchesAll parts
def switchesAll : List Stmt → List (Option SwitchType × List Label)
  | [] => []
  | s :: rest => s.switches ++ switchesAll rest
end

mutual
/-- How deep switches are nested. -/
def Stmt.nesting : Stmt → Nat
  | .node (.switch _) parts => nestingAll parts + 1
  | .node (.label _) parts => nestingAll parts
  | .node .other parts => nestingAll parts
def nestingAll : List Stmt → Nat
  | [] => 0
  | s :: rest => max s.nesting (nestingAll rest)
end

/-- Without an integer type each constant is converted to its own. -/
def convertedTo (type : Option SwitchType) (value : ConstEvalResult) : Int :=
  match type with
  | some t => wrap t.bits t.isUnsigned value.amount
  | none => wrap (if value.bitWidth = 0 then 64 else value.bitWidth) value.isUnsigned value.amount

/-- What two labels are compared by; `default` has a value of its own. -/
def labelKey (convert : ConstEvalResult → K) (l : Label) : Option (Option K) :=
  match l.value with
  | .default => some none
  | .constant value => some (some (convert value))
  | .notConstant => none

/-- The labels with the key of an earlier one. -/
def duplicates [DecidableEq K] (key : Label → Option K) (earlier : List Label) : List Label → List Label
  | [] => []
  | l :: rest =>
    (if (key l).isSome ∧ key l ∈ earlier.map key then [l] else []) ++ duplicates key (earlier ++ [l]) rest

/-- Each `switch` leaves the frames as they were, and what is reported are the labels whose
converted constant an earlier label of the same `switch` has, and repeated defaults. -/
def ChecksOwnLabels (s : Stmt) : Prop :=
  (∀ v ∈ (analyzeStatement s).visits, v.1 = v.2) ∧
    (analyzeStatement s).reports.Perm
      (s.switches.flatMap fun sw => duplicates (labelKey (convertedTo sw.1)) [] sw.2)

/-- Different values of one `switch` are different words. -/
def WordsSuffice (type : Option SwitchType) (labels : List Label) : Prop :=
  ∀ l ∈ labels, ∀ l' ∈ labels, labelKey (normalized type) l = labelKey (normalized type) l' →
    labelKey (convertedTo type) l = labelKey (convertedTo type) l'

-- One frame

def recordAll : List Label → List SwitchFrame → List SwitchFrame × List Label
  | [], frames => (frames, [])
  | l :: rest, frames =>
    let recorded := recordAtTop l frames
    ((recordAll rest recorded.1).1, recorded.2 ++ (recordAll rest recorded.1).2)

theorem recordAll_append (ls ls' : List Label) (frames : List SwitchFrame) :
    recordAll (ls ++ ls') frames =
      ((recordAll ls' (recordAll ls frames).1).1, (recordAll ls frames).2 ++
        (recordAll ls' (recordAll ls frames).1).2) := by
  induction ls generalizing frames with
  | nil => rfl
  | cons l ls ih => simp only [List.cons_append, recordAll, ih, append_assoc]

theorem recordAll_tail (ls : List Label) (frames : List SwitchFrame) :
    (recordAll ls frames).1.tail = frames.tail := by
  induction ls generalizing frames with
  | nil => rfl
  | cons l ls ih =>
    cases frames with
    | nil => exact ih []
    | cons frame rest => exact ih ((recordLabel frame l).1 :: rest)

theorem recordAll_length (ls : List Label) (frames : List SwitchFrame) :
    (recordAll ls frames).1.length = frames.length := by
  induction ls generalizing frames with
  | nil => rfl
  | cons l ls ih =>
    cases frames with
    | nil => exact ih []
    | cons frame rest => exact ih ((recordLabel frame l).1 :: rest)

/-- The keys that the frame has seen. -/
def SwitchFrame.Seen (frame : SwitchFrame) : Option (BitVec 64) → Prop
  | some v => v ∈ frame.values
  | none => frame.hasDefault = true

/-- The frame has seen these labels. -/
def Holds (frame : SwitchFrame) (earlier : List Label) : Prop :=
  ∀ k, frame.Seen k ↔ some k ∈ earlier.map (labelKey (normalized frame.type))

theorem Holds.extend (h : Holds frame earlier) (htype : frame'.type = frame.type)
    (hseen : ∀ k, frame'.Seen k ↔ frame.Seen k ∨ some k = labelKey (normalized frame.type) l) :
    Holds frame' (earlier ++ [l]) := by
  intro k
  rw [hseen, h k, htype, List.map_append, List.mem_append, List.map_singleton, List.mem_singleton]

theorem recordLabel_holds (h : Holds frame earlier) (l : Label) :
    (recordLabel frame l).1.type = frame.type ∧ Holds (recordLabel frame l).1 (earlier ++ [l]) ∧
      (recordLabel frame l).2 = duplicates (labelKey (normalized frame.type)) earlier [l] := by
  obtain ⟨id, value⟩ := l
  cases value with
  | notConstant => exact ⟨rfl, h.extend rfl fun k => by simp [recordLabel, labelKey], rfl⟩
  | default =>
    have hseen := h none
    simp only [recordLabel, duplicates, labelKey, ← hseen, SwitchFrame.Seen]
    by_cases hdefault : frame.hasDefault = true
    · refine ⟨by simp [hdefault], h.extend (by simp [hdefault]) fun k => ?_, by simp [hdefault]⟩
      cases k <;> simp [SwitchFrame.Seen, labelKey, hdefault]
    · refine ⟨by simp [hdefault], h.extend (by simp [hdefault]) fun k => ?_, by simp [hdefault]⟩
      rw [if_neg hdefault]
      cases k <;> simp [SwitchFrame.Seen, labelKey]
  | constant value =>
    have hseen := h (some (normalized frame.type value))
    simp only [recordLabel, switchFrameRecordValue, duplicates, labelKey, ← hseen, SwitchFrame.Seen]
    by_cases hmem : normalized frame.type value ∈ frame.values
    · refine ⟨by simp [hmem], h.extend (by simp [hmem]) fun k => ?_, by simp [hmem]⟩
      cases k <;> simp +contextual [SwitchFrame.Seen, labelKey, hmem]
    · refine ⟨by simp [hmem], h.extend (by simp [hmem]) fun k => ?_, by simp [hmem]⟩
      rw [if_neg hmem]
      cases k <;> simp [SwitchFrame.Seen, labelKey]

theorem recordAll_duplicates (h : Holds frame earlier) (ls : List Label) (rest : List SwitchFrame) :
    (recordAll ls (frame :: rest)).2 = duplicates (labelKey (normalized frame.type)) earlier ls := by
  induction ls generalizing frame earlier with
  | nil => rfl
  | cons l ls ih =>
    obtain ⟨htype, hholds, hreports⟩ := recordLabel_holds h l
    have hrest := ih hholds
    rw [htype] at hrest
    rw [recordAll, recordAtTop]
    rw [hrest, hreports, duplicates, duplicates, List.append_nil]
    rfl

theorem holds_new (type : Option SwitchType) : Holds ⟨type, [], false⟩ [] := by
  rintro (_ | v) <;> simp [SwitchFrame.Seen]

-- A run with room for all frames

/-- A run over statements with these labels and switches. -/
structure Checked (labels : List Label) (switches : List (Option SwitchType × List Label)) (st st' : Analysis) :
    Prop where
  frames : st'.frames = (recordAll labels st.frames).1
  reports : st'.reports.Perm (st.reports ++ (recordAll labels st.frames).2 ++
    switches.flatMap fun sw => duplicates (labelKey (normalized sw.1)) [] sw.2)
  visits : ∀ v ∈ st'.visits, v ∈ st.visits ∨ v.1 = v.2

theorem Checked.append (h : Checked ls sws st st') (h' : Checked ls' sws' st' st'') :
    Checked (ls ++ ls') (sws ++ sws') st st'' := by
  refine ⟨?_, ?_, fun v hv => ?_⟩
  · rw [h'.frames, h.frames, recordAll_append]
  · refine h'.reports.trans ?_
    rw [h.frames, recordAll_append, List.flatMap_append]
    refine ((h.reports.append_right _).append_right _).trans ?_
    simp only [append_assoc]
    refine (List.Perm.refl _).append ((List.Perm.refl _).append ?_)
    rw [← append_assoc, ← append_assoc]
    exact List.perm_append_comm.append_right _
  · rcases h'.visits v hv with hv | heq
    · exact h.visits v hv
    · exact .inr heq

mutual
theorem checked_stmt (s : Stmt) (st : Analysis) (h : st.frames.length + s.nesting ≤ switchStackMax) :
    Checked s.labels s.switches st (analyzeStatementInternal s st) := by
  cases s with
  | node kind parts =>
    cases kind with
    | switch type =>
      have hroom : ¬switchStackMax ≤ st.frames.length := by
        rw [Stmt.nesting] at h
        omega
      have hpush : pushSwitchFrame type st.frames = ⟨type, [], false⟩ :: st.frames := if_neg hroom
      have hbody := checked_all parts { st with frames := pushSwitchFrame type st.frames } (by
        rw [Stmt.nesting] at h
        rw [hpush, List.length_cons]
        omega)
      have htail : (analyzeAll parts { st with frames := pushSwitchFrame type st.frames }).frames.tail =
          st.frames := by
        rw [hbody.frames, recordAll_tail]
        exact congrArg List.tail hpush
      have hown : (recordAll (labelsAll parts) (pushSwitchFrame type st.frames)).2 =
          duplicates (labelKey (normalized type)) [] (labelsAll parts) := by
        rw [hpush]
        exact recordAll_duplicates (holds_new type) (labelsAll parts) st.frames
      refine ⟨htail, ?_, fun v hv => ?_⟩
      · have hreports := hbody.reports
        rw [hown, append_assoc] at hreports
        rw [Stmt.labels, Stmt.switches, recordAll, List.append_nil, flatMap_cons]
        exact hreports
      · rcases List.mem_append.mp hv with hv | hv
        · exact hbody.visits v hv
        · rw [List.mem_singleton.mp hv]
          exact .inr htail.symm
    | label l =>
      have hparts := checked_all parts { st with
        frames := (recordAtTop l st.frames).1
        reports := st.reports ++ (recordAtTop l st.frames).2 } (by
          have hlength := recordAll_length [l] st.frames
          exact hlength ▸ h)
      refine ⟨hparts.frames, ?_, hparts.visits⟩
      have hreports := hparts.reports
      rw [append_assoc st.reports] at hreports
      exact hreports
    | other => exact checked_all parts st h
theorem checked_all (ss : List Stmt) (st : Analysis) (h : st.frames.length + nestingAll ss ≤ switchStackMax) :
    Checked (labelsAll ss) (switchesAll ss) st (analyzeAll ss st) := by
  cases ss with
  | nil => exact ⟨rfl, by simp [labelsAll, switchesAll, recordAll, analyzeAll], fun _ => .inl⟩
  | cons s rest => ?_
  rw [nestingAll] at h
  have hs := checked_stmt s st (by omega)
  have hrest := checked_all rest (analyzeStatementInternal s st) (by
    rw [hs.frames, recordAll_length]
    omega)
  exact hs.append hrest
end

-- A run without room

/-- Where all frames are restored, there is room. -/
structure Restores (nesting : Nat) (st st' : Analysis) : Prop where
  visits : ∀ v ∈ st.visits, v ∈ st'.visits
  room : (∀ v ∈ st'.visits, v.1 = v.2) → st.frames.length ≤ switchStackMax →
    st'.frames.length = st.frames.length ∧ st.frames.length + nesting ≤ switchStackMax

mutual
theorem restores_stmt (s : Stmt) (st : Analysis) : Restores s.nesting st (analyzeStatementInternal s st) := by
  cases s with
  | node kind parts =>
    cases kind with
    | switch type =>
      have hbody := restores_all parts { st with frames := pushSwitchFrame type st.frames }
      refine ⟨fun v hv => List.mem_append_left _ (hbody.visits v hv), fun hall hlength => ?_⟩
      have hown : st.frames = _ := hall _ (List.mem_append_right _ (List.mem_singleton_self _))
      have hpush : (pushSwitchFrame type st.frames).length ≤ switchStackMax := by
        rw [pushSwitchFrame]
        split
        · exact hlength
        rw [List.length_cons]
        omega
      obtain ⟨hframes, hroom⟩ : _ = (pushSwitchFrame type st.frames).length ∧
          (pushSwitchFrame type st.frames).length + nestingAll parts ≤ switchStackMax :=
        hbody.room (fun v hv => hall v (List.mem_append_left _ hv)) hpush
      have htail := congrArg List.length hown
      rw [List.length_tail, hframes] at htail
      refine ⟨(congrArg List.length hown).symm, ?_⟩
      rw [Stmt.nesting]
      rw [pushSwitchFrame] at htail hroom
      -- without a frame of its own the switch removes one of those before it
      split at htail
      · have hpositive : switchStackMax = 32 := rfl
        omega
      rename_i hlt
      rw [if_neg hlt, List.length_cons] at hroom
      omega
    | label l =>
      have hparts := restores_all parts { st with
        frames := (recordAtTop l st.frames).1
        reports := st.reports ++ (recordAtTop l st.frames).2 }
      have hlength := recordAll_length [l] st.frames
      refine ⟨hparts.visits, fun hall hroom => ?_⟩
      obtain ⟨hframes, hparts⟩ := hparts.room hall (hlength.trans_le hroom)
      exact ⟨hframes.trans hlength, hlength ▸ hparts⟩
    | other => exact restores_all parts st
theorem restores_all (ss : List Stmt) (st : Analysis) : Restores (nestingAll ss) st (analyzeAll ss st) := by
  cases ss with
  | nil => exact ⟨fun _ => id, fun _ hlength => ⟨rfl, hlength⟩⟩
  | cons s rest => ?_
  have hs := restores_stmt s st
  have hrest := restores_all rest (analyzeStatementInternal s st)
  refine ⟨fun v hv => hrest.visits v (hs.visits v hv), fun hall hlength => ?_⟩
  obtain ⟨hframes, hroom⟩ := hs.room (fun v hv => hall v (hrest.visits v hv)) hlength
  obtain ⟨hframes', hroom'⟩ := hrest.room hall (hframes ▸ hlength)
  refine ⟨hframes'.trans hframes, ?_⟩
  rw [nestingAll]
  omega
end

-- Words and values

theorem normalized_eq (type : Option SwitchType) (value : ConstEvalResult) :
    normalized type value = BitVec.ofInt 64 (convertedTo type value) := by
  have hword {bits : Nat} (hpositive : 0 < bits) (isUnsigned : Bool) :
      normalizeSwitchCaseValue value bits isUnsigned = BitVec.ofInt 64 (wrap bits isUnsigned value.amount) := by
    rw [normalizeSwitchCaseValue_eq value hpositive]
    split_ifs with hwide
    · rw [Word.ofInt_wrap_of_le hwide, ConstEvalResult.amount, Word.ofInt_read]
    · rfl
  cases type with
  | some t => exact hword t.positive t.isUnsigned
  | none => ?_
  have hown : normalized none value =
      normalizeSwitchCaseValue value (if value.bitWidth = 0 then 64 else value.bitWidth) value.isUnsigned := by
    by_cases hzero : value.bitWidth = 0 <;> simp [normalized, normalizeSwitchCaseValue, hzero]
  rw [hown, hword (by split <;> omega)]
  rfl

theorem normalizedKey_eq (type : Option SwitchType) (l : Label) :
    labelKey (normalized type) l = (labelKey (convertedTo type) l).map (Option.map (BitVec.ofInt 64)) := by
  obtain ⟨id, value⟩ := l
  cases value <;> simp [labelKey, normalized_eq]

section
variable [DecidableEq K] [DecidableEq K'] {key : Label → Option K} {key' : Label → Option K'}

/-- With a coarser key no fewer labels are duplicates, and with as many of them the keys
tell the same labels apart. -/
theorem duplicates_coarser (hcoarser : ∀ l l', key' l = key' l' → key l = key l')
    (hnone : ∀ l, key l = none ↔ key' l = none) (earlier ls : List Label) :
    (duplicates key' earlier ls).length ≤ (duplicates key earlier ls).length ∧
      ((duplicates key' earlier ls).length = (duplicates key earlier ls).length →
        (∀ l ∈ earlier, ∀ l' ∈ earlier, key l = key l' → key' l = key' l') →
        ∀ l ∈ earlier ++ ls, ∀ l' ∈ earlier ++ ls, key l = key l' → key' l = key' l') := by
  induction ls generalizing earlier with
  | nil => exact ⟨Nat.le_refl _, fun _ h => by rwa [List.append_nil]⟩
  | cons l ls ih =>
    obtain ⟨hle, hrest⟩ := ih (earlier ++ [l])
    have himp : (key' l).isSome ∧ key' l ∈ earlier.map key' → (key l).isSome ∧ key l ∈ earlier.map key := by
      rintro ⟨hsome, hmem⟩
      obtain ⟨e, he, heq⟩ := mem_map.mp hmem
      refine ⟨?_, mem_map.mpr ⟨e, he, hcoarser e l heq⟩⟩
      rw [Option.isSome_iff_ne_none] at hsome ⊢
      exact mt (hnone l).mp hsome
    -- the keys still agree when the next label is taken in
    have hextend (hagree : ∀ l ∈ earlier, ∀ l' ∈ earlier, key l = key l' → key' l = key' l')
        (hl : ∀ e ∈ earlier, key e = key l → key' e = key' l)
        (heq : (duplicates key' (earlier ++ [l]) ls).length = (duplicates key (earlier ++ [l]) ls).length) :
        ∀ a ∈ earlier ++ l :: ls, ∀ b ∈ earlier ++ l :: ls, key a = key b → key' a = key' b := by
      have hboth : ∀ a ∈ earlier ++ [l], ∀ b ∈ earlier ++ [l], key a = key b → key' a = key' b := by
        simp only [List.mem_append, List.mem_singleton]
        rintro a (ha | rfl) b (hb | rfl) hab
        · exact hagree a ha b hb hab
        · exact hl a ha hab
        · exact (hl b hb hab.symm).symm
        · rfl
      have hall := hrest heq hboth
      rwa [append_assoc] at hall
    rw [duplicates, duplicates, length_append, length_append]
    by_cases hcoarse : (key l).isSome ∧ key l ∈ earlier.map key
    · rw [if_pos hcoarse]
      by_cases hfine : (key' l).isSome ∧ key' l ∈ earlier.map key'
      · rw [if_pos hfine]
        refine ⟨Nat.add_le_add_left hle _, fun heq hagree => hextend hagree (fun e he hel => ?_) (by omega)⟩
        obtain ⟨e', he', heq'⟩ := mem_map.mp hfine.2
        exact (hagree e he e' he' (hel.trans (hcoarser e' l heq').symm)).trans heq'
      · rw [if_neg hfine, List.length_singleton, List.length_nil]
        exact ⟨by omega, fun heq => by omega⟩
    · rw [if_neg hcoarse, if_neg (mt himp hcoarse)]
      refine ⟨Nat.add_le_add_left hle _, fun heq hagree => hextend hagree (fun e he hel => ?_) (by omega)⟩
      cases hkey : key l with
      | none =>
        rw [(hnone l).mp hkey]
        exact (hnone e).mp (hel.trans hkey)
      | some k => exact absurd ⟨by rw [hkey]; rfl, mem_map.mpr ⟨e, he, hel⟩⟩ hcoarse

theorem duplicates_congr (h : ∀ l ∈ earlier ++ ls, ∀ l' ∈ earlier ++ ls, key l = key l' ↔ key' l = key' l')
    (hnone : ∀ l, key l = none ↔ key' l = none) : duplicates key earlier ls = duplicates key' earlier ls := by
  induction ls generalizing earlier with
  | nil => rfl
  | cons l ls ih =>
    have hsome : (key l).isSome = true ↔ (key' l).isSome = true := by
      rw [Option.isSome_iff_ne_none, Option.isSome_iff_ne_none, not_iff_not]
      exact hnone l
    have hmem : key l ∈ earlier.map key ↔ key' l ∈ earlier.map key' := by
      rw [mem_map, mem_map]
      refine exists_congr fun e => and_congr_right fun he => ?_
      exact h e (List.mem_append_left _ he) l (List.mem_append_right _ List.mem_cons_self)
    rw [duplicates, duplicates, ih (by rwa [append_assoc])]
    simp only [hsome, hmem]

end

theorem length_eq_of_flatMap {f g : α → List β} {l : List α} (hle : ∀ a, (g a).length ≤ (f a).length)
    (h : (l.flatMap f).length = (l.flatMap g).length) : ∀ a ∈ l, (g a).length = (f a).length := by
  have hsum (l : List α) : (l.flatMap g).length ≤ (l.flatMap f).length := by
    induction l with
    | nil => exact Nat.le_refl _
    | cons a l ih =>
      rw [flatMap_cons, flatMap_cons, length_append, length_append]
      exact Nat.add_le_add (hle a) ih
  induction l with
  | nil => simp
  | cons a l ih =>
    rw [flatMap_cons, flatMap_cons, length_append, length_append] at h
    have ha := hle a
    have hl := hsum l
    rw [List.forall_mem_cons]
    exact ⟨by omega, ih (by omega)⟩

theorem normalizedKey_none (type : Option SwitchType) (l : Label) :
    labelKey (normalized type) l = none ↔ labelKey (convertedTo type) l = none := by
  rw [normalizedKey_eq, Option.map_eq_none_iff]

theorem normalizedKey_coarser (type : Option SwitchType) (l l' : Label)
    (h : labelKey (convertedTo type) l = labelKey (convertedTo type) l') :
    labelKey (normalized type) l = labelKey (normalized type) l' := by
  rw [normalizedKey_eq, normalizedKey_eq, h]

/-- Labels are checked against their own `switch` exactly where there is a frame for each,
and no two labels of one differ only above 64 bits. -/
theorem checksOwnLabels_iff (s : Stmt) :
    ChecksOwnLabels s ↔ s.nesting ≤ switchStackMax ∧ ∀ sw ∈ s.switches, WordsSuffice sw.1 sw.2 := by
  have hreports (hroom : s.nesting ≤ switchStackMax) :
      (analyzeStatement s).reports.Perm
        (s.switches.flatMap fun sw => duplicates (labelKey (normalized sw.1)) [] sw.2) := by
    have hrun := (checked_stmt s ⟨[], [], []⟩ (by simpa using hroom)).reports
    have hoff (ls : List Label) : (recordAll ls []).2 = [] := by
      induction ls with
      | nil => rfl
      | cons l ls ih => exact ih
    rw [hoff] at hrun
    exact hrun
  constructor
  · rintro ⟨hvisits, hperm⟩
    have hroom : s.nesting ≤ switchStackMax := by
      have hroom := ((restores_stmt s ⟨[], [], []⟩).room hvisits (Nat.zero_le _)).2
      simpa using hroom
    refine ⟨hroom, fun sw hsw => ?_⟩
    have hcoarser (sw : Option SwitchType × List Label) :=
      duplicates_coarser (normalizedKey_coarser sw.1) (normalizedKey_none sw.1) [] sw.2
    have hlength := length_eq_of_flatMap (fun sw => (hcoarser sw).1)
      ((hreports hroom).symm.trans hperm).length_eq sw hsw
    exact (hcoarser sw).2 hlength (fun l hl => by cases hl)
  · rintro ⟨hroom, hwords⟩
    refine ⟨fun v hv => ?_, (hreports hroom).trans (List.Perm.of_eq ?_)⟩
    · exact ((checked_stmt s ⟨[], [], []⟩ (by simpa using hroom)).visits v hv).resolve_left List.not_mem_nil
    · refine List.flatMap_congr fun sw hsw => duplicates_congr (fun l hl l' hl' => ?_) (normalizedKey_none sw.1)
      exact ⟨hwords sw hsw l hl l' hl', normalizedKey_coarser sw.1 l l'⟩

def switchAround (parts : List Stmt) : Stmt := .node (.switch (some ⟨32, false, by decide⟩)) parts

def defaultLabel (id : Nat) : Stmt := .node (.label ⟨id, .default⟩) []

/-- One `switch` too many: its only label is taken for one of the `switch` around it. -/
def tooDeep : Stmt :=
  Nat.repeat (fun s => switchAround [s]) 31 (switchAround [defaultLabel 0, switchAround [defaultLabel 1]])

set_option maxRecDepth 2000 in
theorem tooDeep_unchecked : ¬ChecksOwnLabels tooDeep := by
  rintro ⟨hvisits, -⟩
  have hroom := ((restores_stmt tooDeep ⟨[], [], []⟩).room hvisits (Nat.zero_le _)).2
  have hnesting : tooDeep.nesting = 33 := rfl
  exact absurd hroom (by decide)

-- What the checker accepts

/-- What the dispatch takes for a label, where there is a constant. -/
def LabelValue.ofCase : Option ConstEvalResult → LabelValue
  | some value => .constant value
  | none => .default

theorem duplicates_nil [DecidableEq K] {key : Label → Option K} (h : duplicates key earlier ls = []) :
    (ls.filterMap key).Nodup ∧ ∀ k ∈ ls.filterMap key, some k ∉ earlier.map key := by
  induction ls generalizing earlier with
  | nil => simp
  | cons l ls ih =>
    obtain ⟨hl, hrest⟩ := List.append_eq_nil_iff.mp h
    obtain ⟨hnodup, hfresh⟩ := ih hrest
    rw [List.map_append] at hfresh
    have hearlier : ∀ k ∈ ls.filterMap key, some k ∉ earlier.map key := fun k hk hmem =>
      hfresh k hk (List.mem_append_left _ hmem)
    cases hkey : key l with
    | none =>
      rw [List.filterMap_cons_none hkey]
      exact ⟨hnodup, hearlier⟩
    | some k => ?_
    have hnew : some k ∉ earlier.map key := by simpa [hkey] using hl
    have hlater : k ∉ ls.filterMap key := fun hk => hfresh k hk (by simp [hkey])
    rw [List.filterMap_cons_some hkey, List.forall_mem_cons]
    exact ⟨List.nodup_cons.mpr ⟨hlater, hnodup⟩, hnew, hearlier⟩

theorem signExtend_eq (hw : w ≤ 64) (constant : ConstEvalResult) :
    constant.value.signExtend w = BitVec.ofInt w constant.amount :=
  calc constant.value.signExtend w = BitVec.ofInt w (Word.read false constant.value) := rfl
    _ = constant.value.setWidth w := Word.ofInt_read_of_le hw false _
    _ = BitVec.ofInt w constant.amount := (Word.ofInt_read_of_le hw _ _).symm

/-- Constants that the checker tells apart are different words of the condition's width. -/
theorem entries_distinct {t : SwitchType} {entries : Labels} (hw : t.bits ≤ 64)
    (hentries : labels.map (·.value) = entries.map .ofCase)
    (h : duplicates (labelKey (normalized (some t))) [] labels = []) :
    ((entries.filterMap id).map fun constant => constant.value.signExtend t.bits).Nodup := by
  have hwords : (entries.filterMap id).map (normalized (some t)) =
      (labels.filterMap (labelKey (normalized (some t)))).filterMap id := by
    have hkeys : labels.filterMap (labelKey (normalized (some t))) =
        (labels.map (·.value)).filterMap fun value => labelKey (normalized (some t)) ⟨0, value⟩ := by
      rw [List.filterMap_map]
      rfl
    rw [hkeys, hentries, List.filterMap_map, List.map_filterMap, List.filterMap_filterMap]
    refine List.filterMap_congr fun c _ => ?_
    cases c <;> rfl
  have hnodup := (duplicates_nil h).1.filterMap (f := id) fun a b c ha hb => ha.trans hb.symm
  rw [← hwords, List.Nodup, List.pairwise_map] at hnodup
  refine List.pairwise_map.mpr (hnodup.imp fun hne hsame => hne ?_)
  rw [signExtend_eq hw, signExtend_eq hw] at hsame
  rw [normalized_eq, normalized_eq, convertedTo, convertedTo, Word.wrap_eq_read, hsame, ← Word.wrap_eq_read]

/-- In a tree that the checker accepts, every `switch` on a type that is its own promotion branches to the
case that C selects, unless its case constants lie too far apart for the test of density. -/
theorem accepted_dispatches {entries : Labels} (s : Stmt) (hroom : s.nesting ≤ switchStackMax)
    (haccepted : (analyzeStatement s).reports = []) (hswitch : (some t, labels) ∈ s.switches)
    (hentries : labels.map (·.value) = entries.map .ofCase) (hwidth : 32 ≤ t.bits ∧ t.bits ≤ 64)
    (hspan : ∀ a ∈ cutValues t.bits entries, ∀ b ∈ cutValues t.bits entries, b - a < 2 ^ 63 - 1)
    (condition : BitVec t.bits) :
    codegenSwitch t.bits entries condition = some (selectedTarget t.bits t.isUnsigned entries condition) := by
  have hreports := (checked_stmt s ⟨[], [], []⟩ (by simpa using hroom)).reports
  rw [show (analyzeStatementInternal s ⟨[], [], []⟩).reports = [] from haccepted] at hreports
  have hnone := (List.append_eq_nil_iff.mp hreports.nil_eq.symm).2
  have hdistinct := entries_distinct hwidth.2 hentries (List.flatMap_eq_nil_iff.mp hnone _ hswitch)
  rw [codegenSwitch_eq, isDense_eq, if_pos hspan, Option.bind_some, caseEntries_constVal,
    if_neg fun h => h.2 hdistinct]
  refine congrArg some ((targets_iff _ _ _).mpr (findsSelected_iff.mpr fun constant hconstant => ?_) condition)
  rw [if_neg (Nat.not_lt.mpr hwidth.2)]
  have hsome : ((entries.filterMap id).find? fun c =>
      c.value.signExtend t.bits == constant.value.signExtend t.bits).isSome :=
    List.find?_isSome.mpr ⟨constant, hconstant, beq_self_eq_true _⟩
  obtain ⟨first, hfirst⟩ := Option.isSome_iff_exists.mp hsome
  refine ⟨first, hfirst, ?_⟩
  rw [Fits, converted_wide hwidth.1, signExtend_eq hwidth.2]

/-- `switch (i) { case 1: default: case -1: }` -/
theorem accepted_dispatches_negative :
    codegenSwitch 32 [some (makeConst 1), none, some (makeConst (-1))] (-1) = some (.label 2) :=
  (accepted_dispatches (t := ⟨32, false, by decide⟩)
    (switchAround [.node (.label ⟨0, .constant (makeConst 1)⟩) [], defaultLabel 1,
      .node (.label ⟨2, .constant (makeConst (-1))⟩) []])
    (by decide) rfl List.mem_cons_self rfl (by decide) (by decide) (-1)).trans
    (by decide)

end Fisics.Switch
