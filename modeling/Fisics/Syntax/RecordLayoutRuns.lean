import Fisics.Syntax.RecordLayout

/-!
# Runs of the record layout

Without its table a record is laid out by laying out what it contains, to some depth.
A call of `layout_struct_union` leaves no mark behind, keeps what was laid out before,
and its layout is the one without the table: where it has none, the record has none at
any depth.
-/

namespace Fisics.Records

open MemoCall (Calls)

-- Layouts without a table

def answers (layouts : TagKey → Option (Nat × Nat)) : Query → Option (Nat × Nat)
  | .record ref => layouts ref.key
  | .endless => none

def laidOut (p : Program) (definitions : TagKey → Option RecordDefinition)
    (layouts : TagKey → Option (Nat × Nat)) (key : TagKey) : Option (Nat × Nat) :=
  (definitions key).bind fun d =>
    ((layoutRecord p key.kind d.body).result (answers layouts)).map
      fun layout => (layout.size, layout.align)

def recordLayout (p : Program) (known : TagKey → Option (Nat × Nat))
    (definitions : TagKey → Option RecordDefinition) : (depth : Nat) → TagKey → Option (Nat × Nat)
  | 0, key => known key
  | depth + 1, key => (known key).or (laidOut p definitions (recordLayout p known definitions depth) key)

theorem answers_mono (h : ∀ key l, layouts key = some l → layouts' key = some l) (q : Query)
    (l : Nat × Nat) (hq : answers layouts q = some l) : answers layouts' q = some l := by
  cases q with
  | record ref => exact h _ _ hq
  | endless => cases hq

theorem laidOut_mono (hdefinitions : ∀ key d, definitions key = some d → definitions' key = some d)
    (hlayouts : ∀ key l, layouts key = some l → layouts' key = some l)
    (h : laidOut p definitions layouts key = some l) : laidOut p definitions' layouts' key = some l := by
  obtain ⟨d, hd, hrest⟩ := Option.bind_eq_some_iff.mp h
  obtain ⟨layout, hrun, rfl⟩ := Option.map_eq_some_iff.mp hrest
  rw [laidOut, hdefinitions _ _ hd, Option.bind_some, Calls.result_mono (answers_mono hlayouts) _ hrun]
  rfl

theorem recordLayout_mono (h : ∀ key d, definitions key = some d → definitions' key = some d)
    (hlayout : recordLayout p known definitions depth key = some l) :
    recordLayout p known definitions' depth key = some l := by
  induction depth generalizing key l with
  | zero => exact hlayout
  | succ depth ih =>
    rw [recordLayout] at hlayout ⊢
    cases hknown : known key with
    | some l' => rwa [hknown] at hlayout
    | none =>
      rw [hknown, Option.none_or] at hlayout
      exact laidOut_mono h (fun _ _ => ih) hlayout

theorem recordLayout_deeper (hlayout : recordLayout p known definitions depth key = some l) :
    recordLayout p known definitions (depth + 1) key = some l := by
  induction depth generalizing key l with
  | zero =>
    have hknown : known key = some l := hlayout
    rw [recordLayout, hknown, Option.some_or]
  | succ depth ih =>
    rw [recordLayout] at hlayout ⊢
    cases hknown : known key with
    | some l' => rwa [hknown] at hlayout
    | none =>
      rw [hknown, Option.none_or] at hlayout
      exact laidOut_mono (fun _ _ h => h) (fun _ _ => ih) hlayout

-- The table

@[simp] theorem update_apply (tags : Tags) (key k : TagKey) (change : TagRecord → TagRecord) :
    tags.update key change k = if k = key then (tags key).map change else tags k := by
  unfold Tags.update
  cases h : tags key with
  | none => ?_
  | some record =>
    by_cases hk : k = key <;> simp [Tags.set, hk]
  by_cases hk : k = key
  · subst hk
    simp [h]
  · simp [hk]

def definitionOf (p : Program) (tags : Tags) (key : TagKey) : Option RecordDefinition :=
  (ccTagDefinition tags key).bind fun id => p.definitions[id]?

/-- A tag without a definition has nothing else either. -/
def WellFormed (tags : Tags) : Prop :=
  ∀ key record, tags key = some record → record.isDefined = false →
    record.definition = none ∧ record.layout = none ∧ record.computingLayout = false

/-- What calls leave as it is: marks, definitions and layouts. -/
structure Later (tags tags' : Tags) : Prop where
  marks : ∀ key, ccTagIsComputing tags' key = ccTagIsComputing tags key
  definitions : ∀ key place, ccTagDefinition tags key = some place → ccTagDefinition tags' key = some place
  layouts : ∀ key l, ccGetTagLayout tags key = some l → ccGetTagLayout tags' key = some l

theorem Later.refl (tags : Tags) : Later tags tags := ⟨fun _ => rfl, fun _ _ h => h, fun _ _ h => h⟩

theorem Later.trans (h : Later s t) (h' : Later t u) : Later s u :=
  ⟨fun key => (h'.marks key).trans (h.marks key),
    fun key place hplace => h'.definitions key place (h.definitions key place hplace),
    fun key l hl => h'.layouts key l (h.layouts key l hl)⟩

theorem Later.definitionOf (h : Later tags tags') (p : Program) (key : TagKey) (d : RecordDefinition)
    (hd : definitionOf p tags key = some d) : definitionOf p tags' key = some d := by
  obtain ⟨place, hplace, hget⟩ := Option.bind_eq_some_iff.mp hd
  rw [Records.definitionOf, h.definitions key place hplace]
  exact hget

-- Marks

theorem isComputing_mark (tags : Tags) (key k : TagKey) (computing : Bool) :
    ccTagIsComputing (ccTagMarkComputing tags key computing) k =
      if k = key then (tags key).isSome && computing else ccTagIsComputing tags k := by
  by_cases hk : k = key
  · subst hk
    cases h : tags k <;> simp [ccTagIsComputing, ccTagMarkComputing, h]
  · simp [ccTagIsComputing, ccTagMarkComputing, hk]

@[simp] theorem definition_mark (tags : Tags) (key k : TagKey) (computing : Bool) :
    ccTagDefinition (ccTagMarkComputing tags key computing) k = ccTagDefinition tags k := by
  by_cases hk : k = key
  · subst hk
    cases h : tags k <;> simp [ccTagDefinition, ccTagMarkComputing, h]
  · simp [ccTagDefinition, ccTagMarkComputing, hk]

@[simp] theorem layout_mark (tags : Tags) (key k : TagKey) (computing : Bool) :
    ccGetTagLayout (ccTagMarkComputing tags key computing) k = ccGetTagLayout tags k := by
  by_cases hk : k = key
  · subst hk
    cases h : tags k <;> simp [ccGetTagLayout, ccTagMarkComputing, h]
  · simp [ccGetTagLayout, ccTagMarkComputing, hk]

@[simp] theorem definitionOf_mark (p : Program) (tags : Tags) (key : TagKey) (computing : Bool) :
    definitionOf p (ccTagMarkComputing tags key computing) = definitionOf p tags := by
  funext k
  simp [definitionOf]

theorem mark_unmark (h : ccTagIsComputing tags key = false) :
    ccTagMarkComputing (ccTagMarkComputing tags key true) key false = tags := by
  funext k
  by_cases hk : k = key
  · subst hk
    cases hrec : tags k with
    | none => simp [ccTagMarkComputing, hrec]
    | some record =>
      have hfalse : record.computingLayout = false := by simpa [ccTagIsComputing, hrec] using h
      cases record
      simp_all [ccTagMarkComputing]
  · simp [ccTagMarkComputing, hk]

theorem WellFormed.mark (h : WellFormed tags) (hdef : ccTagDefinition tags key = some place)
    (computing : Bool) :
    WellFormed (ccTagMarkComputing tags key computing) := by
  intro k record hrecord hundefined
  by_cases hk : k = key
  · subst hk
    cases hold : tags k with
    | none => simp [ccTagMarkComputing, hold] at hrecord
    | some old => ?_
    simp only [ccTagMarkComputing, update_apply, if_pos, hold, Option.map_some, Option.some.injEq] at hrecord
    subst hrecord
    have hnone := (h k old hold hundefined).1
    simp [ccTagDefinition, hold, hnone] at hdef
  · simp only [ccTagMarkComputing, update_apply, if_neg hk] at hrecord
    exact h k record hrecord hundefined

-- Definitions and layouts that are entered

structure Entered (tags tags' : Tags) : Prop where
  wellFormed : WellFormed tags'
  marks : ∀ key, ccTagIsComputing tags' key = ccTagIsComputing tags key
  definitions : ∀ key place, ccTagDefinition tags key = some place → ccTagDefinition tags' key = some place
  layouts : ∀ key, ccGetTagLayout tags' key = ccGetTagLayout tags key

theorem Entered.refl (h : WellFormed tags) : Entered tags tags :=
  ⟨h, fun _ => rfl, fun _ _ h => h, fun _ => rfl⟩

theorem Entered.later (h : Entered tags tags') : Later tags tags' :=
  ⟨h.marks, h.definitions, fun key _ hl => (h.layouts key).trans hl⟩

theorem set_entered (h : WellFormed tags) (hmark : record.computingLayout = ccTagIsComputing tags key)
    (hdefinition : ∀ place, ccTagDefinition tags key = some place → record.definition = some place)
    (hlayout : record.layout = ccGetTagLayout tags key)
    (hdefined : record.isDefined = false →
      record.definition = none ∧ record.layout = none ∧ record.computingLayout = false) :
    Entered tags (tags.set key record) := by
  have hat : ∀ k, tags.set key record k = if k = key then some record else tags k := fun _ => rfl
  refine ⟨fun k record' hk hundefined => ?_, fun k => ?_, fun k place hk => ?_, fun k => ?_⟩
  · rw [hat] at hk
    split at hk
    · cases hk
      exact hdefined hundefined
    · exact h k record' hk hundefined
  · by_cases hkey : k = key
    · subst hkey
      rw [← hmark, ccTagIsComputing, hat, if_pos rfl]
      rfl
    · simp [ccTagIsComputing, hat, hkey]
  · by_cases hkey : k = key
    · subst hkey
      simpa [ccTagDefinition, hat] using hdefinition place hk
    · simpa [ccTagDefinition, hat, hkey] using hk
  · by_cases hkey : k = key
    · subst hkey
      rw [← hlayout, ccGetTagLayout, hat, if_pos rfl]
      rfl
    · simp [ccGetTagLayout, hat, hkey]

theorem ccAddTag_entered (h : WellFormed tags) (key : TagKey) : Entered tags (ccAddTag tags key) := by
  unfold ccAddTag
  cases hrecord : tags key with
  | none => ?_
  | some record => exact .refl h
  refine set_entered h ?_ (fun place hplace => ?_) ?_ (fun _ => ⟨rfl, rfl, rfl⟩)
  · simp [ccTagIsComputing, hrecord]
  · simp [ccTagDefinition, hrecord] at hplace
  · simp [ccGetTagLayout, hrecord]

theorem ccDefineTag_entered (h : WellFormed tags) (key : TagKey) (fingerprint : Nat) (place : Option Nat) :
    Entered tags (ccDefineTag tags key fingerprint place).2 := by
  unfold ccDefineTag
  cases hrecord : tags key with
  | none =>
    refine set_entered h ?_ (fun place' hplace => ?_) ?_ nofun
    · simp [ccTagIsComputing, hrecord]
    · simp [ccTagDefinition, hrecord] at hplace
    · simp [ccGetTagLayout, hrecord]
  | some record =>
    rw [Option.getD_some]
    cases hdefined : record.isDefined with
    | true =>
      simp only [hdefined, if_true]
      by_cases hsame : record.fingerprint = fingerprint
      · simp only [if_pos hsame]
        refine set_entered h ?_ (fun place' hplace => ?_) ?_ nofun
        · simp [ccTagIsComputing, hrecord]
        · simp only [ccTagDefinition, hrecord, Option.bind_some] at hplace
          simp [hplace]
        · simp [ccGetTagLayout, hrecord]
      · simp only [if_neg hsame]
        exact .refl h
    | false =>
      obtain ⟨hdefinition, hlayout, hmark⟩ := h key record hrecord hdefined
      simp only [hdefined, Bool.false_eq_true, if_false]
      refine set_entered h ?_ (fun place' hplace => ?_) ?_ nofun
      · simp [ccTagIsComputing, hrecord, hmark]
      · simp [ccTagDefinition, hrecord, hdefinition] at hplace
      · simp [ccGetTagLayout, hrecord, hlayout]

theorem enterInline_entered (h : WellFormed tags) (p : Program) (ref : RecordRef) :
    Entered tags (enterInline p ref tags) := by
  unfold enterInline
  split
  · exact .refl h
  split
  · exact .refl h
  split
  · exact ccDefineTag_entered h _ _ _
  · exact .refl h

def closed (tags : Tags) (key : TagKey) (layout : StructLayout) : Tags :=
  ccTagMarkComputing
    (ccSetTagFieldLayouts (ccSetTagLayout tags key layout.size layout.align) key layout.fields) key false

theorem closed_apply (tags : Tags) (key k : TagKey) (layout : StructLayout) :
    closed tags key layout k =
      if k = key then (tags key).map fun record =>
        { record with
          layout := some (layout.size, layout.align)
          computingLayout := false
          fieldLayouts := layout.fields }
      else tags k := by
  by_cases hk : k = key
  · subst hk
    cases h : tags k <;> simp [closed, ccTagMarkComputing, ccSetTagFieldLayouts, ccSetTagLayout, h]
  · simp [closed, ccTagMarkComputing, ccSetTagFieldLayouts, ccSetTagLayout, hk]

@[simp] theorem definition_closed (tags : Tags) (key k : TagKey) (layout : StructLayout) :
    ccTagDefinition (closed tags key layout) k = ccTagDefinition tags k := by
  by_cases hk : k = key
  · subst hk
    cases h : tags k <;> simp [ccTagDefinition, closed_apply, h]
  · simp [ccTagDefinition, closed_apply, hk]

@[simp] theorem definitionOf_closed (p : Program) (tags : Tags) (key : TagKey) (layout : StructLayout) :
    definitionOf p (closed tags key layout) = definitionOf p tags := by
  funext k
  simp [definitionOf]

theorem isComputing_closed (tags : Tags) (key k : TagKey) (layout : StructLayout) :
    ccTagIsComputing (closed tags key layout) k = (decide (k ≠ key) && ccTagIsComputing tags k) := by
  by_cases hk : k = key
  · subst hk
    cases h : tags k <;> simp [ccTagIsComputing, closed_apply, h]
  · simp [ccTagIsComputing, closed_apply, hk]

theorem layout_closed (tags : Tags) (key k : TagKey) (layout : StructLayout) :
    ccGetTagLayout (closed tags key layout) k =
      if k = key then (tags key).map fun _ => (layout.size, layout.align) else ccGetTagLayout tags k := by
  by_cases hk : k = key
  · subst hk
    cases h : tags k <;> simp [ccGetTagLayout, closed_apply, h]
  · simp [ccGetTagLayout, closed_apply, hk]

theorem WellFormed.closed (h : WellFormed tags) (hdef : ccTagDefinition tags key = some place)
    (layout : StructLayout) : WellFormed (closed tags key layout) := by
  intro k record hrecord hundefined
  rw [closed_apply] at hrecord
  by_cases hk : k = key
  · subst hk
    cases hold : tags k with
    | none => simp [hold] at hrecord
    | some old => ?_
    simp only [if_pos, hold, Option.map_some, Option.some.injEq] at hrecord
    subst hrecord
    have hnone := (h k old hold hundefined).1
    simp [ccTagDefinition, hold, hnone] at hdef
  · rw [if_neg hk] at hrecord
    exact h k record hrecord hundefined

-- One call

/-- The ways a call of `layout_struct_union` returns; `nested` calls may lie inside it. -/
inductive Called (p : Program) (nested : Nat) (key : TagKey) (tags : Tags) :
    Option (Nat × Nat) → Tags → Prop
  | cached (layout : Nat × Nat) : ccGetTagLayout tags key = some layout →
        Called p nested key tags (some layout) tags
  | computing : ccGetTagLayout tags key = none → ccTagIsComputing tags key = true →
      Called p nested key tags none tags
  | undefined : ccGetTagLayout tags key = none → ccTagIsComputing tags key = false →
      definitionOf p tags key = none → Called p nested key tags none tags
  | failed (d : RecordDefinition) (tags' : Tags) : ccGetTagLayout tags key = none →
      ccTagIsComputing tags key = false → definitionOf p tags key = some d →
      p.run nested (layoutRecord p key.kind d.body) (ccTagMarkComputing tags key true) = some (none, tags') →
      Called p nested key tags none (ccTagMarkComputing tags' key false)
  | laid (d : RecordDefinition) (layout : StructLayout) (tags' : Tags) : ccGetTagLayout tags key = none →
      ccTagIsComputing tags key = false → definitionOf p tags key = some d →
      p.run nested (layoutRecord p key.kind d.body) (ccTagMarkComputing tags key true) =
        some (some layout, tags') →
      Called p nested key tags (some (layout.size, layout.align)) (closed tags' key layout)

theorem layoutStructUnion_called (h : layoutStructUnion p (nested + 1) key tags = some (r, tags')) :
    Called p nested key tags r tags' := by
  rw [layoutStructUnion] at h
  cases hcached : ccGetTagLayout tags key with
  | some layout =>
    simp only [hcached, Option.some.injEq, Prod.mk.injEq] at h
    obtain ⟨rfl, rfl⟩ := h
    exact .cached layout hcached
  | none => ?_
  cases hmark : ccTagIsComputing tags key with
  | true =>
    simp only [hcached, hmark, if_true, Option.some.injEq, Prod.mk.injEq] at h
    obtain ⟨rfl, rfl⟩ := h
    exact .computing hcached hmark
  | false => ?_
  have hsame : ((ccTagDefinition (ccTagMarkComputing tags key true) key).bind fun id =>
      p.definitions[id]?) = definitionOf p tags key := by
    rw [definition_mark]
    rfl
  simp only [hcached, hmark, Bool.false_eq_true, if_false, hsame] at h
  cases hdefinition : definitionOf p tags key with
  | none =>
    simp only [hdefinition, mark_unmark hmark, Option.some.injEq, Prod.mk.injEq] at h
    obtain ⟨rfl, rfl⟩ := h
    exact .undefined hcached hmark hdefinition
  | some d => ?_
  simp only [hdefinition] at h
  split at h
  · cases h
  · rename_i tags₁ hrun
    obtain ⟨rfl, rfl⟩ := h
    exact .failed d tags₁ hcached hmark hdefinition hrun
  · rename_i layout tags₁ hrun
    obtain ⟨rfl, rfl⟩ := h
    exact .laid d layout tags₁ hcached hmark hdefinition hrun

-- What a call leaves

/-- A table behind the layouts that were known: what it has was known or was computed from what
it has, and is the layout without the table. -/
structure Sound (p : Program) (known : TagKey → Option (Nat × Nat)) (tags : Tags) : Prop where
  wellFormed : WellFormed tags
  keeps : ∀ key l, known key = some l → ccGetTagLayout tags key = some l
  computed : ∀ key l, ccGetTagLayout tags key = some l →
    known key = some l ∨ laidOut p (definitionOf p tags) (ccGetTagLayout tags) key = some l
  grounded : ∀ key l, ccGetTagLayout tags key = some l →
    ∃ depth, recordLayout p known (definitionOf p tags) depth key = some l

theorem Sound.start (h : WellFormed tags) (p : Program) : Sound p (ccGetTagLayout tags) tags :=
  ⟨h, fun _ _ hl => hl, fun _ _ hl => .inl hl, fun _ _ hl => ⟨0, hl⟩⟩

theorem Sound.moved (h : Sound p known tags) (hwf : WellFormed tags')
    (hdefinitions : ∀ key d, definitionOf p tags key = some d → definitionOf p tags' key = some d)
    (hlayouts : ∀ key, ccGetTagLayout tags' key = ccGetTagLayout tags key) : Sound p known tags' := by
  have hsame : ccGetTagLayout tags' = ccGetTagLayout tags := funext hlayouts
  refine ⟨hwf, fun key l hl => ?_, fun key l hl => ?_, fun key l hl => ?_⟩
  · rw [hsame]
    exact h.keeps key l hl
  · rw [hsame] at hl ⊢
    exact (h.computed key l hl).imp_right (laidOut_mono hdefinitions fun _ _ hl => hl)
  · rw [hsame] at hl
    obtain ⟨depth, hdepth⟩ := h.grounded key l hl
    exact ⟨depth, recordLayout_mono hdefinitions hdepth⟩

theorem Sound.entered (h : Sound p known tags) (hentered : Entered tags tags') : Sound p known tags' :=
  h.moved hentered.wellFormed (hentered.later.definitionOf p) hentered.layouts

theorem Sound.mark (h : Sound p known tags) (hdef : ccTagDefinition tags key = some place) (computing : Bool) :
    Sound p known (ccTagMarkComputing tags key computing) :=
  h.moved (h.wellFormed.mark hdef computing) (fun k d hd => by rwa [definitionOf_mark])
    (layout_mark tags key · computing)

/-- What a call gives is the layout without the table at some depth; one that fails although there
is such a layout meets a mark: the layout of a marked record at this depth is part of it. -/
def layoutAnswers (p : Program) (known : TagKey → Option (Nat × Nat)) :
    Calls.Answers Query (Nat × Nat) Tags where
  ok := Sound p known
  later := Later
  answer tags depth := answers (recordLayout p known (definitionOf p tags) depth)
  blame tags depth := ∃ key, ccTagIsComputing tags key = true ∧
    (recordLayout p known (definitionOf p tags) depth key).isSome = true
  later_refl := .refl
  later_trans := fun _ _ _ => .trans
  deeper := fun _ _ => answers_mono fun _ _ => recordLayout_deeper
  grows := fun _ _ _ q l h => answers_mono (fun _ _ => recordLayout_mono (h.definitionOf p)) q l

def tableAnswers (p : Program) (known : TagKey → Option (Nat × Nat)) :
    Calls.Answers Query (Nat × Nat) Tags where
  ok := Sound p known
  later := Later
  answer tags _ := answers (ccGetTagLayout tags)
  blame _ _ := True
  later_refl := .refl
  later_trans := fun _ _ _ => .trans
  deeper := fun _ _ _ _ h => h
  grows := fun _ _ _ q l h => answers_mono h.layouts q l

/-- Calls to this depth have the outcome of the layout without the table, and what they give is
in the table. -/
def Answered (p : Program) (known : TagKey → Option (Nat × Nat)) (nested : Nat) : Prop :=
  ∀ key tags r tags', Sound p known tags → layoutStructUnion p nested key tags = some (r, tags') →
    (layoutAnswers p known).Outcome tags tags'
      (fun depth => recordLayout p known (definitionOf p tags') depth key) r ∧
    ∀ l, r = some l → ccGetTagLayout tags' key = some l

theorem Answered.query (h : Answered p known nested) (q : Query) (hs : Sound p known tags)
    (hrun : answerQuery p (layoutStructUnion p nested) q tags = some (r, tags')) :
    (layoutAnswers p known).Outcome tags tags' (fun depth => (layoutAnswers p known).answer tags' depth q) r ∧
      ∀ l, r = some l → answers (ccGetTagLayout tags') q = some l := by
  cases q with
  | endless => cases hrun
  | record ref =>
    have hentered := enterInline_entered hs.wellFormed p ref
    obtain ⟨hout, htable⟩ := h ref.key _ _ _ (hs.entered hentered) hrun
    exact ⟨⟨hout.ok, hentered.later.trans hout.later, hout.sound, hout.blamed⟩, htable⟩

/-- Programs have the outcome of the layouts without the table, and those in the table give what
they give. -/
theorem Answered.run (h : Answered p known nested) (program : Layouts α) (hs : Sound p known tags)
    (hrun : p.run nested program tags = some (r, tags')) :
    (layoutAnswers p known).Outcome tags tags'
        (fun depth => program.result ((layoutAnswers p known).answer tags' depth)) r ∧
      ∀ c, r = some c → program.result (answers (ccGetTagLayout tags')) = some c := by
  have hout := Calls.attempt_outcome (A := layoutAnswers p known)
    (fun q s r t hs hq => (h.query q hs hq).1) program hs hrun
  have htable := Calls.attempt_outcome (A := tableAnswers p known)
    (fun q s r t hs hq =>
      have hq := h.query q hs hq
      ⟨hq.1.ok, hq.1.later, fun hr => ⟨0, hq.2 _ hr⟩, fun _ _ _ => trivial⟩) program hs hrun
  refine ⟨hout, fun c hc => ?_⟩
  obtain ⟨_, hresult⟩ := htable.sound hc
  exact hresult

theorem unmarked_later (hmark : ccTagIsComputing tags key = false)
    (h : Later (ccTagMarkComputing tags key true) tags') : Later tags (ccTagMarkComputing tags' key false) := by
  refine ⟨fun k => ?_, fun k place hplace => ?_, fun k l hl => ?_⟩
  · by_cases hk : k = key
    · subst hk
      simp [isComputing_mark, hmark]
    · rw [isComputing_mark, if_neg hk, h.marks, isComputing_mark, if_neg hk]
  · rw [definition_mark]
    exact h.definitions k place (by rwa [definition_mark])
  · rw [layout_mark]
    exact h.layouts k l (by rwa [layout_mark])

theorem closed_later (hmark : ccTagIsComputing tags key = false) (hnone : ccGetTagLayout tags key = none)
    (layout : StructLayout) (h : Later (ccTagMarkComputing tags key true) tags') :
    Later tags (closed tags' key layout) := by
  refine ⟨fun k => ?_, fun k place hplace => ?_, fun k l hl => ?_⟩
  · by_cases hk : k = key
    · subst hk
      simp [isComputing_closed, hmark]
    · simp [isComputing_closed, hk, h.marks, isComputing_mark]
  · rw [definition_closed]
    exact h.definitions k place (by rwa [definition_mark])
  · have hk : k ≠ key := by
      rintro rfl
      rw [hnone] at hl
      cases hl
    rw [layout_closed, if_neg hk]
    exact h.layouts k l (by rwa [layout_mark])

theorem definitionOf_isSome (h : definitionOf p tags key = some d) :
    ∃ place record, ccTagDefinition tags key = some place ∧ tags key = some record := by
  obtain ⟨place, hplace, -⟩ := Option.bind_eq_some_iff.mp h
  obtain ⟨record, hrecord, -⟩ := Option.bind_eq_some_iff.mp hplace
  exact ⟨place, record, hplace, hrecord⟩

theorem recordLayout_unique (p : Program) (known : TagKey → Option (Nat × Nat)) (tags : Tags) (key : TagKey)
    (h : recordLayout p known (definitionOf p tags) depth key = some l)
    (h' : recordLayout p known (definitionOf p tags) depth' key = some l') : l = l' := by
  have hanswer : (layoutAnswers p known).answer tags depth (.record ⟨key, none⟩) = some l := h
  have hanswer' : (layoutAnswers p known).answer tags depth' (.record ⟨key, none⟩) = some l' := h'
  exact (layoutAnswers p known).unique hanswer hanswer'

/-- A layout that the table's layouts give is put into the table. -/
theorem Sound.closed (h : Sound p known tags) (hdef : definitionOf p tags key = some d)
    (hlaid : (layoutRecord p key.kind d.body).result (answers (ccGetTagLayout tags)) = some layout)
    (hdepth : recordLayout p known (definitionOf p tags) depth key = some (layout.size, layout.align)) :
    Sound p known (closed tags key layout) := by
  obtain ⟨place, record, hplace, hrecord⟩ := definitionOf_isSome hdef
  have hgrow : ∀ k l, ccGetTagLayout tags k = some l →
      ccGetTagLayout (Records.closed tags key layout) k = some l := by
    intro k l hl
    rw [layout_closed]
    by_cases hk : k = key
    · subst hk
      obtain ⟨depth', hdepth'⟩ := h.grounded k l hl
      rw [if_pos rfl, hrecord, recordLayout_unique p known tags k hdepth' hdepth]
      rfl
    · rwa [if_neg hk]
  have hlaid' : laidOut p (definitionOf p tags) (ccGetTagLayout tags) key =
      some (layout.size, layout.align) := by
    rw [laidOut, hdef, Option.bind_some, hlaid]
    rfl
  refine ⟨h.wellFormed.closed hplace layout, fun k l hl => hgrow k l (h.keeps k l hl), fun k l hl => ?_,
    fun k l hl => ?_⟩
  all_goals
    rw [definitionOf_closed]
    rw [layout_closed] at hl
    by_cases hk : k = key
  · subst hk
    rw [if_pos rfl, hrecord] at hl
    cases hl
    exact .inr (laidOut_mono (fun _ _ hd => hd) hgrow hlaid')
  · rw [if_neg hk] at hl
    exact (h.computed k l hl).imp_right (laidOut_mono (fun _ _ hd => hd) hgrow)
  · subst hk
    rw [if_pos rfl, hrecord] at hl
    cases hl
    exact ⟨depth, hdepth⟩
  · rw [if_neg hk] at hl
    exact h.grounded k l hl

/-- A record whose parts fail is to blame only through another one that is marked. -/
theorem blame_elsewhere (hother : ∀ k, k ≠ key → ccTagIsComputing tags' k = ccTagIsComputing tags k)
    (hdefinitions : definitionOf p tags' = definitionOf p tags)
    (hpart : ∀ depth, (recordLayout p known (definitionOf p tags) (depth + 1) key).isSome = true →
      (layoutAnswers p known).blame tags depth)
    (hnone : recordLayout p known (definitionOf p tags) 0 key = none) (depth : Nat)
    (h : (recordLayout p known (definitionOf p tags) depth key).isSome = true) :
    (layoutAnswers p known).blame tags' depth := by
  induction depth with
  | zero =>
    rw [hnone] at h
    cases h
  | succ depth ih =>
    obtain ⟨k, hmark, hsome⟩ := hpart depth h
    have hdeeper : ∀ k, (recordLayout p known (definitionOf p tags) depth k).isSome = true →
        (recordLayout p known (definitionOf p tags) (depth + 1) k).isSome = true := by
      intro k hk
      obtain ⟨l, hl⟩ := Option.isSome_iff_exists.mp hk
      rw [recordLayout_deeper hl]
      rfl
    by_cases hk : k = key
    · subst hk
      obtain ⟨k', hmark', hsome'⟩ := ih hsome
      rw [hdefinitions] at hsome'
      exact ⟨k', hmark', by rw [hdefinitions]; exact hdeeper k' hsome'⟩
    · exact ⟨k, by rw [hother k hk]; exact hmark, by rw [hdefinitions]; exact hdeeper k hsome⟩

theorem calls_answered (p : Program) (known : TagKey → Option (Nat × Nat)) (nested : Nat) :
    Answered p known nested := by
  induction nested with
  | zero =>
    intro key tags r tags' hs hrun
    cases hrun
  | succ nested ih =>
    intro key tags r tags' hs hrun
    have hnotKnown : ccGetTagLayout tags key = none → known key = none := by
      intro hnone
      cases hknown : known key with
      | none => rfl
      | some l =>
        rw [hs.keeps key l hknown] at hnone
        cases hnone
    cases layoutStructUnion_called hrun with
    | cached layout hcached =>
      refine ⟨⟨hs, .refl tags, fun hl => ?_, nofun⟩, fun l hl => ?_⟩
      · cases hl
        exact hs.grounded key _ hcached
      · cases hl
        exact hcached
    | computing hnone hmark =>
      exact ⟨⟨hs, .refl tags, nofun, fun _ depth hsome => ⟨key, hmark, hsome⟩⟩, nofun⟩
    | undefined hnone hmark hundefined =>
      refine ⟨⟨hs, .refl tags, nofun, fun _ depth hsome => ?_⟩, nofun⟩
      cases depth <;> simp [recordLayout, hnotKnown hnone, laidOut, hundefined] at hsome
    | failed d tags₁ hnone hmark hdef hbody =>
      obtain ⟨place, record, hplace, hrecord⟩ := definitionOf_isSome hdef
      obtain ⟨hout, -⟩ := ih.run _ (hs.mark hplace true) hbody
      have hdef₁ : definitionOf p tags₁ key = some d :=
        hout.later.definitionOf p key d (by rwa [definitionOf_mark])
      obtain ⟨place₁, record₁, hplace₁, hrecord₁⟩ := definitionOf_isSome hdef₁
      refine ⟨⟨hout.ok.mark hplace₁ false, unmarked_later hmark hout.later, nofun, fun _ depth hsome => ?_⟩,
        nofun⟩
      simp only [definitionOf_mark] at hsome
      refine blame_elsewhere (fun k hk => by rw [isComputing_mark, if_neg hk]) (definitionOf_mark ..)
        (fun depth hsome => hout.blamed rfl depth ?_) (hnotKnown hnone) depth hsome
      rw [recordLayout, hnotKnown hnone, Option.none_or, laidOut, hdef₁, Option.bind_some,
        Option.isSome_map] at hsome
      exact hsome
    | laid d layout tags₁ hnone hmark hdef hbody =>
      obtain ⟨place, record, hplace, hrecord⟩ := definitionOf_isSome hdef
      obtain ⟨hout, htable⟩ := ih.run _ (hs.mark hplace true) hbody
      have hdef₁ : definitionOf p tags₁ key = some d :=
        hout.later.definitionOf p key d (by rwa [definitionOf_mark])
      obtain ⟨place₁, record₁, hplace₁, hrecord₁⟩ := definitionOf_isSome hdef₁
      obtain ⟨depth, hdepth⟩ := hout.sound rfl
      have hlayout : recordLayout p known (definitionOf p tags₁) (depth + 1) key =
          some (layout.size, layout.align) := by
        rw [recordLayout, hnotKnown hnone, Option.none_or, laidOut, hdef₁, Option.bind_some]
        exact congrArg (Option.map _) hdepth
      refine ⟨⟨hout.ok.closed hdef₁ (htable layout rfl) hlayout,
        closed_later hmark hnone layout hout.later, fun hl => ?_, nofun⟩, fun l hl => ?_⟩
      · cases hl
        refine ⟨depth + 1, ?_⟩
        simp only [definitionOf_closed]
        exact hlayout
      · rw [layout_closed, if_pos rfl, hrecord₁]
        exact hl

end Fisics.Records
