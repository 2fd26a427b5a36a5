import Fisics.Syntax.RecordNames

/-!
# Termination of the record layout

A call marks its record before it goes on to the records inside, and a marked record is
not gone on with: calls lie no deeper than there are names. A call that fails leads to a
record that has no definition, that lies in itself, or that is refused for its own types.
-/

namespace Fisics.Records

open MemoCall (Calls)
open Relation (TransGen ReflTransGen)

-- Deeper calls

theorem layoutStructUnion_deeper (h : layoutStructUnion p nested key tags = some r) :
    layoutStructUnion p (nested + 1) key tags = some r := by
  induction nested generalizing key tags r with
  | zero => cases h
  | succ nested ih =>
    have hquery : ∀ q s r, answerQuery p (layoutStructUnion p nested) q s = some r →
        answerQuery p (layoutStructUnion p (nested + 1)) q s = some r := by
      intro q s r hq
      cases q with
      | endless => cases hq
      | record ref => exact ih hq
    rw [layoutStructUnion] at h ⊢
    cases hcached : ccGetTagLayout tags key with
    | some layout => simpa [hcached] using h
    | none => ?_
    cases hmark : ccTagIsComputing tags key with
    | true => simpa [hcached, hmark] using h
    | false => ?_
    simp only [hcached, hmark, Bool.false_eq_true, if_false] at h ⊢
    split at h
    · exact h
    rename_i d hd
    cases hrun : (layoutRecord p key.kind d.body).attempt
        (answerQuery p (layoutStructUnion p nested)) (ccTagMarkComputing tags key true) with
    | none => simp [hrun] at h
    | some outcome =>
      rw [hrun] at h
      rw [Calls.attempt_mono hquery _ hrun]
      exact h

theorem layoutStructUnion_deep (h : layoutStructUnion p bound key tags = some r) (hnested : bound ≤ nested) :
    layoutStructUnion p nested key tags = some r := by
  induction hnested with
  | refl => exact h
  | step _ ih => exact layoutStructUnion_deeper ih

-- Marks that are left

def unmarked (keys : List TagKey) (tags : Tags) : Nat := keys.countP fun key => !ccTagIsComputing tags key

theorem unmarked_congr (keys : List TagKey)
    (h : ∀ key, ccTagIsComputing tags' key = ccTagIsComputing tags key) :
    unmarked keys tags' = unmarked keys tags := by
  simp only [unmarked, h]

theorem unmarked_cons (key : TagKey) (keys : List TagKey) (tags : Tags) :
    unmarked (key :: keys) tags = unmarked keys tags + if ccTagIsComputing tags key then 0 else 1 := by
  cases h : ccTagIsComputing tags key <;> simp [unmarked, h]

theorem unmarked_mark (hkey : key ∈ keys) (hmark : ccTagIsComputing tags key = false)
    (hrecord : tags key = some record) :
    unmarked keys (ccTagMarkComputing tags key true) < unmarked keys tags := by
  have hle : ∀ keys, unmarked keys (ccTagMarkComputing tags key true) ≤ unmarked keys tags := by
    intro keys
    refine List.countP_mono_left fun k _ hk => ?_
    rw [isComputing_mark] at hk
    by_cases hkk : k = key
    · simp [hkk, hmark]
    · simpa [hkk] using hk
  induction keys with
  | nil => cases hkey
  | cons k keys ih =>
    rw [unmarked_cons, unmarked_cons, isComputing_mark]
    by_cases hkk : k = key
    · subst hkk
      have hrest := hle keys
      simp only [hrecord, hmark, if_true, Option.isSome_some, Bool.and_self, Bool.false_eq_true, if_false]
      omega
    · have hrest := ih ((List.mem_cons.mp hkey).resolve_left fun h => hkk h.symm)
      rw [if_neg hkk]
      omega

theorem layoutStructUnion_ends (hends : p.TypedefsEnd) (hkeys : ∀ k ∈ p.keys, k ∈ keys)
    (nested : Nat) (hkey : key ∈ keys) (hs : Sound p known tags) (hdeep : unmarked keys tags < nested) :
    ∃ r tags', layoutStructUnion p nested key tags = some (r, tags') := by
  induction nested generalizing key tags with
  | zero => exact absurd hdeep (Nat.not_lt_zero _)
  | succ nested ih =>
    rw [layoutStructUnion]
    cases hcached : ccGetTagLayout tags key with
    | some layout => exact ⟨_, _, rfl⟩
    | none => ?_
    cases hmark : ccTagIsComputing tags key with
    | true => exact ⟨none, tags, by simp⟩
    | false => ?_
    simp only [Bool.false_eq_true, if_false, definition_mark]
    have hsame : ((ccTagDefinition tags key).bind fun id => p.definitions[id]?) = definitionOf p tags key := rfl
    rw [hsame]
    cases hdef : definitionOf p tags key with
    | none => exact ⟨_, _, rfl⟩
    | some d => ?_
    obtain ⟨place, record, hplace, hrecord⟩ := definitionOf_isSome hdef
    have hmem : d ∈ p.definitions := by
      obtain ⟨_, _, hget⟩ := Option.bind_eq_some_iff.mp hdef
      exact List.mem_of_getElem? hget
    let marked := ccTagMarkComputing tags key true
    have hfewer : unmarked keys marked < unmarked keys tags := unmarked_mark hkey hmark hrecord
    have hcalls : ∀ q, (layoutRecord p key.kind d.body).Asks q → ∀ s,
        (Sound p known s ∧ ∀ k, ccTagIsComputing s k = ccTagIsComputing marked k) →
        ∃ r t, answerQuery p (layoutStructUnion p nested) q s = some (r, t) ∧
          (Sound p known t ∧ ∀ k, ccTagIsComputing t k = ccTagIsComputing marked k) := by
      rintro q hq s ⟨hsound, hmarks⟩
      obtain ⟨ref, rfl, href⟩ := asks_layoutRecord hends hmem hq
      have hentered := enterInline_entered hsound.wellFormed p ref
      have hs' := hsound.entered hentered
      have hsameMarks : ∀ k, ccTagIsComputing (enterInline p ref s) k = ccTagIsComputing marked k :=
        fun k => (hentered.marks k).trans (hmarks k)
      obtain ⟨r, t, hcall⟩ := ih (hkeys _ href) hs' (by
        rw [unmarked_congr keys hsameMarks]
        omega)
      obtain ⟨hout, -⟩ := calls_answered p known nested _ _ _ _ hs' hcall
      exact ⟨r, t, hcall, hout.ok, fun k => (hout.later.marks k).trans (hsameMarks k)⟩
    obtain ⟨r, tags₁, hrun, -⟩ := Calls.attempt_ends _ hcalls ⟨hs.mark hplace true, fun _ => rfl⟩
    simp only [hrun]
    cases r with
    | none | some layout => exact ⟨_, _, rfl⟩

-- Tables of a compilation

/-- The tables between calls: tags are entered and defined, and types are laid out in the scopes of
the unit. -/
inductive Reached (target : TargetTable) (definitions : List RecordDefinition) : Tags → Prop
  | start : Reached target definitions fun _ => none
  | added (key : TagKey) : Reached target definitions tags → Reached target definitions (ccAddTag tags key)
  | defined (key : TagKey) (fingerprint : Nat) (place : Option Nat) : Reached target definitions tags →
      Reached target definitions (ccDefineTag tags key fingerprint place).2
  | ran {α : Type} {r : Option α} (typedefs : List (String × ParsedType)) (nested : Nat) (program : Layouts α) :
      Reached target definitions tags →
      Program.run ⟨target, definitions, typedefs⟩ nested program tags = some (r, tags') →
      Reached target definitions tags'

theorem Reached.clean (h : Reached target definitions tags) :
    WellFormed tags ∧ ∀ key, ccTagIsComputing tags key = false := by
  induction h with
  | start => exact ⟨nofun, fun _ => rfl⟩
  | added key _ ih =>
    have hentered := ccAddTag_entered ih.1 key
    exact ⟨hentered.wellFormed, fun k => (hentered.marks k).trans (ih.2 k)⟩
  | defined key fingerprint place _ ih =>
    have hentered := ccDefineTag_entered ih.1 key fingerprint place
    exact ⟨hentered.wellFormed, fun k => (hentered.marks k).trans (ih.2 k)⟩
  | @ran tags tags' α r typedefs nested program _ hrun ih =>
    obtain ⟨hout, -⟩ := (calls_answered ⟨target, definitions, typedefs⟩ (ccGetTagLayout tags) nested).run
      program (.start ih.1 _) hrun
    exact ⟨hout.ok.wellFormed, fun k => (hout.later.marks k).trans (ih.2 k)⟩

-- Records inside records

section
variable (p : Program) (known : TagKey → Option (Nat × Nat)) (tags : Tags)

/-- The layouts that calls give, where some records had one already. -/
def Lays (q : Query) (l : Nat × Nat) : Prop := (layoutAnswers p known).Given tags q l

/-- The layout of a record that had none gets to the one of another record: all that its members
need before has a layout. -/
def Contains (key inner : TagKey) : Prop :=
  known key = none ∧ ∃ d ref, definitionOf p tags key = some d ∧ ref.key = inner ∧
    Calls.Needs (Lays p known tags) (layoutRecord p key.kind d.body) (.record ref)

inductive Broken (key : TagKey) : Prop
  | incomplete (hknown : known key = none) (hdefinition : definitionOf p tags key = none)
  | inItself (hcycle : TransGen (Contains p known tags) key key)
  | refused (d : RecordDefinition) (hknown : known key = none) (hdefinition : definitionOf p tags key = some d)
      (hrefuses : Calls.Refuses (Lays p known tags) (layoutRecord p key.kind d.body))

end

theorem Contains.lower {inner : TagKey} (h : Contains p known tags key inner)
    (hl : recordLayout p known (definitionOf p tags) depth key = some l) :
    ∃ lower l', lower < depth ∧ recordLayout p known (definitionOf p tags) lower inner = some l' := by
  obtain ⟨hknown, d, ref, hd, rfl, hneeds⟩ := h
  cases depth with
  | zero =>
    have hsome : known key = some l := hl
    rw [hknown] at hsome
    cases hsome
  | succ depth => ?_
  rw [recordLayout, hknown, Option.none_or, laidOut, hd, Option.bind_some] at hl
  obtain ⟨layout, hresult, -⟩ := Option.map_eq_some_iff.mp hl
  obtain ⟨l', hl'⟩ := Calls.needs_of_result (A := layoutAnswers p known) (s := tags) hresult hneeds
  exact ⟨depth, l', Nat.lt_succ_self _, hl'⟩

theorem reaches_lower {inner : TagKey} (h : ReflTransGen (Contains p known tags) key inner)
    (hl : recordLayout p known (definitionOf p tags) depth key = some l) :
    ∃ lower l', lower ≤ depth ∧ recordLayout p known (definitionOf p tags) lower inner = some l' := by
  induction h with
  | refl => exact ⟨depth, l, le_refl _, hl⟩
  | tail _ hstep ih =>
    obtain ⟨lower, l', hle, hl'⟩ := ih
    obtain ⟨lower', l'', hlt, hl''⟩ := hstep.lower hl'
    exact ⟨lower', l'', (Nat.le_of_lt hlt).trans hle, hl''⟩

theorem not_inItself (hl : recordLayout p known (definitionOf p tags) depth key = some l) :
    ¬ TransGen (Contains p known tags) key key := by
  induction depth using Nat.strong_induction_on generalizing key l with
  | _ depth ih =>
    intro hcycle
    obtain ⟨inner, hfirst, hback⟩ := TransGen.head'_iff.mp hcycle
    obtain ⟨lower, l', hlt, hl'⟩ := hfirst.lower hl
    exact ih lower hlt hl' (TransGen.tail' hback hfirst)

theorem Broken.not_laid (h : Broken p known tags key) :
    recordLayout p known (definitionOf p tags) depth key = none := by
  cases hl : recordLayout p known (definitionOf p tags) depth key with
  | none => rfl
  | some l => ?_
  cases h with
  | inItself hcycle => exact absurd hcycle (not_inItself hl)
  | incomplete hknown hdefinition =>
    cases depth <;> simp [recordLayout, laidOut, hknown, hdefinition] at hl
  | refused d hknown hdefinition hrefuses =>
    cases depth with
    | zero => simp [recordLayout, hknown] at hl
    | succ depth =>
      rw [recordLayout, hknown, Option.none_or, laidOut, hdefinition, Option.bind_some] at hl
      obtain ⟨layout, hresult, -⟩ := Option.map_eq_some_iff.mp hl
      exact absurd hrefuses (Calls.not_refuses_of_result (A := layoutAnswers p known) (s := tags) hresult)

theorem broken_or_contains (hends : p.TypedefsEnd)
    (hnone : ∀ depth, recordLayout p known (definitionOf p tags) depth key = none) :
    Broken p known tags key ∨ ∃ inner ∈ p.keys, Contains p known tags key inner ∧
      ∀ depth, recordLayout p known (definitionOf p tags) depth inner = none := by
  have hknown : known key = none := hnone 0
  cases hdefinition : definitionOf p tags key with
  | none => exact .inl (.incomplete hknown hdefinition)
  | some d => ?_
  have hresult : ∀ depth, (layoutRecord p key.kind d.body).result
      ((layoutAnswers p known).answer tags depth) = none := by
    intro depth
    have hat := hnone (depth + 1)
    rw [recordLayout, hknown, Option.none_or, laidOut, hdefinition, Option.bind_some] at hat
    exact Option.map_eq_none_iff.mp hat
  rcases Calls.refuses_or_needs _ hresult with hrefuses | ⟨q, hneeds, hinner⟩
  · exact .inl (.refused d hknown hdefinition hrefuses)
  · obtain ⟨place, _, hget⟩ := Option.bind_eq_some_iff.mp hdefinition
    obtain ⟨ref, rfl, href⟩ := asks_layoutRecord hends (List.mem_of_getElem? hget) hneeds.asks
    exact .inr ⟨ref.key, href, ⟨hknown, d, ref, hdefinition, rfl, hneeds⟩, hinner⟩

theorem not_laid_iff (hends : p.TypedefsEnd) :
    (∀ depth, recordLayout p known (definitionOf p tags) depth key = none) ↔
      ∃ inner, ReflTransGen (Contains p known tags) key inner ∧ Broken p known tags inner := by
  constructor
  · intro hnone
    by_contra hfine
    have hnext : ∀ k, (ReflTransGen (Contains p known tags) key k ∧
          ∀ depth, recordLayout p known (definitionOf p tags) depth k = none) →
        ∃ inner ∈ key :: p.keys, Contains p known tags k inner ∧
          (ReflTransGen (Contains p known tags) key inner ∧
            ∀ depth, recordLayout p known (definitionOf p tags) depth inner = none) := by
      rintro k ⟨hreach, hk⟩
      rcases broken_or_contains hends hk with hbroken | ⟨inner, hmem, hcontains, hinner⟩
      · exact absurd ⟨k, hreach, hbroken⟩ hfine
      · exact ⟨inner, List.mem_cons_of_mem _ hmem, hcontains, hreach.tail hcontains, hinner⟩
    have hwalk := Walks.walk_of_stuck hnext (key :: p.keys).length ⟨.refl, hnone⟩
    obtain ⟨inner, hreach, hcycle⟩ := hwalk.cycle (List.mem_cons_self ..)
    exact hfine ⟨inner, hreach, .inItself hcycle⟩
  · rintro ⟨inner, hreach, hbroken⟩ depth
    cases hl : recordLayout p known (definitionOf p tags) depth key with
    | none => rfl
    | some l =>
      obtain ⟨lower, l', -, hl'⟩ := reaches_lower hreach hl
      rw [hbroken.not_laid] at hl'
      cases hl'

/-- Every call returns without a mark: what was laid out stays, what is laid out now follows from
the layouts in the table, and a call fails just where its record leads to one that has no
definition, that lies in itself, or that is refused. -/
theorem layoutStructUnion_returns (p : Program) (hends : p.TypedefsEnd)
    (hreached : Reached p.target p.definitions tags) (key : TagKey) :
    ∃ r tags',
      (∃ bound, ∀ nested, bound ≤ nested → layoutStructUnion p nested key tags = some (r, tags')) ∧
      (∀ k, ccTagIsComputing tags' k = false) ∧
      (∀ k l, ccGetTagLayout tags k = some l → ccGetTagLayout tags' k = some l) ∧
      (∀ k l, ccGetTagLayout tags' k = some l → ccGetTagLayout tags k = some l ∨
        laidOut p (definitionOf p tags') (ccGetTagLayout tags') k = some l) ∧
      (r = none ↔ ∃ inner, ReflTransGen (Contains p (ccGetTagLayout tags) tags') key inner ∧
        Broken p (ccGetTagLayout tags) tags' inner) := by
  obtain ⟨hwf, hmarks⟩ := hreached.clean
  have hs := Sound.start hwf p
  have hkeys : ∀ k ∈ p.keys, k ∈ key :: p.keys := fun k hk => List.mem_cons_of_mem _ hk
  obtain ⟨r, tags', hrun⟩ := layoutStructUnion_ends hends hkeys (unmarked (key :: p.keys) tags + 1)
    (List.mem_cons_self ..) hs (Nat.lt_succ_self _)
  obtain ⟨hout, -⟩ := calls_answered p _ _ _ _ _ _ hs hrun
  have hmarks' : ∀ k, ccTagIsComputing tags' k = false := fun k => (hout.later.marks k).trans (hmarks k)
  refine ⟨r, tags', ⟨_, fun nested hnested => layoutStructUnion_deep hrun hnested⟩, hmarks', hout.later.layouts,
    hout.ok.computed, ?_⟩
  rw [← not_laid_iff hends]
  constructor
  · intro hr depth
    cases hl : recordLayout p (ccGetTagLayout tags) (definitionOf p tags') depth key with
    | none => rfl
    | some l =>
      obtain ⟨k, hmark, -⟩ := hout.blamed hr depth (by rw [hl]; rfl)
      rw [hmarks' k] at hmark
      cases hmark
  · intro hnone
    cases r with
    | none => rfl
    | some l =>
      obtain ⟨depth, hl⟩ := hout.sound rfl
      rw [hnone depth] at hl
      cases hl

def plainHead (kind : Kind) (name : Option String) : Head :=
  ⟨kind, name, none, false, false, false, false, false, 0, [], none⟩

def plainField (type : ParsedType) (width : Option SizeExpr) : FieldDecl ParsedType SizeExpr :=
  ⟨[], width, ⟨some "x", type⟩, []⟩

def unitOf (typedefs : List (String × ParsedType)) (field : FieldDecl ParsedType SizeExpr) : Program :=
  ⟨layoutLp64Fp80, [⟨.struct, [], [field]⟩], typedefs⟩

def structS : TagKey := ⟨.struct, "S"⟩

def definedS : Tags := (ccDefineTag (fun _ => none) structS 1 (some 0)).2

theorem unitOf_reached (typedefs : List (String × ParsedType)) (field : FieldDecl ParsedType SizeExpr) :
    Reached (unitOf typedefs field).target (unitOf typedefs field).definitions definedS :=
  .defined structS 1 (some 0) .start

theorem noTypedefs_end (field : FieldDecl ParsedType SizeExpr) : (unitOf [] field).TypedefsEnd := by
  intro name hcycle
  obtain ⟨_, ⟨type, hresolved, -⟩, -⟩ := TransGen.head'_iff.mp hcycle
  cases hresolved

/-- `struct S { struct S x; };` -/
def selfUnit : Program := unitOf [] (plainField ⟨plainHead .struct (some "S"), .nil⟩ none)

theorem layoutStructUnion_returns_self :
    ∃ r tags',
      (∃ bound, ∀ nested, bound ≤ nested →
        layoutStructUnion selfUnit nested structS definedS = some (r, tags')) ∧
      (∀ k, ccTagIsComputing tags' k = false) ∧
      (∀ k l, ccGetTagLayout definedS k = some l → ccGetTagLayout tags' k = some l) ∧
      (∀ k l, ccGetTagLayout tags' k = some l → ccGetTagLayout definedS k = some l ∨
        laidOut selfUnit (definitionOf selfUnit tags') (ccGetTagLayout tags') k = some l) ∧
      (r = none ↔ ∃ inner, ReflTransGen (Contains selfUnit (ccGetTagLayout definedS) tags') structS inner ∧
        Broken selfUnit (ccGetTagLayout definedS) tags' inner) :=
  layoutStructUnion_returns selfUnit (noTypedefs_end _) (unitOf_reached _ _) structS

/-- `struct S { int x : 40; };` -/
def wideUnit : Program :=
  unitOf [] (plainField ⟨plainHead (.primitive .int) none, .nil⟩ (some (.value (some 40))))

/-- `typedef int T;` and, in a block, `typedef T *T; struct S { T x; };` -/
def endlessUnit : Program :=
  unitOf [("T", ⟨plainHead .named (some "T"), .pointer .nil⟩), ("T", ⟨plainHead (.primitive .int) none, .nil⟩)]
    (plainField ⟨plainHead .named (some "T"), .nil⟩ none)

/-- The layout of a struct whose bit-field is too wide fails although it contains no record; with a
typedef name that leads back to itself there is no end. -/
theorem wideUnit_fails :
    (∃ tags', layoutStructUnion wideUnit 1 structS definedS = some (none, tags') ∧
      (definitionOf wideUnit tags' structS).isSome = true ∧
      ∀ inner, ¬ Contains wideUnit (ccGetTagLayout definedS) tags' structS inner) ∧
    ∀ nested, layoutStructUnion endlessUnit nested structS definedS = none := by
  refine ⟨⟨_, rfl, rfl, ?_⟩, fun nested => ?_⟩
  · rintro inner ⟨-, d, ref, hd, -, hneeds⟩
    cases hd
    cases hneeds
  · cases nested with
    | zero => rfl
    | succ nested => rfl

end Fisics.Records
