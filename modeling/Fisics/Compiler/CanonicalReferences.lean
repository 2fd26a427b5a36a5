import Fisics.Compiler.SemanticCanonical

/-!
# What the edges of a canonical artifact designate

Edges follow their records through the sort by identity, and a record that comes last
with an identity is taken. Identities are only compared between neighbours of an order
that looks at the places first, so that equal ones with another record between them are
accepted, and all edges to either lead to one of them.
-/

namespace Fisics.Semantic

open Fisics.Json (Bytes)
open Option (bind_eq_some_iff bind_some map_some)
open FallibleMap SortedTable

variable {records sorted records' : List MetadataRecord} {edges edges' es : List MetadataEdge}
  {e e₁ e₂ e' e₁' e₂' : MetadataEdge}

def identities (records : List MetadataRecord) : List Bytes := records.map (·.sourceIdentity)

def identityAt (records : List MetadataRecord) (i : Nat) : Option Bytes :=
  records[i]?.map (·.sourceIdentity)

/-- The edge `e'` of the sorted records is `e`, and designates what it designated. -/
structure Redirected (records records' : List MetadataRecord) (e e' : MetadataEdge) : Prop where
  source : records'[e'.sourceRecordIndex]? = records[e.sourceRecordIndex]?
  target : e'.targetRecordIndex.map (records'[·]?) = e.targetRecordIndex.map (records[·]?)
  rest : { e' with sourceRecordIndex := e.sourceRecordIndex, targetRecordIndex := e.targetRecordIndex } = e

/-- An artifact is only accepted with distinct identities, and with its edges kept. -/
def KeepsReferences (records : List MetadataRecord) (edges : List MetadataEdge) : Prop :=
  ∀ records' edges', canonicalizeIndices records edges = .ok (records', edges') →
    (identities records).Nodup ∧ records'.Perm records ∧
      ∃ es, es.Perm edges' ∧ List.Forall₂ (Redirected records records') edges es

/-- What is asked of an edge for itself: it names records, a resolved target by its
identifier, and the identifier of an external one is not that of a record. -/
structure Referable (records : List MetadataRecord) (e : MetadataEdge) : Prop where
  source : ∃ r, records[e.sourceRecordIndex]? = some r
  target : ∀ t, e.targetRecordIndex = some t → ∃ r, records[t]? = some r ∧ r.authoredId = some e.targetId
  external : e.targetRecordIndex = none → ∀ r ∈ records, r.authoredId ≠ some e.targetId

def edgeKey (records : List MetadataRecord) (e : MetadataEdge) : Option Bytes × EdgeKind × Bytes :=
  (identityAt records e.sourceRecordIndex, e.kind, e.targetId)

/-- Each edge passes, and no two of one kind lead from one identity to one identifier. -/
def EdgesPass (records : List MetadataRecord) (edges : List MetadataEdge) : Prop :=
  (∀ e ∈ edges, Referable records e) ∧ (edges.map (edgeKey records)).Nodup

-- One edge

theorem of_lastIndexOf (h : lastIndexOf identity j found records = some k) :
    found = some k ∨ ∃ i, k = j + i ∧ identityAt records i = some identity := by
  induction records generalizing j found with
  | nil => exact .inl h
  | cons r rest ih =>
    rcases ih h with hfound | ⟨i, rfl, hi⟩
    · split at hfound
      · rename_i hr
        cases hfound
        exact .inr ⟨0, rfl, congrArg some hr⟩
      · exact .inl hfound
    · exact .inr ⟨i + 1, Nat.add_right_comm j 1 i, hi⟩

theorem identityAt_lastIndexOf (h : lastIndexOf identity 0 none records = some k) :
    identityAt records k = some identity := by
  rcases of_lastIndexOf h with h | ⟨i, rfl, hi⟩
  · cases h
  · rw [Nat.zero_add, hi]

/-- An edge is read and remapped. -/
def followed (records sorted : List MetadataRecord) (e : MetadataEdge) : Option MetadataEdge :=
  (referenced records e).bind (remapped sorted)

/-- Both indices are the last ones of the identities. -/
structure Remapped (records sorted : List MetadataRecord) (e e' : MetadataEdge) : Prop where
  referable : Referable records e
  source : (identityAt records e.sourceRecordIndex).bind (lastIndexOf · 0 none sorted) =
    some e'.sourceRecordIndex
  target : e'.targetRecordIndex =
    e.targetRecordIndex.bind fun t => (identityAt records t).bind (lastIndexOf · 0 none sorted)
  kept : ∀ t, e.targetRecordIndex = some t → e'.targetRecordIndex.isSome = true
  rest : { e' with sourceRecordIndex := e.sourceRecordIndex, targetRecordIndex := e.targetRecordIndex } = e

theorem lastIndexOf_mem {i : Nat} (hperm : sorted.Perm records) (h : records[i]? = some r) :
    ∃ k, lastIndexOf r.sourceIdentity 0 none sorted = some k :=
  Option.isSome_iff_exists.mp (lastIndexOf_isSome ⟨r, hperm.mem_iff.mpr (List.mem_of_getElem? h), rfl⟩)

theorem remapped_of_followed (hperm : sorted.Perm records) (h : followed records sorted e = some e') :
    Remapped records sorted e e' := by
  obtain ⟨p, href, hmap⟩ := bind_eq_some_iff.mp h
  obtain ⟨reference, hreference, rfl⟩ := Option.map_eq_some_iff.mp href
  have href := toOption_eq_some.mp hreference
  have hmap : remapEdge sorted e reference = .ok e' := toOption_eq_some.mp hmap
  rw [edgeReference] at href
  cases hsource : records[e.sourceRecordIndex]? with
  | none => simp [hsource] at href
  | some source => ?_
  obtain ⟨j, hj⟩ := lastIndexOf_mem hperm hsource
  cases ht : e.targetRecordIndex with
  | none =>
    simp only [hsource, ht] at href
    cases href
    simp only [remapEdge, hj, ht] at hmap
    split at hmap
    · cases hmap
    rename_i hany
    cases hmap
    refine ⟨⟨⟨source, hsource⟩, ?_, fun _ r hr hid => hany ?_⟩, ?_, ?_, ?_, ?_⟩
    · rw [ht]
      rintro _ ⟨⟩
    · exact List.any_eq_true.mpr ⟨r, hperm.mem_iff.mpr hr, by simp [hid]⟩
    · rw [identityAt, hsource, map_some, bind_some, hj]
    · rw [ht]
      rfl
    · rw [ht]
      rintro _ ⟨⟩
    · cases e
      cases ht
      rfl
  | some t =>
    cases htarget : records[t]? with
    | none => simp [hsource, ht, htarget] at href
    | some target => ?_
    simp only [hsource, ht, htarget] at href
    split at href
    · rename_i hid
      cases href
      obtain ⟨k, hk⟩ := lastIndexOf_mem hperm htarget
      simp only [remapEdge, hj, ht, bind_some, hk, Option.getD_some] at hmap
      cases hmap
      refine ⟨⟨⟨source, hsource⟩, ?_, ?_⟩, ?_, ?_, fun _ _ => rfl, ?_⟩
      · rw [ht]
        rintro _ ⟨⟩
        exact ⟨target, htarget, hid⟩
      · rw [ht]
        rintro ⟨⟩
      · rw [identityAt, hsource, map_some, bind_some, hj]
      · rw [ht, bind_some, identityAt, htarget, map_some, bind_some, hk]
      · cases e
        cases ht
        rfl
    · cases href

theorem Referable.followed (hperm : sorted.Perm records) (h : Referable records e) :
    ∃ e', followed records sorted e = some e' := by
  obtain ⟨⟨source, hsource⟩, htarget, hexternal⟩ := h
  obtain ⟨j, hj⟩ := lastIndexOf_mem hperm hsource
  rw [Semantic.followed, referenced, edgeReference, hsource]
  cases ht : e.targetRecordIndex with
  | none =>
    have hany : sorted.any (fun r => r.authoredId == some e.targetId) = false := by
      rw [List.any_eq_false]
      intro r hr hid
      exact hexternal ht r (hperm.mem_iff.mp hr) (by simpa using hid)
    refine ⟨{ e with sourceRecordIndex := j }, ?_⟩
    simp [remapped, remapEdge, hj, ht, hany]
  | some t =>
    obtain ⟨target, htarget, hid⟩ := htarget t ht
    obtain ⟨k, hk⟩ := lastIndexOf_mem hperm htarget
    refine ⟨{ e with sourceRecordIndex := j, targetRecordIndex := some k }, ?_⟩
    simp [remapped, remapEdge, htarget, hid, hj, ht, hk]

theorem sameReference_remapped (h₁ : Remapped records sorted e₁ e₁') (h₂ : Remapped records sorted e₂ e₂') :
    sameReference e₁' e₂' = true ↔ edgeKey records e₁ = edgeKey records e₂ := by
  have hkind₁ : e₁'.kind = e₁.kind ∧ e₁'.targetId = e₁.targetId := by
    rw [← h₁.rest]
    exact ⟨rfl, rfl⟩
  have hkind₂ : e₂'.kind = e₂.kind ∧ e₂'.targetId = e₂.targetId := by
    rw [← h₂.rest]
    exact ⟨rfl, rfl⟩
  obtain ⟨i₁, hi₁, hlast₁⟩ := bind_eq_some_iff.mp h₁.source
  obtain ⟨i₂, hi₂, hlast₂⟩ := bind_eq_some_iff.mp h₂.source
  have hsource : e₁'.sourceRecordIndex = e₂'.sourceRecordIndex ↔ i₁ = i₂ := by
    constructor
    · intro heq
      have hid := identityAt_lastIndexOf hlast₁
      rw [heq, identityAt_lastIndexOf hlast₂] at hid
      exact (Option.some.inj hid).symm
    · rintro rfl
      exact Option.some.inj (hlast₁.symm.trans hlast₂)
  simp only [sameReference, edgeKey, Bool.and_eq_true, beq_iff_eq, Prod.mk.injEq, hkind₁, hkind₂, hsource,
    hi₁, hi₂, Option.some.injEq, and_assoc]

theorem record_eq (hnodup : (identities records).Nodup) (hperm : sorted.Perm records)
    (hi : (identityAt records i).bind (lastIndexOf · 0 none sorted) = some j) :
    sorted[j]? = records[i]? := by
  obtain ⟨identity, hi, hlast⟩ := bind_eq_some_iff.mp hi
  obtain ⟨r, hr, hid⟩ := Option.map_eq_some_iff.mp hi
  obtain ⟨s, hs, hsid⟩ := Option.map_eq_some_iff.mp (identityAt_lastIndexOf hlast)
  have hsame : s = r := List.inj_on_of_nodup_map hnodup (hperm.mem_iff.mp (List.mem_of_getElem? hs))
    (List.mem_of_getElem? hr) (hsid.trans hid.symm)
  rw [hs, hr, hsame]

theorem Remapped.redirected (hnodup : (identities records).Nodup) (hperm : sorted.Perm records)
    (h : Remapped records sorted e e') : Redirected records sorted e e' := by
  refine ⟨record_eq hnodup hperm h.source, ?_, h.rest⟩
  cases ht : e.targetRecordIndex with
  | none => rw [h.target, ht]; rfl
  | some t => ?_
  obtain ⟨k, hk⟩ := Option.isSome_iff_exists.mp (h.kept t ht)
  have htarget := h.target
  rw [hk, ht, bind_some] at htarget
  rw [hk, map_some, map_some, record_eq hnodup hperm htarget.symm]

-- All edges

/-- The first keys of `compareEdges`, which decide which edges are duplicates. -/
def compareReferences : MetadataEdge → MetadataEdge → Ordering :=
  compareLex (compareOn (·.sourceRecordIndex)) <| compareLex (compareOn (·.kind.code)) (compareOn (·.targetId))

instance : Std.TransCmp compareReferences := by
  unfold compareReferences
  infer_instance

theorem compareReferences_eq : compareReferences e₁ e₂ = .eq ↔ sameReference e₁ e₂ = true := by
  simp only [compareReferences, compareLex_eq_eq, compareOn, Std.LawfulEqOrd.compare_eq_iff_eq, sameReference,
    Bool.and_eq_true, beq_iff_eq, and_assoc]
  exact and_congr_right fun _ => and_congr_left fun _ => ⟨EdgeKind.code_injective, congrArg _⟩

theorem compareReferences_isLE (h : (compareEdges e₁ e₂).isLE = true) :
    (compareReferences e₁ e₂).isLE = true := by
  simp only [compareEdges, compareReferences, compareLex, Ordering.isLE_then_iff_or] at h ⊢
  refine h.imp_right (And.imp_right (Or.imp_right (And.imp_right fun h => ?_)))
  exact Ordering.isLE_iff_eq_lt_or_eq_eq.mpr (h.imp_right And.left)

theorem sameReference_convex (a b c : MetadataEdge) (hab : (compareEdges a b).isLE = true)
    (hbc : (compareEdges b c).isLE = true) (hac : sameReference a c = true) : sameReference a b = true := by
  rw [← compareReferences_eq] at hac ⊢
  have hba : (compareReferences b a).isLE = true := by
    rw [Std.TransCmp.congr_right hac]
    exact compareReferences_isLE hbc
  exact Std.OrientedCmp.isLE_antisymm (compareReferences_isLE hab) hba

theorem neighbours_references (h : List.Forall₂ (Remapped records sorted) edges es) :
    neighbours sameReference (sort compareEdges es) = none ↔ (edges.map (edgeKey records)).Nodup := by
  have hpairs : es.Pairwise (fun a b => sameReference a b = false) ↔ (edges.map (edgeKey records)).Nodup := by
    induction h with
    | nil => simp
    | @cons e e' edges es he hrest ih =>
      rw [List.pairwise_cons, List.map_cons, List.nodup_cons, ih, List.mem_map]
      refine and_congr_left fun _ => ⟨?_, ?_⟩
      · rintro hnone ⟨d, hd, hkey⟩
        obtain ⟨x, hx, hdx⟩ := exists_of_mem_left hrest hd
        cases (hnone x hx).symm.trans ((sameReference_remapped he hdx).mpr hkey.symm)
      · intro hkey x hx
        obtain ⟨d, hd, hdx⟩ := exists_of_mem_left hrest.flip hx
        by_contra hsame
        exact hkey ⟨d, hd, ((sameReference_remapped he hdx).mp (by simpa using hsame)).symm⟩
  have hsymm {a b : MetadataEdge} (hab : sameReference a b = false) : sameReference b a = false := by
    by_contra hba
    have heq := Std.OrientedCmp.eq_symm (compareReferences_eq.mpr (Bool.eq_true_of_not_eq_false hba))
    cases hab.symm.trans (compareReferences_eq.mp heq)
  rw [← hpairs, ← (sort_perm compareEdges es).pairwise_iff hsymm]
  constructor
  · exact pairwise_of_neighbours sameReference_convex (sort_sorted es)
  · intro hpairwise
    cases hneighbours : neighbours sameReference (sort compareEdges es) with
    | none => rfl
    | some p =>
      have hsame := List.rel_of_pairwise_cons (hpairwise.sublist (neighbours_sublist hneighbours))
        (List.mem_singleton_self _)
      cases hsame.symm.trans (same_of_neighbours hneighbours)

theorem mapM_followed
    (h : edges.mapM (referenced records) = some references) :
    references.mapM (remapped sorted) = edges.mapM (followed records sorted) := by
  have hall := mapM_forall₂ h
  clear h
  induction hall with
  | nil => rfl
  | cons hp _ ih => rw [List.mapM_cons, List.mapM_cons, ih, followed, hp, bind_some]

theorem of_canonicalizeIndices (h : canonicalizeIndices records edges = .ok (records', edges')) :
    ¬Adjacent compareRecords sameIdentity records ∧ EdgesPass records edges ∧ records'.Perm records ∧
      ∃ es, List.Forall₂ (Remapped records records') edges es ∧ es.Perm edges' := by
  have hperm := sort_perm compareRecords records
  rw [← toOption_eq_some, canonicalizeIndices_toOption] at h
  obtain ⟨references, href, h⟩ := bind_eq_some_iff.mp h
  rw [mapM_followed href] at h
  split at h
  · cases h
  rename_i hnone
  obtain ⟨es, hes, h⟩ := bind_eq_some_iff.mp h
  have hall : List.Forall₂ (Remapped records (sort compareRecords records)) edges es :=
    (mapM_forall₂ hes).imp fun _ _ => remapped_of_followed hperm
  split at h
  · cases h
  rename_i hdistinct
  cases h
  rw [Bool.not_eq_true, Option.isSome_eq_false_iff, Option.isNone_iff_eq_none] at hdistinct
  rw [neighbours_sort_isSome_iff sameIdentity_of_compare] at hnone
  refine ⟨hnone, ⟨fun e he => ?_, (neighbours_references hall).mp hdistinct⟩, hperm, es, hall,
    (sort_perm compareEdges es).symm⟩
  obtain ⟨e', -, hremapped⟩ := exists_of_mem_left hall he
  exact hremapped.referable

theorem canonicalizeIndices_of (hnone : ¬Adjacent compareRecords sameIdentity records)
    (h : EdgesPass records edges) : ∃ artifact, canonicalizeIndices records edges = .ok artifact := by
  have hperm := sort_perm compareRecords records
  obtain ⟨es, hes⟩ := mapM_isSome fun e he => (h.1 e he).followed hperm
  have hall : List.Forall₂ (Remapped records (sort compareRecords records)) edges es :=
    (mapM_forall₂ hes).imp fun _ _ => remapped_of_followed hperm
  obtain ⟨references, href⟩ : ∃ references, edges.mapM (referenced records) = some references := by
    refine mapM_isSome fun e he => ?_
    obtain ⟨e', he'⟩ := (h.1 e he).followed hperm
    obtain ⟨p, hp, -⟩ := bind_eq_some_iff.mp he'
    exact ⟨p, hp⟩
  rw [← neighbours_sort_isSome_iff sameIdentity_of_compare] at hnone
  refine ⟨(sort compareRecords records, sort compareEdges es), toOption_eq_some.mp ?_⟩
  rw [canonicalizeIndices_toOption, href, bind_some, if_neg hnone, mapM_followed href, hes,
    bind_some, (neighbours_references hall).mpr h.2]
  rfl

/-- References are kept exactly where identities are distinct, or equal ones are seen by
the check, or an edge is refused. -/
theorem keepsReferences_iff : KeepsReferences records edges ↔
    (identities records).Nodup ∨ Adjacent compareRecords sameIdentity records ∨ ¬EdgesPass records edges := by
  constructor
  · intro h
    by_contra hcondition
    rw [not_or, not_or, Classical.not_not] at hcondition
    obtain ⟨⟨records', edges'⟩, hok⟩ := canonicalizeIndices_of hcondition.2.1 hcondition.2.2
    exact hcondition.1 (h records' edges' hok).1
  · intro hcondition records' edges' hok
    obtain ⟨hnone, hpass, hperm, es, hall, hes⟩ := of_canonicalizeIndices hok
    rcases hcondition with hnodup | hadjacent | hrefused
    · exact ⟨hnodup, hperm, es, hes, hall.imp fun _ _ h => h.redirected hnodup hperm⟩
    · exact absurd hadjacent hnone
    · exact absurd hpass hrefused

-- One identity in two places

/-- A function that is annotated as `name`. -/
def annotatedAt (line : Int) (name : String) : MetadataRecord where
  sourceFilePath := text "/a.c"
  startLine := line
  startCol := 1
  endLine := line
  endCol := 2
  sourceIdentity := text name
  authoredId := some (text name)
  symbolStableId := none
  symbolName := text "f"
  symbolKind := .function
  domain := none
  role := none

/-- Between the two records of `probe` stands another one. -/
def repeatedRecords : List MetadataRecord :=
  [annotatedAt 1 "probe", annotatedAt 2 "motor", annotatedAt 3 "probe"]

def probeEdge (source : Nat) : MetadataEdge where
  sourceFilePath := text "/a.c"
  startLine := 1
  startCol := 1
  endLine := 1
  endCol := 2
  sourceRecordIndex := source
  kind := .produces
  targetId := text "sink"
  resolution := .external
  targetRecordIndex := none

/-- The edge of the first record becomes one of the last. -/
theorem repeated_accepted :
    canonicalizeIndices repeatedRecords [probeEdge 0] = .ok (repeatedRecords, [probeEdge 2]) ∧
      ¬KeepsReferences repeatedRecords [probeEdge 0] := by
  have hok : canonicalizeIndices repeatedRecords [probeEdge 0] = .ok (repeatedRecords, [probeEdge 2]) := by
    decide
  refine ⟨hok, fun h => ?_⟩
  have hnodup := (h _ _ hok).1
  revert hnodup
  decide

end Fisics.Semantic
