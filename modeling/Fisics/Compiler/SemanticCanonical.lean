import Fisics.Compiler.SemanticMetadata
import Fisics.Library.FallibleMap

/-!
# Artifacts in another order

An artifact lists records and edges, and its edges name records by their place. Where
the records stand in another order, and the edges name the new places in any order of
their own, the reader accepts the document as before and reads the same artifact.
-/

namespace Fisics.Semantic

open Fisics.Json (Bytes JsonValue)
open List (getElem?_eq_none mapM_cons range)
open Option (bind_some)
open FallibleMap SortedTable

-- Success

section
variable {ε ε' α β : Type}

@[simp] theorem toOption_mapError (x : Except ε α) (f : ε → ε') : (x.mapError f).toOption = x.toOption := by
  cases x <;> rfl

@[simp] theorem toOption_orFail (error : ε) (o : Option α) : (orFail error o).toOption = o := by
  cases o <;> rfl

@[simp] theorem toOption_error (error : ε) : (Except.error error : Except ε α).toOption = none := rfl

@[simp] theorem toOption_throw (error : ε) : (throw error : Except ε α).toOption = none := rfl

@[simp] theorem toOption_ok (a : α) : (Except.ok a : Except ε α).toOption = some a := rfl

@[simp] theorem toOption_ite (p : Prop) [Decidable p] (x y : Except ε α) :
    (if p then x else y).toOption = if p then x.toOption else y.toOption := by
  split <;> rfl

end

-- Orders

/-- The entries in a new order; `order` lists their old places. -/
def permute (order : List Nat) (l : List α) : List α := order.filterMap fun k => l[k]?

def place (order : List Nat) (k : Nat) : Nat := if k ∈ order then order.idxOf k else k

section
variable {α β : Type} {order : List Nat}

theorem getElem?_filterMap (f : α → Option β) {l : List α} (h : ∀ a ∈ l, (f a).isSome = true) (i : Nat) :
    (l.filterMap f)[i]? = l[i]?.bind f := by
  induction l generalizing i with
  | nil => rfl
  | cons a l ih =>
    obtain ⟨b, hb⟩ := Option.isSome_iff_exists.mp (h a List.mem_cons_self)
    rw [List.filterMap_cons_some hb]
    cases i with
    | zero => exact hb.symm
    | succ i => exact ih (fun a ha => h a (List.mem_cons_of_mem _ ha)) i

theorem getElem?_permute {l : List α} (h : ∀ k ∈ order, k < l.length) (i : Nat) :
    (permute order l)[i]? = order[i]?.bind fun k => l[k]? := by
  refine getElem?_filterMap _ (fun k hk => ?_) i
  rw [List.getElem?_eq_getElem (h k hk)]
  rfl

theorem permute_range (l : List α) : permute (range l.length) l = l := by
  refine List.ext_getElem? fun i => ?_
  rw [getElem?_permute (fun k hk => List.mem_range.mp hk)]
  by_cases hi : i < l.length
  · rw [List.getElem?_range hi]
    rfl
  · rw [getElem?_eq_none (by simpa using hi), getElem?_eq_none (by simpa using hi)]
    rfl

theorem permute_perm {l : List α} (h : order.Perm (range l.length)) : (permute order l).Perm l := by
  have hperm : (permute order l).Perm (permute (range l.length) l) := h.filterMap fun k => l[k]?
  rwa [permute_range] at hperm

theorem permute_place {l : List α} (h : order.Perm (range l.length)) (k : Nat) :
    (permute order l)[place order k]? = l[k]? := by
  by_cases hk : k ∈ order
  · have hinside : ∀ k ∈ order, k < l.length := fun k hk => List.mem_range.mp (h.mem_iff.mp hk)
    rw [place, if_pos hk, getElem?_permute hinside, List.getElem?_idxOf hk]
    rfl
  have hlength : l.length ≤ k := by
    by_contra hlt
    exact hk (h.mem_iff.mpr (List.mem_range.mpr (Nat.lt_of_not_le hlt)))
  rw [place, if_neg hk, getElem?_eq_none hlength,
    getElem?_eq_none ((permute_perm h).length_eq ▸ hlength)]

theorem mapM_permute {l : List α} {bs : List β} (h : l.mapM f = some bs) (order : List Nat) :
    (permute order l).mapM f = some (permute order bs) := by
  have hentries : ∀ k : Nat, (l[k]? = none ∧ bs[k]? = none) ∨
      ∃ a b, l[k]? = some a ∧ bs[k]? = some b ∧ f a = some b := by
    have hall := mapM_forall₂ h
    clear h
    intro k
    induction hall generalizing k with
    | nil => exact .inl ⟨rfl, rfl⟩
    | cons hab _ ih =>
      cases k with
      | zero => exact .inr ⟨_, _, rfl, rfl, hab⟩
      | succ k => exact ih k
  induction order with
  | nil => rfl
  | cons k order ih =>
    rw [permute, permute] at ih ⊢
    rcases hentries k with ⟨hl, hbs⟩ | ⟨a, b, hl, hbs, hab⟩
    · rw [List.filterMap_cons_none hl, List.filterMap_cons_none hbs, ih]
    · rw [List.filterMap_cons_some hl, List.filterMap_cons_some hbs, mapM_cons, hab, ih]
      rfl

end

-- Renumbered edges

/-- An edge of a document that names the new places of its records, and is otherwise the
edge that it was. -/
structure RenumberedEdge (order : List Nat) (value value' : JsonValue Bytes) : Prop where
  fields : objectHasExactFields (some value') edgeFields = objectHasExactFields (some value) edgeFields
  others : ∀ key ∈ ["kind", "target_id", "resolution", "occurrence"],
    objectGet key (some value') = objectGet key (some value)
  source : jsonIntegerSize (objectGet "source_record_index" (some value')) =
    (jsonIntegerSize (objectGet "source_record_index" (some value))).map (place order)
  target : jsonIntegerSize (objectGet "target_record_index" (some value')) =
    (jsonIntegerSize (objectGet "target_record_index" (some value))).map (place order)
  null : objectGet "target_record_index" (some value') = some .null ↔
    objectGet "target_record_index" (some value) = some .null

def renumberEdge (order : List Nat) (e : MetadataEdge) : MetadataEdge :=
  { e with
    sourceRecordIndex := place order e.sourceRecordIndex
    targetRecordIndex := e.targetRecordIndex.map (place order) }

theorem parseResolution_renumbered
    (htarget : jsonIntegerSize index' = (jsonIntegerSize index).map (place order))
    (hnull : index' = some .null ↔ index = some .null) :
    (parseResolution name index').toOption =
      (parseResolution name index).toOption.map fun (state, t) => (state, t.map (place order)) := by
  unfold parseResolution
  split
  · simp only [toOption_orFail, htarget, Option.map_map]
    rfl
  split
  · by_cases h : index = some .null
    · rw [hnull.mpr h, h]
      rfl
    · have h' : index' ≠ some .null := fun h' => h (hnull.mp h')
      split
      · exact absurd rfl h'
      · rfl
  · rfl

theorem parseEdge_renumbered (h : RenumberedEdge order value value') :
    (parseEdge path (some value')).toOption =
      (parseEdge path (some value)).toOption.map (renumberEdge order) := by
  have hkind := h.others "kind" (by simp)
  have htarget := h.others "target_id" (by simp)
  have hresolution := h.others "resolution" (by simp)
  have hoccurrence := h.others "occurrence" (by simp)
  simp only [parseEdge, h.fields, hkind, htarget, hresolution, hoccurrence, h.source, toOption_ite,
    toOption_bind, toOption_orFail, toOption_throw, toOption_pure,
    parseResolution_renumbered h.target h.null]
  split
  · cases jsonIntegerSize (objectGet "source_record_index" (some value)) with
    | none => rfl
    | some source => ?_
    cases stringOf (objectGet "kind" (some value)) with
    | none => rfl
    | some kindName => ?_
    cases stringOf (objectGet "target_id" (some value)) with
    | none => rfl
    | some target => ?_
    cases stringOf (objectGet "resolution" (some value)) with
    | none => rfl
    | some resolutionName => ?_
    simp only [bind_some]
    cases (parseEdgeKind kindName).toOption with
    | none => rfl
    | some kind => ?_
    split
    · cases parseSourceRange (objectGet "occurrence" (some value)) path with
      | none => rfl
      | some span => ?_
      cases (parseResolution resolutionName
          (objectGet "target_record_index" (some value))).toOption with
      | none | some p => rfl
    · rfl
  · rfl

-- Canonical order

instance : Std.TransCmp compareRecords := by
  unfold compareRecords
  infer_instance

instance : Std.TransCmp compareEdges := by
  unfold compareEdges
  infer_instance

theorem sameIdentity_of_compare (a b : MetadataRecord) (h : compareRecords a b = .eq) :
    sameIdentity a b = true := by
  simp only [compareRecords, compareLex_eq_eq, compareOn, Std.LawfulEqOrd.compare_eq_iff_eq] at h
  simp [sameIdentity, h]

theorem EdgeKind.code_injective (h : EdgeKind.code a = EdgeKind.code b) : a = b := by
  cases a <;> cases b <;> first | rfl | cases h

theorem sameReference_of_compare (a b : MetadataEdge) (h : compareEdges a b = .eq) :
    sameReference a b = true := by
  simp only [compareEdges, compareLex_eq_eq, compareOn, Std.LawfulEqOrd.compare_eq_iff_eq] at h
  simp [sameReference, h.1, EdgeKind.code_injective h.2.1, h.2.2.1]

variable {order : List Nat} {records sorted : List MetadataRecord} {edges edges' : List MetadataEdge}
  {references : List (MetadataEdge × EdgeReference)}

theorem lastIndexOf_isSome_of_found (hfound : found.isSome = true) :
    (lastIndexOf identity j found records).isSome = true := by
  induction records generalizing j found with
  | nil => exact hfound
  | cons r rest ih =>
    rw [lastIndexOf]
    split
    · exact ih rfl
    · exact ih hfound

theorem lastIndexOf_isSome (h : ∃ r ∈ records, r.sourceIdentity = identity) :
    (lastIndexOf identity j found records).isSome = true := by
  obtain ⟨r, hmem, hr⟩ := h
  induction records generalizing j found with
  | nil => cases hmem
  | cons a rest ih =>
    rw [lastIndexOf]
    rcases List.mem_cons.mp hmem with rfl | hmem
    · rw [if_pos hr]
      exact lastIndexOf_isSome_of_found rfl
    · exact ih hmem

def referenced (records : List MetadataRecord) (e : MetadataEdge) : Option (MetadataEdge × EdgeReference) :=
  (edgeReference records 0 e).toOption.map fun reference => (e, reference)

def remapped (records : List MetadataRecord) (p : MetadataEdge × EdgeReference) : Option MetadataEdge :=
  (remapEdge records p.1 p.2).toOption

theorem edgeReference_index (records : List MetadataRecord) (i j : Nat) (e : MetadataEdge) :
    (edgeReference records i e).toOption = (edgeReference records j e).toOption := by
  unfold edgeReference
  split
  · rfl
  · rfl
  split
  · rfl
  · split <;> rfl

theorem edgeReferences_toOption (index : Nat) (edges : List MetadataEdge) :
    (edgeReferences records index edges).toOption = edges.mapM (referenced records) := by
  induction edges generalizing index with
  | nil => rfl
  | cons e rest ih =>
    simp only [edgeReferences, toOption_bind, toOption_pure, ih, mapM_cons, referenced,
      edgeReference_index records index 0]
    cases (edgeReference records 0 e).toOption <;> rfl

theorem canonicalizeIndices_toOption (edges : List MetadataEdge) :
    (canonicalizeIndices records edges).toOption =
      (edges.mapM (referenced records)).bind fun references =>
        if (neighbours sameIdentity (sort compareRecords records)).isSome then none
        else (references.mapM (remapped (sort compareRecords records))).bind fun edges =>
          if (neighbours sameReference (sort compareEdges edges)).isSome then none
          else some (sort compareRecords records, sort compareEdges edges) := by
  simp only [canonicalizeIndices, toOption_bind, edgeReferences_toOption]
  congr 1
  funext references
  cases neighbours sameIdentity (sort compareRecords records) with
  | some p => rfl
  | none => ?_
  simp only [toOption_bind, toOption_mapM, Option.isSome_none, Bool.false_eq_true, if_false]
  congr 1
  funext edges
  cases neighbours sameReference (sort compareEdges edges) <;> rfl

theorem edgeReference_renumbered (horder : order.Perm (range records.length)) (e : MetadataEdge) :
    (edgeReference (permute order records) 0 (renumberEdge order e)).toOption =
      (edgeReference records 0 e).toOption := by
  simp only [edgeReference, renumberEdge, permute_place horder]
  cases records[e.sourceRecordIndex]? with
  | none => rfl
  | some source => ?_
  cases e.targetRecordIndex with
  | none => rfl
  | some t =>
    simp only [Option.map_some, permute_place horder]
    rfl

theorem referenced_renumbered (horder : order.Perm (range records.length)) (e : MetadataEdge) :
    referenced (permute order records) (renumberEdge order e) =
      (referenced records e).map fun p => (renumberEdge order p.1, p.2) := by
  rw [referenced, referenced, edgeReference_renumbered horder]
  cases (edgeReference records 0 e).toOption <;> rfl

theorem referenced_target (h : referenced records e = some p) (ht : p.1.targetRecordIndex = some t) :
    ∃ identity, p.2.target = some identity ∧ ∃ r ∈ records, r.sourceIdentity = identity := by
  obtain ⟨reference, href, rfl⟩ := Option.map_eq_some_iff.mp h
  rw [edgeReference, ht] at href
  cases hsource : records[e.sourceRecordIndex]? with
  | none => simp [hsource] at href
  | some source => ?_
  cases htarget : records[t]? with
  | none => simp [hsource, htarget] at href
  | some target => ?_
  simp only [hsource, htarget] at href
  split at href
  · cases href
    exact ⟨_, rfl, target, List.mem_of_getElem? htarget, rfl⟩
  · cases href

theorem remapped_renumbered (h : referenced records e = some p) (hperm : sorted.Perm records) :
    remapped sorted (renumberEdge order p.1, p.2) = remapped sorted p := by
  rw [remapped, remapped, remapEdge, remapEdge]
  cases lastIndexOf p.2.source 0 none sorted with
  | none => rfl
  | some j => ?_
  cases ht : p.1.targetRecordIndex with
  | none => simp [renumberEdge, ht]
  | some t => ?_
  obtain ⟨identity, hidentity, r, hmem, hr⟩ := referenced_target h ht
  have hsome := @lastIndexOf_isSome _ _ 0 none ⟨r, hperm.mem_iff.mpr hmem, hr⟩
  obtain ⟨k, hk⟩ := Option.isSome_iff_exists.mp hsome
  simp [renumberEdge, ht, hidentity, hk]

theorem mapM_referenced_renumbered (horder : order.Perm (range records.length))
    (edges : List MetadataEdge) :
    (edges.map (renumberEdge order)).mapM (referenced (permute order records)) =
      (edges.mapM (referenced records)).map fun references =>
        references.map fun p => (renumberEdge order p.1, p.2) := by
  induction edges with
  | nil => rfl
  | cons e rest ih =>
    rw [List.map_cons, mapM_cons, ih, mapM_cons, referenced_renumbered horder]
    cases referenced records e with
    | none => rfl
    | some p => cases rest.mapM (referenced records) <;> rfl

theorem mapM_remapped_renumbered (h : edges.mapM (referenced records) = some references)
    (hperm : sorted.Perm records) :
    (references.map fun p => (renumberEdge order p.1, p.2)).mapM (remapped sorted) =
      references.mapM (remapped sorted) := by
  have hall := mapM_forall₂ h
  clear h
  induction hall with
  | nil => rfl
  | cons hp _ ih => rw [List.map_cons, mapM_cons, ih, mapM_cons, remapped_renumbered hp hperm]

theorem canonicalizeIndices_permuted (horder : order.Perm (range records.length))
    (hedges : edges'.Perm (edges.map (renumberEdge order))) :
    (canonicalizeIndices (permute order records) edges').toOption =
      (canonicalizeIndices records edges).toOption := by
  rw [canonicalizeIndices_toOption, canonicalizeIndices_toOption]
  rcases mapM_perm_cases (referenced (permute order records)) hedges with
    ⟨references', renumbered, hreferences', hrenumbered, hperm⟩ | ⟨hnone', hnone⟩
  · rw [mapM_referenced_renumbered horder] at hrenumbered
    obtain ⟨references, hreferences, rfl⟩ := Option.map_eq_some_iff.mp hrenumbered
    rw [hreferences', hreferences, bind_some, bind_some]
    rcases sort_perm_cases sameIdentity_of_compare (permute_perm horder).symm with
      ⟨hdistinct, hsorted⟩ | ⟨hsome, hsome'⟩
    · rw [hsorted, hdistinct]
      rcases mapM_perm_cases (remapped (sort compareRecords records)) hperm with
        ⟨es', es, hes', hes, hesPerm⟩ | ⟨hes', hes⟩
      · rw [mapM_remapped_renumbered hreferences (sort_perm _ _)] at hes
        rw [hes', hes, bind_some, bind_some]
        rcases sort_perm_cases sameReference_of_compare hesPerm.symm with
          ⟨hdistinct, hsorted⟩ | ⟨hsome, hsome'⟩
        · rw [hsorted]
        · rw [if_pos hsome, if_pos hsome']
      · rw [mapM_remapped_renumbered hreferences (sort_perm _ _)] at hes
        rw [hes', hes]
    · rw [if_pos hsome, if_pos hsome']
  · rw [mapM_referenced_renumbered horder] at hnone
    rw [hnone', Option.map_eq_none_iff.mp hnone]
    rfl

-- Documents

/-- A document whose arrays of records and edges stand in another order. -/
structure PermutedArtifact (root root' : JsonValue Bytes) : Prop where
  fields : objectHasExactFields (some root') artifactFields = objectHasExactFields (some root) artifactFields
  others : ∀ key ∈ ["schema", "schema_version", "producer", "analysis_contract", "source", "complete"],
    objectGet key (some root') = objectGet key (some root)
  tables : ∃ order records edges renumbered edges',
    objectGet "records" (some root) = some (.array records) ∧
    order.Perm (List.range records.length) ∧
    objectGet "records" (some root') = some (.array (permute order records)) ∧
    objectGet "edges" (some root) = some (.array edges) ∧
    List.Forall₂ (RenumberedEdge order) edges renumbered ∧
    edges'.Perm renumbered ∧
    objectGet "edges" (some root') = some (.array edges')

theorem parseItems_toOption {α : Type} (parse : Option (JsonValue Bytes) → Except String α) (index : Nat)
    (items : List (JsonValue Bytes)) :
    (parseItems parse index items).toOption = items.mapM fun value => (parse (some value)).toOption := by
  induction items generalizing index with
  | nil => rfl
  | cons value rest ih =>
    simp only [parseItems, toOption_bind, toOption_mapError, toOption_pure, ih, mapM_cons]
    rfl

theorem mapM_parseEdge_renumbered (h : List.Forall₂ (RenumberedEdge order) values values') :
    (values'.mapM fun value => (parseEdge path (some value)).toOption) =
      (values.mapM fun value => (parseEdge path (some value)).toOption).map
        (List.map (renumberEdge order)) := by
  induction h with
  | nil => rfl
  | cons hedge _ ih =>
    rw [mapM_cons, mapM_cons, ih, parseEdge_renumbered hedge]
    rename_i value _ values _ _
    cases (parseEdge path (some value)).toOption with
    | none => rfl
    | some e => cases values.mapM fun value => (parseEdge path (some value)).toOption <;> rfl

theorem tables_permuted (path : Bytes) {items edgeItems renumbered edgeItems' : List (JsonValue Bytes)}
    (horder : order.Perm (range items.length))
    (hrenumbered : List.Forall₂ (RenumberedEdge order) edgeItems renumbered)
    (hperm : edgeItems'.Perm renumbered) :
    ((permute order items).mapM fun value => (parseRecord path (some value)).toOption).bind (fun records =>
        (edgeItems'.mapM fun value => (parseEdge path (some value)).toOption).bind fun edges =>
          (canonicalizeIndices records edges).toOption) =
      (items.mapM fun value => (parseRecord path (some value)).toOption).bind fun records =>
        (edgeItems.mapM fun value => (parseEdge path (some value)).toOption).bind fun edges =>
          (canonicalizeIndices records edges).toOption := by
  cases hrecords : items.mapM fun value => (parseRecord path (some value)).toOption with
  | none =>
    rcases mapM_perm_cases (fun value => (parseRecord path (some value)).toOption)
      (permute_perm horder) with ⟨_, _, _, hsome, _⟩ | ⟨hnone, _⟩
    · cases hrecords.symm.trans hsome
    · rw [hnone]
      rfl
  | some records =>
    have hlength : items.length = records.length := (mapM_forall₂ hrecords).length_eq
    rw [mapM_permute hrecords order, bind_some, bind_some]
    rcases mapM_perm_cases (fun value => (parseEdge path (some value)).toOption) hperm with
      ⟨es', es, hes', hes, hesPerm⟩ | ⟨hes', hes⟩
    · rw [mapM_parseEdge_renumbered hrenumbered] at hes
      obtain ⟨edges, hedges, rfl⟩ := Option.map_eq_some_iff.mp hes
      rw [hes', hedges, bind_some, bind_some]
      exact canonicalizeIndices_permuted (hlength ▸ horder) hesPerm
    · rw [mapM_parseEdge_renumbered hrenumbered] at hes
      rw [hes', Option.map_eq_none_iff.mp hes]
      rfl

theorem parseTables_eq (hitems : objectGet "records" root = some (.array items))
    (hedgeItems : objectGet "edges" root = some (.array edgeItems)) :
    parseTables root =
      if isTrue (objectGet "complete" root) = true ∧ items.length ≤ maxRecords ∧
          edgeItems.length ≤ maxEdges then some (items, edgeItems) else none := by
  rw [parseTables, hitems, hedgeItems]
  by_cases hcomplete : isTrue (objectGet "complete" root) = true
  · by_cases hrecords : items.length ≤ maxRecords
    · by_cases hedges : edgeItems.length ≤ maxEdges <;>
        simp [hcomplete, hrecords, hedges, arrayOf, guard, failure]
    · simp [hcomplete, hrecords, arrayOf, guard, failure]
  · simp [hcomplete, guard, failure]

/-- The document in the new order is read as the same artifact, or both are refused. -/
theorem parseArtifact_permuted (h : PermutedArtifact root root') :
    (parseArtifact path (some root')).toOption = (parseArtifact path (some root)).toOption := by
  obtain ⟨order, records, edges, renumbered, edges', hrecords, horder, hrecords', hedges, hrenumbered,
    hperm, hedges'⟩ := h.tables
  have hschema := h.others "schema" (by simp)
  have hversion := h.others "schema_version" (by simp)
  have hproducer := h.others "producer" (by simp)
  have hcontract := h.others "analysis_contract" (by simp)
  have hsource := h.others "source" (by simp)
  have hcomplete := h.others "complete" (by simp)
  have hrecordsLength := (permute_perm horder).length_eq
  have hedgesLength := hperm.length_eq.trans hrenumbered.length_eq.symm
  simp only [parseArtifact, h.fields, isSchemaV1, hschema, hversion, hproducer, hcontract, hsource,
    parseTables_eq hrecords hedges, parseTables_eq hrecords' hedges', hcomplete, hrecordsLength,
    hedgesLength, toOption_ite, toOption_bind, toOption_orFail, toOption_throw, toOption_pure,
    parseItems_toOption]
  split
  · split
    · cases parseProducer (objectGet "producer" (some root)) with
      | none => rfl
      | some producer => ?_
      cases parseContract (objectGet "analysis_contract" (some root)) with
      | none => rfl
      | some contract => ?_
      cases parseProvenance (objectGet "source" (some root)) with
      | none => rfl
      | some source => ?_
      split
      · have htables := tables_permuted source.1 horder hrenumbered hperm
        have hartifact := congrArg (fun tables => tables.bind fun p =>
          some (⟨path, producer, contract, source.1, source.2.1, source.2.2, p.1, p.2⟩ :
            MetadataArtifact)) htables
        simpa only [Option.bind_assoc, bind_some] using hartifact
      · rfl
    · rfl
  · rfl

end Fisics.Semantic
