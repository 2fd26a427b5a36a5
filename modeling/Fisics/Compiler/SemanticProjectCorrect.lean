import Fisics.Compiler.SemanticCanonical
import Fisics.Compiler.SemanticProject
import Mathlib.Algebra.BigOperators.Group.List.Basic
import Mathlib.Algebra.GroupWithZero.Nat

/-!
# The project graph does not depend on order

The units of a manifest and what its artifacts list may stand in any order: the graph is
built from the artifacts in an order of their own. In a graph that was built no two
records share an identity, and an edge goes to the record with the name of its target,
or out of the project where there is none and the manifest allows it.
-/

namespace Fisics.Semantic

open Fisics.Json (Bytes JsonValue char)
open Option (bind_eq_some_iff bind_some filter_some)
open Json (fisicsJsonParse parseValue)
open FallibleMap SortedTable

-- Loading

/-- Files whose documents are the same, or list the same in another order. -/
def PermutedFile (bytes bytes' : Option Bytes) : Prop :=
  bytes' = bytes ∨ ∃ b b' root root', bytes = some b ∧ bytes' = some b' ∧
    Json.fisicsJsonParse b = .ok root ∧ Json.fisicsJsonParse b' = .ok root' ∧
    (root' = root ∨ PermutedArtifact root root')

def fileBytes (host : ProjectHost) (path : Bytes) : Nat := ((host.readFile path).map List.length).getD 0

/-- The artifact in a file, where its document and its source are good. -/
def artifactOfFile (host : ProjectHost) (path bytes : Bytes) : Option MetadataArtifact :=
  (Json.fisicsJsonParse bytes).toOption.bind fun root =>
    (parseArtifact path (some root)).toOption.bind fun artifact =>
      (verifySource host artifact.sourcePath artifact.sourceLength artifact.sourceHash).toOption.map
        fun _ => artifact

def loadedArtifact (host : ProjectHost) (path : Bytes) : Option MetadataArtifact :=
  (host.readFile path).bind fun bytes =>
    if artifactMaxBytes < bytes.length then none else artifactOfFile host path bytes

theorem artifactLoad_toOption (host : ProjectHost) (path : Bytes) :
    (artifactLoad host path).toOption =
      (loadedArtifact host path).map fun artifact => (artifact, fileBytes host path) := by
  simp only [artifactLoad, toOption_bind, toOption_mapError, toOption_pure, loadedArtifact, fileBytes,
    readArtifactFile]
  cases host.readFile path with
  | none => rfl
  | some bytes => ?_
  simp only [toOption_ite, toOption_error, toOption_ok, bind_some, Option.map_some,
    Option.getD_some]
  split
  · rfl
  simp only [bind_some, artifactOfFile]
  cases (fisicsJsonParse bytes).toOption with
  | none => rfl
  | some root => ?_
  cases hartifact : (parseArtifact path (some root)).toOption with
  | none => simp [hartifact]
  | some artifact =>
    simp only [bind_some, hartifact]
    cases (verifySource host artifact.sourcePath artifact.sourceLength artifact.sourceHash).toOption <;>
      rfl

/-- The bounds on what the artifacts hold together. -/
def WithinLimits (host : ProjectHost) (totalBytes totalRecords totalEdges : Nat) (paths : List Bytes)
    (artifacts : List MetadataArtifact) : Prop :=
  totalBytes + (paths.map (fileBytes host)).sum ≤ maxTotalArtifactBytes ∧
    totalRecords + (artifacts.map (·.records.length)).sum ≤ maxRecords ∧
    totalEdges + (artifacts.map (·.edges.length)).sum ≤ maxEdges

instance : Decidable (WithinLimits host b r e paths artifacts) := by
  unfold WithinLimits
  infer_instance

theorem withinLimits_cons : WithinLimits host b r e (path :: paths) (artifact :: artifacts) ↔
    WithinLimits host (b + fileBytes host path) (r + artifact.records.length)
      (e + artifact.edges.length) paths artifacts := by
  simp only [WithinLimits, List.map_cons, List.sum_cons, Nat.add_assoc]

theorem loadArtifacts_toOption (host : ProjectHost) (paths : List Bytes) :
    ∀ b r e, b ≤ maxTotalArtifactBytes → r ≤ maxRecords → e ≤ maxEdges →
      (loadArtifacts host b r e paths).toOption =
        (paths.mapM (loadedArtifact host)).filter fun artifacts =>
          WithinLimits host b r e paths artifacts := by
  induction paths with
  | nil =>
    intro b r e hb hr he
    have hlimits : WithinLimits host b r e [] [] := ⟨hb, hr, he⟩
    simp only [loadArtifacts, toOption_ok, List.mapM_nil, Option.pure_def, filter_some, hlimits,
      decide_true, if_true]
  | cons path rest ih =>
    intro b r e hb hr he
    simp only [loadArtifacts, toOption_bind, artifactLoad_toOption, List.mapM_cons]
    cases loadedArtifact host path with
    | none => rfl
    | some artifact => ?_
    simp only [Option.map_some, bind_some, toOption_ite, toOption_throw, toOption_bind,
      toOption_pure, Option.bind_eq_bind, Option.pure_def]
    by_cases hroom : b + fileBytes host path ≤ maxTotalArtifactBytes ∧
        r + artifact.records.length ≤ maxRecords ∧ e + artifact.edges.length ≤ maxEdges
    · rw [if_neg (by omega), if_neg (by omega), ih _ _ _ hroom.1 hroom.2.1 hroom.2.2]
      cases rest.mapM (loadedArtifact host) with
      | none => rfl
      | some artifacts =>
        simp only [bind_some, filter_some, withinLimits_cons]
        split <;> rfl
    · have hnone : ∀ artifacts, ¬WithinLimits host b r e (path :: rest) (artifact :: artifacts) := by
        intro artifacts hlimits
        obtain ⟨hbytes, hrecords, hedges⟩ := withinLimits_cons.mp hlimits
        omega
      have hfails : (if maxTotalArtifactBytes - b < fileBytes host path then none
          else if maxRecords - r < artifact.records.length ∨ maxEdges - e < artifact.edges.length then none
          else (loadArtifacts host (b + fileBytes host path) (r + artifact.records.length)
            (e + artifact.edges.length) rest).toOption.bind fun artifacts =>
              some (artifact :: artifacts)) = none := by
        split
        · rfl
        · rw [if_pos (by omega)]
      rw [hfails]
      cases rest.mapM (loadedArtifact host) with
      | none => rfl
      | some artifacts =>
        simp only [bind_some, filter_some, hnone, decide_false, Bool.false_eq_true,
          if_false]

-- Other orders

/-- A project whose manifest lists its units in another order, and whose artifacts list
their records and edges in other orders. -/
structure PermutedProject (host : ProjectHost) (manifest : ProjectManifest) (host' : ProjectHost)
    (manifest' : ProjectManifest) : Prop where
  sameHost : host' = { host with readFile := host'.readFile }
  sameManifest : manifest' = { manifest with translationUnits := manifest'.translationUnits }
  units : manifest'.translationUnits.Perm manifest.translationUnits
  files : ∀ path ∈ manifest.translationUnits, PermutedFile (host.readFile path) (host'.readFile path)

/-- The bytes of the artifacts are on the same side of the reader's bounds. -/
def SameByteLimits (host host' : ProjectHost) (paths : List Bytes) : Prop :=
  (∀ path ∈ paths, fileBytes host' path ≤ artifactMaxBytes ↔ fileBytes host path ≤ artifactMaxBytes) ∧
    ((paths.map (fileBytes host')).sum ≤ maxTotalArtifactBytes ↔
      (paths.map (fileBytes host)).sum ≤ maxTotalArtifactBytes)

instance : Std.TransCmp compareArtifacts := by
  unfold compareArtifacts
  infer_instance

theorem sameSourcePath_of_compare (a b : MetadataArtifact) (h : compareArtifacts a b = .eq) :
    sameSourcePath a b = true := by
  simp only [compareArtifacts, compareLex_eq_eq, compareOn, Std.LawfulEqOrd.compare_eq_iff_eq] at h
  simp [sameSourcePath, h.1]

theorem artifactOfFile_permuted (hhost : host' = { host with readFile := host'.readFile })
    (hparse : fisicsJsonParse b = .ok root) (hparse' : fisicsJsonParse b' = .ok root')
    (h : root' = root ∨ PermutedArtifact root root') :
    artifactOfFile host' path b' = artifactOfFile host path b := by
  have hverify : ∀ path length hash, verifySource host' path length hash =
      verifySource host path length hash := by
    intro path length hash
    rw [hhost]
    rfl
  have hartifact : (parseArtifact path (some root')).toOption = (parseArtifact path (some root)).toOption := by
    rcases h with rfl | h
    · rfl
    · exact parseArtifact_permuted h
  simp only [artifactOfFile, hparse, hparse', toOption_ok, bind_some, hverify, hartifact]

theorem loadedArtifact_permuted (hhost : host' = { host with readFile := host'.readFile })
    (h : PermutedFile (host.readFile path) (host'.readFile path))
    (hlimit : fileBytes host' path ≤ artifactMaxBytes ↔ fileBytes host path ≤ artifactMaxBytes) :
    loadedArtifact host' path = loadedArtifact host path := by
  rcases h with heq | ⟨b, b', root, root', hb, hb', hparse, hparse', hpermuted⟩
  · have hfile : ∀ bytes, artifactOfFile host' path bytes = artifactOfFile host path bytes := by
      intro bytes
      rw [hhost]
      rfl
    simp only [loadedArtifact, heq, hfile]
  · simp only [fileBytes, hb, hb', Option.map_some, Option.getD_some] at hlimit
    simp only [loadedArtifact, hb, hb', bind_some,
      artifactOfFile_permuted hhost hparse hparse' hpermuted, ← Nat.not_le, hlimit]

theorem withinLimits_permuted (hpaths : paths'.Perm paths) (hartifacts : artifacts'.Perm artifacts)
    (hbytes : (paths.map (fileBytes host')).sum ≤ maxTotalArtifactBytes ↔
      (paths.map (fileBytes host)).sum ≤ maxTotalArtifactBytes) :
    WithinLimits host' 0 0 0 paths' artifacts' ↔ WithinLimits host 0 0 0 paths artifacts := by
  simp only [WithinLimits, (hpaths.map (fileBytes host')).sum_eq,
    (hartifacts.map fun a => a.records.length).sum_eq, (hartifacts.map fun a => a.edges.length).sum_eq,
    Nat.zero_add, hbytes]

def loadedArtifacts (host : ProjectHost) (manifest : ProjectManifest) : Option (List MetadataArtifact) :=
  (loadArtifacts host 0 0 0 manifest.translationUnits).toOption

theorem loadedArtifacts_permuted (h : PermutedProject host manifest host' manifest')
    (hlimits : SameByteLimits host host' manifest.translationUnits) :
    (∃ artifacts artifacts', loadedArtifacts host manifest = some artifacts ∧
        loadedArtifacts host' manifest' = some artifacts' ∧ artifacts'.Perm artifacts) ∨
      (loadedArtifacts host manifest = none ∧ loadedArtifacts host' manifest' = none) := by
  have hloaded : manifest.translationUnits.mapM (loadedArtifact host') =
      manifest.translationUnits.mapM (loadedArtifact host) :=
    mapM_congr_mem fun path hpath =>
      loadedArtifact_permuted h.sameHost (h.files path hpath) (hlimits.1 path hpath)
  rw [loadedArtifacts, loadedArtifacts, loadArtifacts_toOption _ _ _ _ _ (Nat.zero_le _) (Nat.zero_le _)
    (Nat.zero_le _), loadArtifacts_toOption _ _ _ _ _ (Nat.zero_le _) (Nat.zero_le _) (Nat.zero_le _)]
  rcases mapM_perm_cases (loadedArtifact host') h.units with
    ⟨artifacts', artifacts, hartifacts', hartifacts, hperm⟩ | ⟨hnone', hnone⟩
  · rw [hloaded] at hartifacts
    rw [hartifacts, hartifacts', filter_some, filter_some]
    by_cases hwithin : WithinLimits host 0 0 0 manifest.translationUnits artifacts
    · have hwithin' := (withinLimits_permuted h.units hperm hlimits.2).mpr hwithin
      exact .inl ⟨artifacts, artifacts', by simp [hwithin], by simp [hwithin'], hperm⟩
    · have hwithin' := mt (withinLimits_permuted h.units hperm hlimits.2).mp hwithin
      exact .inr ⟨by simp [hwithin], by simp [hwithin']⟩
  · rw [hloaded] at hnone
    rw [hnone, hnone']
    exact .inr ⟨rfl, rfl⟩

theorem graphBuild_toOption (host : ProjectHost) (manifest : ProjectManifest) :
    (graphBuild host manifest).toOption =
      if injectsFailure host.failGraphAllocation then none
      else (loadedArtifacts host manifest).bind fun artifacts =>
        if (neighbours sameSourcePath (sort compareArtifacts artifacts)).isSome then none
        else (assembleGraph manifest (sort compareArtifacts artifacts)).toOption := by
  simp only [graphBuild, toOption_ite, toOption_throw, toOption_bind, loadedArtifacts]
  split
  · rfl
  congr 1
  funext artifacts
  cases neighbours sameSourcePath (sort compareArtifacts artifacts) <;> rfl

/-- Other orders give the same graph, or none does. -/
theorem graphBuild_permuted (h : PermutedProject host manifest host' manifest')
    (hlimits : SameByteLimits host host' manifest.translationUnits) :
    (graphBuild host' manifest').toOption = (graphBuild host manifest).toOption := by
  have hfails : host'.failGraphAllocation = host.failGraphAllocation := by
    rw [h.sameHost]
  have hassemble : ∀ artifacts, assembleGraph manifest' artifacts = assembleGraph manifest artifacts := by
    intro artifacts
    rw [h.sameManifest]
    rfl
  rw [graphBuild_toOption, graphBuild_toOption, hfails]
  rcases loadedArtifacts_permuted h hlimits with
    ⟨artifacts, artifacts', hartifacts, hartifacts', hperm⟩ | ⟨hnone, hnone'⟩
  · rw [hartifacts, hartifacts', bind_some, bind_some]
    rcases sort_perm_cases sameSourcePath_of_compare hperm.symm with ⟨-, hsorted⟩ | ⟨hsome, hsome'⟩
    · simp only [hsorted, hassemble]
    · rw [if_pos hsome, if_pos hsome']
  · simp only [hnone, hnone', Option.bind_none]

-- Identities

def OriginOf (artifacts : List MetadataArtifact) (r : ProjectRecord) : Prop :=
  ∃ artifact, artifacts[r.translationUnitIndex]? = some artifact ∧
    artifact.records[r.localRecordIndex]? = some r.record

theorem mem_gatherRecords : r ∈ gatherRecords artifacts ↔ r.recordIndex = 0 ∧ OriginOf artifacts r := by
  rw [gatherRecords, List.mem_flatMap]
  constructor
  · rintro ⟨⟨artifact, unit⟩, hunit, hr⟩
    obtain ⟨⟨record, i⟩, hi, rfl⟩ := List.mem_map.mp hr
    exact ⟨rfl, artifact, List.mem_zipIdx_iff_getElem?.mp hunit, List.mem_zipIdx_iff_getElem?.mp hi⟩
  · rintro ⟨hindex, artifact, hartifact, hrecord⟩
    refine ⟨(artifact, r.translationUnitIndex), List.mem_zipIdx_iff_getElem?.mpr hartifact, ?_⟩
    refine List.mem_map.mpr ⟨(r.record, r.localRecordIndex), List.mem_zipIdx_iff_getElem?.mpr hrecord, ?_⟩
    rw [← hindex]

theorem getElem?_sortRecords (records : List ProjectRecord) (i : Nat) :
    (sortRecords records)[i]? =
      (sort compareProjectRecords records)[i]?.map fun r => { r with recordIndex := i } := by
  rw [sortRecords, List.getElem?_map, List.getElem?_zipIdx, Option.map_map, Nat.zero_add]
  rfl

theorem mem_sortRecords (h : r ∈ sortRecords records) :
    (sortRecords records)[r.recordIndex]? = some r ∧
      ∃ r₀ ∈ records, r = { r₀ with recordIndex := r.recordIndex } := by
  obtain ⟨i, hi⟩ := List.mem_iff_getElem?.mp h
  have hget := hi
  rw [getElem?_sortRecords] at hget
  obtain ⟨r₀, hr₀, rfl⟩ := Option.map_eq_some_iff.mp hget
  exact ⟨hi, r₀, mem_sort.mp (List.mem_of_getElem? hr₀), rfl⟩

theorem exists_mem_sortRecords (h : r₀ ∈ records) :
    ∃ i, { r₀ with recordIndex := i } ∈ sortRecords records := by
  obtain ⟨i, hi⟩ := List.mem_iff_getElem?.mp (mem_sort.mpr h)
  exact ⟨i, List.mem_iff_getElem?.mpr ⟨i, by rw [getElem?_sortRecords, hi]; rfl⟩⟩

/-- The records of a project: those of its artifacts, each with its place, no two with one
identity or one authored id. -/
structure ProjectRecords (artifacts : List MetadataArtifact) (records : List ProjectRecord) : Prop where
  place : ∀ r ∈ records, records[r.recordIndex]? = some r
  origin : ∀ r ∈ records, OriginOf artifacts r
  complete : ∀ unit artifact i record, artifacts[unit]? = some artifact →
    artifact.records[i]? = some record →
    ∃ r ∈ records, r.translationUnitIndex = unit ∧ r.localRecordIndex = i ∧ r.record = record
  identities : (records.map (·.record.sourceIdentity)).Nodup
  authoredIds : records.Pairwise fun r s =>
    r.record.authoredId = s.record.authoredId → r.record.authoredId = none

structure AuthoredIndex (records authored : List ProjectRecord) : Prop where
  ascending : Ascending (fun r : ProjectRecord => r.record.authoredId) authored
  mem_iff : ∀ r, r ∈ authored ↔ r ∈ records ∧ r.record.authoredId.isSome = true

instance : Std.TransCmp compareSourceIdentities := by
  unfold compareSourceIdentities
  infer_instance

instance : Std.TransCmp compareAuthoredIdentities := by
  unfold compareAuthoredIdentities
  infer_instance

theorem sameSourceIdentity_iff (a b : ProjectRecord) :
    sameSourceIdentity a b = true ↔ a.record.sourceIdentity = b.record.sourceIdentity := by
  simp [sameSourceIdentity]

theorem sameAuthoredId_iff (a b : ProjectRecord) :
    sameAuthoredId a b = true ↔ a.record.authoredId = b.record.authoredId := by
  simp [sameAuthoredId]

theorem sortRecords_gather (artifacts : List MetadataArtifact) :
    (∀ r ∈ sortRecords (gatherRecords artifacts), OriginOf artifacts r) ∧
      ∀ unit artifact i record, artifacts[unit]? = some artifact → artifact.records[i]? = some record →
        ∃ r ∈ sortRecords (gatherRecords artifacts),
          r.translationUnitIndex = unit ∧ r.localRecordIndex = i ∧ r.record = record := by
  constructor
  · intro r hr
    obtain ⟨-, r₀, hr₀, heq⟩ := mem_sortRecords hr
    obtain ⟨-, artifact, hartifact, hrecord⟩ := mem_gatherRecords.mp hr₀
    rw [heq]
    exact ⟨artifact, hartifact, hrecord⟩
  · intro unit artifact i record hartifact hrecord
    have hmem : (⟨0, unit, i, record⟩ : ProjectRecord) ∈ gatherRecords artifacts :=
      mem_gatherRecords.mpr ⟨rfl, artifact, hartifact, hrecord⟩
    obtain ⟨j, hj⟩ := exists_mem_sortRecords hmem
    exact ⟨_, hj, rfl, rfl, rfl⟩

theorem indexRecords_ok (h : indexRecords artifacts = .ok (records, authored)) :
    ProjectRecords artifacts records ∧ AuthoredIndex records authored := by
  simp only [indexRecords] at h
  split at h
  · cases h
  rename_i hauthored
  split at h
  · cases h
  rename_i hidentities
  cases h
  obtain ⟨horigin, hcomplete⟩ := sortRecords_gather artifacts
  have hidentities := (neighbours_eq_none_iff sameSourceIdentity_iff
    (@sort_sorted _ compareSourceIdentities _ _)).mp hidentities
  have hascending := ascending_of_neighbours sameAuthoredId_iff
    (@sort_sorted _ compareAuthoredIdentities _ _) hauthored
  have hnodup := ((sort_perm compareAuthoredIdentities _).map fun r => r.record.authoredId).nodup_iff.mp
    hascending.nodup_keys
  refine ⟨⟨fun r hr => (mem_sortRecords hr).1, horigin, hcomplete, ?_, ?_⟩, hascending, fun r => ?_⟩
  · exact ((sort_perm compareSourceIdentities _).map _).nodup_iff.mp hidentities
  · refine (List.pairwise_filter.mp (List.pairwise_map.mp hnodup)).imp fun {r s} hne heq => ?_
    by_contra hsome
    have hr := Option.isSome_iff_ne_none.mpr hsome
    exact hne hr (heq ▸ hr) heq
  · rw [mem_sort, List.mem_filter]

-- Resolution

/-- What an edge of an artifact becomes in the graph. -/
structure ResolvedEdge (records : List ProjectRecord) (targets : List Bytes) (e e' : ProjectEdge) : Prop where
  same : e' = { e with edge := { e.edge with
    sourceRecordIndex := e'.edge.sourceRecordIndex
    resolution := e'.edge.resolution
    targetRecordIndex := e'.edge.targetRecordIndex } }
  source : ∃ r, records[e'.edge.sourceRecordIndex]? = some r ∧
    r.translationUnitIndex = e.translationUnitIndex ∧ r.localRecordIndex = e.edge.sourceRecordIndex
  target : (e'.edge.resolution = .resolved ∧ ∃ k r, e'.edge.targetRecordIndex = some k ∧
        records[k]? = some r ∧ r.record.authoredId = some e.edge.targetId) ∨
      (e'.edge.resolution = .external ∧ e'.edge.targetRecordIndex = none ∧ e.edge.targetId ∈ targets ∧
        ∀ r ∈ records, r.record.authoredId ≠ some e.edge.targetId)

variable {artifacts : List MetadataArtifact} {records authored : List ProjectRecord}

theorem findAuthoredRecord_some (h : AuthoredIndex records authored)
    (hfind : findAuthoredRecord authored target = some r) :
    r ∈ records ∧ r.record.authoredId = some target := by
  obtain ⟨hmem, heq⟩ := of_search hfind
  exact ⟨((h.mem_iff r).mp hmem).1, Std.LawfulEqOrd.eq_of_compare heq⟩

theorem findAuthoredRecord_none (h : AuthoredIndex records authored)
    (hfind : findAuthoredRecord authored target = none) (hr : r ∈ records) :
    r.record.authoredId ≠ some target := by
  intro heq
  have hmem := (h.mem_iff r).mpr ⟨hr, by rw [heq]; rfl⟩
  exact (search_eq_none_iff h.ascending).mp hfind r hmem heq

theorem externalAllowed_iff (h : Ascending id targets) :
    externalAllowed targets target = true ↔ target ∈ targets := by
  constructor
  · intro hallowed
    obtain ⟨t, ht⟩ := Option.isSome_iff_exists.mp hallowed
    obtain ⟨hmem, heq⟩ := of_search ht
    exact Std.LawfulEqOrd.eq_of_compare heq ▸ hmem
  · intro hmem
    have hsearch := search_of_mem h hmem
    exact Option.isSome_iff_exists.mpr ⟨target, hsearch⟩

theorem findOriginRecord_some (h : findOriginRecord records unit i = some r) :
    r ∈ records ∧ r.translationUnitIndex = unit ∧ r.localRecordIndex = i := by
  have hp := List.find?_some h
  simp only [Bool.and_eq_true, beq_iff_eq] at hp
  exact ⟨List.mem_of_find?_eq_some h, hp⟩

theorem resolveEdge_ok (hrecords : ProjectRecords artifacts records)
    (hauthored : AuthoredIndex records authored)
    (htargets : Ascending id targets) (h : (resolveEdge records authored targets e).toOption = some e') :
    ResolvedEdge records targets e e' := by
  simp only [resolveEdge, toOption_bind, toOption_orFail] at h
  obtain ⟨source, hsource, h⟩ := bind_eq_some_iff.mp h
  obtain ⟨hmem, hunit, hlocal⟩ := findOriginRecord_some hsource
  cases hfind : findAuthoredRecord authored e.edge.targetId with
  | some target =>
    obtain ⟨htarget, hid⟩ := findAuthoredRecord_some hauthored hfind
    simp only [hfind, toOption_pure] at h
    cases h
    exact ⟨rfl, ⟨source, hrecords.place source hmem, hunit, hlocal⟩,
      .inl ⟨rfl, _, target, rfl, hrecords.place target htarget, hid⟩⟩
  | none =>
    simp only [hfind, toOption_ite, toOption_pure, toOption_throw] at h
    split at h
    · rename_i hallowed
      cases h
      exact ⟨rfl, ⟨source, hrecords.place source hmem, hunit, hlocal⟩,
        .inr ⟨rfl, rfl, (externalAllowed_iff htargets).mp hallowed,
          fun r hr => findAuthoredRecord_none hauthored hfind hr⟩⟩
    · cases h

structure GraphOf (manifest : ProjectManifest) (artifacts : List MetadataArtifact) (graph : ProjectGraph) :
    Prop where
  units : graph.translationUnits = artifacts.zipIdx.map fun p => translationUnit p.1 p.2
  records : ProjectRecords artifacts graph.records
  edges : ∃ resolved, List.Forall₂ (ResolvedEdge graph.records manifest.allowedExternalTargets)
      (gatherEdges artifacts) resolved ∧ graph.edges.Perm resolved

theorem assembleGraph_ok (htargets : Ascending id manifest.allowedExternalTargets)
    (h : (assembleGraph manifest artifacts).toOption = some graph) : GraphOf manifest artifacts graph := by
  simp only [assembleGraph, toOption_bind, toOption_mapM, toOption_pure] at h
  obtain ⟨⟨records, authored⟩, hindex, h⟩ := bind_eq_some_iff.mp h
  obtain ⟨edges, hedges, h⟩ := bind_eq_some_iff.mp h
  obtain ⟨hrecords, hauthored⟩ := indexRecords_ok (toOption_eq_some.mp hindex)
  cases h
  refine ⟨rfl, hrecords, edges, ?_, sort_perm _ _⟩
  exact (mapM_forall₂ hedges).imp fun e e' he => resolveEdge_ok hrecords hauthored htargets he

theorem graphBuild_ok (htargets : Ascending id manifest.allowedExternalTargets)
    (h : (graphBuild host manifest).toOption = some graph) :
    ∃ artifacts, loadedArtifacts host manifest = some artifacts ∧
      GraphOf manifest (sort compareArtifacts artifacts) graph := by
  rw [graphBuild_toOption] at h
  split at h
  · cases h
  obtain ⟨artifacts, hartifacts, h⟩ := bind_eq_some_iff.mp h
  split at h
  · cases h
  · exact ⟨artifacts, hartifacts, assembleGraph_ok htargets h⟩

theorem exists_mem_gatherEdges (hartifact : artifact ∈ artifacts) (hedge : edge ∈ artifact.edges) :
    ∃ unit i, (⟨unit, i, edge⟩ : ProjectEdge) ∈ gatherEdges artifacts := by
  obtain ⟨unit, hunit⟩ := List.mem_iff_getElem?.mp hartifact
  obtain ⟨i, hi⟩ := List.mem_iff_getElem?.mp hedge
  refine ⟨unit, i, List.mem_flatMap.mpr ⟨(artifact, unit), List.mem_zipIdx_iff_getElem?.mpr hunit, ?_⟩⟩
  exact List.mem_map.mpr ⟨(edge, i), List.mem_zipIdx_iff_getElem?.mpr hi, rfl⟩

theorem forall₂_left (h : List.Forall₂ R l l') (ha : a ∈ l) : ∃ b ∈ l', R a b := by
  induction h with
  | nil => cases ha
  | cons hab _ ih =>
    rcases List.mem_cons.mp ha with rfl | ha
    · exact ⟨_, List.mem_cons_self, hab⟩
    · obtain ⟨b, hb, hrel⟩ := ih ha
      exact ⟨b, List.mem_cons_of_mem _ hb, hrel⟩

theorem graphBuild_missing (htargets : Ascending id manifest.allowedExternalTargets)
    (hartifacts : loadedArtifacts host manifest = some artifacts) (hartifact : artifact ∈ artifacts)
    (hedge : edge ∈ artifact.edges)
    (hnone : ∀ a ∈ artifacts, ∀ r ∈ a.records, r.authoredId ≠ some edge.targetId)
    (hnot : edge.targetId ∉ manifest.allowedExternalTargets) :
    (graphBuild host manifest).toOption = none := by
  cases hgraph : (graphBuild host manifest).toOption with
  | none => rfl
  | some graph => ?_
  obtain ⟨loaded, hloaded, hgraphOf⟩ := graphBuild_ok htargets hgraph
  obtain rfl := Option.some.inj (hartifacts.symm.trans hloaded)
  obtain ⟨unit, i, he⟩ := exists_mem_gatherEdges (mem_sort.mpr hartifact) hedge
  obtain ⟨resolved, hresolved, -⟩ := hgraphOf.edges
  obtain ⟨e', -, hedge'⟩ := forall₂_left hresolved he
  rcases hedge'.target with ⟨-, k, r, -, hr, hid⟩ | ⟨-, -, hallowed, -⟩
  · obtain ⟨a, ha, hrecord⟩ := hgraphOf.records.origin r (List.mem_of_getElem? hr)
    have hmem := mem_sort.mp (List.mem_of_getElem? ha)
    exact absurd hid (hnone a hmem _ (List.mem_of_getElem? hrecord))
  · exact absurd hallowed hnot

-- The manifest

instance : Std.TransCmp compareTexts := by
  unfold compareTexts
  infer_instance

theorem manifestItems_toOption
    (hitem : ∀ i j value, (item i value).toOption = (item j value).toOption) (index : Nat)
    (values : List (JsonValue Bytes)) :
    (manifestItems item index values).toOption = values.mapM fun value => (item 0 value).toOption := by
  induction values generalizing index with
  | nil => rfl
  | cons value rest ih =>
    simp only [manifestItems, toOption_bind, toOption_pure, ih, List.mapM_cons, hitem index 0]
    rfl

theorem manifestUnit_index (host : ProjectHost) (directory : Bytes) (i j : Nat) (value : JsonValue Bytes) :
    (manifestUnit host directory i value).toOption = (manifestUnit host directory j value).toOption := by
  simp only [manifestUnit, toOption_ite, toOption_bind, toOption_orFail, toOption_throw]

theorem manifestTarget_index (i j : Nat) (value : JsonValue Bytes) :
    (manifestTarget i value).toOption = (manifestTarget j value).toOption := by
  simp only [manifestTarget, toOption_mapError]

def distinctTexts (texts : List Bytes) : Option (List Bytes) :=
  if (neighbours (· == ·) (sort compareTexts texts)).isSome then none else some (sort compareTexts texts)

theorem distinctTexts_perm (h : texts.Perm texts') : distinctTexts texts = distinctTexts texts' := by
  have hsame : ∀ a b, compareTexts a b = .eq → (a == b) = true := by
    intro a b heq
    exact beq_iff_eq.mpr (Std.LawfulEqOrd.eq_of_compare heq)
  rw [distinctTexts, distinctTexts]
  rcases sort_perm_cases hsame h with ⟨-, hsorted⟩ | ⟨hsome, hsome'⟩
  · rw [hsorted]
  · rw [if_pos hsome, if_pos hsome']

theorem distinctTexts_ascending (h : distinctTexts texts = some table) : Ascending id table := by
  rw [distinctTexts] at h
  split at h
  · cases h
  rename_i hnone
  cases h
  have hsame : ∀ a b : Bytes, (a == b) = true ↔ id a = id b := fun _ _ => beq_iff_eq
  refine ascending_of_neighbours hsame ?_ (Option.not_isSome_iff_eq_none.mp hnone)
  exact @sort_sorted _ compareTexts _ texts

theorem canonicalManifest_toOption (projectId path : Bytes) (units external : List Bytes) :
    (canonicalManifest projectId path units external).toOption =
      (distinctTexts units).bind fun units =>
        (distinctTexts external).map fun external => ⟨projectId, path, units, external⟩ := by
  simp only [canonicalManifest, distinctTexts]
  cases neighbours (· == ·) (sort compareTexts units) with
  | some p => rfl
  | none => cases neighbours (· == ·) (sort compareTexts external) <;> rfl

/-- A manifest's document whose arrays stand in another order. -/
structure PermutedManifest (root root' : JsonValue Bytes) : Prop where
  fields : objectHasExactFields (some root') manifestFields = objectHasExactFields (some root) manifestFields
  others : ∀ key ∈ ["schema", "schema_version", "project_id"],
    objectGet key (some root') = objectGet key (some root)
  tables : ∀ key ∈ ["translation_units", "allowed_external_targets"],
    objectGet key (some root') = objectGet key (some root) ∨
      ∃ items items', objectGet key (some root) = some (.array items) ∧
        objectGet key (some root') = some (.array items') ∧ items'.Perm items

/-- The two orders of an array, where there is one. -/
def ArraysPermuted (a a' : Option (List (JsonValue Bytes))) : Prop :=
  a' = a ∨ ∃ items items', a = some items ∧ a' = some items' ∧ items'.Perm items

theorem PermutedManifest.arrays (h : PermutedManifest root root') (key : String)
    (hkey : key ∈ ["translation_units", "allowed_external_targets"]) :
    ArraysPermuted (arrayOf (objectGet key (some root))) (arrayOf (objectGet key (some root'))) := by
  rcases h.tables key hkey with heq | ⟨items, items', hitems, hitems', hperm⟩
  · exact .inl (by rw [heq])
  · exact .inr ⟨items, items', by rw [hitems]; rfl, by rw [hitems']; rfl, hperm⟩

theorem ArraysPermuted.filter (h : ArraysPermuted a a')
    (hp : ∀ items items' : List (JsonValue Bytes), items'.Perm items → p items' = p items) :
    ArraysPermuted (a.filter p) (a'.filter p) := by
  rcases h with rfl | ⟨items, items', rfl, rfl, hperm⟩
  · exact .inl rfl
  · rw [filter_some, filter_some, hp items items' hperm]
    by_cases hpass : p items = true
    · exact .inr ⟨items, items', by simp [hpass], by simp [hpass], hperm⟩
    · exact .inl (by simp [hpass])

theorem ArraysPermuted.table (h : ArraysPermuted a a') (item : JsonValue Bytes → Option Bytes) :
    (a'.bind fun items => (items.mapM item).bind distinctTexts) =
      a.bind fun items => (items.mapM item).bind distinctTexts := by
  rcases h with rfl | ⟨items, items', rfl, rfl, hperm⟩
  · rfl
  · rw [bind_some, bind_some]
    rcases mapM_perm_cases item hperm with ⟨texts', texts, htexts', htexts, hperm⟩ | ⟨hnone', hnone⟩
    · rw [htexts', htexts, bind_some, bind_some, distinctTexts_perm hperm]
    · rw [hnone', hnone]

/-- A manifest, as far as its tables are concerned: both arrays are read. -/
theorem parseManifest_toOption (host : ProjectHost) (path : Bytes) (root : Option (JsonValue Bytes)) :
    (parseManifest host path root).toOption =
      if objectHasExactFields root manifestFields then
        if stringOf (objectGet "schema" root) ≠ some (text "fisiCs.semantic_project_manifest") then none
        else if jsonIntegerU64 (objectGet "schema_version" root) ≠ some 1 then none
        else (canonicalNameOf (objectGet "project_id" root)).toOption.bind fun projectId =>
          (((arrayOf (objectGet "translation_units" root)).filter fun units =>
              !units.isEmpty && units.length ≤ maxTranslationUnits).bind fun units =>
            (units.mapM fun value => (manifestUnit host (pathDirectory path) 0 value).toOption).bind
              distinctTexts).bind fun units =>
          (((arrayOf (objectGet "allowed_external_targets" root)).filter fun external =>
              external.length ≤ maxExternalTargets).bind fun external =>
            (external.mapM fun value => (manifestTarget 0 value).toOption).bind distinctTexts).map
          fun external => ⟨projectId, path, units, external⟩
      else none := by
  simp only [parseManifest, toOption_ite, toOption_bind, toOption_throw, toOption_mapError,
    toOption_orFail, manifestItems_toOption (manifestUnit_index host (pathDirectory path)),
    manifestItems_toOption manifestTarget_index, canonicalManifest_toOption]
  split
  · split
    · rfl
    · split
      · rfl
      · cases (canonicalNameOf (objectGet "project_id" root)).toOption with
        | none => rfl
        | some projectId => ?_
        cases (arrayOf (objectGet "translation_units" root)).filter fun units =>
            !units.isEmpty && units.length ≤ maxTranslationUnits with
        | none => rfl
        | some units =>
          simp only [bind_some]
          cases (arrayOf (objectGet "allowed_external_targets" root)).filter fun external =>
              external.length ≤ maxExternalTargets with
          | none =>
            cases (units.mapM fun value =>
              (manifestUnit host (pathDirectory path) 0 value).toOption).bind distinctTexts <;> rfl
          | some external =>
            cases units.mapM fun value => (manifestUnit host (pathDirectory path) 0 value).toOption with
            | none => rfl
            | some units => ?_
            simp only [bind_some]
            cases external.mapM fun value => (manifestTarget 0 value).toOption with
            | none => cases distinctTexts units <;> rfl
            | some external => rfl
  · rfl

theorem parseManifest_permuted (host : ProjectHost) (path : Bytes) (h : PermutedManifest root root') :
    (parseManifest host path (some root')).toOption = (parseManifest host path (some root)).toOption := by
  have hschema := h.others "schema" (by simp)
  have hversion := h.others "schema_version" (by simp)
  have hproject := h.others "project_id" (by simp)
  have hunits := (h.arrays "translation_units" (by simp)).filter
    (p := fun units => !units.isEmpty && units.length ≤ maxTranslationUnits) fun items items' hperm => by
      rw [hperm.length_eq, hperm.isEmpty_eq]
  have hexternal := (h.arrays "allowed_external_targets" (by simp)).filter
    (p := fun external => external.length ≤ maxExternalTargets) fun items items' hperm => by
      rw [hperm.length_eq]
  simp only [parseManifest_toOption, h.fields, hschema, hversion, hproject, hunits.table, hexternal.table]

theorem manifestLoad_ascending (h : manifestLoad host path = .ok manifest) :
    Ascending id manifest.allowedExternalTargets := by
  have h := toOption_eq_some.mpr h
  simp only [manifestLoad, toOption_ite, toOption_throw, toOption_bind, toOption_orFail,
    toOption_mapError] at h
  split at h
  · cases h
  obtain ⟨manifestPath, -, h⟩ := bind_eq_some_iff.mp h
  obtain ⟨bytes, -, h⟩ := bind_eq_some_iff.mp h
  split at h
  · cases h
  obtain ⟨root, -, h⟩ := bind_eq_some_iff.mp h
  rw [parseManifest_toOption] at h
  split at h
  · split at h
    · cases h
    · split at h
      · cases h
      · obtain ⟨projectId, -, h⟩ := bind_eq_some_iff.mp h
        obtain ⟨units, -, h⟩ := bind_eq_some_iff.mp h
        obtain ⟨external, hexternal, h⟩ := Option.map_eq_some_iff.mp h
        obtain ⟨items, -, hitems⟩ := bind_eq_some_iff.mp hexternal
        obtain ⟨texts, -, htexts⟩ := bind_eq_some_iff.mp hitems
        cases h
        exact distinctTexts_ascending htexts
  · cases h

-- The project graph

/-- The manifest and the graph do not show the order of what they are read from, and the
edges of the graph go where their targets are named. -/
structure CanonicalProject (host : ProjectHost) (manifest : ProjectManifest) : Prop where
  /-- The units of a manifest's document may stand in any order. -/
  manifestOrder : ∀ root root', PermutedManifest root root' → ∀ path,
    (parseManifest host path (some root')).toOption = (parseManifest host path (some root)).toOption
  /-- So may the units of the manifest and what the artifacts list. -/
  projectOrder : ∀ host' manifest', PermutedProject host manifest host' manifest' →
    SameByteLimits host host' manifest.translationUnits →
    (graphBuild host' manifest').toOption = (graphBuild host manifest).toOption
  graphOf : ∀ graph, graphBuild host manifest = .ok graph →
    ∃ artifacts, loadedArtifacts host manifest = some artifacts ∧
      GraphOf manifest (sort compareArtifacts artifacts) graph
  missing : ∀ artifacts artifact edge, loadedArtifacts host manifest = some artifacts →
    artifact ∈ artifacts → edge ∈ artifact.edges →
    (∀ a ∈ artifacts, ∀ r ∈ a.records, r.authoredId ≠ some edge.targetId) →
    edge.targetId ∉ manifest.allowedExternalTargets →
    (graphBuild host manifest).toOption = none

theorem projectGraph_canonical (hload : manifestLoad host path = .ok manifest) :
    CanonicalProject host manifest where
  manifestOrder _ _ h path := parseManifest_permuted host path h
  projectOrder _ _ h hlimits := graphBuild_permuted h hlimits
  graphOf _ h := graphBuild_ok (manifestLoad_ascending hload) (toOption_eq_some.mpr h)
  missing _ _ _ hartifacts hartifact hedge hnone hnot :=
    graphBuild_missing (manifestLoad_ascending hload) hartifacts hartifact hedge hnone hnot

-- At the reader's bound

mutual

/-- The text of a value without blanks and escapes. -/
def render : JsonValue Bytes → Bytes
  | .null => text "null"
  | .bool value => text (if value then "true" else "false")
  | .number number => number
  | .string s => [char '"'] ++ s ++ [char '"']
  | .array items => [char '['] ++ renderItems items ++ [char ']']
  | .object members => [char '\x7b'] ++ renderMembers members ++ [char '\x7d']

def renderItems : List (JsonValue Bytes) → Bytes
  | [] => []
  | [item] => render item
  | item :: rest => render item ++ [char ','] ++ renderItems rest

def renderMembers : List (Bytes × JsonValue Bytes) → Bytes
  | [] => []
  | [(key, value)] => [char '"'] ++ key ++ [char '"', char ':'] ++ render value
  | (key, value) :: rest =>
    [char '"'] ++ key ++ [char '"', char ':'] ++ render value ++ [char ','] ++ renderMembers rest

end

mutual

def sameJson : JsonValue Bytes → JsonValue Bytes → Bool
  | .null, .null => true
  | .bool a, .bool b => a == b
  | .number a, .number b => a == b
  | .string a, .string b => a == b
  | .array as, .array bs => sameItems as bs
  | .object as, .object bs => sameMembers as bs
  | _, _ => false

def sameItems : List (JsonValue Bytes) → List (JsonValue Bytes) → Bool
  | [], [] => true
  | a :: as, b :: bs => sameJson a b && sameItems as bs
  | _, _ => false

def sameMembers : List (Bytes × JsonValue Bytes) → List (Bytes × JsonValue Bytes) → Bool
  | [], [] => true
  | (k, a) :: as, (l, b) :: bs => k == l && sameJson a b && sameMembers as bs
  | _, _ => false

end

mutual

theorem eq_of_sameJson : ∀ {a b : JsonValue Bytes}, sameJson a b = true → a = b
  | .null, .null, _ => rfl
  | .bool _, .bool _, h => by simpa [sameJson] using h
  | .number _, .number _, h => by simpa [sameJson] using h
  | .string _, .string _, h => by simpa [sameJson] using h
  | .array _, .array _, h => congrArg _ (eq_of_sameItems h)
  | .object _, .object _, h => congrArg _ (eq_of_sameMembers h)

theorem eq_of_sameItems : ∀ {as bs : List (JsonValue Bytes)}, sameItems as bs = true → as = bs
  | [], [], _ => rfl
  | a :: as, b :: bs, h => by
    obtain ⟨ha, has⟩ := (Bool.and_eq_true _ _).mp h
    rw [eq_of_sameJson ha, eq_of_sameItems has]

theorem eq_of_sameMembers : ∀ {as bs : List (Bytes × JsonValue Bytes)}, sameMembers as bs = true → as = bs
  | [], [], _ => rfl
  | (k, a) :: as, (l, b) :: bs, h => by
    obtain ⟨hka, has⟩ := (Bool.and_eq_true _ _).mp h
    obtain ⟨hk, ha⟩ := (Bool.and_eq_true _ _).mp hka
    rw [beq_iff_eq.mp hk, eq_of_sameJson ha, eq_of_sameMembers has]

end

def quoted (s : String) : JsonValue Bytes := .string (text s)

def numeral (s : String) : JsonValue Bytes := .number (text s)

def objectOf (members : List (String × JsonValue Bytes)) : JsonValue Bytes :=
  .object (members.map fun m => (text m.1, m.2))

def spanItem (path : String) : JsonValue Bytes :=
  objectOf [("file", quoted path), ("start_line", numeral "1"), ("start_column", numeral "1"),
    ("end_line", numeral "1"), ("end_column", numeral "1")]

def recordItem (path name : String) : JsonValue Bytes :=
  objectOf [("source_identity", quoted name), ("authored_id", quoted name), ("symbol_stable_id", .null),
    ("symbol_name", quoted "f"), ("symbol_kind", quoted "function"), ("source", spanItem path),
    ("domain", .null), ("role", .null)]

def edgeItem (path sourceIndex target : String) : JsonValue Bytes :=
  objectOf [("source_record_index", numeral sourceIndex), ("kind", quoted "consumes"),
    ("target_id", quoted target), ("resolution", quoted "external"), ("target_record_index", .null),
    ("occurrence", spanItem path)]

def artifactItem (path : String) (records edges : List (JsonValue Bytes)) : JsonValue Bytes :=
  objectOf [("schema", quoted "fisiCs.semantic_metadata"), ("schema_version", numeral "1"),
    ("producer", objectOf [("name", quoted "fisiCs"), ("version", quoted "1")]),
    ("analysis_contract", objectOf [("id", quoted "fisiCs.analysis.contract"), ("version", quoted "1.9.0")]),
    ("source", objectOf [("path", quoted path), ("hash_fnv1a64", quoted "14650fb0739d0383"),
      ("length_bytes", numeral "0")]),
    ("complete", .bool true), ("records", .array records), ("edges", .array edges)]

def manifestItem (units : List String) : JsonValue Bytes :=
  objectOf [("schema", quoted "fisiCs.semantic_project_manifest"), ("schema_version", numeral "1"),
    ("project_id", quoted "p"),
    ("translation_units", .array (units.map fun path => objectOf [("metadata_path", quoted path)])),
    ("allowed_external_targets", .array [quoted "x"])]

def elevenRecords : List (JsonValue Bytes) :=
  ["a", "b", "c", "d", "e", "f", "g", "h", "i", "j", "k"].map (recordItem "/s")

/-- The last of eleven records comes first. -/
def lastFirst : List Nat := 10 :: List.range 10

/-- An edge from the last record, and the document with this record first: the place of
the record has two digits in the one and one in the other. -/
def lastDocument : JsonValue Bytes := artifactItem "/s" elevenRecords [edgeItem "/s" "10" "x"]

def firstDocument : JsonValue Bytes := artifactItem "/s" (permute lastFirst elevenRecords)
    [edgeItem "/s" "0" "x"]

/-- Blanks that fill the file of `firstDocument` up to the reader's bound. -/
def padded (document : JsonValue Bytes) : Bytes :=
  List.replicate (artifactMaxBytes - (render firstDocument).length) (char ' ') ++ render document

def oneArtifact (artifact : Bytes) : ProjectHost where
  readFile path :=
    if path = text "/p" then some (render (manifestItem ["/m"]))
    else if path = text "/m" then some artifact
    else none
  readSource path := if path = text "/s" then some [] else none
  realpath := some
  sourceSnapshot := none
  failGraphAllocation := none

def oneManifest : ProjectManifest := ⟨text "p", text "/p", [text "/m"], [text "x"]⟩

def parsesAs (bytes : Bytes) (value : JsonValue Bytes) : Bool :=
  match Json.fisicsJsonParse bytes with
  | .ok v => sameJson v value
  | .error _ => false

theorem parse_of_parsesAs (h : parsesAs bytes value = true) : fisicsJsonParse bytes = .ok value := by
  rw [parsesAs] at h
  split at h
  · rename_i v hv
    rw [hv, eq_of_sameJson h]
  · cases h

theorem parseValue_skip (h : Json.skipWhitespace a = Json.skipWhitespace b) (room : Nat) :
    parseValue room a = parseValue room b := by
  cases room <;> simp only [parseValue, h]

theorem skipWhitespace_blanks (n : Nat) (bytes : Bytes) :
    Json.skipWhitespace (List.replicate n (char ' ') ++ bytes) = Json.skipWhitespace bytes := by
  induction n with
  | zero => rfl
  | succ n ih => exact ih

theorem parse_padded (document : JsonValue Bytes) :
    fisicsJsonParse (padded document) = fisicsJsonParse (render document) := by
  rw [fisicsJsonParse, fisicsJsonParse, padded,
    parseValue_skip (skipWhitespace_blanks _ (render document))]

theorem documents_evaluated :
    ((render lastDocument).length = (render firstDocument).length + 1 ∧
      (render firstDocument).length ≤ artifactMaxBytes) ∧
    (parsesAs (render lastDocument) lastDocument = true ∧
      parsesAs (render firstDocument) firstDocument = true ∧
      parsesAs (render (manifestItem ["/m"])) (manifestItem ["/m"]) = true) ∧
    (render (manifestItem ["/m"])).length ≤ manifestMaxBytes ∧
    (graphBuild (oneArtifact (render firstDocument)) oneManifest).toOption.isSome = true := by
  decide +kernel

theorem length_render_lastDocument : (render lastDocument).length = (render firstDocument).length + 1 :=
  documents_evaluated.1.1

theorem length_render_firstDocument : (render firstDocument).length ≤ artifactMaxBytes :=
  documents_evaluated.1.2

theorem length_padded_firstDocument : (padded firstDocument).length = artifactMaxBytes := by
  rw [padded, List.length_append, List.length_replicate]
  exact Nat.sub_add_cancel length_render_firstDocument

theorem length_padded_lastDocument : (padded lastDocument).length = artifactMaxBytes + 1 := by
  rw [padded, List.length_append, List.length_replicate, length_render_lastDocument, ← Nat.add_assoc,
    Nat.sub_add_cancel length_render_firstDocument]

theorem parse_lastDocument : fisicsJsonParse (render lastDocument) = .ok lastDocument :=
  parse_of_parsesAs documents_evaluated.2.1.1

theorem parse_firstDocument : fisicsJsonParse (render firstDocument) = .ok firstDocument :=
  parse_of_parsesAs documents_evaluated.2.1.2.1

def sameValue : Option (JsonValue Bytes) → Option (JsonValue Bytes) → Bool
  | some a, some b => sameJson a b
  | none, none => true
  | _, _ => false

theorem eq_of_sameValue (h : sameValue a b = true) : a = b := by
  cases a <;> cases b <;> first | rfl | cases h | exact congrArg some (eq_of_sameJson h)

theorem edgeItem_renumbered :
    RenumberedEdge lastFirst (edgeItem "/s" "10" "x") (edgeItem "/s" "0" "x") where
  fields := rfl
  others key hkey := by
    have hall : ["kind", "target_id", "resolution", "occurrence"].all (fun key =>
        sameValue (objectGet key (some (edgeItem "/s" "0" "x")))
          (objectGet key (some (edgeItem "/s" "10" "x")))) = true :=
      rfl
    exact eq_of_sameValue (List.all_eq_true.mp hall key hkey)
  source := rfl
  target := rfl
  null := by
    have hnull : objectGet "target_record_index" (some (edgeItem "/s" "0" "x")) = some .null :=
      eq_of_sameValue rfl
    have hnull' : objectGet "target_record_index" (some (edgeItem "/s" "10" "x")) = some .null :=
      eq_of_sameValue rfl
    exact iff_of_true hnull hnull'

theorem lastDocument_permuted : PermutedArtifact lastDocument firstDocument where
  fields := rfl
  others key hkey := by
    have hall : ["schema", "schema_version", "producer", "analysis_contract", "source", "complete"].all
        (fun key => sameValue (objectGet key (some firstDocument)) (objectGet key (some lastDocument))) =
          true :=
      rfl
    exact eq_of_sameValue (List.all_eq_true.mp hall key hkey)
  tables := ⟨lastFirst, elevenRecords, [edgeItem "/s" "10" "x"], [edgeItem "/s" "0" "x"],
    [edgeItem "/s" "0" "x"],
    eq_of_sameValue rfl, by decide, eq_of_sameValue rfl,
    eq_of_sameValue rfl, .cons edgeItem_renumbered .nil, .refl _,
    eq_of_sameValue rfl⟩

theorem manifestLoad_of_file (hpath : path.isEmpty = false) (hreal : host.realpath path = some manifestPath)
    (hfile : host.readFile manifestPath = some bytes) (hlength : bytes.length ≤ manifestMaxBytes)
    (hparse : fisicsJsonParse bytes = .ok root) :
    manifestLoad host path = parseManifest host manifestPath (some root) := by
  have hnot : ¬manifestMaxBytes < bytes.length := Nat.not_lt.mpr hlength
  simp [manifestLoad, hpath, hreal, hfile, orFail, hnot, hparse, bind, Except.bind, Except.mapError]

theorem manifestLoad_oneArtifact (artifact : Bytes) :
    manifestLoad (oneArtifact artifact) (text "/p") = .ok oneManifest := by
  have hfile : (oneArtifact artifact).readFile (text "/p") = some (render (manifestItem ["/m"])) := by
    simp [oneArtifact]
  have hparse : fisicsJsonParse (render (manifestItem ["/m"])) = .ok (manifestItem ["/m"]) :=
    parse_of_parsesAs documents_evaluated.2.1.2.2
  have hmanifest : parseManifest (oneArtifact []) (text "/p") (some (manifestItem ["/m"])) = .ok oneManifest :=
    rfl
  rw [manifestLoad_of_file rfl rfl hfile documents_evaluated.2.2.1 hparse]
  exact hmanifest

theorem readFile_oneArtifact (artifact : Bytes) :
    (oneArtifact artifact).readFile (text "/m") = some artifact := by
  have hne : text "/m" ≠ text "/p" := by decide
  simp [oneArtifact, hne]

theorem oneArtifact_permuted (hparse : fisicsJsonParse a = .ok root)
    (hparse' : fisicsJsonParse a' = .ok root') (h : root' = root ∨ PermutedArtifact root root') :
    PermutedProject (oneArtifact a) oneManifest (oneArtifact a') oneManifest where
  sameHost := rfl
  sameManifest := rfl
  units := .refl _
  files path hpath := by
    obtain rfl := List.mem_singleton.mp hpath
    exact .inr ⟨a, a', root, root', readFile_oneArtifact a, readFile_oneArtifact a', hparse, hparse', h⟩

theorem sameByteLimits_oneArtifact (h : a.length ≤ artifactMaxBytes) (h' : a'.length ≤ artifactMaxBytes) :
    SameByteLimits (oneArtifact a) (oneArtifact a') oneManifest.translationUnits := by
  have htotal : artifactMaxBytes ≤ maxTotalArtifactBytes := by decide
  constructor
  · intro path hpath
    obtain rfl := List.mem_singleton.mp hpath
    exact iff_of_true h' h
  · exact iff_of_true (h'.trans htotal) (h.trans htotal)

theorem graphBuild_oneArtifact (hparse : fisicsJsonParse a = .ok root)
    (hparse' : fisicsJsonParse a' = .ok root) (h : a.length ≤ artifactMaxBytes)
    (h' : a'.length ≤ artifactMaxBytes) :
    (graphBuild (oneArtifact a') oneManifest).toOption = (graphBuild (oneArtifact a) oneManifest).toOption :=
  graphBuild_permuted (oneArtifact_permuted hparse hparse' (.inl rfl)) (sameByteLimits_oneArtifact h h')

theorem graphBuild_firstDocument :
    (graphBuild (oneArtifact (padded firstDocument)) oneManifest).toOption.isSome = true := by
  have hsmall := documents_evaluated.2.2.2
  have hparse := (parse_padded firstDocument).trans parse_firstDocument
  have hlength := Nat.le_of_eq length_padded_firstDocument
  rw [graphBuild_oneArtifact parse_firstDocument hparse length_render_firstDocument hlength]
  exact hsmall

theorem graphBuild_lastDocument :
    (graphBuild (oneArtifact (padded lastDocument)) oneManifest).toOption = none := by
  have hlong : artifactMaxBytes < (padded lastDocument).length := by
    rw [length_padded_lastDocument]
    exact Nat.lt_succ_self _
  have hloaded : loadedArtifact (oneArtifact (padded lastDocument)) (text "/m") = none := by
    rw [loadedArtifact, readFile_oneArtifact, bind_some, if_pos hlong]
  have hartifacts : loadedArtifacts (oneArtifact (padded lastDocument)) oneManifest = none := by
    rw [loadedArtifacts, loadArtifacts_toOption _ _ _ _ _ (Nat.zero_le _) (Nat.zero_le _) (Nat.zero_le _)]
    simp only [oneManifest, List.mapM_cons, hloaded]
    rfl
  rw [graphBuild_toOption, hartifacts]
  split <;> rfl

/-- The order of an artifact's records shows where its file reaches the reader's bound. -/
theorem projectOrder_at_limit :
    manifestLoad (oneArtifact (padded lastDocument)) (text "/p") = .ok oneManifest ∧
      PermutedProject (oneArtifact (padded lastDocument)) oneManifest
        (oneArtifact (padded firstDocument)) oneManifest ∧
      (graphBuild (oneArtifact (padded lastDocument)) oneManifest).toOption = none ∧
      (graphBuild (oneArtifact (padded firstDocument)) oneManifest).toOption.isSome = true :=
  ⟨manifestLoad_oneArtifact _,
    oneArtifact_permuted ((parse_padded lastDocument).trans parse_lastDocument)
      ((parse_padded firstDocument).trans parse_firstDocument) (.inr lastDocument_permuted),
    graphBuild_lastDocument, graphBuild_firstDocument⟩

-- Two units

/-- The record of each unit consumes that of the other one, the second also something outside. -/
def firstUnit : JsonValue Bytes := artifactItem "/s" [recordItem "/s" "a"] [edgeItem "/s" "0" "b"]

def secondUnit : JsonValue Bytes :=
  artifactItem "/t" [recordItem "/t" "b"] [edgeItem "/t" "0" "x", edgeItem "/t" "0" "a"]

def twoArtifacts : ProjectHost :=
  { oneArtifact [] with
    readFile path :=
      [(text "/p", manifestItem ["/n", "/m"]), (text "/m", firstUnit), (text "/n", secondUnit)].lookup path
        |>.map render
    readSource path := if path = text "/s" ∨ path = text "/t" then some [] else none }

def twoManifest : ProjectManifest := ⟨text "p", text "/p", [text "/m", text "/n"], [text "x"]⟩

def edgeEnds (graph : ProjectGraph) : List (Nat × Option Nat) :=
  graph.edges.map fun e => (e.edge.sourceRecordIndex, e.edge.targetRecordIndex)

theorem twoUnits_evaluated :
    (manifestLoad twoArtifacts (text "/p")).toOption = some twoManifest ∧
      (graphBuild twoArtifacts twoManifest).toOption.map edgeEnds =
        some [(0, some 1), (1, some 0), (1, none)] := by
  decide +kernel

/-- The edges between the units are resolved, whichever unit is loaded first. -/
theorem projectGraph_canonical_twoUnits :
    manifestLoad twoArtifacts (text "/p") = .ok twoManifest ∧ CanonicalProject twoArtifacts twoManifest ∧
      (graphBuild twoArtifacts { twoManifest with translationUnits := [text "/n", text "/m"] }).toOption.map
        edgeEnds = some [(0, some 1), (1, some 0), (1, none)] := by
  have hload := toOption_eq_some.mp twoUnits_evaluated.1
  have hcanonical := projectGraph_canonical hload
  have hswapped := hcanonical.projectOrder twoArtifacts
    { twoManifest with translationUnits := [text "/n", text "/m"] }
    ⟨rfl, rfl, .swap _ _ [], fun _ _ => .inl rfl⟩ ⟨fun _ _ => .rfl, .rfl⟩
  exact ⟨hload, hcanonical, (congrArg (Option.map edgeEnds) hswapped).trans twoUnits_evaluated.2⟩

end Fisics.Semantic
