import Fisics.Compiler.SemanticMetadata

/-!
# The semantic project graph

`semantic_project_manifest.c` and `semantic_project_graph.c`: the artifacts of a project
become one graph. Its units, records and edges are sorted, and every edge is resolved
over the names of the whole project.
-/

namespace Fisics.Semantic

open Fisics.Json (Bytes JsonValue char)
open SortedTable

-- The manifest

/-- A unit of the manifest is the path of its artifact. -/
structure ProjectManifest where
  projectId : Bytes
  manifestPath : Bytes
  translationUnits : List Bytes
  allowedExternalTargets : List Bytes
  deriving DecidableEq

def manifestMaxBytes : Nat := 1024 * 1024
def maxTranslationUnits : Nat := 4096
def maxExternalTargets : Nat := 65536

/-- Up to the last slash; the slash stays where the path has no other. -/
def pathDirectory (path : Bytes) : Bytes :=
  if path.contains (char '/') then
    let directory := ((path.reverse.dropWhile (· != char '/')).drop 1).reverse
    if directory.isEmpty then text "/" else directory
  else text "."

def resolveExistingPath (host : ProjectHost) (directory path : Bytes) : Except Diagnostic Bytes :=
  let joined :=
    if path.head? = some (char '/') then path
    else if !directory.isEmpty && directory.getLast? != some (char '/') then
      directory ++ text "/" ++ path
    else directory ++ path
  orFail ⟨"semantic metadata artifact does not exist: %s", [.text path]⟩ (host.realpath joined)

def manifestUnit (host : ProjectHost) (directory : Bytes) (index : Nat) (unit : JsonValue Bytes) :
    Except Diagnostic Bytes := do
  if objectHasExactFields (some unit) ["metadata_path"] then
    let path ← orFail
      ⟨"translation_units[%zu].metadata_path must be a non-empty string", [.number index]⟩
      (nonEmptyString (objectGet "metadata_path" (some unit)))
    resolveExistingPath host directory path
  else throw ⟨"translation_units[%zu] must contain exactly metadata_path", [.number index]⟩

def canonicalNameOf (value : Option (JsonValue Bytes)) : Except String Bytes :=
  match value with
  | some (.string name) =>
    match nameDetail name with
    | none => .ok name
    | some detail => .error detail
  | _ => .error "expected canonical string"

def manifestTarget (index : Nat) (target : JsonValue Bytes) : Except Diagnostic Bytes :=
  (canonicalNameOf (some target)).mapError fun detail =>
    ⟨"invalid allowed_external_targets[%zu]: %s", [.number index, .text (text detail)]⟩

/-- The items of an array in their order. -/
def manifestItems (item : (index : Nat) → JsonValue Bytes → Except Diagnostic Bytes) :
    (index : Nat) → List (JsonValue Bytes) → Except Diagnostic (List Bytes)
  | _, [] => .ok []
  | index, value :: rest => do
    let path ← item index value
    let paths ← manifestItems item (index + 1) rest
    return path :: paths

def compareTexts : Bytes → Bytes → Ordering := compareOn id

/-- The tables of a manifest in their order, without duplicates. -/
def canonicalManifest (projectId manifestPath : Bytes) (units external : List Bytes) :
    Except Diagnostic ProjectManifest :=
  let units := sort compareTexts units
  let external := sort compareTexts external
  match neighbours (· == ·) units with
  | some (_, path) => .error ⟨"duplicate semantic metadata artifact path: %s", [.text path]⟩
  | none =>
    match neighbours (· == ·) external with
    | some (_, target) => .error ⟨"duplicate allowed external target: %s", [.text target]⟩
    | none => .ok ⟨projectId, manifestPath, units, external⟩

def manifestFields : List String :=
  ["schema", "schema_version", "project_id", "translation_units", "allowed_external_targets"]

def parseManifest (host : ProjectHost) (manifestPath : Bytes) (root : Option (JsonValue Bytes)) :
    Except Diagnostic ProjectManifest := do
  if objectHasExactFields root manifestFields then
    if stringOf (objectGet "schema" root) ≠ some (text "fisiCs.semantic_project_manifest") then
      throw ⟨"semantic project manifest schema must be fisiCs.semantic_project_manifest", []⟩
    else if jsonIntegerU64 (objectGet "schema_version" root) ≠ some 1 then
      throw ⟨"semantic project manifest schema_version must be 1", []⟩
    else
      let projectId ← (canonicalNameOf (objectGet "project_id" root)).mapError fun detail =>
        ⟨"invalid semantic project_id: %s", [.text (text detail)]⟩
      let units ← orFail ⟨"translation_units must contain 1 through %u items", [.number maxTranslationUnits]⟩
        ((arrayOf (objectGet "translation_units" root)).filter fun units =>
          !units.isEmpty && units.length ≤ maxTranslationUnits)
      let external ← orFail
        ⟨"allowed_external_targets must be an array with at most %u items", [.number maxExternalTargets]⟩
        ((arrayOf (objectGet "allowed_external_targets" root)).filter fun external =>
          external.length ≤ maxExternalTargets)
      let units ← manifestItems (manifestUnit host (pathDirectory manifestPath)) 0 units
      let external ← manifestItems manifestTarget 0 external
      canonicalManifest projectId manifestPath units external
  else
    throw ⟨"semantic project manifest must contain exactly schema, schema_version, project_id, " ++
      "translation_units, and allowed_external_targets", []⟩

def manifestLoad (host : ProjectHost) (path : Bytes) : Except Diagnostic ProjectManifest := do
  if path.isEmpty then throw ⟨"invalid semantic project manifest arguments", []⟩
  else
    let manifestPath ← orFail ⟨"semantic project manifest does not exist: %s", [.text path]⟩
      (host.realpath path)
    let bytes ← orFail ⟨"semantic project manifest is not a regular file: %s", [.text manifestPath]⟩
      (host.readFile manifestPath)
    if manifestMaxBytes < bytes.length then
      throw ⟨"semantic project manifest exceeds %zu bytes: %s", [.number manifestMaxBytes, .text manifestPath]⟩
    else
      let root ← (Json.fisicsJsonParse bytes).mapError fun stop =>
        ⟨"invalid semantic project manifest %s: %s", [.text manifestPath, .json stop]⟩
      parseManifest host manifestPath (some root)

-- The graph

structure TranslationUnit where
  translationUnitIndex : Nat
  sourcePath : Bytes
  sourceHash : UInt64
  sourceLength : Nat
  metadataPath : Bytes
  producerVersion : Bytes
  analysisContractVersion : Bytes
  recordCount : Nat
  edgeCount : Nat
  deriving DecidableEq

structure ProjectRecord where
  recordIndex : Nat
  translationUnitIndex : Nat
  localRecordIndex : Nat
  record : MetadataRecord
  deriving DecidableEq

structure ProjectEdge where
  translationUnitIndex : Nat
  localEdgeIndex : Nat
  edge : MetadataEdge
  deriving DecidableEq

structure ProjectGraph where
  projectId : Bytes
  manifestPath : Bytes
  translationUnits : List TranslationUnit
  allowedExternalTargets : List Bytes
  records : List ProjectRecord
  edges : List ProjectEdge
  deriving DecidableEq

def maxTotalArtifactBytes : Nat := 256 * 1024 * 1024

def loadArtifacts (host : ProjectHost) : (totalBytes totalRecords totalEdges : Nat) → List Bytes →
    Except Diagnostic (List MetadataArtifact)
  | _, _, _, [] => .ok []
  | totalBytes, totalRecords, totalEdges, path :: rest => do
    let (artifact, artifactBytes) ← artifactLoad host path
    if maxTotalArtifactBytes - totalBytes < artifactBytes then
      throw ⟨"semantic project artifact bytes exceed %u", [.number maxTotalArtifactBytes]⟩
    else if maxRecords - totalRecords < artifact.records.length ∨
        maxEdges - totalEdges < artifact.edges.length then
      throw ⟨"semantic project record or edge limit exceeded", []⟩
    else
      let artifacts ← loadArtifacts host (totalBytes + artifactBytes)
        (totalRecords + artifact.records.length) (totalEdges + artifact.edges.length) rest
      return artifact :: artifacts

def compareArtifacts : MetadataArtifact → MetadataArtifact → Ordering :=
  compareLex (compareOn (·.sourcePath)) <| compareLex (compareOn (·.sourceHash))
    (compareOn (·.metadataPath))

def compareProjectRecords (a b : ProjectRecord) : Ordering := compareRecords a.record b.record

def compareProjectEdges (a b : ProjectEdge) : Ordering := compareEdges a.edge b.edge

def compareSourceIdentities : ProjectRecord → ProjectRecord → Ordering :=
  compareOn (·.record.sourceIdentity)

def compareAuthoredIdentities : ProjectRecord → ProjectRecord → Ordering :=
  compareOn (·.record.authoredId)

def translationUnit (artifact : MetadataArtifact) (unit : Nat) : TranslationUnit where
  translationUnitIndex := unit
  sourcePath := artifact.sourcePath
  sourceHash := artifact.sourceHash
  sourceLength := artifact.sourceLength
  metadataPath := artifact.metadataPath
  producerVersion := artifact.producerVersion
  analysisContractVersion := artifact.analysisContractVersion
  recordCount := artifact.records.length
  edgeCount := artifact.edges.length

def gatherRecords (artifacts : List MetadataArtifact) : List ProjectRecord :=
  artifacts.zipIdx.flatMap fun (artifact, unit) =>
    artifact.records.zipIdx.map fun (record, i) => ⟨0, unit, i, record⟩

def gatherEdges (artifacts : List MetadataArtifact) : List ProjectEdge :=
  artifacts.zipIdx.flatMap fun (artifact, unit) =>
    artifact.edges.zipIdx.map fun (edge, i) => ⟨unit, i, edge⟩

def sortRecords (records : List ProjectRecord) : List ProjectRecord :=
  (sort compareProjectRecords records).zipIdx.map fun (r, i) => { r with recordIndex := i }

def findOriginRecord (records : List ProjectRecord) (unit i : Nat) : Option ProjectRecord :=
  records.find? fun r => r.translationUnitIndex == unit && r.localRecordIndex == i

def findAuthoredRecord (index : List ProjectRecord) (authoredId : Bytes) : Option ProjectRecord :=
  search (fun r => compare r.record.authoredId (some authoredId)) index

def externalAllowed (targets : List Bytes) (target : Bytes) : Bool :=
  (search (fun t => compare t target) targets).isSome

/-- `authored` is the index over the authored ids. The edge still has the index of its
source in its artifact. -/
def resolveEdge (records authored : List ProjectRecord) (targets : List Bytes) (e : ProjectEdge) :
    Except Diagnostic ProjectEdge := do
  let source ← orFail ⟨"cannot map project edge source origin", []⟩
    (findOriginRecord records e.translationUnitIndex e.edge.sourceRecordIndex)
  match findAuthoredRecord authored e.edge.targetId with
  | some target =>
    return { e with edge := { e.edge with
      sourceRecordIndex := source.recordIndex
      resolution := .resolved
      targetRecordIndex := some target.recordIndex } }
  | none =>
    if externalAllowed targets e.edge.targetId then
      return { e with edge := { e.edge with
        sourceRecordIndex := source.recordIndex
        resolution := .external
        targetRecordIndex := none } }
    else
      throw ⟨"missing required semantic target %s referenced at %s:%d",
        [.text e.edge.targetId, .text e.edge.sourceFilePath, .number e.edge.startLine]⟩

def duplicateIdentity (format : String) (identity : Bytes) (left right : ProjectRecord) : Diagnostic :=
  ⟨format, [.text identity, .text left.record.sourceFilePath, .number left.record.startLine,
    .text right.record.sourceFilePath, .number right.record.startLine]⟩

def sameAuthoredId (a b : ProjectRecord) : Bool := a.record.authoredId == b.record.authoredId

def sameSourceIdentity (a b : ProjectRecord) : Bool :=
  a.record.sourceIdentity == b.record.sourceIdentity

/-- The records of a project after its checks, and the index over their authored ids. -/
def indexRecords (artifacts : List MetadataArtifact) :
    Except Diagnostic (List ProjectRecord × List ProjectRecord) :=
  let records := sortRecords (gatherRecords artifacts)
  let identities := sort compareSourceIdentities records
  let authored := sort compareAuthoredIdentities (records.filter fun r => r.record.authoredId.isSome)
  match neighbours sameAuthoredId authored with
  | some (left, right) =>
    .error (duplicateIdentity "duplicate project authored_id %s at %s:%d and %s:%d"
      (left.record.authoredId.getD []) left right)
  | none =>
    match neighbours sameSourceIdentity identities with
    | some (left, right) =>
      .error (duplicateIdentity "duplicate project source_identity %s at %s:%d and %s:%d"
        left.record.sourceIdentity left right)
    | none => .ok (records, authored)

def assembleGraph (manifest : ProjectManifest) (artifacts : List MetadataArtifact) :
    Except Diagnostic ProjectGraph := do
  let (records, authored) ← indexRecords artifacts
  let edges ← (gatherEdges artifacts).mapM (resolveEdge records authored manifest.allowedExternalTargets)
  return {
    projectId := manifest.projectId
    manifestPath := manifest.manifestPath
    translationUnits := artifacts.zipIdx.map fun (artifact, unit) => translationUnit artifact unit
    allowedExternalTargets := manifest.allowedExternalTargets
    records
    edges := sort compareProjectEdges edges }

def sameSourcePath (a b : MetadataArtifact) : Bool := a.sourcePath == b.sourcePath

/-- Set, not empty and not starting with a zero. -/
def injectsFailure (value : Option Bytes) : Bool :=
  match value with
  | some (c :: _) => c != char '0'
  | _ => false

/-- `fisics_semantic_project_graph_build` -/
def graphBuild (host : ProjectHost) (manifest : ProjectManifest) : Except Diagnostic ProjectGraph := do
  if injectsFailure host.failGraphAllocation then
    throw ⟨"injected semantic project graph allocation failure", []⟩
  else
    let artifacts ← loadArtifacts host 0 0 0 manifest.translationUnits
    let artifacts := sort compareArtifacts artifacts
    match neighbours sameSourcePath artifacts with
    | some (_, a) => throw ⟨"duplicate semantic project source path: %s", [.text a.sourcePath]⟩
    | none => assembleGraph manifest artifacts

end Fisics.Semantic
