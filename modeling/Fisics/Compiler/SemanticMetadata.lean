import Fisics.Compiler.ProjectJson
import Fisics.Library.SortedTable
import Mathlib.Algebra.Group.Nat.Defs
import Mathlib.Algebra.Ring.Int.Defs

/-!
# Semantic metadata artifacts

`semantic_metadata_json_reader.c`: the document of one translation unit is read into
records and edges, and both are brought into an order of their own. Texts are bytes, and
`strcmp` is their comparison. Allocation does not fail.
-/

namespace Fisics.Semantic

open Fisics.Json (Bytes JsonValue JsonStop char isDigit)
open SortedTable

-- Diagnostics and values

inductive Argument
  | text (bytes : Bytes)
  | number (value : Int)
  | json (stop : JsonStop)
  deriving DecidableEq

/-- A format, and what is printed by it. -/
structure Diagnostic where
  format : String
  arguments : List Argument
  deriving DecidableEq

def text (s : String) : Bytes := s.toList.map char

def strcmp (a b : Bytes) : Ordering := compare a b

/-- `fisics_json_object_get`, which takes a null object too. -/
def objectGet (key : String) : Option (JsonValue Bytes) → Option (JsonValue Bytes)
  | some (.object members) => (members.find? fun m => m.1 == text key).map (·.2)
  | _ => none

def objectHasExactFields (object : Option (JsonValue Bytes)) (fields : List String) : Bool :=
  match object with
  | some (.object members) =>
    members.length == fields.length && fields.all fun f => (objectGet f object).isSome
  | _ => false

def stringOf : Option (JsonValue Bytes) → Option Bytes
  | some (.string text) => some text
  | _ => none

def nonEmptyString (value : Option (JsonValue Bytes)) : Option Bytes :=
  (stringOf value).filter fun text => !text.isEmpty

def arrayOf : Option (JsonValue Bytes) → Option (List (JsonValue Bytes))
  | some (.array items) => some items
  | _ => none

def decimal (digits : Bytes) : Nat := digits.foldl (fun n d => n * 10 + (d.toNat - 48)) 0

/-- A fraction or an exponent. -/
def isFractional (number : Bytes) : Bool :=
  number.any fun b => b == char '.' || b == char 'e' || b == char 'E'

def jsonIntegerU64 : Option (JsonValue Bytes) → Option Nat
  | some (.number number) =>
    if number.head? = some (char '-') ∨ isFractional number = true then none
    else if number.all isDigit = true ∧ decimal number < 2 ^ 64 then some (decimal number)
    else none
  | _ => none

/-- `SIZE_MAX` is the bound of the 64 bits. -/
def jsonIntegerSize (value : Option (JsonValue Bytes)) : Option Nat := jsonIntegerU64 value

def jsonIntegerInt : Option (JsonValue Bytes) → Option Int
  | some (.number number) =>
    if isFractional number then none
    else if number.head? = some (char '-') then
      let digits := number.tail
      if digits ≠ [] ∧ digits.all isDigit = true ∧ decimal digits ≤ 2 ^ 31 then
        some (-(decimal digits : Int))
      else none
    else if number.all isDigit = true ∧ decimal number < 2 ^ 31 then some (decimal number)
    else none
  | _ => none

def orFail (error : ε) : Option α → Except ε α
  | some a => .ok a
  | none => .error error

-- Names and versions

def isLower (b : UInt8) : Bool := char 'a' ≤ b && b ≤ char 'z'

/-- What is wrong with a name, behind the check of its length. -/
def nameLoopDetail : (segmentStart : Bool) → Bytes → Option String
  | _, [] => none
  | segmentStart, c :: rest =>
    if 128 ≤ c then some "metadata names must contain ASCII characters only"
    else if c = char '.' then
      if segmentStart || rest.isEmpty then
        some "metadata names must not contain empty dot-separated segments"
      else nameLoopDetail true rest
    else if segmentStart then
      if isLower c then nameLoopDetail false rest
      else some "each metadata name segment must begin with a lowercase ASCII letter"
    else if isLower c || isDigit c || c == char '_' then nameLoopDetail false rest
    else
      some "metadata names may contain lowercase ASCII letters, digits, underscores, and separating dots"

def nameDetail (value : Bytes) : Option String :=
  if value.isEmpty then some "metadata names must not be empty"
  else if 255 < value.length then some "metadata names must be at most 255 ASCII bytes"
  else nameLoopDetail true value

/-- `fisics_semantic_metadata_is_canonical_name` -/
def isCanonicalName (value : Bytes) : Bool := (nameDetail value).isNone

def domains : List String :=
  ["control", "data_io", "hardware", "physics", "rendering", "simulation", "storage", "thermal"]

def roles : List String :=
  ["control.decide", "data.read", "data.write", "driver.initialize", "persistence.read",
    "persistence.write", "render.integrator", "sensor.read", "simulation.integrator",
    "telemetry.publish"]

def stringInRegistry (registry : List String) (value : Bytes) : Bool :=
  registry.any fun entry => text entry == value

def parseHexHash (value : Option (JsonValue Bytes)) : Option UInt64 := do
  let digits ← stringOf value
  guard (digits.length = 16)
  digits.foldlM (fun result c =>
    if isDigit c then some (result <<< 4 ||| (c.toUInt64 - 48))
    else if char 'a' ≤ c ∧ c ≤ char 'f' then some (result <<< 4 ||| (c.toUInt64 - 97 + 10))
    else none) 0

def parseDecimalU64String (value : Option (JsonValue Bytes)) : Option Nat := do
  let digits ← nonEmptyString value
  guard (¬(digits.head? = some (char '0') ∧ 1 < digits.length))
  guard (digits.all isDigit = true ∧ decimal digits < 2 ^ 64)
  return decimal digits

def isSpace (b : UInt8) : Bool := b == char ' ' || 9 ≤ b && b ≤ 13

/-- `%u` of `sscanf`: blanks, a sign and digits, which `strtoul` reads and 32 bits keep. -/
def scanUnsigned (input : Bytes) : Option (Nat × Bytes) :=
  let rest := input.dropWhile isSpace
  let negative := rest.head? = some (char '-')
  let rest := if negative ∨ rest.head? = some (char '+') then rest.tail else rest
  let digits := rest.takeWhile isDigit
  if digits.isEmpty then none
  else
    let n := decimal digits
    let n := if 2 ^ 64 ≤ n then 2 ^ 64 - 1 else if negative then (2 ^ 64 - n) % 2 ^ 64 else n
    some (n % 2 ^ 32, rest.dropWhile isDigit)

def scanDot : Bytes → Option Bytes
  | c :: rest => if c = char '.' then some rest else none
  | [] => none

def semverCompatible (version : Bytes) : Bool :=
  let scanned : Option (Nat × Nat × Bytes) := do
    let (major, rest) ← scanUnsigned version
    let (minor, rest) ← scanUnsigned (← scanDot rest)
    let (_, rest) ← scanUnsigned (← scanDot rest)
    return (major, minor, rest)
  match scanned with
  | some (major, minor, rest) => rest.isEmpty && major == 1 && 9 ≤ minor
  | none => false

-- Records and edges

structure SourceSpan where
  sourceFilePath : Bytes
  startLine : Int
  startCol : Int
  endLine : Int
  endCol : Int
  deriving DecidableEq

inductive SymbolKind
  | function
  | fileVariable
  deriving DecidableEq

def SymbolKind.code : SymbolKind → Nat
  | .function => 1
  | .fileVariable => 2

inductive EdgeKind
  | produces
  | consumes
  deriving DecidableEq

def EdgeKind.code : EdgeKind → Nat
  | .produces => 1
  | .consumes => 2

inductive ReferenceState
  | external
  | resolved
  deriving DecidableEq

structure MetadataRecord extends SourceSpan where
  sourceIdentity : Bytes
  authoredId : Option Bytes
  symbolStableId : Option Nat
  symbolName : Bytes
  symbolKind : SymbolKind
  domain : Option Bytes
  role : Option Bytes
  deriving DecidableEq

structure MetadataEdge extends SourceSpan where
  sourceRecordIndex : Nat
  kind : EdgeKind
  targetId : Bytes
  resolution : ReferenceState
  targetRecordIndex : Option Nat
  deriving DecidableEq

def validRange (startLine startColumn endLine endColumn : Int) : Bool :=
  0 < startLine && 0 < startColumn && 0 < endLine && 0 < endColumn &&
    (startLine < endLine || endLine == startLine && startColumn ≤ endColumn)

def parseSourceRange (source : Option (JsonValue Bytes)) (expectedPath : Bytes) : Option SourceSpan := do
  guard (objectHasExactFields source ["file", "start_line", "start_column", "end_line", "end_column"])
  let file ← stringOf (objectGet "file" source)
  guard (file = expectedPath)
  let startLine ← jsonIntegerInt (objectGet "start_line" source)
  let startColumn ← jsonIntegerInt (objectGet "start_column" source)
  let endLine ← jsonIntegerInt (objectGet "end_line" source)
  let endColumn ← jsonIntegerInt (objectGet "end_column" source)
  guard (validRange startLine startColumn endLine endColumn)
  return ⟨file, startLine, startColumn, endLine, endColumn⟩

def intText (n : Int) : Bytes := text (toString n)

def expectedFallbackIdentity (kind : SymbolKind) (span : SourceSpan) (name : Bytes) : Bytes :=
  text "symbol:" ++ text (match kind with | .function => "function" | .fileVariable => "file_variable") ++
    text ":" ++ span.sourceFilePath ++ text ":" ++ intText span.startLine ++ text ":" ++
    intText span.startCol ++ text ":" ++ name

def parseRegistered (registry : List String) (unknown wrongType : String)
    (value : Option (JsonValue Bytes)) : Except String (Option Bytes) :=
  match value with
  | some (.string name) => if stringInRegistry registry name then .ok (some name) else .error unknown
  | some .null => .ok none
  | _ => .error wrongType

def parseAuthoredId (identity : Bytes) (fallback : Bytes) (value : Option (JsonValue Bytes)) :
    Except String (Option Bytes) :=
  match value with
  | some (.string name) =>
    if isCanonicalName name ∧ name = identity then .ok (some name)
    else .error "records[%zu].authored_id is invalid"
  | some .null =>
    if fallback = identity then .ok none
    else .error "records[%zu].source_identity is not the canonical fallback"
  | _ => .error "records[%zu].authored_id must be string or null"

def parseStableId (value : Option (JsonValue Bytes)) : Except String (Option Nat) :=
  match value with
  | some (.string _) =>
    orFail "records[%zu].symbol_stable_id is invalid" ((parseDecimalU64String value).map some)
  | some .null => .ok none
  | _ => .error "records[%zu].symbol_stable_id must be decimal string or null"

def parseSymbolKind (kind : Bytes) : Except String SymbolKind :=
  if kind = text "function" then .ok .function
  else if kind = text "file_variable" then .ok .fileVariable
  else .error "records[%zu].symbol_kind is invalid"

/-- The format of a failure takes the index of the record. -/
def parseRecord (sourcePath : Bytes) (value : Option (JsonValue Bytes)) : Except String MetadataRecord := do
  if objectHasExactFields value ["source_identity", "authored_id", "symbol_stable_id", "symbol_name",
      "symbol_kind", "source", "domain", "role"] then
    let coreError := "records[%zu] has invalid identity or symbol fields"
    let identity ← orFail coreError (nonEmptyString (objectGet "source_identity" value))
    let name ← orFail coreError (nonEmptyString (objectGet "symbol_name" value))
    let kindName ← orFail coreError (stringOf (objectGet "symbol_kind" value))
    let kind ← parseSymbolKind kindName
    let span ← orFail "records[%zu] has invalid source range"
      (parseSourceRange (objectGet "source" value) sourcePath)
    let authoredId ← parseAuthoredId identity (expectedFallbackIdentity kind span name)
      (objectGet "authored_id" value)
    let stableId ← parseStableId (objectGet "symbol_stable_id" value)
    let domain ← parseRegistered domains "records[%zu].domain is not registered"
      "records[%zu].domain must be string or null" (objectGet "domain" value)
    let role ← parseRegistered roles "records[%zu].role is not registered"
      "records[%zu].role must be string or null" (objectGet "role" value)
    return ⟨span, identity, authoredId, stableId, name, kind, domain, role⟩
  else throw "records[%zu] has unknown or missing fields"

def parseEdgeKind (kind : Bytes) : Except String EdgeKind :=
  if kind = text "produces" then .ok .produces
  else if kind = text "consumes" then .ok .consumes
  else .error "edges[%zu].kind is invalid"

def parseResolution (resolution : Bytes) (targetIndex : Option (JsonValue Bytes)) :
    Except String (ReferenceState × Option Nat) :=
  if resolution = text "resolved" then
    orFail "edges[%zu] resolved target index is invalid"
      ((jsonIntegerSize targetIndex).map fun i => (.resolved, some i))
  else if resolution = text "external" then
    match targetIndex with
    | some .null => .ok (.external, none)
    | _ => .error "edges[%zu] external target index must be null"
  else .error "edges[%zu].resolution is invalid"

def edgeFields : List String :=
  ["source_record_index", "kind", "target_id", "resolution", "target_record_index", "occurrence"]

/-- The format of a failure takes the index of the edge. -/
def parseEdge (sourcePath : Bytes) (value : Option (JsonValue Bytes)) : Except String MetadataEdge := do
  if objectHasExactFields value edgeFields then
    let coreError := "edges[%zu] has invalid core fields"
    let sourceIndex ← orFail coreError (jsonIntegerSize (objectGet "source_record_index" value))
    let kindName ← orFail coreError (stringOf (objectGet "kind" value))
    let target ← orFail coreError (stringOf (objectGet "target_id" value))
    let resolutionName ← orFail coreError (stringOf (objectGet "resolution" value))
    let kind ← parseEdgeKind kindName
    if isCanonicalName target then
      let span ← orFail "edges[%zu] has invalid occurrence"
        (parseSourceRange (objectGet "occurrence" value) sourcePath)
      let (resolution, targetIndex) ← parseResolution resolutionName (objectGet "target_record_index" value)
      return ⟨span, sourceIndex, kind, target, resolution, targetIndex⟩
    else throw "edges[%zu].target_id is invalid"
  else throw "edges[%zu] has unknown or missing fields"

def parseItems (parse : Option (JsonValue Bytes) → Except String α) :
    (index : Nat) → List (JsonValue Bytes) → Except Diagnostic (List α)
  | _, [] => .ok []
  | index, value :: rest => do
    let a ← (parse (some value)).mapError fun format => ⟨format, [.number index]⟩
    let as ← parseItems parse (index + 1) rest
    return a :: as

-- Canonical order

def compareRecords : MetadataRecord → MetadataRecord → Ordering :=
  compareLex (compareOn (·.sourceFilePath)) <| compareLex (compareOn (·.startLine)) <|
    compareLex (compareOn (·.startCol)) <| compareLex (compareOn (·.symbolKind.code)) <|
    compareLex (compareOn (·.symbolName)) (compareOn (·.sourceIdentity))

def compareEdges : MetadataEdge → MetadataEdge → Ordering :=
  compareLex (compareOn (·.sourceRecordIndex)) <| compareLex (compareOn (·.kind.code)) <|
    compareLex (compareOn (·.targetId)) <| compareLex (compareOn (·.sourceFilePath)) <|
    compareLex (compareOn (·.startLine)) <| compareLex (compareOn (·.startCol)) <|
    compareLex (compareOn (·.endLine)) (compareOn (·.endCol))

/-- What an edge refers to, by identity: `edge_sources` and `edge_targets`. -/
structure EdgeReference where
  source : Bytes
  target : Option Bytes
  deriving DecidableEq

def edgeReference (records : List MetadataRecord) (index : Nat) (edge : MetadataEdge) :
    Except Diagnostic EdgeReference :=
  let outOfRange : Diagnostic :=
    ⟨"edge %zu contains an out-of-range local record index", [.number index]⟩
  match records[edge.sourceRecordIndex]?, edge.targetRecordIndex with
  | none, _ => .error outOfRange
  | some source, none => .ok ⟨source.sourceIdentity, none⟩
  | some source, some t =>
    match records[t]? with
    | none => .error outOfRange
    | some target =>
      if target.authoredId = some edge.targetId then
        .ok ⟨source.sourceIdentity, some target.sourceIdentity⟩
      else
        .error ⟨"edge %zu resolved target does not match target_id %s",
          [.number index, .text edge.targetId]⟩

/-- Edges with what they refer to in the records as they were read. -/
def edgeReferences (records : List MetadataRecord) : (index : Nat) → List MetadataEdge →
    Except Diagnostic (List (MetadataEdge × EdgeReference))
  | _, [] => .ok []
  | index, edge :: rest => do
    let reference ← edgeReference records index edge
    let references ← edgeReferences records (index + 1) rest
    return (edge, reference) :: references

def lastIndexOf (identity : Bytes) : (j : Nat) → (found : Option Nat) → List MetadataRecord → Option Nat
  | _, found, [] => found
  | j, found, r :: rest =>
    lastIndexOf identity (j + 1) (if r.sourceIdentity = identity then some j else found) rest

def remapEdge (records : List MetadataRecord) (edge : MetadataEdge) (reference : EdgeReference) :
    Except Diagnostic MetadataEdge :=
  match lastIndexOf reference.source 0 none records with
  | none => .error ⟨"failed to canonicalize artifact indices", []⟩
  | some j =>
    match edge.targetRecordIndex with
    | some t =>
      let target := reference.target.bind fun identity => lastIndexOf identity 0 none records
      .ok { edge with sourceRecordIndex := j, targetRecordIndex := some (target.getD t) }
    | none =>
      if records.any fun r => r.authoredId == some edge.targetId then
        .error ⟨"edge target %s is marked external but resolves locally", [.text edge.targetId]⟩
      else .ok { edge with sourceRecordIndex := j }

def sameIdentity (a b : MetadataRecord) : Bool := a.sourceIdentity == b.sourceIdentity

def sameReference (a b : MetadataEdge) : Bool :=
  a.sourceRecordIndex == b.sourceRecordIndex && a.kind == b.kind && a.targetId == b.targetId

def canonicalizeIndices (records : List MetadataRecord) (edges : List MetadataEdge) :
    Except Diagnostic (List MetadataRecord × List MetadataEdge) := do
  let references ← edgeReferences records 0 edges
  let records := sort compareRecords records
  match neighbours sameIdentity records with
  | some (_, r) =>
    .error ⟨"duplicate record source_identity in artifact: %s", [.text r.sourceIdentity]⟩
  | none =>
    let edges ← references.mapM fun (edge, reference) => remapEdge records edge reference
    let edges := sort compareEdges edges
    match neighbours sameReference edges with
    | some (_, e) => .error ⟨"duplicate canonical edge in artifact: %s", [.text e.targetId]⟩
    | none => .ok (records, edges)

-- Files

/-- What the files and the environment say. The artifacts and the manifest are read by
`readFile`, the sources that the artifacts are about by `readSource`. -/
structure ProjectHost where
  readFile : Bytes → Option Bytes
  readSource : Bytes → Option Bytes
  realpath : Bytes → Option Bytes
  /-- `FISICS_GRAPH_SOURCE_SNAPSHOT` -/
  sourceSnapshot : Option Bytes
  /-- `FISICS_TEST_FAIL_SEMANTIC_PROJECT_GRAPH_ALLOC` -/
  failGraphAllocation : Option Bytes

def pathMax : Nat := 4096

/-- `strstr` -/
def containsText (needle : Bytes) : Bytes → Bool
  | [] => needle.isEmpty
  | c :: rest => needle.isPrefixOf (c :: rest) || containsText needle rest

/-- `fisics_graph_snapshot_source` -/
def snapshotSource (host : ProjectHost) (identity : Bytes) : Option Bytes :=
  match host.sourceSnapshot with
  | none => if identity.length < pathMax then some identity else none
  | some root =>
    if root.head? ≠ some (char '/') ∨ identity.head? ≠ some (char '/') ∨ identity.length < 2 ∨
        containsText (text "//") identity ∨ containsText (text "/../") identity ∨
        containsText (text "/./") identity ∨ identity.getLast? = some (char '/') ∨
        (text "/.").isSuffixOf identity ∨ (text "/..").isSuffixOf identity then none
    else if host.realpath root ≠ some root ∨ root = text "/" then none
    else
      let out := root ++ identity
      if pathMax ≤ out.length ∨ host.realpath out ≠ some out then none else some out

def fnv1a64 (bytes : Bytes) : UInt64 :=
  bytes.foldl (fun hash b => (hash ^^^ b.toUInt64) * 1099511628211) 1469598103934665603

def verifySource (host : ProjectHost) (path : Bytes) (expectedLength : Nat) (expectedHash : UInt64) :
    Except Diagnostic Unit :=
  match snapshotSource host path with
  | none => .error ⟨"invalid or missing frozen semantic source: %s", [.text path]⟩
  | some path =>
    if host.realpath path ≠ some path then
      .error ⟨"metadata source path is missing or not canonical: %s", [.text path]⟩
    else
      match host.readSource path with
      | none => .error ⟨"stale semantic metadata source length: %s", [.text path]⟩
      | some bytes =>
        if bytes.length ≠ expectedLength then
          .error ⟨"stale semantic metadata source length: %s", [.text path]⟩
        else if fnv1a64 bytes ≠ expectedHash then
          .error ⟨"stale semantic metadata source hash: %s", [.text path]⟩
        else .ok ()

structure MetadataArtifact where
  metadataPath : Bytes
  producerVersion : Bytes
  analysisContractVersion : Bytes
  sourcePath : Bytes
  sourceHash : UInt64
  sourceLength : Nat
  records : List MetadataRecord
  edges : List MetadataEdge
  deriving DecidableEq

def artifactMaxBytes : Nat := 64 * 1024 * 1024
def maxRecords : Nat := 65536
def maxEdges : Nat := 262144

def artifactError (path : Bytes) (format : String) : Diagnostic := ⟨format, [.text path]⟩

def parseProducer (producer : Option (JsonValue Bytes)) : Option Bytes := do
  guard (objectHasExactFields producer ["name", "version"])
  let name ← stringOf (objectGet "name" producer)
  guard (name = text "fisiCs")
  nonEmptyString (objectGet "version" producer)

def parseContract (contract : Option (JsonValue Bytes)) : Option Bytes := do
  guard (objectHasExactFields contract ["id", "version"])
  let id ← stringOf (objectGet "id" contract)
  guard (id = text "fisiCs.analysis.contract")
  let version ← stringOf (objectGet "version" contract)
  guard (semverCompatible version)
  return version

/-- Path, hash and length of the source. -/
def parseProvenance (source : Option (JsonValue Bytes)) : Option (Bytes × UInt64 × Nat) := do
  guard (objectHasExactFields source ["path", "hash_fnv1a64", "length_bytes"])
  let path ← stringOf (objectGet "path" source)
  guard (path.head? = some (char '/'))
  let hash ← parseHexHash (objectGet "hash_fnv1a64" source)
  let length ← jsonIntegerSize (objectGet "length_bytes" source)
  return (path, hash, length)

def isSchemaV1 (schema : String) (root : Option (JsonValue Bytes)) : Bool :=
  stringOf (objectGet "schema" root) == some (text schema) &&
    jsonIntegerU64 (objectGet "schema_version" root) == some 1

def isTrue : Option (JsonValue Bytes) → Bool
  | some (.bool value) => value
  | _ => false

/-- The arrays of a complete document within the limits. -/
def parseTables (root : Option (JsonValue Bytes)) :
    Option (List (JsonValue Bytes) × List (JsonValue Bytes)) := do
  guard (isTrue (objectGet "complete" root))
  let records ← arrayOf (objectGet "records" root)
  guard (records.length ≤ maxRecords)
  let edges ← arrayOf (objectGet "edges" root)
  guard (edges.length ≤ maxEdges)
  return (records, edges)

def artifactFields : List String :=
  ["schema", "schema_version", "producer", "analysis_contract", "source", "complete", "records", "edges"]

/-- An artifact's document, before its source is looked at. -/
def parseArtifact (path : Bytes) (root : Option (JsonValue Bytes)) : Except Diagnostic MetadataArtifact := do
  let fail := artifactError path
  if objectHasExactFields root artifactFields then
    if isSchemaV1 "fisiCs.semantic_metadata" root then
      let producer ← orFail (fail "semantic metadata artifact %s has invalid producer")
        (parseProducer (objectGet "producer" root))
      let contract ← orFail (fail "semantic metadata artifact %s has incompatible analysis contract")
        (parseContract (objectGet "analysis_contract" root))
      let (sourcePath, hash, length) ←
        orFail (fail "semantic metadata artifact %s has invalid source provenance")
          (parseProvenance (objectGet "source" root))
      let (records, edges) ←
        orFail (fail "semantic metadata artifact %s is incomplete or exceeds v1 limits") (parseTables root)
      let records ← parseItems (parseRecord sourcePath) 0 records
      let edges ← parseItems (parseEdge sourcePath) 0 edges
      let (records, edges) ← canonicalizeIndices records edges
      return ⟨path, producer, contract, sourcePath, hash, length, records, edges⟩
    else throw (fail "semantic metadata artifact %s requires schema v1")
  else throw (fail "semantic metadata artifact %s has unknown or missing root fields")

/-- `read_file` -/
def readArtifactFile (host : ProjectHost) (path : Bytes) : Except Diagnostic Bytes :=
  match host.readFile path with
  | none => .error ⟨"semantic metadata artifact is not a regular file: %s", [.text path]⟩
  | some bytes =>
    if artifactMaxBytes < bytes.length then
      .error ⟨"semantic metadata artifact exceeds %zu bytes: %s", [.number artifactMaxBytes, .text path]⟩
    else .ok bytes

def artifactLoad (host : ProjectHost) (path : Bytes) : Except Diagnostic (MetadataArtifact × Nat) := do
  let bytes ← readArtifactFile host path
  let root ← (Json.fisicsJsonParse bytes).mapError fun stop =>
    ⟨"invalid semantic metadata artifact %s: %s", [.text path, .json stop]⟩
  let artifact ← parseArtifact path (some root)
  verifySource host artifact.sourcePath artifact.sourceLength artifact.sourceHash
  return (artifact, bytes.length)

end Fisics.Semantic
