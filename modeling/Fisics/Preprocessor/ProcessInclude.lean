import Fisics.Preprocessor.Replay

/-!
# Include directives

`process_include` finds the file of an include directive, decides whether it is
skipped, and processes its tokens by a replay or by the walk. It calls itself
through them: `processInclude` counts the nesting down from the depth at which
the source refuses to include.
-/

namespace Fisics

def maxIncludeDepth : Nat := 256

-- The operand

def relineTokens (line : Int) (tokens : List Token) : List Token :=
  tokens.map fun tok =>
    { tok with
      line
      location := ⟨{ tok.location.start with line }, { tok.location.stop with line }⟩ }

/-- The name, whether it stands in angle brackets, and how many tokens of the
input are taken; or what is reported. -/
def includeOperand (pp : Preprocessor) (tok : Token) (rest : List Token) :
    Except String (String × Bool × Nat) × Preprocessor :=
  match parseIncludeOperand tok rest with
  | some operand => (.ok operand, pp)
  | none =>
    let line := directiveLine tok rest
    match macroExpanderExpand pp.expander line with
    | some (true, expanded, expander) =>
      let eof := { eofToken with line := tok.line }
      match parseIncludeOperand tok (relineTokens tok.line expanded ++ [eof]) with
      | some (name, isSystem, _) => (.ok (name, isSystem, line.length), pp.withExpander expander)
      | none => (.error "invalid #include operand", pp.withExpander expander)
    | some (false, _, expander) =>
      (.error "failed to expand #include operand", pp.withExpander expander)
    | none => (.error "failed to expand #include operand", pp)

def includeNameIsSuspicious (name : String) : Bool :=
  name.isEmpty || !name.toList.all (fun c =>
    c.isAlphanum || c == '_' || c == '-' || c == '.' || c == '/' || c == '+')

def missingInclude (pp : Preprocessor) (tok : Token) (name : String) (isSystem : Bool) :
    Bool × Preprocessor :=
  if isSystem || pp.lenientMissingIncludes then
    if isSystem && includeNameIsSuspicious name then (true, pp)
    else
      let kind := if isSystem then "system" else "local"
      (true, ppReportDiag pp (some tok) .warning
        ("skipping missing " ++ kind ++ " include '" ++ name ++ "'"))
  else
    (false, ppReportDiag pp (some tok) .error ("could not resolve include '" ++ name ++ "'"))

-- The file

def ppIncludeFileGetLexedTokens (pp : Preprocessor) (index : Nat) :
    Option (List Token × Preprocessor) :=
  (pp.resolver.files[index]?).bind fun file =>
    match file.lexedTokens with
    | some tokens => some (tokens, pp)
    | none =>
      let (tokens, ok) := lexSource file.contents (some file.path) pp.enableTrigraphs
      if ok then
        some (tokens, pp.modifyFile index (fun file => { file with lexedTokens := some tokens }))
      else none

def ppIncludeFileCacheGuard (pp : Preprocessor) (index : Nat) (guard : Option String) :
    Preprocessor :=
  match guard with
  | some guard =>
    if guard = "" then pp
    else pp.modifyFile index (fun file => { file with cachedGuardName := some guard })
  | none => pp

def ppIncludeFileMarkIncluded (pp : Preprocessor) (index : Nat) : Preprocessor :=
  pp.modifyFile index (fun file => { file with includedOnce := true })

def ppPathIsAbsolute (path : String) : Bool :=
  match path.toList with
  | '/' :: _ => true
  | drive :: ':' :: _ => drive.isAlpha
  | _ => false

def ppIncludeSupportsSummaryProbe (host : Host) (origin : IncludeSearchOrigin) (path : String) :
    Bool :=
  match origin with
  | .includePath => true
  | .sameDir =>
    (host.summaryReplayRouterEnabled || host.summaryReplayScaffoldEnabled ||
      host.summaryReplayGeneralEnabled) && ppPathIsAbsolute path
  | .raw => false

structure IncludeBody where
  index : Nat
  path : String
  buffer : List Token
  guard : Option String
  probeSupported : Bool
  probe : IncludeSummaryProbe
  actions : List IncludeSummaryAction

/-- The guard and the summary of a file, from the caches or by scanning its
tokens; what is found is cached. -/
def summarizeInclude (pp : Preprocessor) (index : Nat) (file : IncludeFile) (buffer : List Token)
    (probeSupported : Bool) : Preprocessor × IncludeBody :=
  let body : IncludeBody :=
    ⟨index, file.path, buffer, file.cachedGuardName, probeSupported, file.summaryProbe, file.summaryActions⟩
  if probeSupported && file.summaryProbe.status == .unknown then
    let (probe, actions) := analyzeIncludeSummaryProbe buffer
    let guard := file.cachedGuardName.or
      ((detectIncludeGuardFromSummaryActions buffer actions).or (detectIncludeGuard buffer))
    let probe := classifyProbe pp.table buffer actions guard probe
    let pp := if file.cachedGuardName.isNone then ppIncludeFileCacheGuard pp index guard else pp
    let cached := if probe.status = .candidate then actions else file.summaryActions
    let pp := pp.modifyFile index
      (fun file => { file with summaryProbe := probe, summaryActions := cached })
    (pp, { body with guard, probe, actions := cached })
  else
    let guard := file.cachedGuardName.or (detectIncludeGuard buffer)
    let pp := if file.cachedGuardName.isNone then ppIncludeFileCacheGuard pp index guard else pp
    (pp, { body with guard })

/-- Whether a defined guard lets the file be skipped: not where raw text may
follow the routed includes. -/
def guardCoversWholeFile (probe : IncludeSummaryProbe) : Bool :=
  probe.status != .candidate || !probe.routerRawTail

def guardSkips (pp : Preprocessor) (probe : IncludeSummaryProbe) (guard : Option String) : Bool :=
  guardCoversWholeFile probe && (guard.bind (macroTableLookup pp.table)).isSome

-- Dispatch

section
variable (host : Host) (handler : IncludeHandler)

def replayOrWalk (body : IncludeBody) (replay : Option ReplayEnd) :
    Option (Bool × Preprocessor × List Token) :=
  replay.bind fun r =>
    let pp := r.pp.modifyFile body.index (fun file => { file with summaryActions := r.actions })
    match r.result with
    | .used => some (true, pp, r.output)
    | .unsupported =>
      preprocessTokens handler (evalCondition host) pp body.buffer r.output false
    | .error => some (false, pp, r.output)

def dispatchInclude (pp : Preprocessor) (body : IncludeBody) (output : List Token) :
    Option (Bool × Preprocessor × List Token) :=
  let candidate := body.probeSupported && body.probe.status == .candidate
  if candidate && host.summaryReplayRouterEnabled &&
      (body.probe.behaviorClass == .routerOnly || body.probe.behaviorClass == .routerRawTail) then
    replayOrWalk host handler body (preprocessTokensRouterReplay host handler pp body.buffer body.probe
      body.actions output false)
  else if candidate && host.summaryReplayScaffoldEnabled &&
      body.probe.behaviorClass == .includeDefineScaffold then
    replayOrWalk host handler body (preprocessTokensScaffoldReplay handler pp body.buffer body.probe
      body.actions output false)
  else if candidate && host.summaryReplayGeneralEnabled then
    replayOrWalk host handler body (preprocessTokensSummaryReplay handler (evalCondition host) pp
      body.buffer body.actions output false)
  else preprocessTokens handler (evalCondition host) pp body.buffer output false

def Preprocessor.withLocation (pp saved : Preprocessor) : Preprocessor :=
  { pp with
    lineOffset := saved.lineOffset
    logicalFile := saved.logicalFile
    lineRemapActive := saved.lineRemapActive }

def Preprocessor.freshLocation (pp : Preprocessor) : Preprocessor :=
  { pp with lineOffset := 0, logicalFile := none, lineRemapActive := false }

def recursiveInclude (pp : Preprocessor) (tok : Token) (path : String) : Bool × Preprocessor :=
  if pp.lenientMissingIncludes then (true, pp)
  else (false, ppReportDiag pp (some tok) .error ("detected recursive include of '" ++ path ++ "'"))

/-- An include that meets a file of the stack may still go on, from an earlier
directory of the include path. -/
def reentryViaEarlierIncludePath (pp : Preprocessor) (origin : IncludeSearchOrigin)
    (originIndex : Nat) : Bool :=
  match ppIncludeStackTop pp with
  | some frame => origin == .includePath && frame.origin == .includePath &&
      originIndex < frame.originIndex
  | none => false

def enterInclude (saved pp : Preprocessor) (body : IncludeBody) (origin : IncludeSearchOrigin)
    (originIndex : Nat) (output : List Token) : Option (Bool × Preprocessor × List Token) :=
  let pp := ppIncludeStackPush pp ⟨body.path, origin, originIndex⟩
  (dispatchInclude host handler pp body output).map fun (ok, pp, output) =>
    (ok, ppIncludeStackPop (ppIncludeFileMarkIncluded (pp.withLocation saved) body.index), output)

/-- A file found by the resolver; `tok` is where reports on it are made. -/
def includeFile (saved : Preprocessor) (tok : Token) (index : Nat) (file : IncludeFile)
    (origin : IncludeSearchOrigin) (originIndex : Nat) (output : List Token) :
    Option (Bool × Preprocessor × List Token) :=
  let recurses := ppIncludeStackContains saved file.path
  let pp := saved.freshLocation
  match ppIncludeFileGetLexedTokens pp index with
  | none => some (false, saved, output)
  | some (buffer, pp) =>
    let pragmaOnce := file.pragmaOnce || detectLeadingPragmaOnce buffer
    let pp := pp.modifyFile index (fun file => { file with pragmaOnce })
    let (pp, body) := summarizeInclude pp index file buffer
      (ppIncludeSupportsSummaryProbe host origin file.path)
    if guardSkips pp body.probe body.guard then
      some (true, (ppIncludeFileMarkIncluded pp index).withLocation saved, output)
    else if recurses && pragmaOnce then some (true, pp.withLocation saved, output)
    else if recurses && !reentryViaEarlierIncludePath pp origin originIndex ||
        maxIncludeDepth ≤ pp.includeStack.length then
      let (ok, pp) := recursiveInclude (pp.withLocation saved) tok file.path
      some (ok, pp, output)
    else enterInclude host handler saved pp body origin originIndex output

def externalInclude (pp : Preprocessor) (tok : Token) (index : Nat) (file : IncludeFile)
    (output : List Token) : Bool × Preprocessor × List Token :=
  match host.runExternalPreprocessor file.path with
  | none =>
    let message := "external preprocessing failed for system include '" ++ file.path ++ "'"
    if pp.lenientMissingIncludes then (true, ppReportDiag pp (some tok) .warning message, output)
    else (false, ppReportDiag pp (some tok) .error message, output)
  | some text =>
    let (tokens, ok) := lexSource text (some file.path) pp.enableTrigraphs
    let tokens := if ok then tokens.takeWhile (fun tok => tok.type != .eof) else []
    (ok, ppIncludeFileMarkIncluded pp index, output ++ tokens)

def processIncludeWith : IncludeHandler := fun pp tok rest output isIncludeNext =>
  match includeOperand pp tok rest with
  | (.error message, pp) => some (false, ppReportDiag pp (some tok) .error message, output)
  | (.ok (name, isSystem, taken), pp) =>
    -- the cursor stands on the last token of the operand now
    let tok := (tok :: rest).getD taken tok
    let (found, pp) := pp.load host ⟨tokenFile tok, name, isSystem, isIncludeNext⟩
    match found.bind (fun r => (pp.resolver.files[r.1]?).map (fun file => (r, file))) with
    | none =>
      let (ok, pp) := missingInclude pp tok name isSystem
      some (ok, pp, output)
    | some ((index, origin, originIndex), file) =>
      if pp.preprocessMode = .hybrid ∧ isSystem then
        some (externalInclude host pp tok index file output)
      else if file.pragmaOnce && file.includedOnce then some (true, pp, output)
      else if guardSkips pp file.summaryProbe file.cachedGuardName then some (true, pp, output)
      else includeFile host handler pp tok index file origin originIndex output

end

/-- `process_include` under at most `depth` nested calls. The include stack grows
with every nested call and is bounded by `maxIncludeDepth`. -/
def processInclude (host : Host) : (depth : Nat) → IncludeHandler
  | 0 => fun _ _ _ _ _ => none
  | depth + 1 => processIncludeWith host (processInclude host depth)

/-- `preprocessor_run`. -/
def preprocessorRun (host : Host) (pp : Preprocessor) (input : List Token) :
    Option (Bool × Preprocessor × List Token) :=
  let rootPath := input.head?.bind tokenFile
  let pushed := match rootPath with
    | some path =>
      let file := pp.resolver.files.find? (fun file => file.path == path)
      ppIncludeStackPush pp
        ⟨path, (file.map (·.origin)).getD .raw, (file.map (·.originIndex)).getD (2 ^ 64 - 1)⟩
    | none => pp
  (preprocessTokens (processInclude host (maxIncludeDepth + 1)) (evalCondition host) pushed input []
    true).map fun (ok, pp, output) =>
      let output := if !ok && !output.isEmpty then output ++ [eofToken] else output
      (ok, if rootPath.isSome then ppIncludeStackPop pp else pp, output)

end Fisics
