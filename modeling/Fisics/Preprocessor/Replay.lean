import Fisics.Preprocessor.IncludeSummary

/-!
# Replaying a summary

Three loops over the actions of a header stand in for the walk over its tokens.
The router and the scaffold replay follow the shape of a guarded header and look
at no condition; the summary replay handles every action as the walk handles the
line it stands for.

A raw range is copied as it is when no token of it needs expansion. The answer
of that test is kept in the action, with the serial of the macro table at that
time.
-/

namespace Fisics

inductive PPSummaryReplayResult
  | used
  | unsupported
  | error
  deriving DecidableEq, Inhabited

-- Raw ranges

def ppSummaryActionRawRangeCanCloneDirect (table : MacroTable) (buffer : List Token)
    (action : IncludeSummaryAction) : Bool × IncludeSummaryAction :=
  if action.kind ≠ .rawRange then (false, action)
  else if action.directCloneMemoValid ∧ action.directCloneMacroSerial = table.mutationSerial then
    (action.directCloneMemoResult, action)
  else
    let result := ppSummaryRawRangeCanCloneDirect table buffer action.start action.stop
    (result, { action with
      directCloneMacroSerial := table.mutationSerial
      directCloneMemoValid := true
      directCloneMemoResult := result })

def actionTokens (buffer : List Token) (action : IncludeSummaryAction) : List Token :=
  (buffer.drop action.start).take (action.stop - action.start)

def ppSummaryAppendRawRangeDirect (pp : Preprocessor) (buffer : List Token)
    (action : IncludeSummaryAction) (output : List Token) :
    Option (List Token) × IncludeSummaryAction :=
  let (can, action) := ppSummaryActionRawRangeCanCloneDirect pp.table buffer action
  (if can then some (ppTokenBufferAppendCloneRemapSpan pp output (actionTokens buffer action))
    else none, action)

/-- The tokens of a range of length `n` that go to the chunk. A `_Pragma` operator
may reach behind the range. -/
def rawRangeChunk : (n skip : Nat) → List Token → List Token
  | _, _, [] => []
  | 0, _, _ => []
  | n + 1, skip + 1, _ :: rest => rawRangeChunk n skip rest
  | n + 1, 0, tok :: rest =>
    if tok.type = .eof then []
    else
      match ppSkipPragmaOperator (tok :: rest) with
      | some taken => rawRangeChunk n taken rest
      | none =>
        if tok.type = .unknown then rawRangeChunk n 0 rest else tok :: rawRangeChunk n 0 rest

def ppSummaryAppendRawRange (buffer : List Token) (action : IncludeSummaryAction)
    (chunk : List Token) : List Token :=
  chunk ++ rawRangeChunk (action.stop - action.start) 0 (buffer.drop action.start)

-- The router and the scaffold replay

structure ReplayEnd where
  result : PPSummaryReplayResult
  pp : Preprocessor
  output : List Token
  actions : List IncludeSummaryAction

/-- The path of the directive's token, not of the word `once`. -/
def ppRouterMarkPragmaOnce (pp : Preprocessor) (buffer : List Token)
    (action : IncludeSummaryAction) : Option Preprocessor :=
  ((buffer.drop action.start).head?.bind tokenFile).map pp.markPragmaOnce

/-- One action of the router or scaffold replay; `.error` with the result that
ends the replay. -/
def guardedAction (handler : IncludeHandler) (buffer : List Token) (rawAllowed : Bool)
    (pp : Preprocessor) (output : List Token) (action : IncludeSummaryAction) :
    Option (Except PPSummaryReplayResult Unit × Preprocessor × List Token × IncludeSummaryAction) :=
  let next (pp : Preprocessor) (output : List Token) := some (.ok (), pp, output, action)
  let unsupported := some (.error .unsupported, pp, output, action)
  match action.kind with
  | .pragma =>
    match ppRouterMarkPragmaOnce pp buffer action with
    | some pp => next pp output
    | none => unsupported
  | .ifndef | .endif => next pp output
  | .rawRange =>
    if rawAllowed then
      match ppSummaryAppendRawRangeDirect pp buffer action output with
      | (some output, action) => some (.ok (), pp, output, action)
      | (none, action) => some (.error .unsupported, pp, output, action)
    else unsupported
  | .define =>
    match buffer.drop action.start with
    | [] => some (.error .error, pp, output, action)
    | tok :: rest =>
      let (ok, pp, _) := processDefine (action.start == 0) pp tok rest
      if ok then next pp output else some (.error .error, pp, output, action)
  | .include | .includeNext =>
    match buffer.drop action.start with
    | [] => some (.error .error, pp, output, action)
    | tok :: rest =>
      (handler pp tok rest output (action.kind == .includeNext)).map fun (ok, pp, output) =>
        (if ok then .ok () else .error .error, pp, output, action)
  | _ => unsupported

def guardedReplayLoop (handler : IncludeHandler) (buffer : List Token) (rawAllowed : Bool) :
    (done : List IncludeSummaryAction) → Preprocessor → (output : List Token) →
    List IncludeSummaryAction → Option ReplayEnd
  | done, pp, output, [] => some ⟨.used, pp, output, done⟩
  | done, pp, output, action :: rest =>
    (guardedAction handler buffer rawAllowed pp output action).bind
      fun (result, pp, output, action) =>
        match result with
        | .ok () => guardedReplayLoop handler buffer rawAllowed (done ++ [action]) pp output rest
        | .error result => some ⟨result, pp, output, done ++ action :: rest⟩

def appendEofToken (appendEOF : Bool) (r : ReplayEnd) : ReplayEnd :=
  if appendEOF ∧ r.result = .used then { r with output := r.output ++ [eofToken] } else r

def ppRouterReplayCanRun (table : MacroTable) (buffer : List Token) (rawTail : Bool) :
    List IncludeSummaryAction → Bool × List IncludeSummaryAction
  | [] => (true, [])
  | action :: rest =>
    let (ok, action) :=
      match action.kind with
      | .pragma | .ifndef | .endif | .define | .include | .includeNext => (true, action)
      | .rawRange =>
        if rawTail then ppSummaryActionRawRangeCanCloneDirect table buffer action
        else (false, action)
      | _ => (false, action)
    if ok then
      let (ok, rest) := ppRouterReplayCanRun table buffer rawTail rest
      (ok, action :: rest)
    else (false, action :: rest)

section
variable (host : Host) (handler : IncludeHandler)

def preprocessTokensRouterReplay (pp : Preprocessor) (buffer : List Token)
    (probe : IncludeSummaryProbe) (actions : List IncludeSummaryAction) (output : List Token)
    (appendEOF : Bool) : Option ReplayEnd :=
  if (!probe.routerOnly && !probe.routerRawTail) || actions.isEmpty || pp.preserveDirectives then
    some ⟨.unsupported, pp, output, actions⟩
  else
    let pp := ppEnterBuffer pp buffer
    let pp := { pp with replaySeen := pp.replaySeen + 1 }
    if host.routerReplayLimit < pp.replaySeen then some ⟨.unsupported, pp, output, actions⟩
    else
      let (canRun, actions) := ppRouterReplayCanRun pp.table buffer probe.routerRawTail actions
      if canRun then
        (guardedReplayLoop handler buffer probe.routerRawTail [] pp output actions).map
          (appendEofToken appendEOF)
      else some ⟨.unsupported, pp, output, actions⟩

def preprocessTokensScaffoldReplay (pp : Preprocessor) (buffer : List Token)
    (probe : IncludeSummaryProbe) (actions : List IncludeSummaryAction) (output : List Token)
    (appendEOF : Bool) : Option ReplayEnd :=
  if probe.behaviorClass ≠ .includeDefineScaffold ∨ actions.isEmpty ∨ pp.preserveDirectives then
    some ⟨.unsupported, pp, output, actions⟩
  else
    (guardedReplayLoop handler buffer true [] (ppEnterBuffer pp buffer) output actions).map
      (appendEofToken appendEOF)

end

-- The summary replay

def replayFlush (s : TextState) (k : TextState → Option (Except TextState σ)) :
    Option (Except TextState σ) :=
  let (ok, output, pp) := ppFlushChunk s.pp s.chunk s.output
  if ok then k ⟨pp, [], output⟩ else some (.error { s with pp, output })

def preserveSpan (s : TextState) (buffer : List Token) (action : IncludeSummaryAction) :
    TextState :=
  if s.pp.preserveDirectives then
    { s with
      output := ppTokenBufferAppendCloneRemapSpan s.pp s.output (actionTokens buffer action) }
  else s

def replayDirective (handler : IncludeHandler) (first : Bool) (kind : IncludeSummaryActionKind)
    (s : TextState) (tok : Token) (rest : List Token) : Option (Except TextState TextState) :=
  let finish (ok : Bool) (pp : Preprocessor) : Option (Except TextState TextState) :=
    some (if ok then .ok { s with pp } else .error { s with pp })
  match kind with
  | .define =>
    let (ok, pp, _) := processDefine first s.pp tok rest
    finish ok pp
  | .undef => let r := processUndef s.pp tok rest; finish r.ok r.pp
  | .line => let r := processLineDirective s.pp tok rest; finish r.ok r.pp
  | .diagnostic => finish true (reportDiagnostic s.pp tok (directiveLine tok rest))
  | .pragma => let r := processPragma s.pp tok rest; finish r.ok r.pp
  | .include | .includeNext =>
    (handler s.pp tok rest s.output (kind == .includeNext)).map fun (ok, pp, output) =>
      if ok then .ok { s with pp, output } else .error { s with pp, output }
  | _ => some (.ok s)

def replayConditional (eval : EvalCondition) (buffer : List Token) (action : IncludeSummaryAction)
    (s : TextState) (stack : List PPConditionalFrame) (tok : Token) (rest : List Token) :
    Option (Except TextState WalkState) :=
  let finish (s : TextState) (ok : Bool) (pp : Preprocessor) (stack : List PPConditionalFrame) :
      Except TextState WalkState :=
    let s := { s with pp }
    if ok then .ok ⟨s, stack⟩ else .error s
  match action.kind with
  | .ppIf => (processIf eval s.pp stack tok rest).map fun r => finish s r.ok r.pp r.stack
  | .ifdef => let r := processIfdeflike s.pp stack tok rest false; some (finish s r.ok r.pp r.stack)
  | .ifndef => let r := processIfdeflike s.pp stack tok rest true; some (finish s r.ok r.pp r.stack)
  | .elif => (processElif eval s.pp stack tok rest).map fun r => finish s r.ok r.pp r.stack
  | .else =>
    if action.noTrailingTokens then
      let (ok, pp, stack) := processElse s.pp stack tok
      some (finish s ok pp stack)
    else some (.error s)
  | _ =>
    if action.noTrailingTokens then
      let s := if conditionalStackIsActive stack then preserveSpan s buffer action else s
      let (ok, pp, stack) := processEndif s.pp stack tok
      some (finish s ok pp stack)
    else some (.error s)

def isConditionalAction : IncludeSummaryActionKind → Bool
  | .ppIf | .ifdef | .ifndef | .elif | .else | .endif => true
  | _ => false

def replayRawRange (buffer : List Token) (s : TextState) (action : IncludeSummaryAction) :
    Option (Except TextState TextState) × IncludeSummaryAction :=
  let (can, action) := ppSummaryActionRawRangeCanCloneDirect s.pp.table buffer action
  if can then
    -- a flush leaves the table's serial, so the memo answers the second test
    (replayFlush s fun s =>
      match (ppSummaryAppendRawRangeDirect s.pp buffer action s.output).1 with
      | some output => some (.ok { s with output })
      | none => some (.error s), action)
  else (some (.ok { s with chunk := ppSummaryAppendRawRange buffer action s.chunk }), action)

section
variable (handler : IncludeHandler) (eval : EvalCondition)

def summaryAction (buffer : List Token) (s : WalkState) (action : IncludeSummaryAction) :
    Option (Except TextState WalkState) × IncludeSummaryAction :=
  let keepStack (r : Option (Except TextState TextState)) : Option (Except TextState WalkState) :=
    r.map (·.map (⟨·, s.stack⟩))
  if action.kind = .rawRange then
    if s.active then
      let (r, action) := replayRawRange buffer s.toTextState action
      (keepStack r, action)
    else (some (.ok s), action)
  else
    match buffer.drop action.start with
    | [] => (some (.error s.toTextState), action)
    | tok :: rest =>
      if isConditionalAction action.kind then
        (replayFlush s.toTextState fun t =>
          replayConditional eval buffer action t s.stack tok rest, action)
      else if s.active then
        (keepStack (replayFlush s.toTextState fun t =>
          replayDirective handler (action.start == 0) action.kind (preserveSpan t buffer action)
            tok rest), action)
      else (some (.ok s), action)

def summaryReplayLoop (buffer : List Token) : (done : List IncludeSummaryAction) → WalkState →
    List IncludeSummaryAction → Option (Except TextState WalkState × List IncludeSummaryAction)
  | done, s, [] => some (.ok s, done)
  | done, s, action :: rest =>
    let (r, action) := summaryAction handler eval buffer s action
    r.bind fun
      | .ok s => summaryReplayLoop buffer (done ++ [action]) s rest
      | .error s => some (.error s, done ++ action :: rest)

def preprocessTokensSummaryReplay (pp : Preprocessor) (buffer : List Token)
    (actions : List IncludeSummaryAction) (output : List Token) (appendEOF : Bool) :
    Option ReplayEnd :=
  let pp := ppEnterBuffer pp buffer
  if actions.isEmpty then some ⟨.unsupported, pp, output, actions⟩
  else
    (summaryReplayLoop handler eval buffer [] ⟨⟨pp, [], output⟩, []⟩ actions).map fun
      | (.ok s, actions) =>
        let (ok, pp, output) := walkEnd appendEOF s
        ⟨if ok then .used else .error, pp, output, actions⟩
      | (.error s, actions) => ⟨.error, s.pp, s.output, actions⟩

end

end Fisics
