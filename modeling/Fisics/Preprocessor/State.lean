import Fisics.Preprocessor.MacroExpander

/-!
# The preprocessor state

The record that the directive handlers share, the resolver's cache of included
files, and the small operations on them. The expander is not a field: it is put
together from the state at every use (`Preprocessor.expander`), and what an
expansion changes is put back (`Preprocessor.withExpander`). Its error record is
cleared when an expansion starts, so nothing of it passes from one use to the
next.

How an include is searched on disk, the external preprocessor and the
environment are outside: they are the fields of `Host`. Profiling, the include
graph and failing allocations are left out.
-/

namespace Fisics

-- Summaries of included files

inductive IncludeSearchOrigin
  | sameDir
  | includePath
  | raw
  deriving DecidableEq, Inhabited

inductive IncludeSummaryProbeStatus
  | unknown
  | candidate
  | rejectNonLiteralInclude
  | rejectUnsupportedDirective
  deriving DecidableEq, Inhabited

inductive IncludeHeaderBehaviorClass
  | unknown
  | routerOnly
  | routerRawTail
  | includeDefineScaffold
  | conditionalScaffold
  | generalFallback
  deriving DecidableEq, Inhabited

/-- The counts that the source keeps beside these are not read. -/
structure IncludeSummaryProbe where
  status : IncludeSummaryProbeStatus
  behaviorClass : IncludeHeaderBehaviorClass
  routerOnly : Bool
  routerRawTail : Bool
  deriving DecidableEq, Inhabited

inductive IncludeSummaryActionKind
  | rawRange
  | define
  | undef
  | line
  | diagnostic
  | include
  | includeNext
  | ppIf
  | ifdef
  | ifndef
  | elif
  | else
  | endif
  | pragma
  deriving DecidableEq, Inhabited

structure IncludeSummaryAction where
  kind : IncludeSummaryActionKind
  start : Nat
  stop : Nat
  -- the flags
  noTrailingTokens : Bool
  rawRangeStartsWithTypedef : Bool
  rawRangeSingleTopLevelTypedef : Bool
  -- the last answer of the direct clone test, and the table's serial then
  directCloneMacroSerial : Nat
  directCloneMemoValid : Bool
  directCloneMemoResult : Bool
  deriving DecidableEq, Inhabited

structure IncludeFile where
  path : String
  contents : List Char
  lexedTokens : Option (List Token)
  cachedGuardName : Option String
  summaryProbe : IncludeSummaryProbe
  summaryActions : List IncludeSummaryAction
  pragmaOnce : Bool
  includedOnce : Bool
  origin : IncludeSearchOrigin
  originIndex : Nat
  deriving DecidableEq, Inhabited

structure IncludeRequest where
  includingFile : Option String
  name : String
  isSystem : Bool
  isIncludeNext : Bool
  deriving DecidableEq, Inhabited

structure IncludeResolver where
  files : List IncludeFile
  /-- The requests made so far, last first: what the request cache and the path
  hints are computed from. -/
  requests : List IncludeRequest
  deriving DecidableEq, Inhabited

-- The state

/-- The member table of the source is a hash set of these paths. -/
structure PPIncludeFrame where
  path : String
  origin : IncludeSearchOrigin
  originIndex : Nat
  deriving DecidableEq, Inhabited

inductive PreprocessMode
  | internal
  | external
  | hybrid
  deriving DecidableEq, Inhabited

inductive DiagKind
  | error
  | warning
  | note
  deriving DecidableEq, Inhabited

structure Diag where
  kind : DiagKind
  message : String
  location : SourceRange
  deriving DecidableEq, Inhabited

structure Preprocessor where
  table : MacroTable
  resolver : IncludeResolver
  baseFile : Option String
  logicalFile : Option String
  lineOffset : Int
  lineRemapActive : Bool
  counter : Int
  /-- `none` for the empty string. -/
  dateString : Option String
  timeString : Option String
  /-- The frames, innermost first. -/
  includeStack : List PPIncludeFrame
  preserveDirectives : Bool
  lenientMissingIncludes : Bool
  enableTrigraphs : Bool
  preprocessMode : PreprocessMode
  /-- The process-wide counter of `pp_router_replay_allowed`. -/
  replaySeen : Nat
  /-- What was reported, last first. -/
  diags : List Diag
  deriving DecidableEq, Inhabited

/-- What the preprocessor asks of the file system and the environment. -/
structure Host where
  /-- `include_resolver_load`: the index of the file among the resolver's files,
  with the search's origin. -/
  includeResolverLoad : IncludeResolver → IncludeRequest →
    Option (Nat × IncludeSearchOrigin × Nat) × IncludeResolver
  /-- `pp_run_external_preprocessor` on a path: the text it writes. -/
  runExternalPreprocessor : String → Option (List Char)
  summaryReplayRouterEnabled : Bool
  summaryReplayScaffoldEnabled : Bool
  summaryReplayGeneralEnabled : Bool
  /-- `FISICS_PP_SUMMARY_REPLAY_ROUTER_LIMIT`, at most `LONG_MAX`. -/
  routerReplayLimit : Int

/-- `preprocessor_init` before the predefined macros: no clock, no limit set in
the environment. -/
def preprocessorInit (preserveDirectives lenientMissingIncludes enableTrigraphs : Bool)
    (preprocessMode : PreprocessMode) : Preprocessor where
  table := macroTableCreate
  resolver := ⟨[], []⟩
  baseFile := none
  logicalFile := none
  lineOffset := 0
  lineRemapActive := false
  counter := 0
  dateString := none
  timeString := none
  includeStack := []
  preserveDirectives
  lenientMissingIncludes
  enableTrigraphs
  preprocessMode
  replaySeen := 0
  diags := []

def noFiles : Host where
  includeResolverLoad resolver _ := (none, resolver)
  runExternalPreprocessor _ := none
  summaryReplayRouterEnabled := true
  summaryReplayScaffoldEnabled := true
  summaryReplayGeneralEnabled := true
  routerReplayLimit := 2 ^ 63 - 1

def fileLine (file : String) (line column : Int) : SourceRange :=
  ⟨⟨some file, line, column⟩, ⟨some file, line, column + 1⟩⟩

def Preprocessor.builtins (pp : Preprocessor) : PPBuiltinState :=
  ⟨pp.baseFile, pp.dateString, pp.timeString, some pp.counter, pp.logicalFile, some pp.lineOffset,
    some pp.lineRemapActive⟩

def Preprocessor.expander (pp : Preprocessor) : MacroExpander :=
  ⟨pp.table, pp.builtins, noExpandError, false⟩

def Preprocessor.withExpander (pp : Preprocessor) (expander : MacroExpander) : Preprocessor :=
  { pp with table := expander.table, counter := expander.builtins.counter.getD pp.counter }

-- Tokens and lines

def remapLine (offset line : Int) : Int :=
  if offset = 0 then line else max (line + offset) 1

def remapRange (pp : Preprocessor) (file : Option String) (range : SourceRange) : SourceRange :=
  ⟨⟨file.or range.start.file, remapLine pp.lineOffset range.start.line, range.start.column⟩,
    ⟨file.or range.stop.file, remapLine pp.lineOffset range.stop.line, range.stop.column⟩⟩

def ppTokenCloneRemap (pp : Preprocessor) (tok : Token) : Token :=
  let clone :=
    if pp.lineRemapActive then
      let file := pp.logicalFile.or tok.location.start.file
      { tok with
        location := remapRange pp file tok.location
        macroCallSite :=
          if tok.macroCallSite.start.file.isSome ∨ 0 < tok.macroCallSite.start.line then
            remapRange pp file tok.macroCallSite
          else tok.macroCallSite }
    else tok
  { clone with line := clone.location.start.line }

def ppTokenBufferAppendCloneRemapSpan (pp : Preprocessor) (output tokens : List Token) :
    List Token :=
  output ++ tokens.map (ppTokenCloneRemap pp)

def lineTokens (line : Int) (tokens : List Token) : List Token :=
  tokens.takeWhile (fun tok => tok.type != .eof && tok.line == line)

abbrev directiveLine (tok : Token) (rest : List Token) : List Token := lineTokens tok.line rest

def ppAppendDirectiveLine (pp : Preprocessor) (tok : Token) (rest output : List Token) :
    List Token :=
  ppTokenBufferAppendCloneRemapSpan pp output (tok :: directiveLine tok rest)

def ppDirectiveHasTrailingTokens (tok : Token) (rest : List Token) : Bool :=
  !(directiveLine tok rest).isEmpty

/-- The number of tokens that a `_Pragma` operator takes after its name, when
the tokens start with one. -/
def ppSkipPragmaOperator : List Token → Option Nat
  | [] => none
  | tok :: rest =>
    if tok.type = .identifier ∧ tok.value = some "_Pragma" then
      if headIs .lparen rest then
        let rest := rest.tail
        let string := headIs .string rest
        let rest := if string then rest.tail else rest
        some (1 + string.toNat + (headIs .rparen rest).toNat)
      else some 0
    else none

def ppSetBaseFile (pp : Preprocessor) (path : String) : Preprocessor :=
  if pp.baseFile.isSome then pp else { pp with baseFile := some path }

def ppSetLogicalFile (pp : Preprocessor) (path : String) : Preprocessor :=
  { pp with logicalFile := some path }

def ppEnterBuffer (pp : Preprocessor) (input : List Token) : Preprocessor :=
  match input.head?.bind tokenFile with
  | none => pp
  | some path =>
    let pp := ppSetBaseFile pp path
    if pp.logicalFile.isSome then pp else ppSetLogicalFile pp path

/-- The name between `<` and `>`, with the number of tokens read; the tokens of
the operand are those for which `inOperand` holds. The buffer of the source has
1024 bytes. -/
def angleIncludeName (inOperand : Token → Bool) : (name : List Char) → List Token →
    Option (List Char) × Nat
  | _, [] => (none, 0)
  | name, tok :: rest =>
    if !inOperand tok then (none, 0)
    else if tok.type = .greater then (some name, 1)
    else if 1024 ≤ name.length + (tokenText tok).length + 1 then (none, 0)
    else
      let r := angleIncludeName inOperand (name ++ (tokenText tok).toList) rest
      (r.1, r.2 + 1)

def stripIncludeSpaces (name : List Char) : List Char :=
  name.filter (fun c => c != ' ' && c != '\t' && c != '\r' && c != '\n')

-- The include stack and the resolver's files

def ppIncludeStackPush (pp : Preprocessor) (frame : PPIncludeFrame) : Preprocessor :=
  { pp with includeStack := frame :: pp.includeStack }

def ppIncludeStackPop (pp : Preprocessor) : Preprocessor :=
  { pp with includeStack := pp.includeStack.tail }

def ppIncludeStackTop (pp : Preprocessor) : Option PPIncludeFrame := pp.includeStack.head?

def ppIncludeStackContains (pp : Preprocessor) (path : String) : Bool :=
  pp.includeStack.any (fun frame => frame.path == path)

def Preprocessor.modifyFile (pp : Preprocessor) (index : Nat) (f : IncludeFile → IncludeFile) :
    Preprocessor :=
  { pp with resolver := { pp.resolver with files := pp.resolver.files.modify index f } }

def Preprocessor.load (host : Host) (pp : Preprocessor) (request : IncludeRequest) :
    Option (Nat × IncludeSearchOrigin × Nat) × Preprocessor :=
  let (found, resolver) := host.includeResolverLoad pp.resolver request
  (found, { pp with resolver := { resolver with requests := request :: pp.resolver.requests } })

def includeResolverMarkPragmaOnce (resolver : IncludeResolver) (path : String) : IncludeResolver :=
  match resolver.files.findIdx? (fun file => file.path == path) with
  | some i => { resolver with
      files := resolver.files.modify i (fun file => { file with pragmaOnce := true }) }
  | none => resolver

def Preprocessor.markPragmaOnce (pp : Preprocessor) (path : String) : Preprocessor :=
  { pp with resolver := includeResolverMarkPragmaOnce pp.resolver path }

-- Diagnostics

def ppAddDiag (pp : Preprocessor) (kind : DiagKind) (message : String) (location : SourceRange) :
    Preprocessor :=
  { pp with diags := ⟨kind, message, location⟩ :: pp.diags }

/-- `vsnprintf` into a buffer of 512 bytes. -/
def diagText (message : String) : String := String.ofList (message.toList.take 511)

def ppReportDiag (pp : Preprocessor) (tok : Option Token) (kind : DiagKind) (message : String) :
    Preprocessor :=
  let location := (tok.map (fun tok => (ppTokenCloneRemap pp tok).location)).getD emptyRange
  let location :=
    match location.start.file, ppIncludeStackTop pp with
    | none, some frame =>
      ⟨{ location.start with file := some frame.path }, { location.stop with file := some frame.path }⟩
    | _, _ => location
  ppAddDiag pp kind (diagText message) location

def ppRemapDiagnosticRange (pp : Preprocessor) (range : SourceRange) : SourceRange :=
  match pp.logicalFile with
  | some file =>
    if pp.lineRemapActive ∧ file ≠ "" ∧ range.start.file ≠ some file then
      remapRange pp (some file) range
    else range
  | none => range

-- Flushing a chunk

/-- The message for a failed expansion, with the range it is reported at; `none`
when the error is not one that is reported at a call. -/
def expandErrorDiag (info : MacroExpandErrorInfo) : Option (String × SourceRange) :=
  let name := (info.definition.map (·.name)).getD "<macro>"
  match info.kind with
  | .macroArgCount =>
    let atLeast := if info.variadic then "at least " else ""
    some (s!"macro '{name}' requires {atLeast}{info.expectedArgs} argument(s), got {info.providedArgs}",
      info.callSite)
  | .unsupportedGnuCommaVaArgs =>
    some ("GNU ', ##__VA_ARGS__' extension is not supported", info.callSite)
  | .none => none

def recursionMessage (error : MacroExpansionError) (name : String) : String :=
  match error with
  | .recursion => s!"macro recursion detected while expanding '{name}'"
  | .depth => s!"macro expansion depth exceeded (possible recursion) for '{name}'"
  | .none => s!"macro expansion failed (possible recursion) for '{name}'"

/-- The report on a failed expansion. `snprintf` cuts the text at 255 bytes. -/
def reportExpandError (pp : Preprocessor) (info : MacroExpandErrorInfo) : Preprocessor :=
  let cut (message : String) := String.ofList (message.toList.take 255)
  match expandErrorDiag info with
  | some (message, callSite) =>
    ppAddDiag pp .error (cut message) (ppRemapDiagnosticRange pp (ppRemapDiagnosticRange pp callSite))
  | none =>
    match pp.table.expansionStack.head? with
    | some top =>
      let location := ppRemapDiagnosticRange pp top.callSiteRange
      ppAddDiag pp .error (cut (recursionMessage pp.table.lastError top.definition.name))
        (ppRemapDiagnosticRange pp location)
    | none =>
      ppReportDiag pp none .error (cut (recursionMessage pp.table.lastError "<macro>"))

/-- The expanded tokens without unknown tokens and `_Pragma` operators. -/
def dropPragmaOperators : (skip : Nat) → List Token → List Token
  | _, [] => []
  | skip + 1, _ :: rest => dropPragmaOperators skip rest
  | 0, tok :: rest =>
    match ppSkipPragmaOperator (tok :: rest) with
    | some taken => dropPragmaOperators taken rest
    | none =>
      if tok.type = .unknown then dropPragmaOperators 0 rest
      else tok :: dropPragmaOperators 0 rest

/-- `pp_flush_chunk`: success, the output and the state left. Expansion returns
(`macroExpanderExpand_returns`), so the last case does not occur. -/
def ppFlushChunk (pp : Preprocessor) (chunk output : List Token) :
    Bool × List Token × Preprocessor :=
  if chunk.isEmpty then (true, output, pp)
  else
    match macroExpanderExpand pp.expander chunk with
    | some (true, expanded, expander) =>
      let pp := pp.withExpander expander
      (true, ppTokenBufferAppendCloneRemapSpan pp output (dropPragmaOperators 0 expanded), pp)
    | some (false, _, expander) =>
      (false, output, reportExpandError (pp.withExpander expander) expander.lastError)
    | none => (false, output, pp)

end Fisics
