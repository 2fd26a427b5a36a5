import Fisics.Preprocessor.Walk

/-!
# Include guards and summaries of headers

Before a header is walked, shallow scans look at its tokens: whether an include
guard encloses it, and which directives it has, line by line, as a list of
actions over token ranges. The classes computed from the actions decide which
replay may stand in for the walk.
-/

namespace Fisics

-- Lines

def tokenTypeIsConditionalStart : TokenType → Bool
  | .ppIf | .ifdef | .ifndef => true
  | _ => false

def pragmaIsOnceDirective (tok : Token) (rest : List Token) : Bool :=
  match rest with
  | [] => false
  | word :: after =>
    word.line == tok.line && word.type == .once && (lineTokens tok.line after).isEmpty

/-- `directive_line_matches_single_identifier`, which is also
`directive_line_matches_empty_guard_define`. -/
def directiveLineMatchesSingleIdentifier (ident : String) (tok : Token) (rest : List Token) :
    Bool :=
  match rest with
  | [] => false
  | name :: after =>
    name.line == tok.line && name.type == .identifier && name.value == some ident &&
      (lineTokens tok.line after).isEmpty

def detectLeadingPragmaOnce (buffer : List Token) : Bool :=
  match skipEofTokens buffer with
  | [] => false
  | tok :: rest => tok.type == .pragma && pragmaIsOnceDirective tok rest

-- Include guards

def onlyUnknownLeft (tokens : List Token) : Bool :=
  (tokens.takeWhile (fun tok => tok.type != .eof)).all (fun tok => tok.type == .unknown)

/-- The nesting counter of `detect_include_guard`: whether the `#endif` that
brings it to zero ends the file. -/
def guardScan : (depth : Nat) → List Token → Bool
  | _, [] => false
  | depth, tok :: rest =>
    if tok.type = .eof then false
    else if tokenTypeIsConditionalStart tok.type then guardScan (depth + 1) rest
    else if tok.type = .endif then
      if depth = 1 then onlyUnknownLeft (rest.drop (directiveLine tok rest).length)
      else guardScan (depth - 1) rest
    else guardScan depth rest

def detectIncludeGuard (buffer : List Token) : Option String :=
  match buffer with
  | ifndefTok :: name :: rest =>
    if ifndefTok.type = .ifndef ∧ name.type = .identifier ∧ rest ≠ [] then
      match rest.drop (lineTokens ifndefTok.line rest).length with
      | defineTok :: guardName :: more =>
        if defineTok.type = .define ∧ guardName.line = defineTok.line ∧
            guardName.type = .identifier ∧ guardName.value = name.value ∧
            guardScan 1 (guardName :: more) then name.value
        else none
      | _ => none
    else none
  | _ => none

-- Actions

def rangeTokens (buffer : List Token) (start stop : Nat) : List Token :=
  ((buffer.drop start).take (stop - start)).filter (fun tok => tok.type != .eof && tok.type != .unknown)

def startsWithTypedef (range : List Token) : Bool := range.head?.any (fun tok => tok.type == .kwTypedef)

structure BracketDepth where
  paren : Nat
  brace : Nat
  bracket : Nat
  semicolons : Nat

def BracketDepth.read (d : BracketDepth) (tok : Token) : BracketDepth :=
  match tok.type with
  | .lparen => { d with paren := d.paren + 1 }
  | .rparen => { d with paren := d.paren - 1 }
  | .lbrace => { d with brace := d.brace + 1 }
  | .rbrace => { d with brace := d.brace - 1 }
  | .lbracket => { d with bracket := d.bracket + 1 }
  | .rbracket => { d with bracket := d.bracket - 1 }
  | .semicolon =>
    if d.paren = 0 ∧ d.brace = 0 ∧ d.bracket = 0 then { d with semicolons := d.semicolons + 1 }
    else d
  | _ => d

def isSingleTopLevelDeclaration (range : List Token) : Bool :=
  (range.foldl BracketDepth.read ⟨0, 0, 0, 0⟩).semicolons == 1

def includeSummaryActionMake (buffer : List Token) (kind : IncludeSummaryActionKind)
    (start stop : Nat) : IncludeSummaryAction :=
  let isRaw := kind == .rawRange
  let range := rangeTokens buffer start stop
  { kind, start, stop
    noTrailingTokens := !isRaw && stop ≤ start + 1
    rawRangeStartsWithTypedef := isRaw && startsWithTypedef range
    rawRangeSingleTopLevelTypedef := isRaw && isSingleTopLevelDeclaration range
    directCloneMacroSerial := 0
    directCloneMemoValid := false
    directCloneMemoResult := false }

/-- The action of a directive token; `none` for text, and the second `none` for
a directive that no summary covers. -/
def directiveActionKind (tok : Token) : Option (Option IncludeSummaryActionKind) :=
  match tok.type with
  | .include => some (some .include)
  | .includeNext => some (some .includeNext)
  | .define => some (some .define)
  | .undef => some (some .undef)
  | .ppIf => some (some .ppIf)
  | .ifdef => some (some .ifdef)
  | .ifndef => some (some .ifndef)
  | .ppElif => some (some .elif)
  | .ppElse => some (some .else)
  | .endif => some (some .endif)
  | .pragma => some (some .pragma)
  | .preprocessorOther =>
    if tok.value = some "line" then some (some .line)
    else if isDiagnosticWord tok then some (some .diagnostic)
    else some none
  | _ => none

def isIncludeType (t : TokenType) : Bool := t == .include || t == .includeNext

/-- How many tokens a directive's action covers after the directive; `none` for
an include whose operand is not literal. -/
def actionTaken (tok : Token) (rest : List Token) : Option Nat :=
  if isIncludeType tok.type then (parseIncludeOperand tok rest).map (fun r => r.2.2)
  else some (directiveLine tok rest).length

def appendRawAction (buffer : List Token) (actions : List IncludeSummaryAction)
    (rawStart i : Nat) : List IncludeSummaryAction :=
  if rawStart < i then actions ++ [includeSummaryActionMake buffer .rawRange rawStart i] else actions

/-- The scan of `analyze_include_summary_probe`, at index `i`. -/
def analyzeLoop (buffer : List Token) : (skip i rawStart : Nat) → List IncludeSummaryAction →
    List Token → Except IncludeSummaryProbeStatus (List IncludeSummaryAction)
  | _, i, rawStart, actions, [] => .ok (appendRawAction buffer actions rawStart i)
  | skip + 1, i, rawStart, actions, _ :: rest => analyzeLoop buffer skip (i + 1) rawStart actions rest
  | 0, i, rawStart, actions, tok :: rest =>
    if tok.type = .eof then .ok (appendRawAction buffer actions rawStart i)
    else
      match directiveActionKind tok with
      | none => analyzeLoop buffer 0 (i + 1) rawStart actions rest
      | some none => .error .rejectUnsupportedDirective
      | some (some kind) =>
        match actionTaken tok rest with
        | none => .error .rejectNonLiteralInclude
        | some taken =>
          let stop := i + 1 + taken
          analyzeLoop buffer taken (i + 1) stop
            (appendRawAction buffer actions rawStart i ++
              [includeSummaryActionMake buffer kind i stop]) rest

/-- The actions are kept for a candidate only. -/
def analyzeIncludeSummaryProbe (buffer : List Token) :
    IncludeSummaryProbe × List IncludeSummaryAction :=
  let rejected (status : IncludeSummaryProbeStatus) : IncludeSummaryProbe × List IncludeSummaryAction :=
    (⟨status, .unknown, false, false⟩, [])
  if buffer.isEmpty then rejected .rejectUnsupportedDirective
  else
    match analyzeLoop buffer 0 0 0 [] buffer with
    | .ok actions => (⟨.candidate, .unknown, false, false⟩, actions)
    | .error status => rejected status

-- The guard as the actions show it

def isConditionalStartAction : IncludeSummaryActionKind → Bool
  | .ppIf | .ifdef | .ifndef => true
  | _ => false

/-- Whether the last action is the `#endif` that closes the first group. -/
def guardActionScan : (depth : Nat) → List IncludeSummaryAction → Bool
  | _, [] => false
  | depth, action :: rest =>
    if isConditionalStartAction action.kind then guardActionScan (depth + 1) rest
    else if action.kind = .endif then
      if depth = 0 then false
      else if depth = 1 then rest.isEmpty
      else guardActionScan (depth - 1) rest
    else guardActionScan depth rest

/-- The line of an action matches, as `f` sees the directive and what follows. -/
def actionLine (buffer : List Token) (action : IncludeSummaryAction)
    (f : Token → List Token → Bool) : Bool :=
  match buffer.drop action.start with
  | [] => false
  | tok :: rest => f tok rest

def detectIncludeGuardFromSummaryActions (buffer : List Token)
    (actions : List IncludeSummaryAction) : Option String :=
  match actions.dropWhile (fun action => action.kind == .pragma) with
  | ifndefAction :: defineAction :: more =>
    if ifndefAction.kind = .ifndef ∧ defineAction.kind = .define then
      match buffer.drop (ifndefAction.start + 1) with
      | [] => none
      | name :: _ =>
        match name.value with
        | none => none
        | some ident =>
          if name.type = .identifier ∧
              actionLine buffer defineAction (directiveLineMatchesSingleIdentifier ident) ∧
              guardActionScan 0 (ifndefAction :: defineAction :: more) then some ident
          else none
    else none
  | _ => none

-- Direct clones

def ppSummaryIdentifierRequiresExpansion (name : String) : Bool :=
  name ∈ ["_Pragma", "__LINE__", "__COUNTER__", "__FILE__", "__BASE_FILE__", "__DATE__", "__TIME__",
    "__has_builtin", "__has_extension", "__has_feature", "__has_attribute", "__has_c_attribute",
    "__has_declspec_attribute", "__has_warning", "__is_identifier"]

def canCloneToken (table : MacroTable) (tok : Token) : Bool :=
  match tok.type with
  | .unknown | .include | .includeNext | .define | .undef | .ifdef | .ifndef | .endif | .pragma
  | .preprocessorOther | .ppIf | .ppElif | .ppElse | .hash | .doubleHash => false
  | .identifier =>
    match tok.value with
    | none => false
    | some name =>
      !ppSummaryIdentifierRequiresExpansion name && (macroTableLookup table name).isNone
  | _ => true

def ppSummaryRawRangeCanCloneDirect (table : MacroTable) (buffer : List Token)
    (start stop : Nat) : Bool :=
  (((buffer.drop start).take (stop - start)).takeWhile (fun tok => tok.type != .eof)).all
    (canCloneToken table) && start < stop

-- Classes

structure ClassifyRules where
  /-- Defines after that of the guard are part of the body. -/
  moreDefines : Bool
  rawAllowed : IncludeSummaryAction → Bool
  /-- A raw range counts as body. -/
  rawIsBody : Bool

structure ClassifyState where
  sawIfndef : Bool
  sawDefine : Bool
  sawEndif : Bool
  sawBody : Bool
  sawRaw : Bool

/-- The guard's group is open. -/
def ClassifyState.inBody (s : ClassifyState) : Bool := s.sawIfndef && s.sawDefine && !s.sawEndif

def classifyAction (rules : ClassifyRules) (buffer : List Token) (guard : String) (last : Bool)
    (s : ClassifyState) (action : IncludeSummaryAction) : Option ClassifyState :=
  let matchesGuard := actionLine buffer action (directiveLineMatchesSingleIdentifier guard)
  match action.kind with
  | .pragma => if actionLine buffer action pragmaIsOnceDirective then some s else none
  | .ifndef =>
    if s.sawIfndef || s.sawDefine || s.sawEndif then none
    else if matchesGuard then some { s with sawIfndef := true } else none
  | .define =>
    if !s.sawIfndef || s.sawEndif then none
    else if !s.sawDefine then if matchesGuard then some { s with sawDefine := true } else none
    else if rules.moreDefines then some { s with sawBody := true } else none
  | .include | .includeNext => if s.inBody then some { s with sawBody := true } else none
  | .rawRange =>
    if s.inBody && rules.rawAllowed action then
      some { s with sawRaw := true, sawBody := s.sawBody || rules.rawIsBody }
    else none
  | .endif => if s.inBody && s.sawBody && last then some { s with sawEndif := true } else none
  | _ => none

def classifyLoop (rules : ClassifyRules) (buffer : List Token) (guard : String) :
    ClassifyState → List IncludeSummaryAction → Option ClassifyState
  | s, [] => some s
  | s, action :: rest =>
    (classifyAction rules buffer guard rest.isEmpty s action).bind (classifyLoop rules buffer guard · rest)

def classifyActions (rules : ClassifyRules) (buffer : List Token)
    (actions : List IncludeSummaryAction) (guard : Option String) : Option ClassifyState :=
  match guard with
  | none => none
  | some guard =>
    if guard = "" ∨ actions = [] then none
    else classifyLoop rules buffer guard ⟨false, false, false, false, false⟩ actions

def isTypedefRange (action : IncludeSummaryAction) : Bool :=
  action.rawRangeStartsWithTypedef && action.rawRangeSingleTopLevelTypedef

def classifyIncludeSummaryRouterOnly (buffer : List Token) (actions : List IncludeSummaryAction)
    (guard : Option String) : Bool :=
  (classifyActions ⟨false, fun _ => false, false⟩ buffer actions guard).any
    (fun s => s.sawIfndef && s.sawDefine && s.sawBody && s.sawEndif)

def classifyIncludeSummaryRouterRawTail (buffer : List Token)
    (actions : List IncludeSummaryAction) (guard : Option String) : Bool :=
  (classifyActions ⟨false, isTypedefRange, false⟩ buffer actions guard).any
    (fun s => s.sawIfndef && s.sawDefine && s.sawBody && s.sawEndif && s.sawRaw)

def classifyIncludeSummaryIncludeDefineScaffold (table : MacroTable) (buffer : List Token)
    (actions : List IncludeSummaryAction) (guard : Option String) : Bool :=
  let rawAllowed (action : IncludeSummaryAction) :=
    ppSummaryRawRangeCanCloneDirect table buffer action.start action.stop && isTypedefRange action
  (classifyActions ⟨true, rawAllowed, true⟩ buffer actions guard).any
    (fun s => s.sawIfndef && s.sawDefine && s.sawBody && s.sawEndif)

def classifyIncludeSummaryConditionalScaffold (actions : List IncludeSummaryAction) : Bool :=
  actions.any fun action =>
    match action.kind with
    | .ppIf | .ifdef | .elif | .else => true
    | _ => false

def classifyIncludeSummaryBehaviorClass (table : MacroTable) (buffer : List Token)
    (actions : List IncludeSummaryAction) (guard : Option String) (probe : IncludeSummaryProbe) :
    IncludeHeaderBehaviorClass :=
  if probe.status ≠ .candidate then .unknown
  else if probe.routerOnly then .routerOnly
  else if probe.routerRawTail then .routerRawTail
  else if classifyIncludeSummaryIncludeDefineScaffold table buffer actions guard then
    .includeDefineScaffold
  else if classifyIncludeSummaryConditionalScaffold actions then .conditionalScaffold
  else .generalFallback

/-- The probe with its classes, as `process_include` completes it. -/
def classifyProbe (table : MacroTable) (buffer : List Token)
    (actions : List IncludeSummaryAction) (guard : Option String) (probe : IncludeSummaryProbe) :
    IncludeSummaryProbe :=
  if probe.status = .candidate then
    let routerOnly := classifyIncludeSummaryRouterOnly buffer actions guard
    let routerRawTail := !routerOnly && classifyIncludeSummaryRouterRawTail buffer actions guard
    let probe := { probe with routerOnly, routerRawTail }
    { probe with
      behaviorClass := classifyIncludeSummaryBehaviorClass table buffer actions guard probe }
  else probe

end Fisics
