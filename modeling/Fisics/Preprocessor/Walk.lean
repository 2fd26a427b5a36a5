import Fisics.Preprocessor.Conditionals
import Fisics.Preprocessor.Directives

/-!
# The token walk

`preprocess_tokens` goes over the tokens of a file: text of active groups is
collected in a chunk, directives act on the state, and the chunk is expanded and
written before every directive that could change its meaning. One round of the
loop is `walkStep`.

What an included file does and how a condition is evaluated are parameters:
`IncludeHandler` and `EvalCondition`. A result `none` means that the walk does
not return, because a handler does not or because the loop meets the same
`#define` again and again (see `skipUnnamedDefine`).
-/

namespace Fisics

structure TextState where
  pp : Preprocessor
  /-- The text since the last flush. -/
  chunk : List Token
  output : List Token

structure WalkState extends TextState where
  stack : List PPConditionalFrame

def WalkState.active (s : WalkState) : Bool := conditionalStackIsActive s.stack

abbrev IncludeHandler := Preprocessor → (tok : Token) → (rest output : List Token) →
  (isIncludeNext : Bool) → Option (Bool × Preprocessor × List Token)

/-- A round: it goes on behind `taken` further tokens, or the walk fails. -/
inductive WalkStep (σ : Type)
  | next (taken : Nat) (s : σ)
  | stop (s : TextState)

def WalkStep.map (f : σ → τ) : WalkStep σ → WalkStep τ
  | .next taken s => .next taken (f s)
  | .stop s => .stop s

-- Include operands

/-- The operand of an include directive: the name, whether it stands in angle
brackets, and how many tokens it takes. A string may stand on a later line. -/
def parseIncludeOperand (tok : Token) (rest : List Token) : Option (String × Bool × Nat) :=
  match rest with
  | [] => none
  | first :: after =>
    let operand :=
      match first.type, first.value with
      | .string, some text => some (stripIncludeSpaces text.toList, false, 1)
      | .less, _ =>
        let r := angleIncludeName (fun t => t.type != TokenType.eof && t.line == tok.line) [] after
        r.1.map (fun name => (stripIncludeSpaces name, true, r.2 + 1))
      | _, _ => none
    operand.bind fun (name, isSystem, taken) =>
      if (lineTokens tok.line (rest.drop taken)).isEmpty then
        some (String.ofList name, isSystem, taken)
      else none

/-- How many tokens an include directive takes: those of its operand, or its
line when the operand has to be expanded. -/
def includeTaken (tok : Token) (rest : List Token) : Nat :=
  match parseIncludeOperand tok rest with
  | some (_, _, taken) => taken
  | none => (directiveLine tok rest).length

-- Text and directives other than conditionals

def flushThen (s : TextState) (k : TextState → Option (WalkStep σ)) : Option (WalkStep σ) :=
  let (ok, output, pp) := ppFlushChunk s.pp s.chunk s.output
  if ok then k ⟨pp, [], output⟩ else some (.stop { s with pp, output })

def preserveLine (s : TextState) (tok : Token) (rest : List Token) : TextState :=
  if s.pp.preserveDirectives then
    { s with output := ppAppendDirectiveLine s.pp tok rest s.output }
  else s

def skipToLineEnd (s : σ) (tok : Token) (rest : List Token) : Option (WalkStep σ) :=
  some (.next (directiveLine tok rest).length s)

def finishDirective (s : TextState) (r : DirectiveResult) : Option (WalkStep TextState) :=
  let s := { s with pp := r.pp }
  some (if r.ok then .next r.taken s else .stop s)

def walkDefine (first : Bool) (s : TextState) (tok : Token) (rest : List Token) :
    Option (WalkStep TextState) :=
  flushThen s fun s =>
    let s := preserveLine s tok rest
    let (ok, pp, taken) := processDefine first s.pp tok rest
    let s := { s with pp }
    if ok then taken.map (.next · s) else some (.stop s)

def walkInclude (handler : IncludeHandler) (s : TextState) (tok : Token) (rest : List Token) :
    Option (WalkStep TextState) :=
  flushThen s fun s =>
    let s := preserveLine s tok rest
    (handler s.pp tok rest s.output (tok.type == .includeNext)).map fun (ok, pp, output) =>
      let s := { s with pp, output }
      if ok then .next (includeTaken tok rest) s else .stop s

/-- The message of `#error` and `#warning`: a piece is left out where it would
not fit the buffer of 256 bytes. -/
def diagnosticText (line : List Token) : List Char :=
  line.foldl (fun buffer tok =>
    let piece := (tokenText tok).toList
    if buffer.length + piece.length + 2 < 256 then
      (if buffer.isEmpty then buffer else buffer ++ [' ']) ++ piece
    else buffer) []

def reportDiagnostic (pp : Preprocessor) (tok : Token) (line : List Token) : Preprocessor :=
  let isError := tok.value == some "error"
  let text := diagnosticText line
  let message := if text.isEmpty then (if isError then "#error" else "#warning")
    else String.ofList text
  ppReportDiag pp (some tok) (if isError then .error else .warning) message

def isDiagnosticWord (tok : Token) : Bool :=
  tok.value == some "warning" || tok.value == some "error"

def walkOther (s : TextState) (tok : Token) (rest : List Token) : Option (WalkStep TextState) :=
  if tok.value = some "line" then
    flushThen s fun s => finishDirective s (processLineDirective s.pp tok rest)
  else if isDiagnosticWord tok then
    skipToLineEnd { s with pp := reportDiagnostic s.pp tok (directiveLine tok rest) } tok rest
  else
    let message := "unknown preprocessing directive #" ++ tok.value.getD "<unknown>"
    some (.stop { s with pp := ppReportDiag s.pp (some tok) .error message })

def walkText (s : TextState) (tok : Token) (rest : List Token) : WalkStep TextState :=
  match ppSkipPragmaOperator (tok :: rest) with
  | some taken => .next taken s
  | none => .next 0 { s with chunk := s.chunk ++ [tok] }

def isPlainDirective : TokenType → Bool
  | .define | .include | .includeNext | .undef | .pragma | .preprocessorOther => true
  | _ => false

def inactiveStep (s : TextState) (tok : Token) (rest : List Token) : Option (WalkStep TextState) :=
  if isPlainDirective tok.type then skipToLineEnd s tok rest else some (.next 0 s)

section
variable (handler : IncludeHandler) (eval : EvalCondition)

/-- A round in an active group. -/
def activeStep (first : Bool) (s : TextState) (tok : Token) (rest : List Token) :
    Option (WalkStep TextState) :=
  match tok.type with
  | .define => walkDefine first s tok rest
  | .include | .includeNext => walkInclude handler s tok rest
  | .undef => flushThen s fun s => finishDirective s (processUndef s.pp tok rest)
  | .pragma =>
    flushThen s fun s =>
      let s := preserveLine s tok rest
      finishDirective s (processPragma s.pp tok rest)
  | .preprocessorOther => walkOther s tok rest
  | .eof => some (.next 0 s)
  | _ => some (walkText s tok rest)

def contentStep (first active : Bool) (s : TextState) (tok : Token) (rest : List Token) :
    Option (WalkStep TextState) :=
  if active then activeStep handler first s tok rest else inactiveStep s tok rest

-- Conditional directives

def finishConditional (s : TextState) (r : CondResult) : WalkStep WalkState :=
  let s := { s with pp := r.pp }
  if r.ok then .next r.taken ⟨s, r.stack⟩ else .stop s

/-- Extra tokens on the line of `#else` and `#endif`. -/
def stopTrailing (s : TextState) (rest : List Token) (message : String) :
    Option (WalkStep WalkState) :=
  some (.stop { s with pp := ppReportDiag s.pp rest.head? .error message })

def walkElse (s : WalkState) (tok : Token) (rest : List Token) : Option (WalkStep WalkState) :=
  flushThen s.toTextState fun t =>
    if ppDirectiveHasTrailingTokens tok rest then
      stopTrailing t rest "unexpected tokens after #else directive"
    else
      let (ok, pp, stack) := processElse t.pp s.stack tok
      let t := { t with pp }
      if ok then skipToLineEnd ⟨t, stack⟩ tok rest else some (.stop t)

def walkEndif (s : WalkState) (tok : Token) (rest : List Token) : Option (WalkStep WalkState) :=
  flushThen s.toTextState fun t =>
    if ppDirectiveHasTrailingTokens tok rest then
      stopTrailing t rest "unexpected tokens after #endif directive"
    else
      let t := if s.active then preserveLine t tok rest else t
      let (ok, pp, stack) := processEndif t.pp s.stack tok
      let t := { t with pp }
      if ok then skipToLineEnd ⟨t, stack⟩ tok rest else some (.stop t)

def walkStep (first : Bool) (s : WalkState) (tok : Token) (rest : List Token) :
    Option (WalkStep WalkState) :=
  match tok.type with
  | .ppIf =>
    flushThen s.toTextState fun t =>
      (processIf eval t.pp s.stack tok rest).map (finishConditional t)
  | .ppElif =>
    flushThen s.toTextState fun t =>
      (processElif eval t.pp s.stack tok rest).map (finishConditional t)
  | .ppElse => walkElse s tok rest
  | .endif => walkEndif s tok rest
  | .ifdef =>
    flushThen s.toTextState fun t =>
      some (finishConditional t (processIfdeflike t.pp s.stack tok rest false))
  | .ifndef =>
    flushThen s.toTextState fun t =>
      some (finishConditional t (processIfdeflike t.pp s.stack tok rest true))
  | _ =>
    (contentStep handler first s.active s.toTextState tok rest).map (·.map (⟨·, s.stack⟩))

-- The loop

/-- `.error` with the state left when the walk fails. -/
def walkLoop : (first : Bool) → (skip : Nat) → WalkState → List Token →
    Option (Except TextState WalkState)
  | _, _, s, [] => some (.ok s)
  | _, skip + 1, s, _ :: rest => walkLoop false skip s rest
  | first, 0, s, tok :: rest =>
    (walkStep handler eval first s tok rest).bind fun
      | .next taken s => walkLoop false taken s rest
      | .stop s => some (.error s)

def eofToken : Token := ⟨.eof, none, 0, 0, 0, emptyRange, emptyRange, emptyRange⟩

def walkEnd (appendEOF : Bool) (s : WalkState) : Bool × Preprocessor × List Token :=
  let (ok, output, pp) := ppFlushChunk s.pp s.chunk s.output
  if ok then
    let output := if appendEOF then output ++ [eofToken] else output
    if s.stack.isEmpty then (true, pp, output)
    else (false, ppReportDiag pp none .error "unclosed #if/#ifdef/#ifndef", output)
  else (false, pp, output)

def preprocessTokens (pp : Preprocessor) (input output : List Token) (appendEOF : Bool) :
    Option (Bool × Preprocessor × List Token) :=
  (walkLoop handler eval true 0 ⟨⟨ppEnterBuffer pp input, [], output⟩, []⟩ input).map fun
    | .ok s => walkEnd appendEOF s
    | .error s => (false, s.pp, s.output)

end

end Fisics
