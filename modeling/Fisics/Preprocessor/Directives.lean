import Fisics.Preprocessor.State

/-!
# Directives

The handlers of `#define`, `#undef`, `#pragma` and `#line`. A handler gets the
directive token and the tokens behind it, and says how many of these it takes.
-/

namespace Fisics

structure DirectiveResult where
  ok : Bool
  pp : Preprocessor
  taken : Nat

-- `#define`

def tokensAdjacent (left right : Token) : Bool :=
  left.location.stop.line == right.location.start.line &&
    right.location.start.column ≤ left.location.stop.column

/-- The loop of `parse_macro_parameters` behind the opening parenthesis: the
names, whether there is an ellipsis, and how many tokens were read. The list may
go on behind the end of the line. -/
@[grind] def macroParameterLoop : (expectParam variadic : Bool) → (names : List String) → List Token →
    Option (List String × Bool × Nat)
  | expectParam, variadic, names, [] =>
    if expectParam && !variadic then none else some (names, variadic, 0)
  | expectParam, variadic, names, tok :: rest =>
    let next (expectParam variadic : Bool) (names : List String) :=
      (macroParameterLoop expectParam variadic names rest).map
        fun (names, variadic, taken) => (names, variadic, taken + 1)
    if tok.type = .rparen then
      if expectParam && !variadic then none else some (names, variadic, 1)
    else if !expectParam then if tok.type = .comma then next true variadic names else none
    else if tok.type = .identifier then
      match tok.value with
      | some name => next false variadic (names ++ [name])
      | none => none
    else if tok.type = .ellipsis then next false true names
    else none

def parseMacroParameters (tokens : List Token) : Option (List String × Bool × Nat) :=
  if headIs .lparen tokens then
    if headIs .rparen tokens.tail then some ([], false, 2)
    else (macroParameterLoop true false [] tokens.tail).map
      fun (names, variadic, taken) => (names, variadic, taken + 1)
  else none

def startsParameters (nameTok : Token) : List Token → Bool
  | [] => false
  | tok :: _ => tok.type == .lparen && tok.line == nameTok.line && tokensAdjacent nameTok tok

def bodyHasVaOpt (body : List Token) : Bool :=
  body.any (fun tok => tok.type == .identifier && tok.value == some "__VA_OPT__")

def defineSeverity (pp : Preprocessor) : DiagKind :=
  if pp.lenientMissingIncludes then .warning else .error

def recordMacro (pp : Preprocessor) (tok nameTok : Token) (params : Option MacroParamList)
    (body : List Token) : Preprocessor :=
  let body := body.map (ppTokenCloneRemap pp)
  let table := match params with
    | some params =>
      macroTableDefineFunction pp.table (tokenText nameTok)
        { params with hasVaOpt := params.variadic && bodyHasVaOpt body } body tok.location
    | none => macroTableDefineObject pp.table (tokenText nameTok) body tok.location
  { pp with table }

/-- Where a `#define` without a name is forgiven, the source skips the line of
the token behind the directive, which may be the next line, and then goes back
two tokens instead of one. `none` when that token ends the file: the cursor then
stands before the directive. `first` says that the directive is the first token,
behind which the cursor cannot go back. -/
def skipUnnamedDefine (first : Bool) (rest : List Token) : Option Nat :=
  let skipped := match rest with
    | [] => 0
    | tok :: _ => (lineTokens tok.line rest).length
  if skipped = 0 then (if first then some 0 else none) else some (skipped - 1)

/-- Success, the state, and how many tokens are taken; `none` when the cursor
moved back. -/
def processDefine (first : Bool) (pp : Preprocessor) (tok : Token) (rest : List Token) :
    Bool × Preprocessor × Option Nat :=
  let unnamed : Bool × Preprocessor × Option Nat :=
    (pp.lenientMissingIncludes,
      ppReportDiag pp rest.head? (defineSeverity pp) "expected identifier after #define",
      skipUnnamedDefine first rest)
  match rest with
  | [] => unnamed
  | nameTok :: after =>
    if nameTok.line = tok.line ∧ tokenIsMacroIdentifier nameTok then
      if startsParameters nameTok after then
        match parseMacroParameters after with
        | none =>
          (pp.lenientMissingIncludes,
            ppReportDiag pp (some nameTok) (defineSeverity pp)
              ("invalid parameter list in #define " ++ tokenText nameTok),
            some (directiveLine tok rest).length)
        | some (names, variadic, taken) =>
          let body := lineTokens tok.line (after.drop taken)
          (true, recordMacro pp tok nameTok (some ⟨names, variadic, false⟩) body,
            some (1 + taken + body.length))
      else
        let body := lineTokens tok.line after
        (true, recordMacro pp tok nameTok none body, some (1 + body.length))
    else unnamed

-- `#undef` and `#pragma`

def processUndef (pp : Preprocessor) (tok : Token) (rest : List Token) : DirectiveResult :=
  let expected : DirectiveResult :=
    ⟨false, ppReportDiag pp rest.head? .error "expected identifier after #undef", 0⟩
  match rest with
  | [] => expected
  | nameTok :: after =>
    if nameTok.line = tok.line ∧ tokenIsMacroIdentifier nameTok then
      let pp := { pp with table := (macroTableUndef pp.table (tokenText nameTok)).1 }
      if (lineTokens tok.line after).isEmpty then ⟨true, pp, 1⟩
      else ⟨false, ppReportDiag pp after.head? .error "unexpected tokens after #undef directive", 0⟩
    else expected

def isStdcPragmaKind (name : String) : Bool :=
  name ∈ ["FP_CONTRACT", "CX_LIMITED_RANGE", "FENV_ACCESS"]

/-- The operand of `#pragma STDC` that is reported as ignored. -/
def stdcPragmaKind (line : Int) : List Token → Option String
  | [] => none
  | tok :: _ =>
    if tok.line = line ∧ tok.type = .identifier then tok.value.filter isStdcPragmaKind else none

def processPragma (pp : Preprocessor) (tok : Token) (rest : List Token) : DirectiveResult :=
  let pp :=
    match rest with
    | [] => pp
    | word :: after =>
      if word.type = .once then
        match (tokenFile word).or (tokenFile tok) with
        | some path => pp.markPragmaOnce path
        | none => pp
      else if word.type = .identifier ∧ word.value = some "STDC" then
        match stdcPragmaKind tok.line after with
        | some kind => ppReportDiag pp (some word) .warning s!"ignored #pragma STDC {kind}"
        | none => pp
      else pp
  ⟨true, pp, (directiveLine tok rest).length⟩

-- `#line`

def skipEofTokens (tokens : List Token) : List Token :=
  tokens.dropWhile (fun tok => tok.type == .eof)

/-- The line number of a `#line` operand, or what is wrong with it. -/
def parseLineNumber (text : List Char) : Except String Nat :=
  if text.isEmpty then .error "expected line number after #line"
  else if !text.all Char.isDigit then .error "line number after #line must use decimal digits"
  else
    let value := text.foldl (fun n c => n * 10 + (c.toNat - '0'.toNat)) 0
    if 2 ^ 31 - 1 < value then .error "line number after #line is out of range"
    else if value = 0 then .error "line number after #line must be positive"
    else .ok value

/-- The line number and the file name of an expanded `#line` operand. -/
def parseLineOperand (expanded : List Token) : Except String (Nat × Option String) :=
  match skipEofTokens expanded with
  | [] => .error "expected line number after #line"
  | number :: rest =>
    if number.type ≠ .number then .error "expected line number after #line"
    else
      (parseLineNumber (tokenText number).toList).bind fun line =>
        let rest := skipEofTokens rest
        let file := rest.head?.bind (fun tok => if tok.type = .string then some tok.value else none)
        let rest := skipEofTokens (if file.isSome then rest.tail else rest)
        if rest.isEmpty then .ok (line, file.join)
        else .error "unexpected tokens after #line directive"

def processLineDirective (pp : Preprocessor) (tok : Token) (rest : List Token) : DirectiveResult :=
  let line := directiveLine tok rest
  let fail (pp : Preprocessor) (message : String) : DirectiveResult :=
    ⟨false, ppReportDiag pp (some tok) .error message, 0⟩
  match macroExpanderExpand pp.expander line with
  | some (true, expanded, expander) =>
    let pp := pp.withExpander expander
    match parseLineOperand expanded with
    | .error message => fail pp message
    | .ok (newLine, newFile) =>
      let pp := { pp with lineOffset := newLine - (tok.line + 1), lineRemapActive := true }
      let pp := match newFile with
        | some file => if file = "" then pp else ppSetLogicalFile pp file
        | none => pp
      ⟨true, pp, line.length⟩
  | some (false, _, expander) =>
    fail (pp.withExpander expander) "failed to expand #line directive"
  | none => fail pp "failed to expand #line directive"

end Fisics
