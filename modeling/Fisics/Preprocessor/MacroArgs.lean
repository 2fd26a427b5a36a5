import Fisics.Lexer.Scan
import Fisics.Preprocessor.MacroTable

/-!
# Macro arguments and substitution

The argument list of a call, `#` and `##`, and the substitution of arguments
into a replacement list. Nothing here expands macros: `substituteMacro` takes
arguments whose expansions are already known.
-/

namespace Fisics

-- The expander state

/-- The values behind the pointers of `PPBuiltinState`; `none` is a null
pointer. -/
structure PPBuiltinState where
  baseFile : Option String
  dateString : Option String
  timeString : Option String
  counter : Option Int
  logicalFile : Option String
  lineOffset : Option Int
  lineRemapActive : Option Bool
  deriving DecidableEq, Inhabited

inductive MacroExpandError
  | none
  | macroArgCount
  | unsupportedGnuCommaVaArgs
  deriving DecidableEq, Inhabited

structure MacroExpandErrorInfo where
  kind : MacroExpandError
  definition : Option MacroDefinition
  callSite : SourceRange
  expectedArgs : Nat
  providedArgs : Nat
  variadic : Bool
  deriving DecidableEq, Inhabited

def noExpandError : MacroExpandErrorInfo := ⟨.none, none, emptyRange, 0, 0, false⟩

structure MacroExpander where
  table : MacroTable
  builtins : PPBuiltinState
  lastError : MacroExpandErrorInfo
  preserveDefinedOperands : Bool
  deriving DecidableEq, Inhabited

def macroExpanderClearError (expander : MacroExpander) : MacroExpander :=
  { expander with lastError := noExpandError }

def macroExpanderSetArgCountError (expander : MacroExpander) (d : MacroDefinition)
    (callSite : SourceRange) (expectedArgs providedArgs : Nat) : MacroExpander :=
  { expander with
    lastError := ⟨.macroArgCount, some d, callSite, expectedArgs, providedArgs, d.params.variadic⟩ }

def macroExpanderSetUnsupportedGnuCommaVaArgsError (expander : MacroExpander) (d : MacroDefinition)
    (callSite : SourceRange) : MacroExpander :=
  { expander with
    lastError := ⟨.unsupportedGnuCommaVaArgs, some d, callSite, 0, 0, d.params.variadic⟩ }

-- Argument lists

structure MacroArg where
  raw : List Token
  expanded : List Token
  deriving DecidableEq, Inhabited

structure MacroArgPack where
  positionals : List MacroArg
  variadics : List MacroArg
  deriving DecidableEq, Inhabited

/-- The loop of `parse_macro_argument_tokens` over the tokens after the opening
parenthesis: the arguments, the one being read, and how many tokens were read.
`none` when the list is not closed. -/
def parseArgumentLoop : (depth : Nat) → (args : List (List Token)) → (current : List Token) →
    (consumed : Nat) → List Token → Option (List (List Token) × List Token × Nat)
  | _, _, _, _, [] => none
  | depth, args, current, consumed, tok :: rest =>
    if tok.type = .rparen ∧ depth = 0 then some (args, current, consumed + 1)
    else if tok.type = .comma ∧ depth = 0 then
      parseArgumentLoop depth (args ++ [current]) [] (consumed + 1) rest
    else
      let depth := if tok.type = .lparen then depth + 1
        else if tok.type = .rparen then depth - 1 else depth
      parseArgumentLoop depth args (current ++ [tok]) (consumed + 1) rest

def parseMacroArgumentTokens (input : List Token) (d : MacroDefinition) :
    Option (List (List Token) × Nat) :=
  (parseArgumentLoop 0 [] [] 0 input).map fun (args, current, consumed) =>
    let needFinal := !current.isEmpty || !args.isEmpty || !d.params.names.isEmpty || d.params.variadic
    (if needFinal then args ++ [current] else args, consumed)

/-- How many arguments count as given: one empty argument is none when the macro
has parameters. -/
def providedArgs (d : MacroDefinition) (rawArgs : List (List Token)) : Nat :=
  let singleEmptyArg := rawArgs.length == 1 && rawArgs.all List.isEmpty
  if 0 < d.params.names.length ∧ singleEmptyArg then 0 else rawArgs.length

def argCountMismatch (d : MacroDefinition) (provided : Nat) : Bool :=
  if d.params.variadic then provided < d.params.names.length else provided != d.params.names.length

def buildMacroArgPack (d : MacroDefinition) (rawArgs : List (List Token)) :
    Except (Nat × Nat) MacroArgPack :=
  let expected := d.params.names.length
  let provided := providedArgs d rawArgs
  if argCountMismatch d provided then .error (expected, provided)
  else
    let pack := rawArgs.map (fun raw => MacroArg.mk raw [])
    .ok ⟨pack.take expected, (pack.drop expected).take (provided - expected)⟩

-- Stringizing

def makeSimpleToken (type : TokenType) (text : String) (origin : SourceRange) : Token :=
  ⟨type, some text, origin.start.line, origin.start.line, origin.start.column, origin, emptyRange,
    emptyRange⟩

def stringifiedText (raw : List Token) : String :=
  let escape (text : String) : List Char :=
    text.toList.flatMap (fun c => if c = '\\' ∨ c = '"' then ['\\', c] else [c])
  String.ofList ((raw.map (fun tok => escape (tokenText tok))).intersperse [' ']).flatten

def stringifiedArgument (raw : List Token) (origin : SourceRange) : Token :=
  makeSimpleToken .string (stringifiedText raw) origin

def variadicTokens (args : List (List Token)) (origin : SourceRange) : List Token :=
  (args.intersperse [makeSimpleToken .comma "," origin]).flatten

/-- For `#__VA_ARGS__` a comma precedes an argument only when tokens stand
before it. -/
def variadicRawTokens (args : List MacroArg) (origin : SourceRange) : List Token :=
  args.foldl (fun raw arg =>
    (if raw.isEmpty then raw else raw ++ [makeSimpleToken .comma "," origin]) ++ arg.raw) []

-- Pasting

/-- The text as a single token; `none` when it lexes to none or several. -/
def relexSingleToken (text : String) (origin : SourceRange) : Option Token :=
  let lexer := initLexer text.toList (some "<macro paste>") false
  let first := getNextToken lexer
  if first.1.type = .eof then none
  else if (getNextToken first.2).1.type ≠ .eof then none
  else
    some { first.1 with
      location := origin
      line := origin.start.line
      spellingLine := origin.start.line
      spellingColumn := origin.start.column
      macroCallSite := emptyRange
      macroDefinition := emptyRange }

def pasteTokens (left right : Token) (origin : SourceRange) : Option Token :=
  let pasteOrigin := if rangeIsInitialized left.macroCallSite then left.macroCallSite
    else if rangeIsInitialized right.macroCallSite then right.macroCallSite else origin
  (relexSingleToken (tokenText left ++ tokenText right) pasteOrigin).map
    fun tok => { tok with macroCallSite := pasteOrigin }

/-- The loop of `apply_token_paste`: `pending` is the token that a `##` may still
take as its left operand, and `skip` counts tokens already taken as right
operands. -/
def pasteLoop (origin : SourceRange) : (skip : Nat) → (pending : Option Token) → List Token →
    Option (List Token)
  | _, pending, [] => some pending.toList
  | skip + 1, pending, _ :: rest => pasteLoop origin skip pending rest
  | 0, pending, tok :: rest =>
    if tok.type = .doubleHash then
      match pending with
      | none => pasteLoop origin 0 none rest
      | some left =>
        match rest.dropWhile (fun t => t.type == .doubleHash) with
        | [] => pasteLoop origin 0 (if left.type = .comma then none else some left) rest
        | right :: _ =>
          (pasteTokens left right origin).bind fun pasted =>
            pasteLoop origin ((rest.takeWhile (fun t => t.type == .doubleHash)).length + 1)
              (some pasted) rest
    else (pasteLoop origin 0 (some tok) rest).map (pending.toList ++ ·)

def applyTokenPaste (buffer : List Token) (origin : SourceRange) : Option (List Token) :=
  pasteLoop origin 0 none buffer

-- Substitution

inductive SubstituteError
  /-- A `##` that does not make one token. -/
  | paste
  /-- The GNU form `, ##__VA_ARGS__`. -/
  | gnuComma
  deriving DecidableEq

def macroParamIndex (d : MacroDefinition) (name : String) : Option Nat :=
  d.params.names.findIdx? (· == name)

/-- The tokens before this one end in `defined` or `defined (`. -/
def definedOperandContext (before : List Token) : Bool :=
  let isDefined (tok : Token) := tok.type == .identifier && tok.value == some "defined"
  match before with
  | prev :: prev' :: _ => isDefined prev || (prev.type == .lparen && isDefined prev')
  | [prev] => isDefined prev
  | [] => false

@[grind] def headIs (type : TokenType) (tokens : List Token) : Bool :=
  match tokens with
  | tok :: _ => tok.type == type
  | [] => false

/-- The tokens up to the parenthesis that closes `depth` open ones. -/
def matchingParen : (depth : Nat) → List Token → Option (List Token)
  | _, [] => none
  | depth, tok :: rest =>
    if tok.type = .rparen ∧ depth = 1 then some []
    else
      let depth := if tok.type = .lparen then depth + 1
        else if tok.type = .rparen then depth - 1 else depth
      (matchingParen depth rest).map (tok :: ·)

def completeToken (callSite definitionRange : SourceRange) (tok : Token) : Token :=
  { tok with
    macroCallSite := if rangeIsInitialized tok.macroCallSite then tok.macroCallSite else callSite
    macroDefinition :=
      if rangeIsInitialized tok.macroDefinition then tok.macroDefinition else definitionRange }

section
variable (d : MacroDefinition) (callSite : SourceRange)

/-- The end of `substitute_macro`: paste, then the ranges a token lacks. -/
def finishSubstitution (working : List Token) : Except SubstituteError (List Token) :=
  match applyTokenPaste working callSite with
  | some tokens => .ok (tokens.map (completeToken callSite d.definitionRange))
  | none => .error .paste

/-- What an identifier of the replacement list that names a parameter or the
variadic arguments is replaced by; `none` for other identifiers. -/
def substituteParameter (args : MacroArgPack) (before : List Token) (name : String)
    (rest : List Token) : Option (Except SubstituteError (List Token)) :=
  match macroParamIndex d name with
  | some index =>
    let arg := args.positionals.getD index ⟨[], []⟩
    let adjacentPaste := headIs .doubleHash rest || headIs .doubleHash before
    some (.ok (if adjacentPaste || definedOperandContext before then arg.raw else arg.expanded))
  | none =>
    if d.params.variadic ∧ name = "__VA_ARGS__" then
      let leftPaste := headIs .doubleHash before
      let rightPaste := headIs .doubleHash rest
      if leftPaste ∧ headIs .comma before.tail then some (.error .gnuComma)
      else
        some (.ok (variadicTokens
          (args.variadics.map (if leftPaste || rightPaste then MacroArg.raw else MacroArg.expanded))
          callSite))
    else none

/-- What `#` and the token after it are replaced by. -/
def substituteHash (args : MacroArgPack) : List Token → Option Token
  | next :: _ =>
    if next.type = .identifier then
      match macroParamIndex d (tokenText next) with
      | some index => some (stringifiedArgument (args.positionals.getD index ⟨[], []⟩).raw callSite)
      | none =>
        if d.params.variadic ∧ next.value = some "__VA_ARGS__" then
          some (stringifiedArgument (variadicRawTokens args.variadics callSite) callSite)
        else none
    else none
  | [] => none

/-- The inside of a well-formed `__VA_OPT__ ( … )` that follows. -/
def vaOptContents (tok : Token) (rest : List Token) : Option (List Token) :=
  if d.params.variadic ∧ d.params.hasVaOpt ∧ tok.value = some "__VA_OPT__" then
    match rest with
    | lparen :: inside =>
      if lparen.type = .lparen then (matchingParen 1 inside).filter (fun ts => !ts.isEmpty)
      else none
    | [] => none
  else none

/-- The loop of `substitute_macro` over the replacement list; `vaOpt` substitutes
into the contents of a `__VA_OPT__`. -/
def substituteLoop (vaOpt : List Token → Except SubstituteError (List Token))
    (args : Option MacroArgPack) : (skip : Nat) → (before working : List Token) → List Token →
    Except SubstituteError (List Token)
  | _, _, working, [] => .ok working
  | skip + 1, before, working, tok :: rest =>
    substituteLoop vaOpt args skip (tok :: before) working rest
  | 0, before, working, tok :: rest =>
    match d.kind, args with
    | .function, some pack =>
      match (if tok.type = .hash then substituteHash d callSite pack rest else none) with
      | some string => substituteLoop vaOpt args 1 (tok :: before) (working ++ [string]) rest
      | none =>
        if tok.type = .identifier then
          match vaOptContents d tok rest with
          | some inside =>
            -- the word, the parentheses and what is between them
            if pack.variadics.isEmpty then
              substituteLoop vaOpt args (inside.length + 2) (tok :: before) working rest
            else
              match vaOpt inside with
              | .ok tokens =>
                substituteLoop vaOpt args (inside.length + 2) (tok :: before) (working ++ tokens) rest
              | .error e => .error e
          | none =>
            match substituteParameter d callSite pack before (tokenText tok) rest with
            | some (.ok tokens) =>
              substituteLoop vaOpt args 0 (tok :: before) (working ++ tokens) rest
            | some (.error e) => .error e
            | none => substituteLoop vaOpt args 0 (tok :: before) (working ++ [tok]) rest
        else substituteLoop vaOpt args 0 (tok :: before) (working ++ [tok]) rest
    | _, _ => substituteLoop vaOpt args 0 (tok :: before) (working ++ [tok]) rest

/-- `depth` bounds the nesting of `__VA_OPT__`, each level of which is shorter
than the body. -/
def substituteBody (args : Option MacroArgPack) : (depth : Nat) → List Token →
    Except SubstituteError (List Token)
  | 0, _ => .error .paste
  | depth + 1, body =>
    (substituteLoop d callSite (substituteBody args depth) args 0 [] [] body).bind
      (finishSubstitution d callSite)

def substituteMacro (args : Option MacroArgPack) : Except SubstituteError (List Token) :=
  substituteBody d callSite args (d.body.length + 1) d.body

end

end Fisics
