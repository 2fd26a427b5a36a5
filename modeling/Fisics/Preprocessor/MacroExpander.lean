import Fisics.Preprocessor.MacroArgs

/-!
# The macro expander

The loop of `macro_expander_expand` over its input, and its two recursive calls:
on the arguments of a call, which are shorter than the input, and on the result
of a substitution, under one more macro on the expansion stack. The model counts
both down. A result `none` means that a count ran out; `ExpanderLaws` shows that
this does not happen.

A jump of the source's index over tokens already consumed is a `skip` count.
-/

namespace Fisics

/-- Success, the output, and the expander left; `none` when a count ran out. -/
abbrev ExpandResult := Option (Bool × List Token × MacroExpander)

abbrev Expand := MacroExpander → List Token → ExpandResult

-- Builtins

def builtinLiteral (tok : Token) (type : TokenType) (text : String) : Token :=
  { tok with type, value := some text, macroDefinition := emptyRange, macroCallSite := tok.location }

def tokenCallRange (tok : Token) : SourceRange :=
  if rangeIsInitialized tok.macroCallSite then tok.macroCallSite else tok.location

def tokenBuiltinSpellingLine (tok : Token) : Int :=
  let loc := tokenCallRange tok
  if rangeIsInitialized tok.macroCallSite then loc.start.line
  else if 0 < tok.spellingLine then tok.spellingLine
  else loc.start.line

def handleBuiltinIdentifier (expander : MacroExpander) (tok : Token) :
    Option (Token × MacroExpander) :=
  let b := expander.builtins
  let remap := b.lineRemapActive == some true
  if tok.type ≠ .identifier then none
  else if tok.value = some "__FILE__" then
    let file := ((tokenCallRange tok).start.file).or b.baseFile
    let file := if remap then b.logicalFile.or file else file
    some (builtinLiteral tok .string (file.getD ""), expander)
  else if tok.value = some "__LINE__" then
    let line := tokenBuiltinSpellingLine tok
    let line := match remap, b.lineOffset with
      | true, some offset => max (line + offset) 1
      | _, _ => line
    some (builtinLiteral tok .number (toString line), expander)
  else if tok.value = some "__BASE_FILE__" then
    some (builtinLiteral tok .string (b.baseFile.getD ""), expander)
  else if tok.value = some "__COUNTER__" then
    some (builtinLiteral tok .number (toString (b.counter.getD 0)),
      { expander with builtins := { b with counter := b.counter.map (· + 1) } })
  else if tok.value = some "__DATE__" then
    some (builtinLiteral tok .string (b.dateString.getD ""), expander)
  else if tok.value = some "__TIME__" then
    some (builtinLiteral tok .string (b.timeString.getD ""), expander)
  else none

-- Calls

def pushMacro (expander : MacroExpander) (d : MacroDefinition) (callRange : SourceRange) :
    MacroExpander × Bool :=
  let (table, ok) := macroTablePushExpansion expander.table d callRange d.definitionRange
  ({ expander with table }, ok)

def popMacro (expander : MacroExpander) (d : MacroDefinition) : MacroExpander :=
  { expander with table := macroTablePopExpansion expander.table d }

/-- `substitute_macro` with the error it leaves in the expander. -/
def substituteInto (expander : MacroExpander) (d : MacroDefinition) (args : Option MacroArgPack)
    (callRange : SourceRange) : Option (List Token) × MacroExpander :=
  match substituteMacro d callRange args with
  | .ok tokens => (some tokens, expander)
  | .error .paste => (none, expander)
  | .error .gnuComma =>
    (none, macroExpanderSetUnsupportedGnuCommaVaArgsError expander d callRange)

section
variable (expandArgument nested : Expand)

/-- The arguments expanded from left to right; an empty one is not passed to
the expander. -/
def expandArguments (expander : MacroExpander) :
    List MacroArg → Option (Bool × List MacroArg × MacroExpander)
  | [] => some (true, [], expander)
  | arg :: rest =>
    (if arg.raw.isEmpty then some (true, [], expander) else expandArgument expander arg.raw).bind
      fun (ok, expanded, expander) =>
        if ok then
          (expandArguments expander rest).map fun (ok, rest, expander) =>
            (ok, { arg with expanded } :: rest, expander)
        else some (false, [], expander)

def expandMacroArguments (expander : MacroExpander) (pack : MacroArgPack) :
    Option (Bool × MacroArgPack × MacroExpander) :=
  (expandArguments expandArgument expander (pack.positionals ++ pack.variadics)).map
    fun (ok, args, expander) =>
      (ok, ⟨args.take pack.positionals.length, args.drop pack.positionals.length⟩, expander)

def expandReplacement (expander : MacroExpander) (d : MacroDefinition)
    (args : Option MacroArgPack) (callRange : SourceRange) : ExpandResult :=
  match substituteInto expander d args callRange with
  | (none, expander) => some (false, [], expander)
  | (some replaced, expander) => nested expander replaced

/-- What `try_expand_function_like_alias_boundary` does. `expanded` ends in the
name of a function-like macro whose call continues in the input after it. -/
structure BoundaryResult where
  ok : Bool
  handled : Bool
  /-- What replaces `expanded`, when handled. -/
  out : List Token
  /-- Tokens of the input that the call takes. -/
  consumed : Nat
  expander : MacroExpander

def boundaryUnhandled (expander : MacroExpander) (ok : Bool) : Option BoundaryResult :=
  some ⟨ok, false, [], 0, expander⟩

/-- The macro whose name ends `expanded`, when it may be called here. -/
def boundaryCallee (table : MacroTable) (expanded after : List Token) :
    Option (Token × MacroDefinition) :=
  match expanded.getLast?, after with
  | some callee, lparen :: _ =>
    if lparen.type = .lparen ∧ callee.type = .identifier then
      match callee.value.bind (macroTableLookup table) with
      | some d =>
        if d.kind = .function ∧ macroTableIsExpanding table d.name = false then some (callee, d)
        else none
      | none => none
    else none
  | _, _ => none

def tryExpandFunctionLikeAliasBoundary (expander : MacroExpander) (expanded after : List Token) :
    Option BoundaryResult :=
  match boundaryCallee expander.table expanded after with
  | none => boundaryUnhandled expander true
  | some (callee, d) =>
    let callRange := tokenCallRange callee
    match parseMacroArgumentTokens after.tail d with
    | none => boundaryUnhandled expander (expander.lastError.kind = .none)
    | some (rawArgs, consumed) =>
      match buildMacroArgPack d rawArgs with
      | .error (expected, provided) =>
        boundaryUnhandled (macroExpanderSetArgCountError expander d callRange expected provided) false
      | .ok pack =>
        (expandMacroArguments expandArgument expander pack).bind fun (ok, pack, expander) =>
          if ok then
            let (expander, pushed) := pushMacro expander d callRange
            if pushed then
              (expandReplacement nested expander d (some pack) callRange).map
                fun (ok, replacement, expander) =>
                  ⟨ok, ok, expanded.dropLast ++ replacement, consumed + 1, popMacro expander d⟩
            else boundaryUnhandled expander false
          else boundaryUnhandled expander false

/-- The loop over further calls of a macro whose name ends the output: `rounds`
bounds it by the input left. -/
def accumulatedBoundaryLoop : (rounds : Nat) → (out : List Token) → (consumed : Nat) →
    MacroExpander → List Token → Option (Bool × List Token × Nat × MacroExpander)
  | 0, out, consumed, expander, _ => some (true, out, consumed, expander)
  | rounds + 1, out, consumed, expander, after =>
    if headIs .lparen after then
      match out.getLast? with
      | none => some (true, out, consumed, expander)
      | some last =>
        (tryExpandFunctionLikeAliasBoundary expandArgument nested expander [last] after).bind fun r =>
          if r.ok ∧ r.handled then
            accumulatedBoundaryLoop rounds (out.dropLast ++ r.out) (consumed + r.consumed) r.expander
              (after.drop r.consumed)
          else some (r.ok, out, consumed, r.expander)
    else some (true, out, consumed, expander)

/-- One round of the loop: success, the output, how many further tokens of the
input are taken, and the expander. -/
abbrev StepResult := Option (Bool × List Token × Nat × MacroExpander)

def expandObjectLike (out : List Token) (expander : MacroExpander) (d : MacroDefinition)
    (callRange : SourceRange) (rest : List Token) : StepResult :=
  let (expander, pushed) := pushMacro expander d callRange
  if pushed then
    (expandReplacement nested expander d none callRange).bind fun (ok, replacement, expander) =>
      let expander := popMacro expander d
      if ok then
        (tryExpandFunctionLikeAliasBoundary expandArgument nested expander replacement rest).map
          fun r =>
            if r.ok then
              if r.handled then (true, out ++ r.out, r.consumed, r.expander)
              else (true, out ++ replacement, 0, r.expander)
            else (false, out, 0, r.expander)
      else some (false, out, 0, expander)
  else some (false, out, 0, expander)

/-- A call whose arguments are `pack`; `after` is the input behind its closing
parenthesis. -/
def expandCall (out : List Token) (expander : MacroExpander) (d : MacroDefinition)
    (pack : MacroArgPack) (callRange : SourceRange) (after : List Token) : StepResult :=
  (expandReplacement nested expander d (some pack) callRange).bind
    fun (ok, replacement, expander) =>
      if ok then
        -- the macro is still on the stack while the boundary is tried
        (tryExpandFunctionLikeAliasBoundary expandArgument nested expander replacement after).bind
          fun r =>
            let expander := popMacro r.expander d
            if r.ok then
              if r.handled then
                accumulatedBoundaryLoop expandArgument nested after.length (out ++ r.out) r.consumed
                  expander (after.drop r.consumed)
              else some (true, out ++ replacement, 0, expander)
            else some (false, out, 0, expander)
      else some (false, out, 0, popMacro expander d)

def expandFunctionLike (out : List Token) (expander : MacroExpander) (d : MacroDefinition)
    (tok : Token) (rest : List Token) : StepResult :=
  let callRange := tokenCallRange tok
  let keepName (expander : MacroExpander) : StepResult := some (true, out ++ [tok], 0, expander)
  if headIs .lparen rest then
    match parseMacroArgumentTokens rest.tail d with
    | none => keepName expander
    | some (rawArgs, consumed) =>
      match buildMacroArgPack d rawArgs with
      | .error (expected, provided) =>
        some (false, out, 0, macroExpanderSetArgCountError expander d callRange expected provided)
      | .ok pack =>
        (expandMacroArguments expandArgument expander pack).bind fun (ok, pack, expander) =>
          if ok then
            let (expander, pushed) := pushMacro expander d callRange
            if pushed then
              (expandCall expandArgument nested out expander d pack callRange
                (rest.drop (consumed + 1))).map
                fun (ok, out, further, expander) => (ok, out, consumed + 1 + further, expander)
            else keepName expander
          else keepName expander
  else keepName expander

def expandToken (before out : List Token) (expander : MacroExpander) (tok : Token)
    (rest : List Token) : StepResult :=
  if tok.type ≠ .identifier then some (true, out ++ [tok], 0, expander)
  else
    match handleBuiltinIdentifier expander tok with
    | some (literal, expander) => some (true, out ++ [literal], 0, expander)
    | none =>
      if expander.preserveDefinedOperands && definedOperandContext before then
        some (true, out ++ [tok], 0, expander)
      else
        match tok.value.bind (macroTableLookup expander.table) with
        | none => some (true, out ++ [tok], 0, expander)
        | some d =>
          if macroTableIsExpanding expander.table d.name then some (true, out ++ [tok], 0, expander)
          else
            match d.kind with
            | .object =>
              expandObjectLike expandArgument nested out expander d (tokenCallRange tok) rest
            | .function => expandFunctionLike expandArgument nested out expander d tok rest

def expandLoop : (skip : Nat) → (before out : List Token) → MacroExpander → List Token →
    ExpandResult
  | _, _, out, expander, [] => some (true, out, expander)
  | skip + 1, before, out, expander, tok :: rest =>
    expandLoop skip (tok :: before) out expander rest
  | 0, before, out, expander, tok :: rest =>
    (expandToken expandArgument nested before out expander tok rest).bind
      fun (ok, out, taken, expander) =>
        if ok then expandLoop taken (tok :: before) out expander rest
        else some (false, out, expander)

end

-- The recursion

/-- Arguments are shorter than the input they stand in: `size` counts them down. -/
def expandInput (nested : Expand) : (size : Nat) → Expand
  | 0 => fun _ _ => none
  | size + 1 => fun expander input =>
    expandLoop (expandInput nested size) nested 0 [] [] (macroExpanderClearError expander) input

/-- `budget` counts the macros that are not being expanded yet. -/
def expandBudget : (budget : Nat) → Expand
  | 0 => fun expander input => expandInput (fun _ _ => none) (input.length + 1) expander input
  | budget + 1 => fun expander input =>
    expandInput (expandBudget budget) (input.length + 1) expander input

def macroExpanderExpand : Expand := fun expander input =>
  expandBudget expander.table.macros.length expander input

end Fisics
