import Fisics.Lexer.Token

/-!
# The declarator parser

`parserParseDeclarator` reads a declarator and appends derivations to a base type: those
of the inner declarator, then the suffixes, then the pointers in reverse. Two passes then
move pointers inside the list. Attributes are left out. The parsers of a size expression
and of a parameter list belong to the environment.
-/

namespace Fisics.Declarators

-- Derivations

structure PointerDeclaratorLayer where
  isConst : Bool
  isVolatile : Bool
  isRestrict : Bool
  deriving DecidableEq

/-- What an array derivation records; `constantSize` is `none` without `hasConstantSize`. -/
structure ArrayInfo (E : Type) where
  sizeExpr : Option E
  isVLA : Bool
  constantSize : Option Int
  hasStatic : Bool
  qualConst : Bool
  qualVolatile : Bool
  qualRestrict : Bool
  deriving DecidableEq

structure FunctionSignature (P : Type) where
  hasPrototype : Bool
  isVariadic : Bool
  params : List P
  deriving DecidableEq

inductive TypeDerivation (E P : Type)
  | pointer (layer : PointerDeclaratorLayer)
  | array (info : ArrayInfo E)
  | function (signature : FunctionSignature P)
  deriving DecidableEq

def TypeDerivation.isPointer : TypeDerivation E P → Bool
  | .pointer _ => true
  | .array _ => false
  | .function _ => false

def TypeDerivation.isArray : TypeDerivation E P → Bool
  | .pointer _ => false
  | .array _ => true
  | .function _ => false

def TypeDerivation.isFunction : TypeDerivation E P → Bool
  | .pointer _ => false
  | .array _ => false
  | .function _ => true

@[simp] theorem TypeDerivation.pointer_kind (layer : PointerDeclaratorLayer) :
    (pointer layer : TypeDerivation E P).isPointer = true ∧
      (pointer layer : TypeDerivation E P).isArray = false ∧
      (pointer layer : TypeDerivation E P).isFunction = false := ⟨rfl, rfl, rfl⟩

@[simp] theorem TypeDerivation.array_kind (info : ArrayInfo E) :
    (array info : TypeDerivation E P).isPointer = false ∧
      (array info : TypeDerivation E P).isArray = true ∧
      (array info : TypeDerivation E P).isFunction = false := ⟨rfl, rfl, rfl⟩

@[simp] theorem TypeDerivation.function_kind (signature : FunctionSignature P) :
    (function signature : TypeDerivation E P).isPointer = false ∧
      (function signature : TypeDerivation E P).isArray = false ∧
      (function signature : TypeDerivation E P).isFunction = true := ⟨rfl, rfl, rfl⟩

/-- The fields of a `ParsedType` that a declarator changes. -/
structure DeclaredType (E P : Type) where
  derivations : List (TypeDerivation E P)
  pointerDepth : Nat
  isFunctionPointer : Bool
  fpParams : List P
  isVLA : Bool
  directlyDeclaresFunction : Bool
  isVariadicFunction : Bool
  deriving DecidableEq

def DeclaredType.base : DeclaredType E P := ⟨[], 0, false, [], false, false, false⟩

def parsedTypeAppendPointer (t : DeclaredType E P) (layer : PointerDeclaratorLayer) :
    DeclaredType E P :=
  { t with derivations := t.derivations ++ [.pointer layer], pointerDepth := t.pointerDepth + 1 }

def parsedTypeAppendArray (t : DeclaredType E P) (info : ArrayInfo E) : DeclaredType E P :=
  { t with derivations := t.derivations ++ [.array info], isVLA := t.isVLA || info.isVLA }

def parsedTypeAppendFunction (t : DeclaredType E P) (signature : FunctionSignature P) :
    DeclaredType E P :=
  { t with
    derivations := t.derivations ++ [.function signature]
    directlyDeclaresFunction := true
    isVariadicFunction := signature.isVariadic }

/-- The parameters are kept a second time only when there is more than one function. -/
def parsedTypeSetFunctionPointer (t : DeclaredType E P) (params : List P) : DeclaredType E P :=
  { t with
    isFunctionPointer := true
    fpParams := if t.derivations.countP TypeDerivation.isFunction = 1 then [] else params }

-- The last layer stands nearest to the name, so it is applied first.
def applyPointerChainToType (t : DeclaredType E P) (chain : List PointerDeclaratorLayer) :
    DeclaredType E P :=
  chain.reverse.foldl parsedTypeAppendPointer t

-- The passes that move pointers

/-- Pointers after the only array go to the front. -/
def movePointersToFront (l : List (TypeDerivation E P)) : List (TypeDerivation E P) :=
  match l.dropWhile (!·.isArray) with
  | [] => l
  | found :: after =>
    if after.any TypeDerivation.isArray || !after.any TypeDerivation.isPointer then l
    else after.filter TypeDerivation.isPointer ++
      (l.takeWhile (!·.isArray) ++ found :: after.filter (!·.isPointer))

def normalizeGroupedArrayPointer (t : DeclaredType E P) : DeclaredType E P :=
  { t with derivations := movePointersToFront t.derivations }

/-- Pointers after the first function go before it, unless one stands there already. -/
def movePointersBeforeFunction (l : List (TypeDerivation E P)) : List (TypeDerivation E P) :=
  match l.dropWhile (!·.isFunction) with
  | [] => l
  | found :: after =>
    let before := l.takeWhile (!·.isFunction)
    if before.any TypeDerivation.isPointer || !after.any TypeDerivation.isPointer then l
    else before ++ (after.filter TypeDerivation.isPointer ++ found :: after.filter (!·.isPointer))

def parsedTypeNormalizeFunctionPointer (t : DeclaredType E P) : DeclaredType E P :=
  if t.isFunctionPointer then { t with derivations := movePointersBeforeFunction t.derivations }
  else t

/-- A function suffix after a group that holds a pointer marks a function pointer. -/
def appendFunctionSuffix (grouped : Bool) (t : DeclaredType E P)
    (signature : FunctionSignature P) : DeclaredType E P :=
  let t := parsedTypeAppendFunction t signature
  if grouped && t.derivations.any TypeDerivation.isPointer then
    parsedTypeSetFunctionPointer t signature.params
  else t

/-- What follows the suffixes: the pointers and the two passes. -/
def finishType (chain : List PointerDeclaratorLayer) (grouped sawArray : Bool)
    (t : DeclaredType E P) : DeclaredType E P :=
  let t := applyPointerChainToType t chain
  let t := if grouped && sawArray then normalizeGroupedArrayPointer t else t
  parsedTypeNormalizeFunctionPointer t

-- The parser

/-- The dialect, whether the caller wants the parameters of a direct function, and the
parsers a declarator calls. The expression parser also returns the tokens it leaves when
it fails; both list parsers start after the `(`. -/
structure Environment (E P : Type) where
  blockPointers : Bool
  captureFunctionParams : Bool
  parseAssignmentExpression : List Token → Option E × List Token
  /-- The value of a number literal. -/
  numberLiteral : E → Option Int
  parseParameterList : List Token → Option (FunctionSignature P × List Token)
  parseFunctionTypeParameterList : List Token → Option (FunctionSignature P × List Token)

structure Options where
  trackDirectFunction : Bool
  requireIdentifier : Bool

/-- The parser, the type and the rest of `ParsedDeclarator`. -/
structure DeclaratorState (E P : Type) where
  tokens : List Token
  type : DeclaredType E P
  identifier : Option Token
  functionParameters : Option (FunctionSignature P)
  declaresFunction : Bool

def currentType : List Token → TokenType
  | [] => .eof
  | tok :: _ => tok.type

@[simp] theorem currentType_cons (tok : Token) (rest : List Token) :
    currentType (tok :: rest) = tok.type := rfl

def consumePointerQualifiers (layer : PointerDeclaratorLayer) :
    List Token → PointerDeclaratorLayer × List Token
  | [] => (layer, [])
  | tok :: rest =>
    if tok.type = .kwConst then consumePointerQualifiers { layer with isConst := true } rest
    else if tok.type = .kwVolatile then
      consumePointerQualifiers { layer with isVolatile := true } rest
    else if tok.type = .kwRestrict then
      consumePointerQualifiers { layer with isRestrict := true } rest
    else if tok.type = .kwAtomic then consumePointerQualifiers layer rest
    else (layer, tok :: rest)

def startsPointer (blockPointers : Bool) (tokens : List Token) : Bool :=
  currentType tokens == .asterisk || (blockPointers && currentType tokens == .bitwiseXor)

/-- Each round consumes a token, so the length of the input is enough. -/
def pointerChainFrom (blockPointers : Bool) :
    Nat → List Token → List PointerDeclaratorLayer × List Token
  | 0, tokens => ([], tokens)
  | fuel + 1, tokens =>
    if startsPointer blockPointers tokens then
      let (layer, rest) := consumePointerQualifiers ⟨false, false, false⟩ tokens.tail
      let (chain, rest) := pointerChainFrom blockPointers fuel rest
      (layer :: chain, rest)
    else ([], tokens)

def parsePointerChain (blockPointers : Bool) (tokens : List Token) :
    List PointerDeclaratorLayer × List Token :=
  pointerChainFrom blockPointers tokens.length tokens

def scanArrayKeywords (info : ArrayInfo E) : List Token → ArrayInfo E × List Token
  | [] => (info, [])
  | tok :: rest =>
    if tok.type = .kwStatic then scanArrayKeywords { info with hasStatic := true } rest
    else if tok.type = .kwConst then scanArrayKeywords { info with qualConst := true } rest
    else if tok.type = .kwVolatile then scanArrayKeywords { info with qualVolatile := true } rest
    else if tok.type = .kwRestrict then scanArrayKeywords { info with qualRestrict := true } rest
    else (info, tok :: rest)

/-- The tokens start after the `[`. A size that is not read leaves `sizeExpr` empty and
the tokens where the parser stopped. -/
def parseArraySize (env : Environment E P) (tokens : List Token) : ArrayInfo E × List Token :=
  let (info, tokens) := scanArrayKeywords ⟨none, false, none, false, false, false, false⟩ tokens
  if currentType tokens = .asterisk then
    if info.hasStatic then (info, tokens)
    else if currentType tokens.tail ≠ .rbracket then (info, tokens.tail)
    else ({ info with isVLA := true }, tokens.tail.tail)
  else if currentType tokens = .rbracket then
    if info.hasStatic then (info, tokens) else (info, tokens.tail)
  else
    match env.parseAssignmentExpression tokens with
    | (none, rest) => (info, rest)
    | (some size, rest) =>
      if currentType rest ≠ .rbracket then (info, rest)
      else ({ info with sizeExpr := some size, constantSize := env.numberLiteral size }, rest.tail)

/-- The tokens start after the `(`. -/
def parseFunctionSuffix (env : Environment E P) (opts : Options) (grouped : Bool)
    (s : DeclaratorState E P) (tokens : List Token) : Except String (DeclaratorState E P) :=
  let capture := env.captureFunctionParams && !grouped && s.functionParameters.isNone
  let parsed :=
    if capture then env.parseParameterList tokens else env.parseFunctionTypeParameterList tokens
  match parsed with
  | none => .error "Invalid function parameter list"
  | some (signature, rest) =>
    if currentType rest ≠ .rparen then .error "Expected ')' after parameter list"
    else
      .ok { s with
        tokens := rest.tail
        functionParameters := if capture then some signature else s.functionParameters
        type := appendFunctionSuffix grouped s.type signature
        declaresFunction := s.declaresFunction || (opts.trackDirectFunction && !grouped) }

/-- `[` opens an array suffix unless a second `[` makes it an attribute. -/
def startsArray (tokens : List Token) : Bool :=
  currentType tokens == .lbracket && currentType tokens.tail != .lbracket

def parseSuffixes (env : Environment E P) (opts : Options) (grouped : Bool) :
    Nat → Bool → DeclaratorState E P → Except String (Bool × DeclaratorState E P)
  | 0, _, _ => .error "out of fuel"
  | fuel + 1, sawArray, s =>
    if startsArray s.tokens then
      let (info, rest) := parseArraySize env s.tokens.tail
      parseSuffixes env opts grouped fuel true
        { s with tokens := rest, type := parsedTypeAppendArray s.type info }
    else if currentType s.tokens = .lparen then
      match parseFunctionSuffix env opts grouped s s.tokens.tail with
      | .error message => .error message
      | .ok s => parseSuffixes env opts grouped fuel sawArray s
    else .ok (sawArray, s)

/-- Exactly `( identifier )`; the tokens start at the `(`. -/
def declaratorGroupIsTransparentIdentifier (tokens : List Token) : Bool :=
  currentType tokens.tail == .identifier && currentType tokens.tail.tail == .rparen

def finishDeclarator (opts : Options) (chain : List PointerDeclaratorLayer)
    (grouped sawArray : Bool) (s : DeclaratorState E P) : Except String (DeclaratorState E P) :=
  let type := finishType chain grouped sawArray s.type
  if opts.requireIdentifier && s.identifier.isNone then .error "Expected identifier in declarator"
  else
    .ok { s with
      type := type
      declaresFunction := s.declaresFunction ||
        (opts.trackDirectFunction && type.derivations.head?.any TypeDerivation.isFunction) }

def parseDeclaratorTail (env : Environment E P) (opts : Options)
    (chain : List PointerDeclaratorLayer) (grouped : Bool) (fuel : Nat)
    (s : DeclaratorState E P) : Except String (DeclaratorState E P) :=
  match parseSuffixes env opts grouped fuel false s with
  | .error message => .error message
  | .ok (sawArray, s) => finishDeclarator opts chain grouped sawArray s

def parseDeclaratorInternal (env : Environment E P) (opts : Options) :
    Nat → DeclaratorState E P → Except String (DeclaratorState E P)
  | 0, _ => .error "out of fuel"
  | fuel + 1, s =>
    let (chain, tokens) := parsePointerChain env.blockPointers s.tokens
    if currentType tokens = .identifier then
      parseDeclaratorTail env opts chain false fuel
        { s with tokens := tokens.tail, identifier := s.identifier <|> tokens.head? }
    else if currentType tokens = .lparen then
      let grouped := !declaratorGroupIsTransparentIdentifier tokens
      match parseDeclaratorInternal env opts fuel { s with tokens := tokens.tail } with
      | .error message => .error message
      | .ok s =>
        if currentType s.tokens ≠ .rparen then .error "Expected ')' in declarator"
        else parseDeclaratorTail env opts chain grouped fuel { s with tokens := s.tokens.tail }
    else if opts.requireIdentifier && s.identifier.isNone then
      .error "Expected identifier in declarator"
    else parseDeclaratorTail env opts chain false fuel { s with tokens := tokens }

/-- Every group and every suffix consumes a token, so the length of the input is enough. -/
def parserParseDeclarator (env : Environment E P) (opts : Options) (base : DeclaredType E P)
    (tokens : List Token) : Except String (DeclaratorState E P) :=
  parseDeclaratorInternal env opts (tokens.length + 2) ⟨tokens, base, none, none, false⟩

end Fisics.Declarators
