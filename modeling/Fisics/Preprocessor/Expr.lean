import Fisics.Lexer.Source
import Fisics.Preprocessor.MacroTable

/-!
# The `#if` expression evaluator

A recursive descent over the prepared tokens. The parser holds the tokens from
its cursor on. Ten of the precedence levels share one loop, `binaryLevel`. The
recursion through parentheses and `?:` is cut by fuel that `parseConditional`
sets above the number of tokens, of which every nested call has consumed one.

Signed arithmetic wraps as it does on the two's complement hosts the program
is built for. The one signed operation that does not wrap there is a division
of the least value by minus one: it stops the process, which `trapped` records.
-/

namespace Fisics

structure PPValue where
  bits : BitVec 64
  isUnsigned : Bool
  deriving DecidableEq, Inhabited

def ppValueSigned (bits : BitVec 64) : PPValue := ⟨bits, false⟩
def ppValueUnsigned (bits : BitVec 64) : PPValue := ⟨bits, true⟩
def ppValueBool (value : Bool) : PPValue := ppValueSigned (if value then 1 else 0)
def ppValueTruthy (value : PPValue) : Bool := value.bits != 0
def ppValueUseUnsigned (lhs rhs : PPValue) : Bool := lhs.isUnsigned || rhs.isUnsigned

-- Integer constants

/-- The digits of the base at the head of the text, most significant first,
onto `value`. -/
def strtoullDigits (base : Nat) : (value : Nat) → List Char → Nat × List Char
  | value, [] => (value, [])
  | value, c :: rest =>
    match lexerHexValue c with
    | some d => if d < base then strtoullDigits base (value * base + d) rest else (value, c :: rest)
    | none => (value, c :: rest)

/-- The base that `strtoull` chooses for base 0, with the text of the digits. -/
def strtoullBase : List Char → Nat × List Char
  | '0' :: x :: d :: rest =>
    if (x = 'x' ∨ x = 'X') ∧ isxdigit d then (16, d :: rest) else (8, '0' :: x :: d :: rest)
  | '0' :: rest => (8, '0' :: rest)
  | text => (10, text)

def strtoullSign : List Char → Bool × List Char
  | '-' :: rest => (true, rest)
  | '+' :: rest => (false, rest)
  | rest => (false, rest)

/-- `strtoull(text, &end, 0)`: the value, the text from `end` on, and whether
`errno` is set because the value does not fit 64 bits. -/
def strtoull (text : List Char) : Nat × List Char × Bool :=
  let (negative, unsigned) := strtoullSign (text.dropWhile isspace)
  let (base, digits) := strtoullBase unsigned
  let (value, rest) := strtoullDigits base 0 digits
  if rest.length = digits.length then (0, text, false)
  else if 2 ^ 64 ≤ value then (2 ^ 64 - 1, rest, true)
  else (if negative then (2 ^ 64 - value) % 2 ^ 64 else value, rest, false)

def parseIntegerToken (tok : Token) : Option PPValue :=
  match tok.value with
  | none => none
  | some text =>
    let hasUnsignedSuffix := text.toList.any (fun c => c == 'u' || c == 'U')
    let (raw, rest, range) := strtoull text.toList
    if range || !(rest.dropWhile Char.isAlpha).isEmpty then none
    else if hasUnsignedSuffix || 2 ^ 63 - 1 < raw then some (ppValueUnsigned (BitVec.ofNat 64 raw))
    else some (ppValueSigned (BitVec.ofNat 64 raw))

-- The parser state

structure PPExprParser where
  /-- The tokens from the cursor on. -/
  tokens : List Token
  error : Bool
  trapped : Bool
  deriving DecidableEq, Inhabited

/-- A parsing function: the parser and the `eval` flag to a value and the
parser it leaves. -/
abbrev PPExprParse := PPExprParser → Bool → PPValue × PPExprParser

def parserPeek (parser : PPExprParser) : Option Token := parser.tokens.head?

def parserAdvance (parser : PPExprParser) : PPExprParser :=
  match parser.tokens with
  | [] => parser
  | tok :: rest => { parser with tokens := if tok.type = .eof then [] else rest }

def parserMatch (parser : PPExprParser) (type : TokenType) : Bool × PPExprParser :=
  match parserPeek parser with
  | some tok => if tok.type = type then (true, parserAdvance parser) else (false, parser)
  | none => (false, parser)

def parserFail (parser : PPExprParser) : PPExprParser := { parser with error := true }

def parserIsDone (parser : PPExprParser) : Bool :=
  (parser.tokens.dropWhile (fun tok => tok.type == .eof)).isEmpty

-- Primary and unary expressions

/-- The operand of `defined`, after the word itself. -/
def parseDefined (table : MacroTable) (parser : PPExprParser) (eval : Bool) :
    PPValue × PPExprParser :=
  let (hasParen, parser) := parserMatch parser .lparen
  match parserPeek parser with
  | none => (ppValueSigned 0, parserFail parser)
  | some idTok =>
    if tokenIsMacroIdentifier idTok then
      let parser := parserAdvance parser
      let (closed, parser) := if hasParen then parserMatch parser .rparen else (true, parser)
      if closed then
        if eval then
          (ppValueBool (macroTableLookup table (tokenText idTok)).isSome, parser)
        else (ppValueSigned 0, parser)
      else (ppValueSigned 0, parserFail parser)
    else (ppValueSigned 0, parserFail parser)

section
variable (table : MacroTable) (conditional : PPExprParse)

def parsePrimary : PPExprParse := fun parser eval =>
  match parserPeek parser with
  | none => (ppValueSigned 0, parserFail parser)
  | some tok =>
    if tok.type = .identifier ∧ tok.value = some "defined" then
      parseDefined table (parserAdvance parser) eval
    else
      match tok.type with
      | .number | .charLiteral =>
        let parser := parserAdvance parser
        if eval then
          match parseIntegerToken tok with
          | some value => (value, parser)
          | none => (ppValueSigned 0, parserFail parser)
        else (ppValueSigned 0, parser)
      | .identifier => (ppValueSigned 0, parserAdvance parser)
      | .lparen =>
        let (value, parser) := conditional (parserAdvance parser) eval
        let (closed, parser) := parserMatch parser .rparen
        (if eval then value else ppValueSigned 0, if closed then parser else parserFail parser)
      | _ => (ppValueSigned 0, parserFail parser)

def ppValueNegate (operand : PPValue) : PPValue :=
  if operand.isUnsigned then ppValueUnsigned (0 - operand.bits) else ppValueSigned (-operand.bits)

def ppValueComplement (operand : PPValue) : PPValue :=
  if operand.isUnsigned then ppValueUnsigned (~~~operand.bits)
  else ppValueSigned (~~~operand.bits)

/-- What a unary operator does with its operand; `none` for any other token. -/
def unaryOperator : TokenType → Option (PPValue → PPValue)
  | .plus => some id
  | .minus => some ppValueNegate
  | .logicalNot => some (fun operand => ppValueBool (!ppValueTruthy operand))
  | .bitwiseNot => some ppValueComplement
  | _ => none

def parseUnaryTokens (error trapped eval : Bool) : List Token → PPValue × PPExprParser
  | [] => parsePrimary table conditional ⟨[], error, trapped⟩ eval
  | tok :: rest =>
    match unaryOperator tok.type with
    | some op =>
      let (operand, parser) := parseUnaryTokens error trapped eval rest
      (if eval then op operand else ppValueSigned 0, parser)
    | none => parsePrimary table conditional ⟨tok :: rest, error, trapped⟩ eval

def parseUnary : PPExprParse := fun parser eval =>
  parseUnaryTokens table conditional parser.error parser.trapped eval parser.tokens

end

-- Binary operators

/-- What an operator computes: a value and whether the host traps on it, or
nothing when the operator fails. -/
abbrev PPExprApply := TokenType → PPValue → PPValue → Option (PPValue × Bool)

def applyMultiplicative : PPExprApply := fun op value rhs =>
  if (op = .divide ∨ op = .modulo) ∧ ppValueTruthy rhs = false then none
  else
    let useUnsigned := ppValueUseUnsigned value rhs
    let traps := !useUnsigned && value.bits == BitVec.intMin 64 && rhs.bits == -1
    match op with
    | .asterisk => some (⟨value.bits * rhs.bits, useUnsigned⟩, false)
    | .divide =>
      some (if useUnsigned then (ppValueUnsigned (value.bits / rhs.bits), false)
        else (ppValueSigned (value.bits.sdiv rhs.bits), traps))
    | .modulo =>
      some (if useUnsigned then (ppValueUnsigned (value.bits % rhs.bits), false)
        else (ppValueSigned (value.bits.srem rhs.bits), traps))
    | _ => some (value, false)

def applyAdditive : PPExprApply := fun op value rhs =>
  let bits := if op = .plus then value.bits + rhs.bits else value.bits - rhs.bits
  some (⟨bits, ppValueUseUnsigned value rhs⟩, false)

def applyShift : PPExprApply := fun op value rhs =>
  let amount := (rhs.bits &&& 63).toNat
  some (if op = .leftShift then ⟨value.bits <<< amount, value.isUnsigned⟩
    else if value.isUnsigned then ppValueUnsigned (value.bits >>> amount)
    else ppValueSigned (value.bits.sshiftRight amount), false)

def applyRelational : PPExprApply := fun op value rhs =>
  let less (a b : BitVec 64) := if ppValueUseUnsigned value rhs then a.ult b else a.slt b
  let lessEqual (a b : BitVec 64) := if ppValueUseUnsigned value rhs then a.ule b else a.sle b
  let result := match op with
    | .less => less value.bits rhs.bits
    | .lessEqual => lessEqual value.bits rhs.bits
    | .greater => less rhs.bits value.bits
    | .greaterEqual => lessEqual rhs.bits value.bits
    | _ => false
  some (ppValueBool result, false)

def applyEquality : PPExprApply := fun op value rhs =>
  let equal := value.bits == rhs.bits
  some (ppValueBool (if op = .equal then equal else !equal), false)

def applyBitwise (f : BitVec 64 → BitVec 64 → BitVec 64) : PPExprApply := fun _ value rhs =>
  some (⟨f value.bits rhs.bits, ppValueUseUnsigned value rhs⟩, false)

def applyLogicalAnd : PPExprApply := fun _ value rhs =>
  some (ppValueBool (ppValueTruthy value && ppValueTruthy rhs), false)

def applyLogicalOr : PPExprApply := fun _ value rhs =>
  some (ppValueBool (ppValueTruthy value || ppValueTruthy rhs), false)

structure BinaryLevel where
  ops : List TokenType
  evalRight : Bool → PPValue → Bool
  apply : PPExprApply

/-- The loop of a level over `value`. Every round takes an operator, so the
number of tokens bounds the rounds. -/
def binaryLoop (level : BinaryLevel) (operand : PPExprParse) (eval : Bool) :
    (rounds : Nat) → PPValue → PPExprParser → PPValue × PPExprParser
  | 0, value, parser => (value, parser)
  | rounds + 1, value, parser =>
    if parser.error then (value, parser)
    else
      match parserPeek parser with
      | none => (value, parser)
      | some tok =>
        if tok.type ∈ level.ops then
          let (rhs, parser) := operand (parserAdvance parser) (level.evalRight eval value)
          if eval then
            match level.apply tok.type value rhs with
            | none => binaryLoop level operand eval rounds (ppValueSigned 0) (parserFail parser)
            | some (result, traps) =>
              binaryLoop level operand eval rounds result { parser with trapped := parser.trapped || traps }
          else binaryLoop level operand eval rounds value parser
        else (value, parser)

def binaryLevel (level : BinaryLevel) (operand : PPExprParse) : PPExprParse := fun parser eval =>
  let (value, parser) := operand parser eval
  let (value, parser) := binaryLoop level operand eval parser.tokens.length value parser
  (if eval then value else ppValueSigned 0, parser)

def evalBoth : Bool → PPValue → Bool := fun eval _ => eval

def multiplicative : BinaryLevel := ⟨[.asterisk, .divide, .modulo], evalBoth, applyMultiplicative⟩
def additive : BinaryLevel := ⟨[.plus, .minus], evalBoth, applyAdditive⟩
def shift : BinaryLevel := ⟨[.leftShift, .rightShift], evalBoth, applyShift⟩
def relational : BinaryLevel :=
  ⟨[.less, .lessEqual, .greater, .greaterEqual], evalBoth, applyRelational⟩
def equality : BinaryLevel := ⟨[.equal, .notEqual], evalBoth, applyEquality⟩
def bitwiseAnd : BinaryLevel := ⟨[.bitwiseAnd], evalBoth, applyBitwise (· &&& ·)⟩
def bitwiseXor : BinaryLevel := ⟨[.bitwiseXor], evalBoth, applyBitwise (· ^^^ ·)⟩
def bitwiseOr : BinaryLevel := ⟨[.bitwiseOr], evalBoth, applyBitwise (· ||| ·)⟩
def logicalAnd : BinaryLevel :=
  ⟨[.logicalAnd], fun eval value => eval && ppValueTruthy value, applyLogicalAnd⟩
def logicalOr : BinaryLevel :=
  ⟨[.logicalOr], fun eval value => eval && !ppValueTruthy value, applyLogicalOr⟩

section
variable (table : MacroTable) (conditional : PPExprParse)

def parseMultiplicative := binaryLevel multiplicative (parseUnary table conditional)
def parseAdditive := binaryLevel additive (parseMultiplicative table conditional)
def parseShift := binaryLevel shift (parseAdditive table conditional)
def parseRelational := binaryLevel relational (parseShift table conditional)
def parseEquality := binaryLevel equality (parseRelational table conditional)
def parseBitwiseAnd := binaryLevel bitwiseAnd (parseEquality table conditional)
def parseBitwiseXor := binaryLevel bitwiseXor (parseBitwiseAnd table conditional)
def parseBitwiseOr := binaryLevel bitwiseOr (parseBitwiseXor table conditional)
def parseLogicalAnd := binaryLevel logicalAnd (parseBitwiseOr table conditional)
def parseLogicalOr := binaryLevel logicalOr (parseLogicalAnd table conditional)

def conditionalRest (eval : Bool) (condition : PPValue) (parser : PPExprParser) :
    PPValue × PPExprParser :=
  let (question, parser) := parserMatch parser .question
  if question then
    let (trueValue, parser) := conditional parser (eval && ppValueTruthy condition)
    let (colon, parser) := parserMatch parser .colon
    if colon then
      let (falseValue, parser) := conditional parser (eval && !ppValueTruthy condition)
      (if !eval then ppValueSigned 0
       else if ppValueTruthy condition then trueValue else falseValue, parser)
    else (ppValueSigned 0, parserFail parser)
  else (if eval then condition else ppValueSigned 0, parser)

/-- The body of `parse_conditional`, over its own recursive calls. -/
def conditionalLevel : PPExprParse := fun parser eval =>
  let (condition, parser) := parseLogicalOr table conditional parser eval
  conditionalRest conditional eval condition parser

end

def parseConditionalFuel (table : MacroTable) : Nat → PPExprParse
  | 0 => fun parser _ => (ppValueSigned 0, parserFail parser)
  | fuel + 1 => conditionalLevel table (parseConditionalFuel table fuel)

def parseConditional (table : MacroTable) : PPExprParse := fun parser eval =>
  parseConditionalFuel table (parser.tokens.length + 1) parser eval

-- Evaluation

inductive PPExprResult
  /-- `true`, with the 32 bits of `*outValue`. -/
  | value (outValue : BitVec 32)
  /-- `false`, with `*outValue` zero. -/
  | invalid
  /-- The host stopped the process. -/
  | trap
  deriving DecidableEq

def ppExprEvalTokens (table : MacroTable) (tokens : List Token) : PPExprResult :=
  if tokens.isEmpty then .invalid
  else
    let (value, parser) := parseConditional table ⟨tokens, false, false⟩ true
    if parser.trapped then .trap
    else if !parser.error && parserIsDone parser then .value (value.bits.truncate 32)
    else .invalid

end Fisics
