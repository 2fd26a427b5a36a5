import Fisics.Lexer.Source

/-!
# Token handlers

One definition for each handler of the lexer. A handler takes the lexer at the
first character of its token and gives the token with the lexer behind it.
-/

namespace Fisics

def emit (lexer : Lexer) (type : TokenType) (value : String) (start : LexerMark) : Token × Lexer :=
  (makeToken lexer type value start, lexer)

-- Identifiers and keywords

/-- The Greek letters, the only extended identifier characters accepted. -/
def lexerUcnIsSupportedIdentifierCharacter (codepoint : Nat) : Bool :=
  (0x0370 ≤ codepoint && codepoint ≤ 0x0373) ||
  (0x0376 ≤ codepoint && codepoint ≤ 0x0377) ||
  (0x037B ≤ codepoint && codepoint ≤ 0x037D) ||
  codepoint == 0x037F || codepoint == 0x0386 ||
  (0x0388 ≤ codepoint && codepoint ≤ 0x038A) ||
  codepoint == 0x038C ||
  (0x038E ≤ codepoint && codepoint ≤ 0x03A1) ||
  (0x03A3 ≤ codepoint && codepoint ≤ 0x03F5) ||
  (0x03F7 ≤ codepoint && codepoint ≤ 0x03FF)

/-- Value of `digits` hex digits at the head of the text, most significant
first. `codepoint` is an `unsigned` of the source: it keeps 32 bits. -/
def hexDigits : (digits : Nat) → (codepoint : Nat) → List Char → Option Nat
  | 0, codepoint, _ => some codepoint
  | _ + 1, _, [] => none
  | digits + 1, codepoint, c :: rest =>
    (lexerHexValue c).bind fun value =>
      hexDigits digits ((codepoint * 16 + value) % 2 ^ 32) rest

/-- Length of the universal character name at the head of the text when it
names a supported identifier character, else 0. -/
def lexerIdentifierUcnLength : List Char → Nat
  | '\\' :: c :: rest =>
    if c = 'u' ∨ c = 'U' then
      let digits := if c = 'u' then 4 else 8
      match hexDigits digits 0 rest with
      | some codepoint =>
        if 0x10FFFF < codepoint || (0xD800 ≤ codepoint && codepoint ≤ 0xDFFF) ||
            !lexerUcnIsSupportedIdentifierCharacter codepoint then 0
        else digits + 2
      | none => 0
    else 0
  | _ => 0

/-- Continuation bytes `10xxxxxx`, six bits each. -/
def utf8Continuation : (count : Nat) → (codepoint : Nat) → List Char → Option Nat
  | 0, codepoint, _ => some codepoint
  | _ + 1, _, [] => none
  | count + 1, codepoint, c :: rest =>
    if c.toNat &&& 0xC0 ≠ 0x80 then none
    else utf8Continuation count (codepoint * 64 + (c.toNat &&& 0x3F)) rest

/-- Length in bytes and code point of the UTF-8 sequence at the head. -/
def lexerDecodeUtf8 : List Char → Option (Nat × Nat)
  | [] => none
  | c :: rest =>
    let b := c.toNat
    let lead : Option (Nat × Nat) :=
      if 0xC2 ≤ b ∧ b ≤ 0xDF then some (2, b &&& 0x1F)
      else if 0xE0 ≤ b ∧ b ≤ 0xEF then some (3, b &&& 0x0F)
      else if 0xF0 ≤ b ∧ b ≤ 0xF4 then some (4, b &&& 0x07)
      else none
    lead.bind fun (length, bits) =>
      (utf8Continuation (length - 1) bits rest).bind fun codepoint =>
        if (length = 3 ∧ codepoint < 0x800) ∨ (length = 4 ∧ codepoint < 0x10000) ∨
            0x10FFFF < codepoint ∨ (0xD800 ≤ codepoint ∧ codepoint ≤ 0xDFFF) then none
        else some (length, codepoint)

def lexerIdentifierUtf8Length (text : List Char) : Nat :=
  match lexerDecodeUtf8 text with
  | some (length, codepoint) =>
    if lexerUcnIsSupportedIdentifierCharacter codepoint then length else 0
  | none => 0

def lexerEncodeUtf8 (codepoint : Nat) : List Char :=
  if codepoint ≤ 0x7F then [Char.ofNat codepoint]
  else if codepoint ≤ 0x7FF then
    [Char.ofNat (0xC0 ||| (codepoint >>> 6)), Char.ofNat (0x80 ||| (codepoint &&& 0x3F))]
  else if codepoint ≤ 0xFFFF then
    [Char.ofNat (0xE0 ||| (codepoint >>> 12)), Char.ofNat (0x80 ||| ((codepoint >>> 6) &&& 0x3F)),
      Char.ofNat (0x80 ||| (codepoint &&& 0x3F))]
  else
    [Char.ofNat ((0xF0 ||| (codepoint >>> 18)) % 256),
      Char.ofNat (0x80 ||| ((codepoint >>> 12) &&& 0x3F)),
      Char.ofNat (0x80 ||| ((codepoint >>> 6) &&& 0x3F)), Char.ofNat (0x80 ||| (codepoint &&& 0x3F))]

/-- Every universal character name is rewritten as UTF-8; `skip` passes over
the characters of the name just rewritten. -/
def lexerNormalizeIdentifierSpelling : (skip : Nat) → List Char → List Char
  | _, [] => []
  | skip + 1, _ :: rest => lexerNormalizeIdentifierSpelling skip rest
  | 0, c :: rest =>
    let digits := match c, rest with
      | '\\', 'u' :: _ => 4
      | '\\', 'U' :: _ => 8
      | _, _ => 0
    match (if digits = 0 then none else hexDigits digits 0 (rest.drop 1)) with
    | some codepoint =>
      lexerEncodeUtf8 codepoint ++ lexerNormalizeIdentifierSpelling (digits + 1) rest
    | none => c :: lexerNormalizeIdentifierSpelling 0 rest

def identifierLength : (skip : Nat) → List Char → Nat
  | _, [] => 0
  | skip + 1, _ :: rest => identifierLength skip rest + 1
  | 0, c :: rest =>
    if isWord c then identifierLength 0 rest + 1
    else
      let ucnLength := lexerIdentifierUcnLength (c :: rest)
      if 0 < ucnLength then identifierLength (ucnLength - 1) rest + 1
      else
        let utf8Length := lexerIdentifierUtf8Length (c :: rest)
        if 0 < utf8Length then identifierLength (utf8Length - 1) rest + 1 else 0

/-- The table of `in_keyword_set`. -/
def keywords : List String :=
  ["int", "char", "float", "double", "long", "short", "signed", "unsigned", "enum", "union",
   "struct", "typedef", "void", "if", "else", "for", "while", "do", "switch", "case", "default",
   "return", "goto", "break", "continue", "extern", "static", "auto", "register",
   "_Thread_local", "__thread", "const", "volatile", "restrict", "inline", "_Atomic",
   "_Noreturn", "sizeof", "_Alignof", "alignof", "_Static_assert", "_Bool", "asm", "_Complex",
   "_Imaginary", "pragma", "once"]

def keywordToTokenType (word : String) : TokenType :=
  if word = "int" then .kwInt
  else if word = "char" then .kwChar
  else if word = "float" then .kwFloat
  else if word = "double" then .kwDouble
  else if word = "_Bool" then .kwBool
  else if word = "_Complex" ∨ word = "__complex" ∨ word = "__complex__" then .kwComplex
  else if word = "_Imaginary" ∨ word = "__imaginary" ∨ word = "__imaginary__" then .kwImaginary
  else if word = "long" then .kwLong
  else if word = "short" then .kwShort
  else if word = "signed" then .kwSigned
  else if word = "__signed" ∨ word = "__signed__" then .kwSigned
  else if word = "unsigned" then .kwUnsigned
  else if word = "enum" then .kwEnum
  else if word = "union" then .kwUnion
  else if word = "struct" then .kwStruct
  else if word = "typedef" then .kwTypedef
  else if word = "void" then .kwVoid
  else if word = "__inline" ∨ word = "__inline__" then .kwInline
  else if word = "if" then .kwIf
  else if word = "else" then .kwElse
  else if word = "for" then .kwFor
  else if word = "while" then .kwWhile
  else if word = "do" then .kwDo
  else if word = "switch" then .kwSwitch
  else if word = "case" then .kwCase
  else if word = "default" then .kwDefault
  else if word = "return" then .kwReturn
  else if word = "goto" then .kwGoto
  else if word = "break" then .kwBreak
  else if word = "continue" then .kwContinue
  else if word = "extern" then .kwExtern
  else if word = "static" then .kwStatic
  else if word = "auto" then .kwAuto
  else if word = "register" then .kwRegister
  else if word = "_Thread_local" ∨ word = "__thread" then .kwThreadLocal
  else if word = "const" then .kwConst
  else if word = "__const" ∨ word = "__const__" then .kwConst
  else if word = "volatile" then .kwVolatile
  else if word = "restrict" ∨ word = "__restrict" ∨ word = "__restrict__" then .kwRestrict
  else if word = "inline" then .kwInline
  else if word = "_Atomic" then .kwAtomic
  else if word = "_Noreturn" then .kwNoreturn
  else if word = "sizeof" then .kwSizeof
  else if word = "_Alignof" ∨ word = "alignof" then .kwAlignof
  else if word = "_Static_assert" then .kwStaticAssert
  else if word = "asm" then .asm
  else if word = "pragma" then .pragma
  else if word = "once" then .once
  else .identifier

def identifierTokenType (text : String) : TokenType :=
  if text ∈ keywords then keywordToTokenType text
  else if text = "__signed" ∨ text = "__signed__" then .kwSigned
  else if text = "_Float16" ∨ text = "__fp16" then .kwFloat
  else if text = "__inline" ∨ text = "__inline__" then .kwInline
  else if text = "__const" ∨ text = "__const__" then .kwConst
  else if text = "__restrict" ∨ text = "__restrict__" then .kwRestrict
  else if text = "__asm" ∨ text = "__asm__" then .asm
  else if text = "__complex" ∨ text = "__complex__" then .kwComplex
  else if text = "__imaginary" ∨ text = "__imaginary__" then .kwImaginary
  else .identifier

def handleIdentifierOrKeyword (lexer : Lexer) : Token × Lexer :=
  let length := identifierLength 0 lexer.rest
  let text := String.ofList (lexerNormalizeIdentifierSpelling 0 (lexer.rest.take length))
  emit (lexer.advance length) (identifierTokenType text) text lexer.mark

-- Numbers

structure NumberScan where
  type : TokenType
  isHex : Bool
  isBinary : Bool
  sawFraction : Bool
  sawExp : Bool
  invalidOctalDigit : Bool
  invalidBinaryDigit : Bool
  radixDigits : Nat
  hexFractionDigits : Nat
  lexer : Lexer

def scanRadix (lexer : Lexer) : NumberScan :=
  let init : NumberScan := ⟨.number, false, false, false, false, false, false, 0, 0, lexer⟩
  if lexer.cur = '0' ∧ (lexer.peek 1 = 'x' ∨ lexer.peek 1 = 'X') then
    let body := lexer.advance 2
    let stop := body.skipWhile isxdigit
    { init with isHex := true, radixDigits := stop.position - body.position, lexer := stop }
  else if lexer.cur = '0' ∧ (lexer.peek 1 = 'b' ∨ lexer.peek 1 = 'B') then
    let body := lexer.advance 2
    let stop := body.skipWhile (fun c => c == '0' || c == '1')
    let after := stop.skipWhile Char.isDigit
    { init with
      isBinary := true
      radixDigits := stop.position - body.position
      invalidBinaryDigit := stop.position != after.position
      lexer := after }
  else
    let stop := lexer.skipWhile Char.isDigit
    let digits := (lexer.source.drop lexer.position).take (stop.position - lexer.position)
    { init with
      invalidOctalDigit := lexer.cur == '0' && digits.any (fun c => c == '8' || c == '9')
      lexer := stop }

def scanFraction (scan : NumberScan) : NumberScan :=
  if scan.lexer.cur = '.' then
    let body := scan.lexer.advance 1
    let stop := body.skipWhile (if scan.isHex then isxdigit else Char.isDigit)
    { scan with
      type := .floatLiteral
      sawFraction := true
      hexFractionDigits := if scan.isHex then stop.position - body.position else 0
      lexer := stop }
  else scan

def atExponent (scan : NumberScan) : Bool :=
  let c := scan.lexer.cur
  (!scan.isHex && (c == 'e' || c == 'E')) || (scan.isHex && (c == 'p' || c == 'P'))

def scanExponent (scan : NumberScan) : NumberScan × Bool :=
  let mark := scan.lexer.advance 1
  let digits := if mark.cur = '+' ∨ mark.cur = '-' then mark.advance 1 else mark
  let stop := digits.skipWhile Char.isDigit
  if stop.position = digits.position then
    ({ scan with sawExp := true, lexer := stop.skipWhile isWord }, false)
  else ({ scan with type := .floatLiteral, sawExp := true, lexer := stop }, true)

/-- The suffix loop: at most one `u`, two `l`, any number of `f`, `i`, `j`. -/
def suffixLength : (seenU : Bool) → (lCount : Nat) → List Char → Nat × Bool
  | _, _, [] => (0, false)
  | seenU, lCount, c :: rest =>
    if c = 'u' ∨ c = 'U' then
      if seenU then (0, false)
      else let r := suffixLength true lCount rest; (r.1 + 1, r.2)
    else if c = 'l' ∨ c = 'L' then
      if 2 ≤ lCount then (0, false)
      else let r := suffixLength seenU (lCount + 1) rest; (r.1 + 1, r.2)
    else if c ∈ ['f', 'F', 'i', 'I', 'j', 'J'] then
      ((suffixLength seenU lCount rest).1 + 1, true)
    else (0, false)

def scanSuffix (scan : NumberScan) : NumberScan :=
  let suffix := suffixLength false 0 scan.lexer.rest
  { scan with
    type := if suffix.2 then .floatLiteral else scan.type
    lexer := scan.lexer.advance suffix.1 }

def numberError (scan : NumberScan) : Option String :=
  let c := scan.lexer.cur
  if scan.isBinary && (scan.sawFraction || scan.sawExp || scan.type == .floatLiteral ||
      c == 'p' || c == 'P') then
    some "Binary literals do not support fractional or exponent forms"
  else if scan.isBinary && scan.invalidBinaryDigit then some "Invalid digit in binary literal"
  else if scan.isBinary && scan.radixDigits == 0 then
    some "Binary literal requires at least one binary digit"
  else if !scan.isHex && !scan.isBinary && scan.invalidOctalDigit && !scan.sawFraction &&
      !scan.sawExp && scan.type == .number then some "Invalid digit in octal literal"
  else if scan.isHex && !scan.sawFraction && scan.radixDigits == 0 then
    some "Hex literal requires at least one hex digit"
  else if scan.isHex && scan.sawFraction && scan.radixDigits == 0 &&
      scan.hexFractionDigits == 0 then
    some "Hex floating literal requires at least one mantissa digit"
  else if scan.isHex && scan.sawFraction && !scan.sawExp then
    some "Hex floating literal requires a 'p' exponent"
  else if c.isAlpha || c == '_' then some "Invalid numeric literal suffix"
  else none

/-- Where a rejected number ends: the first and the last test also take the
letters that follow. -/
def numberErrorEnd (scan : NumberScan) (message : String) : Lexer :=
  let c := scan.lexer.cur
  if message = "Invalid numeric literal suffix" ∨
      (message = "Binary literals do not support fractional or exponent forms" ∧
        (c = 'p' ∨ c = 'P')) then scan.lexer.skipWhile isWord
  else scan.lexer

def rejectNumber (lexer : Lexer) (message : String) (start : LexerMark) : Token × Lexer :=
  let text := lexer.textFrom start.position
  emit (lexer.reportError message text) .unknown text start

def finishNumber (scan : NumberScan) (start : LexerMark) : Token × Lexer :=
  match numberError scan with
  | some message => rejectNumber (numberErrorEnd scan message) message start
  | none => emit scan.lexer scan.type (scan.lexer.textFrom start.position) start

def handleNumber (lexer : Lexer) : Token × Lexer :=
  let start := lexer.mark
  let scan := scanFraction (scanRadix lexer)
  if atExponent scan then
    let exponent := scanExponent scan
    if exponent.2 then finishNumber (scanSuffix exponent.1) start
    else rejectNumber exponent.1.lexer "Malformed floating literal exponent" start
  else finishNumber (scanSuffix scan) start

end Fisics
