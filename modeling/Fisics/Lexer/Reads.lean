import Fisics.Lexer.Scan

/-!
# The lexer with checked reads

The handlers once more, by index as the source has them. Each access to
`lexer->source` fails beyond the terminator at index `length`, and each loop goes
one round at a time. A handler also gives the mark that its token starts at.
`ReadsLaws` shows that no access fails, and that the tokens are those of
`getNextToken`.
-/

namespace Fisics.Reads

-- Reading

def sourceAt (lexer : Lexer) (i : Nat) : Option Char := (lexer.source ++ ['\x00'])[i]?

/-- `lexer->source[lexer->position + k]` -/
def charAt (lexer : Lexer) (k : Nat) : Option Char := sourceAt lexer (lexer.position + k)

/-- The same, where the source tests `position + k < length` first. -/
def guardedAt (lexer : Lexer) (k : Nat) : Option Char :=
  if lexer.position + k < lexer.length then charAt lexer k else some '\x00'

def isEOF (lexer : Lexer) : Option Bool :=
  if lexer.length ≤ lexer.position then some true else (charAt lexer 0).map (· == '\x00')

/-- The characters of `strndup(source + start, position - start)`. -/
def readText (lexer : Lexer) (start : Nat) : Option (List Char) :=
  (List.range' start (lexer.position - start)).mapM (sourceAt lexer)

/-- `while (p(source[position])) position++`, with the characters passed. -/
def readWhileLoop (p : Char → Bool) : (fuel : Nat) → Lexer → Option (List Char × Lexer)
  | 0, _ => none
  | fuel + 1, lexer => do
    let c ← charAt lexer 0
    if p c then
      let (chars, stop) ← readWhileLoop p fuel (lexer.advance 1)
      some (c :: chars, stop)
    else some ([], lexer)

def readWhile (p : Char → Bool) (lexer : Lexer) : Option (List Char × Lexer) :=
  readWhileLoop p (lexer.length + 1) lexer

/-- The same for at most `count` characters. -/
def readAtMost (p : Char → Bool) : (count : Nat) → Lexer → Option (List Char × Lexer)
  | 0, lexer => some ([], lexer)
  | count + 1, lexer => do
    let c ← charAt lexer 0
    if p c then
      let (chars, stop) ← readAtMost p count (lexer.advance 1)
      some (c :: chars, stop)
    else some ([], lexer)

abbrev Marked := LexerMark × Token × Lexer

def emit (lexer : Lexer) (type : TokenType) (value : String) (start : LexerMark) : Option Marked :=
  some (start, Fisics.emit lexer type value start)

-- Blank space

def skipWhitespaceLoop : (fuel : Nat) → Lexer → Option Lexer
  | 0, _ => none
  | fuel + 1, lexer =>
    if lexer.position < lexer.length then do
      let c ← charAt lexer 0
      let next ← guardedAt lexer 1
      let next2 ← guardedAt lexer 2
      if c = '\\' ∧ next = '\n' then skipWhitespaceLoop fuel (lexer.advance 2)
      else if c = '\\' ∧ next = '\r' ∧ next2 = '\n' then skipWhitespaceLoop fuel (lexer.advance 3)
      else if !isspace c then some lexer
      else if c = '\n' then skipWhitespaceLoop fuel lexer.newline
      else skipWhitespaceLoop fuel (lexer.advance 1)
    else some lexer

def skipWhitespace (lexer : Lexer) : Option Lexer := skipWhitespaceLoop (lexer.length + 1) lexer

-- Identifiers and keywords

def hexDigits (lexer : Lexer) : (digits : Nat) → (codepoint : Nat) → (i : Nat) →
    Option (Option Nat)
  | 0, codepoint, _ => some (some codepoint)
  | digits + 1, codepoint, i =>
    if lexer.length ≤ i then some none
    else do
      match lexerHexValue (← sourceAt lexer i) with
      | some value => hexDigits lexer digits ((codepoint * 16 + value) % 2 ^ 32) (i + 1)
      | none => some none

def lexerIdentifierUcnLength (lexer : Lexer) : Option Nat :=
  if lexer.length ≤ lexer.position + 1 then some 0
  else do
    let c ← charAt lexer 0
    if c ≠ '\\' then some 0
    else
      let n ← charAt lexer 1
      if n ≠ 'u' ∧ n ≠ 'U' then some 0
      else
        let digits := if n = 'u' then 4 else 8
        match ← hexDigits lexer digits 0 (lexer.position + 2) with
        | some codepoint =>
          if 0x10FFFF < codepoint || (0xD800 ≤ codepoint && codepoint ≤ 0xDFFF) ||
              !lexerUcnIsSupportedIdentifierCharacter codepoint then some 0
          else some (digits + 2)
        | none => some 0

def utf8Continuation (lexer : Lexer) : (count : Nat) → (codepoint : Nat) → (i : Nat) →
    Option (Option Nat)
  | 0, codepoint, _ => some (some codepoint)
  | count + 1, codepoint, i => do
    let c ← sourceAt lexer i
    if c.toNat &&& 0xC0 ≠ 0x80 then some none
    else utf8Continuation lexer count (codepoint * 64 + (c.toNat &&& 0x3F)) (i + 1)

def lexerDecodeUtf8 (lexer : Lexer) : Option (Option (Nat × Nat)) := do
  let b := (← charAt lexer 0).toNat
  let lead : Option (Nat × Nat) :=
    if 0xC2 ≤ b ∧ b ≤ 0xDF then some (2, b &&& 0x1F)
    else if 0xE0 ≤ b ∧ b ≤ 0xEF then some (3, b &&& 0x0F)
    else if 0xF0 ≤ b ∧ b ≤ 0xF4 then some (4, b &&& 0x07)
    else none
  match lead with
  | none => some none
  | some (length, bits) =>
    if lexer.length - lexer.position < length then some none
    else
      match ← utf8Continuation lexer (length - 1) bits (lexer.position + 1) with
      | none => some none
      | some codepoint =>
        if (length = 3 ∧ codepoint < 0x800) ∨ (length = 4 ∧ codepoint < 0x10000) ∨
            0x10FFFF < codepoint ∨ (0xD800 ≤ codepoint ∧ codepoint ≤ 0xDFFF) then some none
        else some (some (length, codepoint))

def lexerIdentifierUtf8Length (lexer : Lexer) : Option Nat :=
  if lexer.length ≤ lexer.position then some 0
  else do
    match ← lexerDecodeUtf8 lexer with
    | some (length, codepoint) =>
      some (if lexerUcnIsSupportedIdentifierCharacter codepoint then length else 0)
    | none => some 0

def identifierLoop : (fuel : Nat) → Lexer → Option Lexer
  | 0, _ => none
  | fuel + 1, lexer => do
    let c ← charAt lexer 0
    if isWord c then identifierLoop fuel (lexer.advance 1)
    else
      let ucnLength ← lexerIdentifierUcnLength lexer
      if 0 < ucnLength then identifierLoop fuel (lexer.advance ucnLength)
      else
        let utf8Length ← lexerIdentifierUtf8Length lexer
        if 0 < utf8Length then identifierLoop fuel (lexer.advance utf8Length) else some lexer

def handleIdentifierOrKeyword (lexer : Lexer) : Option Marked := do
  let stop ← identifierLoop (lexer.length + 1) lexer
  let chars ← readText stop lexer.position
  let text := String.ofList (lexerNormalizeIdentifierSpelling 0 chars)
  emit stop (identifierTokenType text) text lexer.mark

-- Numbers

def scanRadix (lexer : Lexer) : Option NumberScan := do
  let init : NumberScan := ⟨.number, false, false, false, false, false, false, 0, 0, lexer⟩
  let c ← charAt lexer 0
  -- the second character counts behind a `0` only
  let n ← (if c = '0' then charAt lexer 1 else some '\x00')
  if c = '0' ∧ (n = 'x' ∨ n = 'X') then
    let (digits, stop) ← readWhile isxdigit (lexer.advance 2)
    some { init with isHex := true, radixDigits := digits.length, lexer := stop }
  else if c = '0' ∧ (n = 'b' ∨ n = 'B') then
    let (digits, stop) ← readWhile (fun c => c == '0' || c == '1') (lexer.advance 2)
    let (others, after) ← readWhile Char.isDigit stop
    some { init with
      isBinary := true
      radixDigits := digits.length
      invalidBinaryDigit := !others.isEmpty
      lexer := after }
  else
    let (digits, stop) ← readWhile Char.isDigit lexer
    some { init with
      invalidOctalDigit := c == '0' && digits.any (fun c => c == '8' || c == '9')
      lexer := stop }

def scanFraction (scan : NumberScan) : Option NumberScan := do
  if (← charAt scan.lexer 0) = '.' then
    let (digits, stop) ← readWhile (if scan.isHex then isxdigit else Char.isDigit) (scan.lexer.advance 1)
    some { scan with
      type := .floatLiteral
      sawFraction := true
      hexFractionDigits := if scan.isHex then digits.length else 0
      lexer := stop }
  else some scan

def atExponent (scan : NumberScan) : Option Bool := do
  let c ← charAt scan.lexer 0
  some ((!scan.isHex && (c == 'e' || c == 'E')) || (scan.isHex && (c == 'p' || c == 'P')))

def scanExponent (scan : NumberScan) : Option (NumberScan × Bool) := do
  let mark := scan.lexer.advance 1
  let sign ← charAt mark 0
  let (digits, stop) ← readWhile Char.isDigit (if sign = '+' ∨ sign = '-' then mark.advance 1 else mark)
  if digits.isEmpty then
    let (_, stop) ← readWhile isWord stop
    some ({ scan with sawExp := true, lexer := stop }, false)
  else some ({ scan with type := .floatLiteral, sawExp := true, lexer := stop }, true)

def suffixLoop : (fuel : Nat) → (seenU : Bool) → (lCount : Nat) → Lexer → Option (Lexer × Bool)
  | 0, _, _, _ => none
  | fuel + 1, seenU, lCount, lexer => do
    let c ← charAt lexer 0
    if c = 'u' ∨ c = 'U' then
      if seenU then some (lexer, false) else suffixLoop fuel true lCount (lexer.advance 1)
    else if c = 'l' ∨ c = 'L' then
      if 2 ≤ lCount then some (lexer, false)
      else suffixLoop fuel seenU (lCount + 1) (lexer.advance 1)
    else if c ∈ ['f', 'F', 'i', 'I', 'j', 'J'] then
      let (stop, _) ← suffixLoop fuel seenU lCount (lexer.advance 1)
      some (stop, true)
    else some (lexer, false)

def scanSuffix (scan : NumberScan) : Option NumberScan := do
  let (stop, float) ← suffixLoop (scan.lexer.length + 1) false 0 scan.lexer
  some { scan with type := if float then .floatLiteral else scan.type, lexer := stop }

def rejectNumber (lexer : Lexer) (message : String) (start : LexerMark) : Option Marked := do
  let text := String.ofList (← readText lexer start.position)
  emit (lexer.reportError message text) .unknown text start

/-- The tests of `numberError` look at the character behind the scan, no other. -/
def finishNumber (scan : NumberScan) (start : LexerMark) : Option Marked := do
  let c ← charAt scan.lexer 0
  match numberError scan with
  | some message =>
    if message = "Invalid numeric literal suffix" ∨
        (message = "Binary literals do not support fractional or exponent forms" ∧ (c = 'p' ∨ c = 'P')) then
      let (_, stop) ← readWhile isWord scan.lexer
      rejectNumber stop message start
    else rejectNumber scan.lexer message start
  | none =>
    let text ← readText scan.lexer start.position
    emit scan.lexer scan.type (String.ofList text) start

def handleNumber (lexer : Lexer) : Option Marked := do
  let start := lexer.mark
  let scan ← scanFraction (← scanRadix lexer)
  if ← atExponent scan then
    let (scan, hadDigit) ← scanExponent scan
    if hadDigit then finishNumber (← scanSuffix scan) start
    else rejectNumber scan.lexer "Malformed floating literal exponent" start
  else finishNumber (← scanSuffix scan) start

-- String literals

def stringTailLoop : (fuel : Nat) → Lexer → Option Lexer
  | 0, _ => none
  | fuel + 1, lexer => do
    if ← isEOF lexer then some lexer
    else
      let c ← charAt lexer 0
      if c = '"' then some (lexer.advance 1)
      else if c = '\n' then some lexer
      else if c = '\\' then
        let next := lexer.advance 1
        if ← isEOF next then some next
        else
          let e ← charAt next 0
          if e = '\n' then some next else stringTailLoop fuel (next.advance 1)
      else stringTailLoop fuel (lexer.advance 1)

/-- The escape `e` that the lexer stands at. -/
def stringEscape (lexer : Lexer) (e : Char) : Option (Lexer × Option ScanEnd) :=
  let after := lexer.advance 1
  if e ∈ simpleEscapes then some (after, none)
  else if e = 'x' then do
    let (digits, stop) ← readWhile isxdigit after
    some (stop, if digits.isEmpty then
      some (.invalid "Invalid \\x escape in string literal" "\\x" "Invalid \\x escape") else none)
  else if e = 'u' then do
    let (digits, stop) ← readAtMost isxdigit 4 after
    some (stop, if digits.length ≠ 4 then
      some (.invalid "Invalid \\u escape in string literal" "\\u" "Invalid \\u escape") else none)
  else if e = 'U' then do
    let (digits, stop) ← readAtMost isxdigit 8 after
    some (stop, if digits.length ≠ 8 then
      some (.invalid "Invalid \\U escape in string literal" "\\U" "Invalid \\U escape") else none)
  else if isOctalDigit e then do
    let (_, stop) ← readAtMost isOctalDigit 2 after
    some (stop, none)
  else
    some (lexer, some (.invalid "Invalid escape in string literal" (formatSimpleEscape e) "Invalid escape"))

def stringLoop : (fuel : Nat) → Lexer → Option (Lexer × ScanEnd)
  | 0, _ => none
  | fuel + 1, lexer => do
    let c ← charAt lexer 0
    if c = '\x00' ∨ c = '\n' then some (lexer, .unterminated)
    else if c = '"' then some (lexer, .closed)
    else if c = '\\' then
      let next := lexer.advance 1
      let e ← charAt next 0
      if e = '\x00' ∨ e = '\n' then some (next, .unterminated)
      else
        match ← stringEscape next e with
        | (stop, some ending) => some (stop, ending)
        | (stop, none) => stringLoop fuel stop
    else stringLoop fuel (lexer.advance 1)

def handleStringLiteral (lexer : Lexer) : Option Marked := do
  let start := lexer.mark
  let body := lexer.advance 1
  let (stop, ending) ← stringLoop (lexer.length + 1) body
  match ending with
  | .closed =>
    let text ← readText stop body.position
    emit (stop.advance 1) .string (String.ofList text) start
  | .unterminated =>
    emit (stop.reportError "Unterminated string literal" "\"") .unknown "Unterminated string" start
  | .invalid message got value =>
    let after ← stringTailLoop (lexer.length + 1) stop
    emit (after.reportError message got) .unknown value start

-- Character literals

def charTailLoop : (fuel : Nat) → Lexer → Option Lexer
  | 0, _ => none
  | fuel + 1, lexer => do
    if ← isEOF lexer then some lexer
    else
      let c ← charAt lexer 0
      if c = '\'' then some (lexer.advance 1)
      else if c = '\n' then some lexer
      else charTailLoop fuel (lexer.advance 1)

def hexValue (digits : List Char) : Nat :=
  digits.foldl (fun n c => n * 16 + (lexerHexValue c).getD 0) 0

/-- The escape `e`, which is taken even when it is the terminator. -/
def charEscape (lexer : Lexer) (e : Char) : Option (Lexer × Except ScanEnd Int) :=
  let after := lexer.advance 1
  if e ∈ simpleEscapes then some (after, .ok (simpleEscapeValue e))
  else if e = 'u' then do
    let (digits, stop) ← readAtMost isxdigit 4 after
    some (stop, if digits.length ≠ 4 then
      .error (.invalid "Invalid \\u escape in character literal" "\\u" "Invalid \\u escape")
      else .ok (toInt32 (hexValue digits)))
  else if e = 'U' then do
    let (digits, stop) ← readAtMost isxdigit 8 after
    some (stop, if digits.length ≠ 8 then
      .error (.invalid "Invalid \\U escape in character literal" "\\U" "Invalid \\U escape")
      else .ok (toInt32 (hexValue digits)))
  else if e = 'x' then do
    let (digits, stop) ← readWhile isxdigit after
    some (stop, if digits.isEmpty then
      .error (.invalid "Invalid \\x escape in character literal" "\\x" "Invalid \\x escape")
      else .ok (toInt32 (hexValue digits)))
  else if isOctalDigit e then do
    let (digits, stop) ← readAtMost isOctalDigit 2 after
    some (stop,
      .ok ((e :: digits).foldl (fun (n : Int) c => n * 8 + (c.toNat - '0'.toNat : Nat)) 0))
  else
    -- a terminator ends the quoted text before it
    some (after, .error (.invalid "Invalid escape in character literal"
      (if e = '\x00' then "\\" else formatSimpleEscape e) "Invalid escape"))

def charLoop : (fuel : Nat) → CharValue → Lexer → Option (Lexer × ScanEnd × CharValue)
  | 0, _, _ => none
  | fuel + 1, v, lexer => do
    let c ← charAt lexer 0
    if c = '\x00' ∨ c = '\n' then some (lexer, .unterminated, v)
    else if c = '\'' then some (lexer.advance 1, .closed, v)
    else if c = '\\' then
      let next := lexer.advance 1
      let e ← charAt next 0
      match ← charEscape next e with
      | (stop, .error ending) => some (stop, ending, v)
      | (stop, .ok val) => charLoop fuel (v.push val) stop
    else charLoop fuel (v.push c.toNat) (lexer.advance 1)

def handleCharLiteral (lexer : Lexer) : Option Marked := do
  let start := lexer.mark
  let (stop, ending, v) ← charLoop (lexer.length + 1) ⟨0, 0, 0⟩ (lexer.advance 1)
  match ending with
  | .closed =>
    if v.count = 0 then
      emit (stop.reportError "Empty character literal" "''") .unknown "Invalid character literal" start
    else emit stop .charLiteral (toString v.final) start
  | .unterminated =>
    emit (stop.reportError "Unterminated character literal" "'") .unknown "Invalid character literal" start
  | .invalid message got value =>
    let after ← charTailLoop (lexer.length + 1) stop
    emit (after.reportError message got) .unknown value start

-- Directives

/-- `count` characters from `i` on are blanks; the first other one ends the loop. -/
def blanksAt (lexer : Lexer) : (count : Nat) → (i : Nat) → Option Bool
  | 0, _ => some true
  | count + 1, i => do
    let c ← sourceAt lexer i
    if c == ' ' || c == '\t' || c == '\r' then blanksAt lexer count (i + 1) else some false

def skipSpacesLoop : (fuel : Nat) → Lexer → Option Lexer
  | 0, _ => none
  | fuel + 1, lexer => do
    let c ← charAt lexer 0
    if !isspace c then some lexer
    else if c = '\n' then skipSpacesLoop fuel lexer.newline
    else skipSpacesLoop fuel (lexer.advance 1)

def handlePreprocessorDirective (lexer : Lexer) : Option Marked := do
  let start := lexer.mark
  let atLineStart ← blanksAt lexer (lexer.position - lexer.lineStart) lexer.lineStart
  let after := lexer.advance 1
  if !atLineStart then
    let c ← charAt after 0
    if c = '#' then emit (after.advance 1) .doubleHash "##" start else emit after .hash "#" start
  else
    let name ← skipSpacesLoop (lexer.length + 1) after
    let c ← charAt name 0
    if !c.isAlpha && c != '_' then emit name .hash "#" start
    else
      let (_, stop) ← readWhile isWord name
      let directive := String.ofList (← readText stop name.position)
      emit stop (directiveTokenType directive) directive start

-- Comments, operators and punctuation

def blockCommentLoop : (fuel : Nat) → Lexer → Option (Lexer × Bool)
  | 0, _ => none
  | fuel + 1, lexer => do
    let c ← charAt lexer 0
    let d ← (if c = '*' then charAt lexer 1 else some '\x00')
    if c = '*' ∧ d = '/' then some (lexer.advance 2, true)
    else if c = '\x00' then some (lexer, false)
    else if c = '\n' then blockCommentLoop fuel lexer.newline
    else blockCommentLoop fuel (lexer.advance 1)

def handleComment (next : Lexer → Option Marked) (lexer : Lexer) : Option Marked := do
  let start := lexer.mark
  let slash ← charAt lexer 0
  let c ← (if slash = '\x00' then some '\x00' else charAt lexer 1)
  if c = '\x00' then emit (lexer.advance 1) .divide "/" start
  else if c = '=' then emit (lexer.advance 2) .divAssign "/=" start
  else if c = '/' then
    let (_, stop) ← readWhile (fun d => d != '\n' && d != '\x00') (lexer.advance 2)
    next stop
  else if c = '*' then
    let (stop, closed) ← blockCommentLoop (lexer.length + 1) (lexer.advance 2)
    if closed then next stop
    else
      emit (stop.reportError "Unterminated block comment" "/*") .unknown "Unterminated comment" start
  else emit (lexer.advance 1) .divide "/" start

def handleUnknownToken (lexer : Lexer) : Option Marked := do
  let start := lexer.mark
  let bad ← charAt lexer 0
  let after := lexer.advance 1
  if bad = '@' then
    if lexerIsSystemHeaderPath (lexerFilePath lexer) then emit after .unknown "@" start
    else emit (after.reportError "Invalid character in source" "@") .unknown "ERROR" start
  else
    let got := if isprint bad then String.ofList [bad] else hexByte bad.toNat
    emit (after.reportError "Invalid character in source" got) .unknown "ERROR" start

/-- No operator reads further than it has to. -/
def handleOperator (lexer : Lexer) : Option Marked := do
  let c ← charAt lexer 0
  let d ← (if c = '~' then some '\x00' else charAt lexer 1)
  let e ← (if (c = '<' ∨ c = '>') ∧ d = c then charAt lexer 2 else some '\x00')
  match operatorToken c d e with
  | some (type, text) => emit (lexer.advance text.length) type text lexer.mark
  | none => handleUnknownToken lexer

def handlePunctuation (lexer : Lexer) : Option Marked := do
  let c ← charAt lexer 0
  let d ← (if c = '.' then charAt lexer 1 else some '\x00')
  let e ← (if c = '.' ∧ d = '.' then charAt lexer 2 else some '\x00')
  match punctuationToken c d e with
  | some (type, text) => emit (lexer.advance text.length) type text lexer.mark
  | none => emit (lexer.advance 1) .unknown "Unknown punctuation" lexer.mark

-- The token stream

/-- `n` is the character behind the backslash. -/
def handleUnsupportedUcn (n : Char) (lexer : Lexer) : Option Marked := do
  let (_, stop) ← readAtMost isxdigit (if n = 'u' then 4 else 8) (lexer.advance 2)
  let text := String.ofList (← readText stop lexer.position)
  emit (stop.reportError "universal character names in identifiers are not supported yet" text)
    .unknown text lexer.mark

def retag (f : Token → Token) (r : Marked) : Marked := (r.1, f r.2.1, r.2.2)

def dispatchToken (next : Lexer → Option Marked) (lexer : Lexer) : Option Marked := do
  let c ← charAt lexer 0
  let n ← guardedAt lexer 1
  let n2 ← guardedAt lexer 2
  if c = 'u' ∧ n = '8' ∧ n2 = '"' then
    (handleStringLiteral (lexer.advance 2)).map (retag (prependLiteralPrefix · "U8|"))
  else if (c = 'L' ∨ c = 'u' ∨ c = 'U') ∧ n = '"' then
    (handleStringLiteral (lexer.advance 1)).map (retag (prependLiteralPrefix · "W|"))
  else if (c = 'L' ∨ c = 'u' ∨ c = 'U') ∧ n = '\'' then
    (handleCharLiteral (lexer.advance 1)).map (retag (prependLiteralPrefix · "W|"))
  else if c = '\\' ∧ (n = 'u' ∨ n = 'U') then
    let ucnLength ← lexerIdentifierUcnLength lexer
    if 0 < ucnLength then handleIdentifierOrKeyword lexer else handleUnsupportedUcn n lexer
  else
    let utf8Length ← (if c.isAlpha ∨ c = '_' then some 0 else lexerIdentifierUtf8Length lexer)
    if c.isAlpha ∨ c = '_' ∨ 0 < utf8Length then handleIdentifierOrKeyword lexer
    else if c.isDigit then handleNumber lexer
    else if c = '.' ∧ n.isDigit then handleNumber lexer
    else if c = '"' then (handleStringLiteral lexer).map (retag markAmbiguousNarrowStringLiteral)
    else if c = '\'' then handleCharLiteral lexer
    else if c = '#' then handlePreprocessorDirective lexer
    else if c = '/' then handleComment next lexer
    else if c ∈ "=+-*/%<>!&|^~".toList then handleOperator lexer
    else if c ∈ ['?', ':', ';', ',', '(', ')', '\x7b', '\x7d', '[', ']', '.'] then
      handlePunctuation lexer
    else handleUnknownToken lexer

def getNextTokenFuel : (fuel : Nat) → Lexer → Option Marked
  | 0, _ => none
  | fuel + 1, lexer => do
    let lexer ← skipWhitespace lexer
    if ← isEOF lexer then emit (lexer.advance 1) .eof "EOF" lexer.mark
    else dispatchToken (getNextTokenFuel fuel) lexer

def getNextToken (lexer : Lexer) : Option Marked := getNextTokenFuel (lexer.length + 1) lexer

end Fisics.Reads
