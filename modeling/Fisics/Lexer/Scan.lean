import Fisics.Lexer.Handlers

/-!
# Literals, directives, operators and the token stream

The rest of the handlers, `getNextToken` and the loop that fills a token
buffer. Comments are not tokens: their handler reads the next token instead,
which is why `getNextTokenFuel` carries a bound on the comments it may pass.
-/

namespace Fisics

-- String literals

/-- How a literal's scan ends. `invalid` has the message, the text it quotes
and the value of the token. -/
inductive ScanEnd
  | closed
  | unterminated
  | invalid (message got value : String)
  deriving DecidableEq

/-- Length of the run of at most `limit` hex digits at the head. -/
def hexRun (limit : Nat) (text : List Char) : Nat := ((text.take limit).takeWhile isxdigit).length

def simpleEscapes : List Char := ['n', 't', 'r', 'b', 'f', 'a', 'v', '\\', '\'', '"', '?']

/-- `format_simple_escape` -/
def formatSimpleEscape (c : Char) : String := String.ofList ['\\', c]

/-- The escape after a backslash: characters taken, and how the literal ends
if it ends here. -/
def stringEscape : List Char → Nat × Option ScanEnd
  | [] => (0, some .unterminated)
  | '\n' :: _ => (0, some .unterminated)
  | e :: rest =>
    if e ∈ simpleEscapes then (1, none)
    else if e = 'x' then
      let run := (rest.takeWhile isxdigit).length
      if run = 0 then
        (1, some (.invalid "Invalid \\x escape in string literal" "\\x" "Invalid \\x escape"))
      else (1 + run, none)
    else if e = 'u' then
      let run := hexRun 4 rest
      (1 + run, if run ≠ 4 then
        some (.invalid "Invalid \\u escape in string literal" "\\u" "Invalid \\u escape") else none)
    else if e = 'U' then
      let run := hexRun 8 rest
      (1 + run, if run ≠ 8 then
        some (.invalid "Invalid \\U escape in string literal" "\\U" "Invalid \\U escape") else none)
    else if isOctalDigit e then (1 + ((rest.take 2).takeWhile isOctalDigit).length, none)
    else (0, some (.invalid "Invalid escape in string literal" (formatSimpleEscape e)
      "Invalid escape"))

/-- Characters read up to the end of the literal, and how it ends. -/
def stringScan : (skip : Nat) → List Char → Nat × ScanEnd
  | _, [] => (0, .unterminated)
  | skip + 1, _ :: rest => let r := stringScan skip rest; (r.1 + 1, r.2)
  | 0, c :: rest =>
    if c = '\n' then (0, .unterminated)
    else if c = '"' then (0, .closed)
    else if c = '\\' then
      match stringEscape rest with
      | (taken, some stop) => (1 + taken, stop)
      | (taken, none) => let r := stringScan taken rest; (r.1 + 1, r.2)
    else let r := stringScan 0 rest; (r.1 + 1, r.2)

/-- `consume_string_literal_tail_after_error` -/
def stringTail : (escaped : Bool) → List Char → Nat
  | _, [] => 0
  | true, c :: rest => if c = '\n' then 0 else stringTail false rest + 1
  | false, c :: rest =>
    if c = '"' then 1
    else if c = '\n' then 0
    else stringTail (c == '\\') rest + 1

def handleStringLiteral (lexer : Lexer) : Token × Lexer :=
  let start := lexer.mark
  let body := lexer.advance 1
  let scan := stringScan 0 body.rest
  let stop := body.advance scan.1
  match scan.2 with
  | .closed => emit (stop.advance 1) .string (stop.textFrom body.position) start
  | .unterminated =>
    emit (stop.reportError "Unterminated string literal" "\"") .unknown "Unterminated string" start
  | .invalid message got value =>
    let after := stop.advance (stringTail false stop.rest)
    emit (after.reportError message got) .unknown value start

-- Character literals

/-- An `int` of the source: 32 bits, two's complement. -/
def toInt32 (value : Nat) : Int := (BitVec.ofNat 32 value).toInt

def hexRunValue (limit : Nat) (text : List Char) : Nat :=
  ((text.take limit).takeWhile isxdigit).foldl (fun n c => n * 16 + (lexerHexValue c).getD 0) 0

def simpleEscapeValue (c : Char) : Int :=
  if c = 'n' then 10 else if c = 't' then 9 else if c = 'r' then 13 else if c = 'b' then 8
  else if c = 'f' then 12 else if c = 'a' then 7 else if c = 'v' then 11 else c.toNat

/-- The escape after a backslash: characters taken, and its value or error. At
the end of the text the NUL itself is taken. -/
def charEscape : List Char → Nat × Except ScanEnd Int
  | [] => (1, .error (.invalid "Invalid escape in character literal" "\\" "Invalid escape"))
  | e :: rest =>
    if e ∈ simpleEscapes then (1, .ok (simpleEscapeValue e))
    else if e = 'u' then
      let run := hexRun 4 rest
      (1 + run, if run ≠ 4 then
        .error (.invalid "Invalid \\u escape in character literal" "\\u" "Invalid \\u escape")
        else .ok (toInt32 (hexRunValue 4 rest)))
    else if e = 'U' then
      let run := hexRun 8 rest
      (1 + run, if run ≠ 8 then
        .error (.invalid "Invalid \\U escape in character literal" "\\U" "Invalid \\U escape")
        else .ok (toInt32 (hexRunValue 8 rest)))
    else if e = 'x' then
      let run := (rest.takeWhile isxdigit).length
      (1 + run, if run = 0 then
        .error (.invalid "Invalid \\x escape in character literal" "\\x" "Invalid \\x escape")
        else .ok (toInt32 (hexRunValue run rest)))
    else if isOctalDigit e then
      let digits := (rest.take 2).takeWhile isOctalDigit
      (1 + digits.length,
        .ok ((e :: digits).foldl (fun (n : Int) c => n * 8 + (c.toNat - '0'.toNat : Nat)) 0))
    else (1, .error (.invalid "Invalid escape in character literal" (formatSimpleEscape e)
      "Invalid escape"))

/-- The characters read so far: `accum`, `count` and `lastVal`. -/
structure CharValue where
  accum : Nat
  count : Nat
  lastVal : Int

def CharValue.push (v : CharValue) (val : Int) : CharValue :=
  let byte := (val % 256).toNat
  ⟨if v.count = 0 then byte else (v.accum * 256 + byte) % 2 ^ 64, v.count + 1, val⟩

def CharValue.final (v : CharValue) : Nat :=
  if v.count = 1 then (v.lastVal % 2 ^ 64).toNat else v.accum

def charScan : (skip : Nat) → CharValue → List Char → Nat × ScanEnd × CharValue
  | _, v, [] => (0, .unterminated, v)
  | skip + 1, v, _ :: rest => let r := charScan skip v rest; (r.1 + 1, r.2)
  | 0, v, c :: rest =>
    if c = '\n' then (0, .unterminated, v)
    else if c = '\'' then (1, .closed, v)
    else if c = '\\' then
      match charEscape rest with
      | (taken, .error stop) => (1 + taken, stop, v)
      | (taken, .ok val) => let r := charScan taken (v.push val) rest; (r.1 + 1, r.2)
    else let r := charScan 0 (v.push c.toNat) rest; (r.1 + 1, r.2)

/-- `consume_char_literal_tail_after_error` -/
def charTail : List Char → Nat
  | [] => 0
  | c :: rest => if c = '\'' then 1 else if c = '\n' then 0 else charTail rest + 1

def handleCharLiteral (lexer : Lexer) : Token × Lexer :=
  let start := lexer.mark
  let body := lexer.advance 1
  let scan := charScan 0 ⟨0, 0, 0⟩ body.rest
  let stop := body.advance scan.1
  match scan.2.1 with
  | .closed =>
    if scan.2.2.count = 0 then
      emit (stop.reportError "Empty character literal" "''") .unknown "Invalid character literal" start
    else emit stop .charLiteral (toString scan.2.2.final) start
  | .unterminated =>
    emit (stop.reportError "Unterminated character literal" "'") .unknown "Invalid character literal" start
  | .invalid message got value =>
    let after := stop.advance (charTail stop.rest)
    emit (after.reportError message got) .unknown value start

-- Directives

def skipSpaces : List Char → Lexer → Lexer
  | [], lexer => lexer
  | c :: rest, lexer =>
    if !isspace c then lexer
    else if c = '\n' then skipSpaces rest lexer.newline
    else skipSpaces rest (lexer.advance 1)

def directiveTokenType (directive : String) : TokenType :=
  if directive = "include" then .include
  else if directive = "include_next" then .includeNext
  else if directive = "define" then .define
  else if directive = "undef" then .undef
  else if directive = "ifdef" then .ifdef
  else if directive = "ifndef" then .ifndef
  else if directive = "if" then .ppIf
  else if directive = "elif" then .ppElif
  else if directive = "else" then .ppElse
  else if directive = "endif" then .endif
  else if directive = "pragma" then .pragma
  else .preprocessorOther

def atLineStart (lexer : Lexer) : Bool :=
  ((lexer.source.drop lexer.lineStart).take (lexer.position - lexer.lineStart)).all
    (fun c => c == ' ' || c == '\t' || c == '\r')

def handlePreprocessorDirective (lexer : Lexer) : Token × Lexer :=
  let start := lexer.mark
  let after := lexer.advance 1
  if !atLineStart lexer then
    if after.cur = '#' then emit (after.advance 1) .doubleHash "##" start
    else emit after .hash "#" start
  else
    let name := skipSpaces after.rest after
    if !name.cur.isAlpha && name.cur != '_' then emit name .hash "#" start
    else
      let stop := name.skipWhile isWord
      let directive := stop.textFrom name.position
      emit stop (directiveTokenType directive) directive start

-- Comments, operators and punctuation

/-- The text of a block comment after its opening: the lexer behind the closing
`*/`, or at the terminator when there is none. -/
def skipBlockComment : List Char → Lexer → Lexer × Bool
  | [], lexer => (lexer, false)
  | '*' :: '/' :: _, lexer => (lexer.advance 2, true)
  | c :: rest, lexer =>
    if c = '\n' then skipBlockComment rest lexer.newline
    else skipBlockComment rest (lexer.advance 1)

/-- `next` reads the token after a comment. -/
def handleComment (next : Lexer → Token × Lexer) (lexer : Lexer) : Token × Lexer :=
  let start := lexer.mark
  let c := lexer.peek 1
  if c = '\x00' then emit (lexer.advance 1) .divide "/" start
  else if c = '=' then emit (lexer.advance 2) .divAssign "/=" start
  else if c = '/' then next ((lexer.advance 2).skipWhile (fun d => d != '\n' && d != '\x00'))
  else if c = '*' then
    let stop := skipBlockComment (lexer.advance 2).rest (lexer.advance 2)
    if stop.2 then next stop.1
    else emit (stop.1.reportError "Unterminated block comment" "/*") .unknown
      "Unterminated comment" start
  else emit (lexer.advance 1) .divide "/" start

/-- Type and spelling of the operator `c` followed by `d` and `e`. -/
def operatorToken (c d e : Char) : Option (TokenType × String) :=
  match c with
  | '=' => if d = '=' then some (.equal, "==") else some (.assign, "=")
  | '+' =>
    if d = '+' then some (.increment, "++")
    else if d = '=' then some (.plusAssign, "+=") else some (.plus, "+")
  | '-' =>
    if d = '-' then some (.decrement, "--")
    else if d = '=' then some (.minusAssign, "-=")
    else if d = '>' then some (.arrow, "->") else some (.minus, "-")
  | '*' => if d = '=' then some (.multAssign, "*=") else some (.asterisk, "*")
  | '%' => if d = '=' then some (.modAssign, "%=") else some (.modulo, "%")
  | '<' =>
    if d = '<' then if e = '=' then some (.leftShiftAssign, "<<=") else some (.leftShift, "<<")
    else if d = '=' then some (.lessEqual, "<=") else some (.less, "<")
  | '>' =>
    if d = '>' then if e = '=' then some (.rightShiftAssign, ">>=") else some (.rightShift, ">>")
    else if d = '=' then some (.greaterEqual, ">=") else some (.greater, ">")
  | '!' => if d = '=' then some (.notEqual, "!=") else some (.logicalNot, "!")
  | '&' =>
    if d = '&' then some (.logicalAnd, "&&")
    else if d = '=' then some (.bitwiseAndAssign, "&=") else some (.bitwiseAnd, "&")
  | '|' =>
    if d = '|' then some (.logicalOr, "||")
    else if d = '=' then some (.bitwiseOrAssign, "|=") else some (.bitwiseOr, "|")
  | '^' => if d = '=' then some (.bitwiseXorAssign, "^=") else some (.bitwiseXor, "^")
  | '~' => some (.bitwiseNot, "~")
  | _ => none

/-- Type and spelling of the punctuator `c` followed by `d` and `e`. -/
def punctuationToken (c d e : Char) : Option (TokenType × String) :=
  match c with
  | '?' => some (.question, "?")
  | ';' => some (.semicolon, ";")
  | ',' => some (.comma, ",")
  | '.' => if d = '.' ∧ e = '.' then some (.ellipsis, "...") else some (.dot, ".")
  | '(' => some (.lparen, "(")
  | ')' => some (.rparen, ")")
  | '\x7b' => some (.lbrace, "\x7b")
  | '\x7d' => some (.rbrace, "\x7d")
  | '[' => some (.lbracket, "[")
  | ']' => some (.rbracket, "]")
  | ':' => some (.colon, ":")
  | _ => none

def lexerIsSystemHeaderPath (file : String) : Bool :=
  ["/usr/include/", "/usr/local/include/", "/opt/homebrew/include/", "/Library/Developer/",
    "/Applications/Xcode.app/", "/Applications/Xcode-beta.app/", "/Library/Frameworks/",
    "/System/Library/"].any (fun path => path.toList.isPrefixOf file.toList)

def hexByte (n : Nat) : String :=
  let digit (k : Nat) : Char := ("0123456789ABCDEF".toList).getD k '0'
  String.ofList ['\\', 'x', digit (n / 16 % 16), digit (n % 16)]

def handleUnknownToken (lexer : Lexer) : Token × Lexer :=
  let start := lexer.mark
  let bad := lexer.cur
  let after := lexer.advance 1
  if bad = '@' then
    if lexerIsSystemHeaderPath (lexerFilePath lexer) then emit after .unknown "@" start
    else emit (after.reportError "Invalid character in source" "@") .unknown "ERROR" start
  else
    let got := if isprint bad then String.ofList [bad] else hexByte bad.toNat
    emit (after.reportError "Invalid character in source" got) .unknown "ERROR" start

def handleOperator (lexer : Lexer) : Token × Lexer :=
  match operatorToken lexer.cur (lexer.peek 1) (lexer.peek 2) with
  | some (type, text) => emit (lexer.advance text.length) type text lexer.mark
  | none => handleUnknownToken lexer

def handlePunctuation (lexer : Lexer) : Token × Lexer :=
  match punctuationToken lexer.cur (lexer.peek 1) (lexer.peek 2) with
  | some (type, text) => emit (lexer.advance text.length) type text lexer.mark
  | none => emit (lexer.advance 1) .unknown "Unknown punctuation" lexer.mark

-- The token stream

def prependLiteralPrefix (tok : Token) (tag : String) : Token :=
  { tok with value := tok.value.map (tag ++ ·) }

def markAmbiguousNarrowStringLiteral (tok : Token) : Token :=
  if tok.type = .string ∧
      (['W', '|'].isPrefixOf (tokenText tok).toList ∨ ['U', '8', '|'].isPrefixOf (tokenText tok).toList)
  then prependLiteralPrefix tok "N|" else tok

/-- A universal character name that no identifier may start with. -/
def handleUnsupportedUcn (lexer : Lexer) : Token × Lexer :=
  let digits := if lexer.peek 1 = 'u' then 4 else 8
  let stop := lexer.advance (2 + hexRun digits (lexer.rest.drop 2))
  let text := stop.textFrom lexer.position
  emit (stop.reportError "universal character names in identifiers are not supported yet" text)
    .unknown text lexer.mark

/-- The dispatch of `getNextToken` on a lexer that stands at a character. -/
def dispatchToken (next : Lexer → Token × Lexer) (lexer : Lexer) : Token × Lexer :=
  let c := lexer.cur
  let n := lexer.peek 1
  if c = 'u' ∧ n = '8' ∧ lexer.peek 2 = '"' then
    let r := handleStringLiteral (lexer.advance 2)
    (prependLiteralPrefix r.1 "U8|", r.2)
  else if (c = 'L' ∨ c = 'u' ∨ c = 'U') ∧ n = '"' then
    let r := handleStringLiteral (lexer.advance 1)
    (prependLiteralPrefix r.1 "W|", r.2)
  else if (c = 'L' ∨ c = 'u' ∨ c = 'U') ∧ n = '\'' then
    let r := handleCharLiteral (lexer.advance 1)
    (prependLiteralPrefix r.1 "W|", r.2)
  else if c = '\\' ∧ (n = 'u' ∨ n = 'U') then
    if 0 < lexerIdentifierUcnLength lexer.rest then handleIdentifierOrKeyword lexer
    else handleUnsupportedUcn lexer
  else if c.isAlpha ∨ c = '_' ∨ 0 < lexerIdentifierUtf8Length lexer.rest then
    handleIdentifierOrKeyword lexer
  else if c.isDigit then handleNumber lexer
  else if c = '.' ∧ n.isDigit then handleNumber lexer
  else if c = '"' then
    let r := handleStringLiteral lexer
    (markAmbiguousNarrowStringLiteral r.1, r.2)
  else if c = '\'' then handleCharLiteral lexer
  else if c = '#' then handlePreprocessorDirective lexer
  else if c = '/' then handleComment next lexer
  else if c ∈ "=+-*/%<>!&|^~".toList then handleOperator lexer
  else if c ∈ ['?', ':', ';', ',', '(', ')', '\x7b', '\x7d', '[', ']', '.'] then
    handlePunctuation lexer
  else handleUnknownToken lexer

/-- `fuel` bounds the comments before the token. Each takes two characters, so
the length of the text is always enough. -/
def getNextTokenFuel : (fuel : Nat) → Lexer → Token × Lexer
  | 0, lexer => emit (lexer.advance 1) .eof "EOF" lexer.mark
  | fuel + 1, lexer =>
    let lexer := skipWhitespace lexer
    if lexer.isEOF then emit (lexer.advance 1) .eof "EOF" lexer.mark
    else dispatchToken (getNextTokenFuel fuel) lexer

def getNextToken (lexer : Lexer) : Token × Lexer := getNextTokenFuel (lexer.length + 1) lexer

/-- The loop of `token_buffer_fill_from_lexer`: `budget` is what is left of the
safety limit, and the flag is the function's result. -/
def fillFromLexer : (budget : Nat) → Lexer → List Token × Bool
  | budget, lexer =>
    let r := getNextToken lexer
    if r.1.type = .eof then ([r.1], true)
    else
      match budget with
      | 0 => ([r.1], false)
      | budget + 1 => let tail := fillFromLexer budget r.2; (r.1 :: tail.1, tail.2)

def tokenBufferFillFromLexer (lexer : Lexer) : List Token × Bool :=
  fillFromLexer (if 0 < lexer.length then lexer.length * 4 + 4096 else 4096) lexer

def lexSource (source : List Char) (filePath : Option String) (enableTrigraphs : Bool) :
    List Token × Bool :=
  tokenBufferFillFromLexer (initLexer source filePath enableTrigraphs)

end Fisics
