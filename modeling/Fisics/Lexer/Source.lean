import Fisics.Lexer.Token
import Mathlib.Algebra.Group.Nat.Defs
import Mathlib.Algebra.Ring.Int.Defs

/-!
# Source translation and the lexer state

`translateSource` is the first pass over a file: trigraphs, line splices and
digraphs, with the raw line and column of every character it writes. The lexer
then reads the translated text. Reading at or past the end gives the
terminating NUL.
-/

namespace Fisics

-- Character classes of the C locale

def isspace (c : Char) : Bool :=
  c == ' ' || c == '\t' || c == '\n' || c == '\x0b' || c == '\x0c' || c == '\r'

def isxdigit (c : Char) : Bool :=
  c.isDigit || ('a' ≤ c && c ≤ 'f') || ('A' ≤ c && c ≤ 'F')

def isprint (c : Char) : Bool := ' ' ≤ c && c ≤ '~'

/-- An identifier character of the basic set: `isalnum(c) || c == '_'`. -/
def isWord (c : Char) : Bool := c.isAlphanum || c == '_'

def isOctalDigit (c : Char) : Bool := '0' ≤ c && c ≤ '7'

def lexerHexValue (c : Char) : Option Nat :=
  if c.isDigit then some (c.toNat - '0'.toNat)
  else if 'a' ≤ c ∧ c ≤ 'f' then some (c.toNat - 'a'.toNat + 10)
  else if 'A' ≤ c ∧ c ≤ 'F' then some (c.toNat - 'A'.toNat + 10)
  else none

-- Translation

@[grind] def translateTrigraphChar : Char → Option Char
  | '=' => some '#'
  | '/' => some '\\'
  | '\'' => some '^'
  | '<' => some '\x7b'
  | '>' => some '\x7d'
  | '!' => some '|'
  | '(' => some '['
  | ')' => some ']'
  | '-' => some '~'
  | _ => none

/-- The trigraph at the head of the text: what it writes, with column offsets,
and how many raw characters it takes. A trigraph backslash before a newline is
a line splice. -/
def translateTrigraph : List Char → Option (List (Char × Nat) × Nat)
  | '?' :: '?' :: c :: rest =>
    match translateTrigraphChar c, rest with
    | some '\\', '\n' :: _ => some ([], 4)
    | some '\\', '\r' :: '\n' :: _ => some ([], 5)
    | some mapped, _ => some ([(mapped, 0)], 3)
    | none, _ => none
  | _ => none

/-- Splices and digraphs, in the order in which the source tests them. -/
@[grind] def translateDigraph : List Char → List (Char × Nat) × Nat
  | '\\' :: '\n' :: _ => ([], 2)
  | '\\' :: '\r' :: '\n' :: _ => ([], 3)
  | '%' :: ':' :: '%' :: ':' :: _ => ([('#', 0), ('#', 2)], 4)
  | '%' :: ':' :: _ => ([('#', 0)], 2)
  | '<' :: ':' :: _ => ([('[', 0)], 2)
  | ':' :: '>' :: _ => ([(']', 0)], 2)
  | '<' :: '%' :: _ => ([('\x7b', 0)], 2)
  | '%' :: '>' :: _ => ([('\x7d', 0)], 2)
  | c :: _ => ([(c, 0)], 1)
  | [] => ([], 1)

/-- One round of the loop of `translate_source`. -/
def translateAt (enableTrigraphs : Bool) (text : List Char) : List (Char × Nat) × Nat :=
  if enableTrigraphs then (translateTrigraph text).getD (translateDigraph text)
  else translateDigraph text

structure MappedChar where
  char : Char
  line : Nat
  column : Nat
  deriving DecidableEq

def advanceRawPosition (c : Char) (pos : Nat × Nat) : Nat × Nat :=
  if c = '\n' then (pos.1 + 1, 1) else (pos.1, pos.2 + 1)

/-- `skip` counts the raw characters of the current round still to pass over;
the result also has the raw position of the terminator. -/
def translateLoop (enableTrigraphs : Bool) :
    (skip : Nat) → (pos : Nat × Nat) → List Char → List MappedChar × (Nat × Nat)
  | _, pos, [] => ([], pos)
  | skip + 1, pos, c :: rest =>
    translateLoop enableTrigraphs skip (advanceRawPosition c pos) rest
  | 0, pos, c :: rest =>
    let round := translateAt enableTrigraphs (c :: rest)
    let tail := translateLoop enableTrigraphs (round.2 - 1) (advanceRawPosition c pos) rest
    (round.1.map (fun w => ⟨w.1, pos.1, pos.2 + w.2⟩) ++ tail.1, tail.2)

def translateSource (enableTrigraphs : Bool) (source : List Char) :
    List MappedChar × (Nat × Nat) :=
  translateLoop enableTrigraphs 0 (1, 1) source

-- The lexer state

structure Lexer where
  source : List Char
  filePath : Option String
  position : Nat
  line : Nat
  lineStart : Nat
  /-- Message and offending text of every `report_lexer_error`; its length is
  `fatalErrorCount`. -/
  errors : List (String × String)
  rawLineMap : List Nat
  rawColumnMap : List Nat
  enableTrigraphs : Bool

structure LexerMark where
  position : Nat
  line : Nat
  lineStart : Nat
  deriving DecidableEq

namespace Lexer

def length (lexer : Lexer) : Nat := lexer.source.length

/-- The character `k` places after the position. -/
def peek (lexer : Lexer) (k : Nat) : Char := lexer.source.getD (lexer.position + k) '\x00'

def cur (lexer : Lexer) : Char := lexer.peek 0

def advance (lexer : Lexer) (n : Nat) : Lexer := { lexer with position := lexer.position + n }

def rest (lexer : Lexer) : List Char := lexer.source.drop lexer.position

def skipWhile (lexer : Lexer) (p : Char → Bool) : Lexer :=
  lexer.advance (lexer.rest.takeWhile p).length

def textFrom (lexer : Lexer) (start : Nat) : String :=
  String.ofList ((lexer.source.drop start).take (lexer.position - start))

def newline (lexer : Lexer) : Lexer :=
  { lexer with position := lexer.position + 1, line := lexer.line + 1, lineStart := lexer.position + 1 }

def mark (lexer : Lexer) : LexerMark := ⟨lexer.position, lexer.line, lexer.lineStart⟩

def isEOF (lexer : Lexer) : Bool := lexer.length ≤ lexer.position || lexer.cur == '\x00'

def reportError (lexer : Lexer) (message got : String) : Lexer :=
  { lexer with errors := lexer.errors ++ [(message, got)] }

end Lexer

def initLexer (source : List Char) (filePath : Option String) (enableTrigraphs : Bool) : Lexer :=
  let translated := translateSource enableTrigraphs source
  { source := translated.1.map MappedChar.char
    filePath
    position := 0
    line := 1
    lineStart := 0
    errors := []
    rawLineMap := translated.1.map MappedChar.line ++ [translated.2.1]
    rawColumnMap := translated.1.map MappedChar.column ++ [translated.2.2]
    enableTrigraphs }

def lexerFilePath (lexer : Lexer) : String := lexer.filePath.getD "<unknown>"

def lexerComputeColumn (position lineStart : Nat) : Int :=
  let column : Int := (position : Int) - lineStart + 1
  if column < 1 then 1 else column

/-- Raw line and column of a mark; the translated column stands unless the raw
line differs from the translated one. -/
def lexerMarkSourceLocation (lexer : Lexer) (mark : LexerMark) : Int × Int :=
  let mappedLine := lexer.rawLineMap.getD mark.position 0
  let mappedColumn := lexer.rawColumnMap.getD mark.position 0
  let column := lexerComputeColumn mark.position mark.lineStart
  if mark.position ≤ lexer.length ∧ 0 < mappedLine then
    (mappedLine, if mappedLine ≠ mark.line ∧ 0 < mappedColumn then mappedColumn else column)
  else (mark.line, column)

def lexerBuildLocation (lexer : Lexer) (mark : LexerMark) : SourceLocation :=
  ⟨some (lexerFilePath lexer), mark.line, lexerComputeColumn mark.position mark.lineStart⟩

def makeToken (lexer : Lexer) (type : TokenType) (value : String) (start : LexerMark) : Token :=
  let spelling := lexerMarkSourceLocation lexer start
  { type
    value := some value
    line := start.line
    spellingLine := spelling.1
    spellingColumn := spelling.2
    location := ⟨lexerBuildLocation lexer start, lexerBuildLocation lexer lexer.mark⟩
    macroCallSite := emptyRange
    macroDefinition := emptyRange }

/-- Blank space and splices from the position on. A splice does not count as a
line here; translation has removed them already. -/
def skipBlank : List Char → Lexer → Lexer
  | '\\' :: '\n' :: rest, lexer => skipBlank rest (lexer.advance 2)
  | '\\' :: '\r' :: '\n' :: rest, lexer => skipBlank rest (lexer.advance 3)
  | c :: rest, lexer =>
    if !isspace c then lexer
    else if c = '\n' then skipBlank rest lexer.newline
    else skipBlank rest (lexer.advance 1)
  | [], lexer => lexer

def skipWhitespace (lexer : Lexer) : Lexer := skipBlank lexer.rest lexer

end Fisics
