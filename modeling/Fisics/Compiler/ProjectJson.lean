/-!
# The JSON parser of the project files

`semantic_project_json.c`, on the bytes that are left of the text. A read behind the
end of the text is `outOfBounds`; it stands wherever the source reads a byte that it
did not just find to be there. The loops count their rounds down from the bytes left,
and `spent` is a count that ran out. Allocation does not fail here.

`json_string` is the writer of `semantic_metadata_json.c`.
-/

namespace Fisics.Json

abbrev Bytes := List UInt8

/-- A value with its texts: bytes in the parser. -/
inductive JsonValue (σ : Type)
  | null
  | bool (value : Bool)
  | number (text : σ)
  | string (text : σ)
  | array (items : List (JsonValue σ))
  | object (members : List (σ × JsonValue σ))

/-- Why the parser stops. A failure has the bytes left behind its position, the format of
its diagnostic and the string that goes into it; the format is empty where the source
fails without a diagnostic. -/
inductive JsonStop
  | failed (left : Nat) (format : String) (argument : Bytes)
  | outOfBounds
  | spent
  deriving DecidableEq

abbrev Parse (α : Type) := Except JsonStop α

def jsonError (rest : Bytes) (format : String) : Parse α := .error (.failed rest.length format [])

def byteAt (rest : Bytes) (i : Nat) : Parse UInt8 :=
  match rest[i]? with
  | some b => .ok b
  | none => .error .outOfBounds

def char (c : Char) : UInt8 := c.toNat.toUInt8

def isWhitespace (b : UInt8) : Bool :=
  b == char ' ' || b == char '\t' || b == char '\r' || b == char '\n'

def skipWhitespace (rest : Bytes) : Bytes := rest.dropWhile isWhitespace

def isDigit (b : UInt8) : Bool := char '0' ≤ b && b ≤ char '9'

-- Strings

/-- The bytes of a code point; none for `U+0000`, for surrogates and above `U+10FFFF`. -/
def appendUtf8 (codepoint : Nat) : Option Bytes :=
  if codepoint = 0 then none
  else if codepoint ≤ 0x7f then some [codepoint.toUInt8]
  else if codepoint ≤ 0x7ff then
    some [(0xc0 ||| codepoint >>> 6).toUInt8, (0x80 ||| codepoint &&& 0x3f).toUInt8]
  else if codepoint ≤ 0xffff then
    if 0xd800 ≤ codepoint ∧ codepoint ≤ 0xdfff then none
    else
      some [(0xe0 ||| codepoint >>> 12).toUInt8, (0x80 ||| (codepoint >>> 6) &&& 0x3f).toUInt8,
        (0x80 ||| codepoint &&& 0x3f).toUInt8]
  else if codepoint ≤ 0x10ffff then
    some [(0xf0 ||| codepoint >>> 18).toUInt8, (0x80 ||| (codepoint >>> 12) &&& 0x3f).toUInt8,
      (0x80 ||| (codepoint >>> 6) &&& 0x3f).toUInt8, (0x80 ||| codepoint &&& 0x3f).toUInt8]
  else none

def hexDigit (c : UInt8) : Option Nat :=
  if char '0' ≤ c ∧ c ≤ char '9' then some (c.toNat - 48)
  else if char 'a' ≤ c ∧ c ≤ char 'f' then some (c.toNat - 97 + 10)
  else if char 'A' ≤ c ∧ c ≤ char 'F' then some (c.toNat - 65 + 10)
  else none

def parseHex4Loop : (count value : Nat) → Bytes → Parse (Option Nat × Bytes)
  | 0, value, rest => .ok (some value, rest)
  | _ + 1, _, [] => .error .outOfBounds
  | count + 1, value, c :: rest =>
    match hexDigit c with
    | some digit => parseHex4Loop count (value <<< 4 ||| digit) rest
    | none => .ok (none, rest)

/-- The value of four digits, and what is left behind the last byte read. -/
def parseHex4 (rest : Bytes) : Parse (Option Nat × Bytes) :=
  if rest.length < 4 then .ok (none, rest) else parseHex4Loop 4 0 rest

/-- `(bytes[i] & 0xc0) == 0x80` -/
def continues (bytes : Bytes) (i : Nat) : Parse Bool :=
  (byteAt bytes i).map fun b => b &&& 0xc0 == 0x80

/-- `&&` of the source: the second test is made only when the first holds. -/
def andThen (a b : Parse Bool) : Parse Bool := a.bind fun x => if x then b else .ok false

/-- How many bytes the character at the front has. -/
def validUtf8Sequence (bytes : Bytes) : Parse (Option Nat) := do
  if bytes.length = 0 then return none
  let c ← byteAt bytes 0
  if c < 0x80 then
    return if 0x20 ≤ c then some 1 else none
  if ← andThen (.ok (0xc2 ≤ c && c ≤ 0xdf && 2 ≤ bytes.length)) (continues bytes 1) then
    return some 2
  if ← andThen (andThen (.ok (0xe0 ≤ c && c ≤ 0xef && 3 ≤ bytes.length)) (continues bytes 1))
      (continues bytes 2) then
    let second ← byteAt bytes 1
    return if c = 0xe0 ∧ second < 0xa0 ∨ c = 0xed ∧ 0xa0 ≤ second then none else some 3
  if ← andThen (andThen (andThen (.ok (0xf0 ≤ c && c ≤ 0xf4 && 4 ≤ bytes.length))
      (continues bytes 1)) (continues bytes 2)) (continues bytes 3) then
    let second ← byteAt bytes 1
    return if c = 0xf0 ∧ second < 0x90 ∨ c = 0xf4 ∧ 0x90 ≤ second then none else some 4
  return none

/-- The escapes that stand for one byte. -/
def simpleEscape (escape : UInt8) : Option UInt8 :=
  if escape = char '"' then some (char '"')
  else if escape = char '\\' then some (char '\\')
  else if escape = char '/' then some (char '/')
  else if escape = char 'b' then some 8
  else if escape = char 'f' then some 12
  else if escape = char 'n' then some 10
  else if escape = char 'r' then some 13
  else if escape = char 't' then some 9
  else none

/-- The second half of a surrogate pair: `text[position]` and `text[position + 1]` are
read after the length was checked. -/
def parseLowSurrogate (high : Nat) (rest : Bytes) : Parse (Nat × Bytes) := do
  if rest.length < 6 then jsonError rest "unpaired high surrogate"
  else if (← byteAt rest 0) ≠ char '\\' then jsonError rest "unpaired high surrogate"
  else if (← byteAt rest 1) ≠ char 'u' then jsonError rest "unpaired high surrogate"
  else
    let (low, rest) ← parseHex4 (rest.drop 2)
    match low with
    | none => jsonError rest "invalid low surrogate"
    | some low =>
      if low < 0xdc00 ∨ 0xdfff < low then jsonError rest "invalid low surrogate"
      else return (0x10000 + ((high - 0xd800) <<< 10) + (low - 0xdc00), rest)

/-- The code point that a first unit starts. -/
def parseSurrogates (unit : Nat) (rest : Bytes) : Parse (Nat × Bytes) :=
  if 0xd800 ≤ unit ∧ unit ≤ 0xdbff then parseLowSurrogate unit rest
  else if 0xdc00 ≤ unit ∧ unit ≤ 0xdfff then jsonError rest "unpaired low surrogate"
  else .ok (unit, rest)

/-- The bytes of a `\u` escape whose digits are in front. -/
def parseUnicodeEscape (rest : Bytes) : Parse (Bytes × Bytes) := do
  let (unit, rest) ← parseHex4 rest
  match unit with
  | none => jsonError rest "invalid Unicode escape"
  | some unit =>
    let (codepoint, rest) ← parseSurrogates unit rest
    match appendUtf8 codepoint with
    | some bytes => return (bytes, rest)
    | none => jsonError rest "out of memory while parsing Unicode escape"

@[grind] def copyBytes : (count : Nat) → Bytes → Parse (Bytes × Bytes)
  | 0, rest => .ok ([], rest)
  | _ + 1, [] => .error .outOfBounds
  | count + 1, b :: rest => (copyBytes count rest).map fun (bytes, rest) => (b :: bytes, rest)

@[grind] def parseStringLoop : (rounds : Nat) → (buffer : Bytes) → Bytes → Parse (Bytes × Bytes)
  | 0, _, _ => .error .spent
  | _ + 1, _, [] => jsonError [] "unterminated string"
  | rounds + 1, buffer, c :: rest =>
    if c = char '"' then .ok (buffer, rest)
    else if c = char '\\' then
      match rest with
      | [] => jsonError [] "unterminated string"
      | escape :: rest =>
        match simpleEscape escape with
        | some b => parseStringLoop rounds (buffer ++ [b]) rest
        | none =>
          if escape = char 'u' then do
            let (bytes, rest) ← parseUnicodeEscape rest
            parseStringLoop rounds (buffer ++ bytes) rest
          else jsonError rest "unsupported string escape"
    else do
      match ← validUtf8Sequence (c :: rest) with
      | none => jsonError rest "invalid UTF-8 or control byte in string"
      | some count =>
        let (bytes, rest) ← copyBytes count (c :: rest)
        parseStringLoop rounds (buffer ++ bytes) rest

def parseString : Bytes → Parse (Bytes × Bytes)
  | [] => jsonError [] "expected string"
  | c :: rest =>
    if c = char '"' then parseStringLoop (rest.length + 1) [] rest
    else jsonError (c :: rest) "expected string"

-- Numbers

def digitAhead : Bytes → Bool
  | [] => false
  | c :: _ => isDigit c

def parseInteger : Bytes → Parse Bytes
  | [] => .error (.failed 0 "" [])
  | c :: rest =>
    if c = char '0' then
      if digitAhead rest then jsonError rest "leading zero in number" else .ok rest
    else if char '1' ≤ c ∧ c ≤ char '9' then .ok ((c :: rest).dropWhile isDigit)
    else jsonError (c :: rest) "invalid number"

def parseFraction : Bytes → Parse Bytes
  | [] => .ok []
  | c :: rest =>
    if c = char '.' then
      if digitAhead rest then .ok (rest.dropWhile isDigit)
      else jsonError rest "invalid number fraction"
    else .ok (c :: rest)

def skipSign : Bytes → Bytes
  | [] => []
  | c :: rest => if c = char '+' ∨ c = char '-' then rest else c :: rest

def parseExponent : Bytes → Parse Bytes
  | [] => .ok []
  | c :: rest =>
    if c = char 'e' ∨ c = char 'E' then
      if digitAhead (skipSign rest) then .ok ((skipSign rest).dropWhile isDigit)
      else jsonError (skipSign rest) "invalid number exponent"
    else .ok (c :: rest)

def parseNumber (text : Bytes) : Parse (JsonValue Bytes × Bytes) := do
  let c ← byteAt text 0
  let rest ← parseInteger (if c = char '-' then text.drop 1 else text)
  let rest ← parseFraction rest
  let rest ← parseExponent rest
  return (.number (text.take (text.length - rest.length)), rest)

-- Values

def consumeLiteral (literal : String) (rest : Bytes) : Option Bytes :=
  let literal := literal.toList.map char
  if rest.length < literal.length then none
  else if rest.take literal.length = literal then some (rest.drop literal.length)
  else none

section
variable (parseItem : Bytes → Parse (JsonValue Bytes × Bytes))

def parseArrayLoop : (rounds : Nat) → (items : List (JsonValue Bytes)) → Bytes →
    Parse (JsonValue Bytes × Bytes)
  | 0, _, _ => .error .spent
  | _ + 1, _, [] => jsonError [] "unterminated array"
  | rounds + 1, items, c :: rest => do
    let (item, rest) ← parseItem (c :: rest)
    match skipWhitespace rest with
    | [] => jsonError [] "expected ',' or ']' in array"
    | c :: rest =>
      if c = char ']' then return (.array (items ++ [item]), rest)
      else if c = char ',' then parseArrayLoop rounds (items ++ [item]) (skipWhitespace rest)
      else jsonError rest "expected ',' or ']' in array"

def parseArray (rest : Bytes) : Parse (JsonValue Bytes × Bytes) :=
  match skipWhitespace rest with
  | [] => jsonError [] "unterminated array"
  | c :: rest =>
    if c = char ']' then .ok (.array [], rest)
    else parseArrayLoop parseItem (rest.length + 2) [] (c :: rest)

def objectHasKey (members : List (Bytes × JsonValue Bytes)) (key : Bytes) : Bool :=
  members.any fun member => member.1 == key

def parseObjectLoop : (rounds : Nat) → (members : List (Bytes × JsonValue Bytes)) → Bytes →
    Parse (JsonValue Bytes × Bytes)
  | 0, _, _ => .error .spent
  | _ + 1, _, [] => jsonError [] "unterminated object"
  | rounds + 1, members, c :: rest => do
    let (key, rest) ← parseString (c :: rest)
    match skipWhitespace rest with
    | [] => jsonError [] "expected ':' after object key"
    | c :: rest =>
      if c ≠ char ':' then jsonError rest "expected ':' after object key"
      else
        let (value, rest) ← parseItem rest
        if objectHasKey members key then
          .error (.failed rest.length "duplicate object key '%s'" key)
        else
          match skipWhitespace rest with
          | [] => jsonError [] "expected ',' or '\x7d' in object"
          | c :: rest =>
            if c = char '\x7d' then return (.object (members ++ [(key, value)]), rest)
            else if c = char ',' then
              parseObjectLoop rounds (members ++ [(key, value)]) (skipWhitespace rest)
            else jsonError rest "expected ',' or '\x7d' in object"

def parseObject (rest : Bytes) : Parse (JsonValue Bytes × Bytes) :=
  match skipWhitespace rest with
  | [] => jsonError [] "unterminated object"
  | c :: rest =>
    if c = char '\x7d' then .ok (.object [], rest)
    else parseObjectLoop parseItem (rest.length + 2) [] (c :: rest)

end

/-- `FISICS_JSON_MAX_DEPTH` -/
def maxDepth : Nat := 64

/-- `room` is what the depth is below its bound. -/
def parseValue : (room : Nat) → Bytes → Parse (JsonValue Bytes × Bytes)
  | room, text =>
    match skipWhitespace text with
    | [] => jsonError [] "expected value"
    | c :: rest =>
      match room with
      | 0 => jsonError (c :: rest) "nesting exceeds %u"
      | room + 1 =>
        if c = char '\x7b' then parseObject (parseValue room) rest
        else if c = char '[' then parseArray (parseValue room) rest
        else if c = char '"' then
          (parseString (c :: rest)).map fun (text, rest) => (.string text, rest)
        else if c = char '-' ∨ char '0' ≤ c ∧ c ≤ char '9' then parseNumber (c :: rest)
        else
          match consumeLiteral "true" (c :: rest) with
          | some rest => .ok (.bool true, rest)
          | none =>
            match consumeLiteral "false" (c :: rest) with
            | some rest => .ok (.bool false, rest)
            | none =>
              match consumeLiteral "null" (c :: rest) with
              | some rest => .ok (.null, rest)
              | none => jsonError (c :: rest) "invalid value"

def fisicsJsonParse (text : Bytes) : Parse (JsonValue Bytes) := do
  let (value, rest) ← parseValue maxDepth text
  let rest := skipWhitespace rest
  if rest.length ≠ 0 then jsonError rest "trailing bytes after document" else return value

-- The writer

def hexChar (n : Nat) : UInt8 := if n < 10 then (48 + n).toUInt8 else (87 + n).toUInt8

def jsonStringByte (b : UInt8) : Bytes :=
  if b = char '"' then [char '\\', char '"']
  else if b = char '\\' then [char '\\', char '\\']
  else if b = 8 then [char '\\', char 'b']
  else if b = 12 then [char '\\', char 'f']
  else if b = 10 then [char '\\', char 'n']
  else if b = 13 then [char '\\', char 'r']
  else if b = 9 then [char '\\', char 't']
  else if b < 0x20 then
    -- `\u%04x`
    [char '\\', char 'u', char '0', char '0', hexChar (b.toNat / 16), hexChar (b.toNat % 16)]
  else [b]

/-- `json_string`: the value ends at its first `NUL`. -/
def jsonString (value : Bytes) : Bytes :=
  char '"' :: ((value.takeWhile (· ≠ 0)).flatMap jsonStringByte ++ [char '"'])

end Fisics.Json
