import Fisics.Lexer.Scan

/-!
# Decoding string literals

`decode_c_string_literal` and the functions below it, on the text of a literal without
its quotes.
-/

namespace Fisics

/-- `res` and the buffer of the decoded bytes. -/
structure LiteralDecode where
  ok : Bool
  overflow : Bool
  length : Nat
  bytes : List Char
  deriving DecidableEq

/-- The digits in front, at least `minDigits` of them: how many, and their value as a
`uint32_t`. -/
def decodeHexSequence (text : List Char) (minDigits : Nat) : Option (Nat × Nat) :=
  let digits := text.takeWhile isxdigit
  if digits.length < minDigits then none
  else some (digits.length,
    digits.foldl (fun value c => (value * 16 + (lexerHexValue c).getD 0) % 2 ^ 32) 0)

def decodeEscape : List Char → Option (Nat × Nat)
  | [] => none
  | esc :: rest =>
    if esc ∈ simpleEscapes then some (1, (simpleEscapeValue esc).toNat)
    else if esc = 'x' then
      (decodeHexSequence rest 1).map fun (used, value) => (1 + used, value)
    else if esc = 'u' then
      (decodeHexSequence (rest.take 4) 4).map fun (used, value) => (1 + used, value)
    else if esc = 'U' then
      (decodeHexSequence (rest.take 8) 8).map fun (used, value) => (1 + used, value)
    else if isOctalDigit esc then
      let digits := ((esc :: rest).take 3).takeWhile isOctalDigit
      some (digits.length, digits.foldl (fun value c => value * 8 + (c.toNat - '0'.toNat)) 0)
    else some (1, esc.toNat)

/-- One decoded character; `cap` is `bufCap`. -/
def LiteralDecode.push (maxVal cap : Nat) (res : LiteralDecode) (value : Nat) : LiteralDecode :=
  { ok := res.ok && !(0x10FFFF < value || (0xD800 ≤ value && value ≤ 0xDFFF))
    overflow := res.overflow || maxVal < value
    length := res.length + 1
    bytes := if res.bytes.length + 1 < cap then res.bytes ++ [Char.ofNat (value % 256)] else res.bytes }

/-- `skip` passes over the characters of the escape just decoded. -/
def decodeLoop (maxVal cap : Nat) : (skip : Nat) → LiteralDecode → List Char → LiteralDecode
  | _, res, [] => res
  | skip + 1, res, _ :: rest => decodeLoop maxVal cap skip res rest
  | 0, res, c :: rest =>
    if c = '\\' then
      match decodeEscape rest with
      | none => { res with ok := false }
      | some (consumed, value) => decodeLoop maxVal cap consumed (res.push maxVal cap value) rest
    else decodeLoop maxVal cap 0 (res.push maxVal cap c.toNat) rest

def literalMaxVal (charBitWidth : Int) : Nat :=
  if charBitWidth ≤ 0 ∨ 63 ≤ charBitWidth then 2 ^ 64 - 1 else 2 ^ charBitWidth.toNat - 1

/-- `bytes` stays empty where the source has no buffer, for wide characters. -/
def decodeCStringLiteral (raw : List Char) (charBitWidth : Int) : LiteralDecode :=
  let cap := if charBitWidth ≤ 8 then raw.length + 1 else 0
  decodeLoop (literalMaxVal charBitWidth) cap 0 ⟨true, false, 0, []⟩ raw

end Fisics
