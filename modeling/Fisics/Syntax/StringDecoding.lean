import Fisics.Lexer.IdentifierSpelling
import Fisics.Lexer.ReadsTokens
import Fisics.Syntax.StringLiteral
import Mathlib.Data.List.Forall2

/-!
# What a string literal says

The body of a literal is a sequence of source characters and escapes. Both decoders walk
it in the same way and differ in what they keep of a value; here each of them is compared
with the items that were written.
-/

namespace Fisics

open List (all_eq_true cons_append drop_succ_cons flatMap_cons foldl_cons forall_mem_cons
  length_append length_cons mem_cons mem_singleton takeWhile_prefix)

-- The wide decoder

/-- `res` and the buffer of the decoded code points. -/
structure WideLiteralDecode where
  ok : Bool
  overflow : Bool
  length : Nat
  elements : List Nat
  deriving DecidableEq

def WideLiteralDecode.push (maxVal : Nat) (res : WideLiteralDecode) (value : Nat) :
    WideLiteralDecode :=
  { ok := res.ok && !(0x10FFFF < value || (0xD800 ≤ value && value ≤ 0xDFFF))
    overflow := res.overflow || maxVal < value
    length := res.length + 1
    elements := res.elements ++ [value] }

def decodeLoopWide (maxVal : Nat) : (skip : Nat) → WideLiteralDecode → List Char → WideLiteralDecode
  | _, res, [] => res
  | skip + 1, res, _ :: rest => decodeLoopWide maxVal skip res rest
  | 0, res, c :: rest =>
    if c = '\\' then
      match decodeEscape rest with
      | none => { res with ok := false }
      | some (consumed, value) => decodeLoopWide maxVal consumed (res.push maxVal value) rest
    else decodeLoopWide maxVal 0 (res.push maxVal c.toNat) rest

def decodeCStringLiteralWide (raw : List Char) (charBitWidth : Int) : WideLiteralDecode :=
  decodeLoopWide (literalMaxVal charBitWidth) 0 ⟨true, false, 0, []⟩ raw

-- The items of a body

/-- One item of a body; an octal or hexadecimal escape has the value of its digits. -/
inductive LiteralItem where
  | direct (bytes : List Char)
  | simpleEscape (c : Char)
  | numericEscape (value : Nat)
  | universalName (codePoint : Nat)

def octalNumber (digits : List Char) : Nat :=
  digits.foldl (fun value d => value * 8 + (d.toNat - '0'.toNat)) 0

/-- A source character in front of `rest`: its UTF-8, or a byte that begins none. -/
inductive DirectCharacter (rest : List Char) : List Char → Prop
  | utf8 : c ∉ ['"', '\\', '\n'] → DirectCharacter rest (utf8Chars c)
  | stray : 0x80 ≤ b.toNat → b.toNat < 256 → (∀ c, ¬utf8Chars c <+: b :: rest) →
      DirectCharacter rest [b]

/-- An escape takes every digit that it can. -/
inductive LiteralBody : List Char → List LiteralItem → Prop
  | nil : LiteralBody [] []
  | direct : DirectCharacter rest bytes → LiteralBody rest items →
      LiteralBody (bytes ++ rest) (.direct bytes :: items)
  | simpleEscape : c ∈ simpleEscapes → LiteralBody rest items →
      LiteralBody ('\\' :: c :: rest) (.simpleEscape c :: items)
  | octal : digits ≠ [] → digits.length ≤ 3 → (∀ d ∈ digits, isOctalDigit d = true) →
      (digits.length < 3 → ∀ d ∈ rest.head?, isOctalDigit d = false) → LiteralBody rest items →
      LiteralBody ('\\' :: (digits ++ rest)) (.numericEscape (octalNumber digits) :: items)
  | hex : digits ≠ [] → (∀ d ∈ digits, isxdigit d = true) →
      (∀ d ∈ rest.head?, isxdigit d = false) → LiteralBody rest items →
      LiteralBody ('\\' :: 'x' :: (digits ++ rest)) (.numericEscape (hexNumber digits) :: items)
  | universalName : letter = 'u' ∧ digits.length = 4 ∨ letter = 'U' ∧ digits.length = 8 →
      (∀ d ∈ digits, isxdigit d = true) → LiteralBody rest items →
      LiteralBody ('\\' :: letter :: (digits ++ rest)) (.universalName (hexNumber digits) :: items)

/-- The text between the quotes of a token that some run of the lexer over bytes makes. -/
def AcceptedLiteralBody (body : List Char) : Prop :=
  ∃ lexer : Lexer, (∀ c ∈ lexer.source, c.toNat < 256) ∧
    (handleStringLiteral lexer).1.type = .string ∧
    (handleStringLiteral lexer).1.value = some (String.ofList body)

-- Faithful decoding

/-- The result is reported exactly when a numeric escape does not fit the element. -/
def ReportsOverflow (width : Nat) (items : List LiteralItem) (ok overflow : Bool) : Prop :=
  overflow = true ∨ ok = false ↔ ∃ value, .numericEscape value ∈ items ∧ 2 ^ width ≤ value

inductive NarrowPart : LiteralItem → List Char → Prop
  | direct : NarrowPart (.direct bytes) bytes
  | simpleEscape : NarrowPart (.simpleEscape c) [Char.ofNat (simpleEscapeValue c).toNat]
  | numericEscape : (value < 256 → byte = Char.ofNat value) → NarrowPart (.numericEscape value) [byte]
  | universalName : NarrowPart (.universalName c.toNat) (utf8Chars c)

/-- A buffer is there for elements of one byte. -/
structure NarrowFaithful (width : Nat) (body : List Char) (items : List LiteralItem) : Prop where
  report : ReportsOverflow width items (decodeCStringLiteral body width).ok
    (decodeCStringLiteral body width).overflow
  written : width ≤ 8 → ∃ parts, List.Forall₂ NarrowPart items parts ∧
    (decodeCStringLiteral body width).bytes = parts.flatten
  length : width ≤ 8 →
    (decodeCStringLiteral body width).length = (decodeCStringLiteral body width).bytes.length

structure WideFaithful (width : Nat) (body : List Char) (items : List LiteralItem) : Prop where
  report : ReportsOverflow width items (decodeCStringLiteralWide body width).ok
    (decodeCStringLiteralWide body width).overflow
  written : (decodeCStringLiteralWide body width).elements.length = items.length
  length : (decodeCStringLiteralWide body width).length =
    (decodeCStringLiteralWide body width).elements.length

-- Where decoding is faithful

def LiteralItem.values : LiteralItem → List Nat
  | direct bytes => bytes.map Char.toNat
  | simpleEscape c => [(simpleEscapeValue c).toNat]
  | numericEscape value => [value % 2 ^ 32]
  | universalName codePoint => [codePoint]

/-- No element of this width, or no character at all. -/
def Unrepresentable (width value : Nat) : Prop :=
  2 ^ width ≤ value ∨ 0x10FFFF < value ∨ 0xD800 ≤ value ∧ value ≤ 0xDFFF

/-- A value that does not fit is still seen in some 32 bits, and nothing else is refused. -/
structure ReportsExactly (width : Nat) (items : List LiteralItem) : Prop where
  seen : .numericEscape value ∈ items → 2 ^ width ≤ value →
    ∃ item ∈ items, ∃ low ∈ item.values, Unrepresentable width low
  only : (∀ value, .numericEscape value ∈ items → value < 2 ^ width) →
    ∀ item ∈ items, ∀ low ∈ item.values, ¬Unrepresentable width low

-- Escapes

section
variable {digits rest : List Char}

theorem takeWhile_run (hdigits : ∀ d ∈ digits, p d = true)
    (hrest : ∀ d ∈ rest.head?, p d = false) : (digits ++ rest).takeWhile p = digits := by
  rw [List.takeWhile_append_of_pos hdigits]
  cases rest with
  | nil => simp
  | cons d rest =>
    have hd : p d = false := hrest d rfl
    simp [hd]

theorem isOctalDigit_range (h : isOctalDigit d = true) : 48 ≤ d.toNat ∧ d.toNat ≤ 55 := by
  simp only [isOctalDigit, Bool.and_eq_true, decide_eq_true_eq] at h
  exact h

theorem octalNumber_foldl (hdigits : ∀ d ∈ digits, isOctalDigit d = true) (value : Nat) :
    digits.foldl (fun value d => value * 8 + (d.toNat - '0'.toNat)) value <
      (value + 1) * 8 ^ digits.length := by
  induction digits generalizing value with
  | nil => simp
  | cons d digits ih =>
    obtain ⟨hd, hrest⟩ := forall_mem_cons.mp hdigits
    have hrange := isOctalDigit_range hd
    have hzero : '0'.toNat = 48 := rfl
    calc (d :: digits).foldl (fun value d => value * 8 + (d.toNat - '0'.toNat)) value
        < (value * 8 + (d.toNat - '0'.toNat) + 1) * 8 ^ digits.length := ih hrest _
      _ ≤ ((value + 1) * 8) * 8 ^ digits.length := Nat.mul_le_mul_right _ (by omega)
      _ = (value + 1) * 8 ^ (d :: digits).length := by
        rw [length_cons, Nat.pow_succ', Nat.mul_assoc]

theorem octalNumber_lt (hdigits : ∀ d ∈ digits, isOctalDigit d = true) (hlen : digits.length ≤ 3) :
    octalNumber digits < 2 ^ 32 := by
  have hlt : octalNumber digits < (0 + 1) * 8 ^ digits.length := octalNumber_foldl hdigits 0
  have hpow : 8 ^ digits.length ≤ 8 ^ 3 := Nat.pow_le_pow_right (by decide) hlen
  omega

theorem hexFoldl_mod (digits : List Char) (value : Nat) :
    digits.foldl (fun value c => (value * 16 + (lexerHexValue c).getD 0) % 2 ^ 32) (value % 2 ^ 32) =
      digits.foldl (fun value c => value * 16 + (lexerHexValue c).getD 0) value % 2 ^ 32 := by
  induction digits generalizing value with
  | nil => rfl
  | cons d digits ih =>
    have hstep : (value % 2 ^ 32 * 16 + (lexerHexValue d).getD 0) % 2 ^ 32 =
        (value * 16 + (lexerHexValue d).getD 0) % 2 ^ 32 := by omega
    rw [foldl_cons, hstep, ih]
    rfl

theorem decodeHexSequence_run (hdigits : ∀ d ∈ digits, isxdigit d = true)
    (hrest : ∀ d ∈ rest.head?, isxdigit d = false) (hlen : minDigits ≤ digits.length) :
    decodeHexSequence (digits ++ rest) minDigits = some (digits.length, hexNumber digits % 2 ^ 32) := by
  have hvalue := hexFoldl_mod digits 0
  rw [Nat.zero_mod] at hvalue
  rw [decodeHexSequence, takeWhile_run hdigits hrest, if_neg (by omega), hvalue]
  rfl

theorem hexNumber_foldl (digits : List Char) (value : Nat) :
    digits.foldl (fun value d => value * 16 + (lexerHexValue d).getD 0) value <
      (value + 1) * 16 ^ digits.length := by
  induction digits generalizing value with
  | nil => simp
  | cons d digits ih =>
    have hd : (lexerHexValue d).getD 0 < 16 := by
      cases hvalue : lexerHexValue d with
      | none => decide
      | some x => exact lexerHexValue_lt hvalue
    calc (d :: digits).foldl (fun value d => value * 16 + (lexerHexValue d).getD 0) value
        < (value * 16 + (lexerHexValue d).getD 0 + 1) * 16 ^ digits.length := ih _
      _ ≤ ((value + 1) * 16) * 16 ^ digits.length := Nat.mul_le_mul_right _ (by omega)
      _ = (value + 1) * 16 ^ (d :: digits).length := by
        rw [length_cons, Nat.pow_succ', Nat.mul_assoc]

theorem hexNumber_lt (hlen : digits.length ≤ 8) : hexNumber digits < 2 ^ 32 := by
  have hlt : hexNumber digits < (0 + 1) * 16 ^ digits.length := hexNumber_foldl digits 0
  have hpow : 16 ^ digits.length ≤ 16 ^ 8 := Nat.pow_le_pow_right (by decide) hlen
  omega

theorem decodeEscape_simple (hc : c ∈ simpleEscapes) (rest : List Char) :
    decodeEscape (c :: rest) = some (1, (simpleEscapeValue c).toNat) := by
  rw [decodeEscape, if_pos hc]

theorem decodeEscape_hex (hne : digits ≠ []) (hdigits : ∀ d ∈ digits, isxdigit d = true)
    (hrest : ∀ d ∈ rest.head?, isxdigit d = false) :
    decodeEscape ('x' :: (digits ++ rest)) = some (1 + digits.length, hexNumber digits % 2 ^ 32) := by
  have hlen : 1 ≤ digits.length := List.length_pos_of_ne_nil hne
  have hx : 'x' ∉ simpleEscapes := by decide
  rw [decodeEscape, if_neg hx, if_pos rfl, decodeHexSequence_run hdigits hrest hlen]
  rfl

theorem decodeEscape_universalName
    (hform : letter = 'u' ∧ digits.length = 4 ∨ letter = 'U' ∧ digits.length = 8)
    (hdigits : ∀ d ∈ digits, isxdigit d = true) (rest : List Char) :
    decodeEscape (letter :: (digits ++ rest)) = some (1 + digits.length, hexNumber digits) := by
  have hrun : ∀ n, digits.length = n →
      decodeHexSequence ((digits ++ rest).take n) n = some (digits.length, hexNumber digits % 2 ^ 32) := by
    rintro n rfl
    have htake : (digits ++ rest).take digits.length = digits ++ [] := by simp
    rw [htake]
    exact decodeHexSequence_run hdigits (by simp) (Nat.le_refl _)
  have hmod : hexNumber digits % 2 ^ 32 = hexNumber digits :=
    Nat.mod_eq_of_lt (hexNumber_lt (by omega))
  rcases hform with ⟨rfl, hlen⟩ | ⟨rfl, hlen⟩
  · have hu : 'u' ∉ simpleEscapes := by decide
    rw [decodeEscape, if_neg hu, if_neg (by decide), if_pos rfl, hrun 4 hlen, hmod]
    rfl
  · have hU : 'U' ∉ simpleEscapes := by decide
    rw [decodeEscape, if_neg hU, if_neg (by decide), if_neg (by decide), if_pos rfl, hrun 8 hlen, hmod]
    rfl

theorem octal_ne (h : isOctalDigit d = true) : d ∉ simpleEscapes ∧ d ≠ 'x' ∧ d ≠ 'u' ∧ d ≠ 'U' := by
  have hrange := isOctalDigit_range h
  have hall : ('x' :: 'u' :: 'U' :: simpleEscapes).all (fun c => c.toNat < 48 || 55 < c.toNat) = true :=
    rfl
  have hout : d ∉ 'x' :: 'u' :: 'U' :: simpleEscapes := by
    intro hd
    have hapart := all_eq_true.mp hall d hd
    simp only [Bool.or_eq_true, decide_eq_true_eq] at hapart
    omega
  simp only [mem_cons, not_or] at hout
  exact ⟨hout.2.2.2, hout.1, hout.2.1, hout.2.2.1⟩

theorem octal_run (hlen : digits.length ≤ 3) (hdigits : ∀ d ∈ digits, isOctalDigit d = true)
    (hrest : digits.length < 3 → ∀ d ∈ rest.head?, isOctalDigit d = false) :
    ((digits ++ rest).take 3).takeWhile isOctalDigit = digits := by
  rw [List.take_append, List.take_of_length_le hlen]
  refine takeWhile_run hdigits ?_
  intro d hd
  cases hleft : 3 - digits.length with
  | zero => simp [hleft] at hd
  | succ n => ?_
  rw [hleft] at hd
  refine hrest (by omega) d ?_
  cases rest with
  | nil => cases hd
  | cons c rest => exact hd

theorem decodeEscape_octal (hne : digits ≠ []) (hlen : digits.length ≤ 3)
    (hdigits : ∀ d ∈ digits, isOctalDigit d = true)
    (hrest : digits.length < 3 → ∀ d ∈ rest.head?, isOctalDigit d = false) :
    decodeEscape (digits ++ rest) = some (digits.length, octalNumber digits) := by
  have hrun := octal_run hlen hdigits hrest
  cases digits with
  | nil => exact absurd rfl hne
  | cons d digits => ?_
  have hd := hdigits d List.mem_cons_self
  obtain ⟨hsimple, hx, hu, hU⟩ := octal_ne hd
  rw [cons_append] at hrun ⊢
  rw [decodeEscape, if_neg hsimple, if_neg hx, if_neg hu, if_neg hU, if_pos hd, hrun]
  rfl

end

-- A decoder over the items

theorem utf8Chars_bytes (c : Char) : ∀ b ∈ utf8Chars c, b.toNat < 256 := by
  simp only [utf8Chars, List.mem_map]
  rintro _ ⟨b, -, rfl⟩
  rw [byteChar_toNat]
  exact b.toNat_lt

theorem special_ascii (hc : c ∈ ['"', '\\', '\n']) : c.toNat < 0x80 := by
  have hall : ['"', '\\', '\n'].all (fun c => c.toNat < 0x80) = true := rfl
  simpa using all_eq_true.mp hall c hc

theorem utf8Chars_plain (hc : c ∉ ['"', '\\', '\n']) : ∀ b ∈ utf8Chars c, b ∉ ['"', '\\', '\n'] := by
  by_cases hascii : c.toNat < 0x80
  · simpa [utf8Chars_ascii hascii] using hc
  intro b hb hplain
  have hhigh := utf8Chars_high (Nat.le_of_not_lt hascii) b hb
  have hlow := special_ascii hplain
  omega

theorem DirectCharacter.plain (h : DirectCharacter rest bytes) : ∀ b ∈ bytes, b ∉ ['"', '\\', '\n'] := by
  cases h with
  | utf8 hc => exact utf8Chars_plain hc
  | stray hhigh hbyte hfirst => ?_
  rintro b hb hplain
  obtain rfl := mem_singleton.mp hb
  have hlow := special_ascii hplain
  omega

theorem DirectCharacter.byte (h : DirectCharacter rest bytes) : ∀ b ∈ bytes, b.toNat < 256 := by
  cases h with
  | utf8 hc => exact utf8Chars_bytes _
  | stray hhigh hbyte hfirst => simpa using hbyte

/-- A loop that goes over the text as both decoders do. -/
structure StringDecoder (maxVal : Nat) (σ : Type) where
  loop : Nat → σ → List Char → σ
  push : σ → Nat → σ
  ok : σ → Bool
  overflow : σ → Bool
  length : σ → Nat
  loop_nil : ∀ skip res, loop skip res [] = res
  loop_skip : ∀ skip res c rest, loop (skip + 1) res (c :: rest) = loop skip res rest
  loop_direct : ∀ res c rest, c ≠ '\\' → loop 0 res (c :: rest) = loop 0 (push res c.toNat) rest
  loop_escape : ∀ res rest consumed value, decodeEscape rest = some (consumed, value) →
    loop 0 res ('\\' :: rest) = loop consumed (push res value) rest
  push_ok : ∀ res value,
    ok (push res value) = (ok res && !(0x10FFFF < value || (0xD800 ≤ value && value ≤ 0xDFFF)))
  push_overflow : ∀ res value, overflow (push res value) = (overflow res || maxVal < value)
  push_length : ∀ res value, length (push res value) = length res + 1

def narrowDecoder (maxVal cap : Nat) : StringDecoder maxVal LiteralDecode where
  loop := decodeLoop maxVal cap
  push := LiteralDecode.push maxVal cap
  ok := LiteralDecode.ok
  overflow := LiteralDecode.overflow
  length := LiteralDecode.length
  loop_nil := fun skip res => by cases skip <;> rfl
  loop_skip := fun _ _ _ _ => rfl
  loop_direct := fun res c rest hc => by rw [decodeLoop, if_neg hc]
  loop_escape := fun res rest consumed value h => by simp [decodeLoop, h]
  push_ok := fun _ _ => rfl
  push_overflow := fun _ _ => rfl
  push_length := fun _ _ => rfl

def wideDecoder (maxVal : Nat) : StringDecoder maxVal WideLiteralDecode where
  loop := decodeLoopWide maxVal
  push := WideLiteralDecode.push maxVal
  ok := WideLiteralDecode.ok
  overflow := WideLiteralDecode.overflow
  length := WideLiteralDecode.length
  loop_nil := fun skip res => by cases skip <;> rfl
  loop_skip := fun _ _ _ _ => rfl
  loop_direct := fun res c rest hc => by rw [decodeLoopWide, if_neg hc]
  loop_escape := fun res rest consumed value h => by simp [decodeLoopWide, h]
  push_ok := fun _ _ => rfl
  push_overflow := fun _ _ => rfl
  push_length := fun _ _ => rfl

namespace StringDecoder

variable {maxVal : Nat} {σ : Type} (d : StringDecoder maxVal σ)

theorem loop_behind (taken rest : List Char) (res : σ) :
    d.loop taken.length res (taken ++ rest) = d.loop 0 res rest := by
  induction taken with
  | nil => rfl
  | cons c taken ih =>
    rw [length_cons, cons_append, d.loop_skip]
    exact ih

theorem loop_plain (hbytes : ∀ b ∈ bytes, b ∉ ['"', '\\', '\n']) (rest : List Char) (res : σ) :
    d.loop 0 res (bytes ++ rest) = d.loop 0 ((bytes.map Char.toNat).foldl d.push res) rest := by
  induction bytes generalizing res with
  | nil => rfl
  | cons b bytes ih =>
    obtain ⟨hb, hrest⟩ := forall_mem_cons.mp hbytes
    have hne : b ≠ '\\' := by
      rintro rfl
      exact hb (by decide)
    rw [cons_append, d.loop_direct _ _ _ hne, ih hrest]
    rfl

theorem loop_taken (h : decodeEscape (taken ++ rest) = some (taken.length, value)) (res : σ) :
    d.loop 0 res ('\\' :: (taken ++ rest)) = d.loop 0 (d.push res value) rest := by
  rw [d.loop_escape _ _ _ _ h, d.loop_behind]

theorem loop_body (h : LiteralBody body items) (res : σ) :
    d.loop 0 res body = (items.flatMap LiteralItem.values).foldl d.push res := by
  induction h generalizing res with
  | nil => exact d.loop_nil 0 res
  | direct hbytes _ ih =>
    rw [d.loop_plain hbytes.plain, ih, flatMap_cons, List.foldl_append]
    rfl
  | @simpleEscape c rest items hc _ ih =>
    have htaken : decodeEscape ([c] ++ rest) = some ([c].length, (simpleEscapeValue c).toNat) :=
      decodeEscape_simple hc rest
    exact (d.loop_taken htaken res).trans (ih _)
  | octal hne hlen hdigits hrest _ ih =>
    have htaken := decodeEscape_octal hne hlen hdigits hrest
    have hmod := Nat.mod_eq_of_lt (octalNumber_lt hdigits hlen)
    rw [d.loop_taken htaken, ih, flatMap_cons, LiteralItem.values, hmod]
    rfl
  | @hex digits rest items hne hdigits hrest _ ih =>
    have htaken : decodeEscape ('x' :: digits ++ rest) =
        some (('x' :: digits).length, hexNumber digits % 2 ^ 32) := by
      rw [length_cons, Nat.add_comm]
      exact decodeEscape_hex hne hdigits hrest
    exact (d.loop_taken htaken res).trans (ih _)
  | @universalName letter digits rest items hform hdigits _ ih =>
    have htaken : decodeEscape (letter :: digits ++ rest) =
        some ((letter :: digits).length, hexNumber digits) := by
      rw [length_cons, Nat.add_comm]
      exact decodeEscape_universalName hform hdigits rest
    exact (d.loop_taken htaken res).trans (ih _)

theorem length_foldl (values : List Nat) (res : σ) :
    d.length (values.foldl d.push res) = d.length res + values.length := by
  induction values generalizing res with
  | nil => rfl
  | cons value values ih =>
    rw [foldl_cons, ih, d.push_length, length_cons]
    omega

theorem overflow_foldl (values : List Nat) (res : σ) :
    d.overflow (values.foldl d.push res) = true ↔
      d.overflow res = true ∨ ∃ value ∈ values, maxVal < value := by
  induction values generalizing res with
  | nil => simp
  | cons value values ih =>
    rw [foldl_cons, ih, d.push_overflow]
    simp [or_assoc]

theorem ok_foldl (values : List Nat) (res : σ) :
    d.ok (values.foldl d.push res) = false ↔
      d.ok res = false ∨ ∃ value ∈ values, 0x10FFFF < value ∨ 0xD800 ≤ value ∧ value ≤ 0xDFFF := by
  induction values generalizing res with
  | nil => simp
  | cons value values ih =>
    have hvalue : (value ≤ 0x10FFFF → 0xD800 ≤ value ∧ value ≤ 0xDFFF) ↔
        0x10FFFF < value ∨ 0xD800 ≤ value ∧ value ≤ 0xDFFF := by omega
    rw [foldl_cons, ih, d.push_ok]
    cases d.ok res <;> simp [hvalue]

end StringDecoder

-- The bodies that are accepted

/-- What is left of the text where a literal goes on, and how far it reaches. -/
theorem stringScan_behind (h : stringScan taken rest = (n, .closed)) :
    ∃ m, n = m + taken ∧ stringScan 0 (rest.drop taken) = (m, .closed) := by
  induction taken generalizing rest n with
  | zero => exact ⟨n, rfl, h⟩
  | succ taken ih =>
    cases rest with
    | nil => cases h
    | cons c rest => ?_
    simp only [stringScan, Prod.mk.injEq] at h
    obtain ⟨rfl, hend⟩ := h
    have hbehind : stringScan taken rest = ((stringScan taken rest).1, .closed) := Prod.ext rfl hend
    obtain ⟨m, hm, hscan⟩ := ih hbehind
    exact ⟨m, congrArg (· + 1) hm, hscan⟩

theorem stringScan_plain (hbytes : ∀ b ∈ bytes, b ∉ ['"', '\\', '\n'])
    (h : stringScan 0 (bytes ++ rest) = (n, .closed)) :
    ∃ m, n = m + bytes.length ∧ stringScan 0 rest = (m, .closed) := by
  induction bytes generalizing n with
  | nil => exact ⟨n, rfl, h⟩
  | cons b bytes ih =>
    obtain ⟨hb, hrest⟩ := forall_mem_cons.mp hbytes
    simp only [mem_cons, List.not_mem_nil, or_false, not_or] at hb
    rw [cons_append, stringScan, if_neg hb.2.2, if_neg hb.1, if_neg hb.2.1] at h
    simp only [Prod.mk.injEq] at h
    obtain ⟨rfl, hend⟩ := h
    have hbehind : stringScan 0 (bytes ++ rest) = ((stringScan 0 (bytes ++ rest)).1, .closed) :=
      Prod.ext rfl hend
    obtain ⟨m, hm, hscan⟩ := ih hrest hbehind
    exact ⟨m, congrArg (· + 1) hm, hscan⟩

theorem takeWhile_split (p : Char → Bool) (text : List Char) :
    (∀ d ∈ text.takeWhile p, p d = true) ∧
      ∀ n, ∀ d ∈ ((text.drop (text.takeWhile p).length).take n).head?, p d = false := by
  induction text with
  | nil => simp
  | cons c text ih =>
    by_cases hc : p c = true
    · simpa [List.takeWhile_cons, hc] using ih
    constructor
    · simp [hc]
    · intro n d hd
      cases n with
      | zero => simp at hd
      | succ n =>
        simp only [List.takeWhile_cons, hc] at hd
        obtain rfl : c = d := by simpa using hd
        simpa using hc

theorem LiteralBody.escape_digits (hform : letter = 'u' ∧ k = 4 ∨ letter = 'U' ∧ k = 8)
    (hrun : hexRun k rest = k) (h : LiteralBody ((rest.drop k).take n) items) :
    LiteralBody ('\\' :: letter :: (rest.take k ++ (rest.drop k).take n))
      (.universalName (hexNumber (rest.take k)) :: items) := by
  have hprefix := takeWhile_prefix (l := rest.take k) isxdigit
  have hall : (rest.take k).takeWhile isxdigit = rest.take k := by
    refine hprefix.eq_of_length (Nat.le_antisymm hprefix.length_le ?_)
    calc (rest.take k).length ≤ k := List.length_take_le k rest
      _ = ((rest.take k).takeWhile isxdigit).length := hrun.symm
  have hlen : (rest.take k).length = k := by
    rw [← hall]
    exact hrun
  refine .universalName ?_ ?_ h
  · rw [hlen]
    exact hform
  · rw [← hall]
    exact (takeWhile_split isxdigit (rest.take k)).1

theorem take_run (p : Char → Bool) (k : Nat) (text : List Char) :
    text.take ((text.take k).takeWhile p).length = (text.take k).takeWhile p := by
  have hprefix := ( takeWhile_prefix (l := text.take k) p).trans (List.take_prefix k text)
  exact (List.prefix_iff_eq_take.mp hprefix).symm

theorem LiteralBody.octal_digits {rest : List Char} (he : isOctalDigit e = true)
    (h : LiteralBody ((rest.drop ((rest.take 2).takeWhile isOctalDigit).length).take n) items) :
    LiteralBody ('\\' :: (e :: (rest.take 2).takeWhile isOctalDigit ++
        (rest.drop ((rest.take 2).takeWhile isOctalDigit).length).take n))
      (.numericEscape (octalNumber (e :: (rest.take 2).takeWhile isOctalDigit)) :: items) := by
  obtain ⟨hdigits, hstop⟩ := takeWhile_split isOctalDigit (rest.take 2)
  have hlen : ((rest.take 2).takeWhile isOctalDigit).length ≤ 2 :=
    Nat.le_trans ( takeWhile_prefix isOctalDigit).length_le (List.length_take_le 2 rest)
  refine .octal (List.cons_ne_nil _ _) (Nat.succ_le_succ hlen) (forall_mem_cons.mpr ⟨he, hdigits⟩) ?_ h
  intro hshort d hd
  -- the digits ended before the third place, so what comes next is seen among the first two
  refine hstop n d ?_
  rw [length_cons] at hshort
  rw [List.drop_take]
  generalize ((rest.take 2).takeWhile isOctalDigit).length = k at hd hshort ⊢
  obtain ⟨m, hm⟩ : ∃ m, 2 - k = m + 1 := ⟨1 - k, by omega⟩
  rw [hm]
  cases hrest : rest.drop k with
  | nil => simp [hrest] at hd
  | cons c text => ?_
  cases n with
  | zero => simp at hd
  | succ n =>
    rw [hrest] at hd
    exact hd

/-- An escape that the scan lets through, in front of any part of what is behind it. -/
theorem stringEscape_item (h : stringEscape rest = (taken, none)) :
    ∃ item, ∀ n items, LiteralBody ((rest.drop taken).take n) items →
      LiteralBody ('\\' :: (rest.take taken ++ (rest.drop taken).take n)) (item :: items) := by
  unfold stringEscape at h
  split at h
  · cases h
  · cases h
  rename_i e rest hline
  split at h
  · rename_i hsimple
    obtain rfl : 1 = taken := congrArg Prod.fst h
    exact ⟨_, fun n items htail => .simpleEscape hsimple htail⟩
  split at h
  · rename_i hx
    subst hx
    dsimp only at h
    split at h
    · cases h
    rename_i hsome
    obtain rfl : 1 + (rest.takeWhile isxdigit).length = taken := congrArg Prod.fst h
    obtain ⟨hdigits, hstop⟩ := takeWhile_split isxdigit rest
    refine ⟨.numericEscape (hexNumber (rest.takeWhile isxdigit)), fun n items htail => ?_⟩
    have htake := List.prefix_iff_eq_take.mp ( takeWhile_prefix (l := rest) isxdigit)
    rw [Nat.add_comm, drop_succ_cons] at htail
    rw [Nat.add_comm, drop_succ_cons, List.take_succ_cons, ← htake]
    exact .hex (List.ne_nil_of_length_pos (Nat.pos_of_ne_zero hsome)) hdigits (hstop n) htail
  split at h
  · rename_i hu
    subst hu
    simp only [Prod.mk.injEq, ite_eq_right_iff, reduceCtorEq, imp_false, Decidable.not_not] at h
    obtain ⟨rfl, hrun⟩ := h
    refine ⟨.universalName (hexNumber (rest.take 4)), fun n items htail => ?_⟩
    rw [hrun] at htail ⊢
    exact .escape_digits (.inl ⟨rfl, rfl⟩) hrun htail
  split at h
  · rename_i hu
    subst hu
    simp only [Prod.mk.injEq, ite_eq_right_iff, reduceCtorEq, imp_false, Decidable.not_not] at h
    obtain ⟨rfl, hrun⟩ := h
    refine ⟨.universalName (hexNumber (rest.take 8)), fun n items htail => ?_⟩
    rw [hrun] at htail ⊢
    exact .escape_digits (.inr ⟨rfl, rfl⟩) hrun htail
  split at h
  · rename_i hoctal
    obtain rfl : 1 + ((rest.take 2).takeWhile isOctalDigit).length = taken := congrArg Prod.fst h
    refine ⟨.numericEscape (octalNumber (e :: (rest.take 2).takeWhile isOctalDigit)),
      fun n items htail => ?_⟩
    rw [Nat.add_comm, drop_succ_cons] at htail
    rw [Nat.add_comm, drop_succ_cons, List.take_succ_cons, take_run]
    exact htail.octal_digits hoctal
  · cases h

theorem stringEscape_stop (h : stringEscape rest = (taken, some stop)) : stop ≠ .closed := by
  rintro rfl
  have hinvalid : ∀ (p : Prop) [Decidable p] (message got value : String),
      (if p then some (ScanEnd.invalid message got value) else none) ≠ some .closed := by
    intro p _ message got value
    split <;> simp
  have hstop := congrArg Prod.snd h
  unfold stringEscape at hstop
  split at hstop
  · cases hstop
  · cases hstop
  split at hstop
  · cases hstop
  split at hstop
  · dsimp only at hstop
    split at hstop
    all_goals cases hstop
  iterate 2
    split at hstop
    · exact hinvalid _ _ _ _ hstop
  split at hstop
  all_goals cases hstop

theorem prefix_of_take (h : pre <+: c :: text.take n) : pre <+: c :: text :=
  h.trans (List.cons_prefix_cons.mpr ⟨rfl, List.take_prefix n text⟩)

theorem stringScan_items (size : Nat) (hsize : text.length ≤ size)
    (hbytes : ∀ c ∈ text, c.toNat < 256) (h : stringScan 0 text = (n, .closed)) :
    ∃ items, LiteralBody (text.take n) items := by
  induction size generalizing text n with
  | zero =>
    obtain rfl := List.length_eq_zero_iff.mp (Nat.le_zero.mp hsize)
    cases h
  | succ size ih =>
    cases text with
    | nil => cases h
    | cons c rest => ?_
    obtain ⟨hc, hrest⟩ := forall_mem_cons.mp hbytes
    have hshort := Nat.le_of_succ_le_succ hsize
    by_cases hplain : c ∈ ['"', '\\', '\n']
    · simp only [mem_cons, List.not_mem_nil, or_false] at hplain
      rcases hplain with rfl | rfl | rfl
      · obtain rfl : 0 = n := congrArg Prod.fst h
        exact ⟨[], .nil⟩
      · rw [stringScan, if_neg (by decide), if_neg (by decide), if_pos rfl] at h
        split at h
        · rename_i taken stop hescape
          exact absurd (congrArg Prod.snd h) (stringEscape_stop hescape)
        rename_i taken hescape
        simp only [Prod.mk.injEq] at h
        obtain ⟨rfl, hend⟩ := h
        have hbehind : stringScan taken rest = ((stringScan taken rest).1, .closed) :=
          Prod.ext rfl hend
        obtain ⟨m, hm, hscan⟩ := stringScan_behind hbehind
        obtain ⟨item, hitem⟩ := stringEscape_item hescape
        have hdrop : (rest.drop taken).length ≤ size := by
          rw [List.length_drop]
          omega
        obtain ⟨items, hitems⟩ := ih hdrop (fun d hd => hrest d (List.mem_of_mem_drop hd)) hscan
        refine ⟨item :: items, ?_⟩
        rw [List.take_succ_cons, hm, Nat.add_comm, List.take_add]
        exact hitem m items hitems
      · cases h
    · by_cases hutf8 : ∃ d, utf8Chars d <+: c :: rest
      · obtain ⟨d, behind, hbehind⟩ := hutf8
        have hd : d ∉ ['"', '\\', '\n'] := by
          intro hd
          rw [utf8Chars_ascii (special_ascii hd)] at hbehind
          obtain rfl : d = c := (List.cons.inj hbehind).1
          exact hplain hd
        obtain ⟨a, bytes, hchars⟩ := utf8Chars_cons d
        rw [← hbehind] at h hbytes hsize
        obtain ⟨m, rfl, hscan⟩ := stringScan_plain (utf8Chars_plain hd) h
        have hlen : behind.length ≤ size := by
          rw [hchars, length_append, length_cons] at hsize
          omega
        obtain ⟨items, hitems⟩ := ih hlen (fun b hb => hbytes b (List.mem_append_right _ hb)) hscan
        refine ⟨.direct (utf8Chars d) :: items, ?_⟩
        rw [← hbehind, Nat.add_comm, List.take_length_add_append]
        exact .direct (.utf8 hd) hitems
      · rw [not_exists] at hutf8
        have hhigh : 0x80 ≤ c.toNat := by
          by_contra hascii
          refine hutf8 c ?_
          rw [utf8Chars_ascii (by omega)]
          exact ⟨rest, rfl⟩
        have hsingle : ∀ b ∈ [c], b ∉ ['"', '\\', '\n'] := by simpa using hplain
        obtain ⟨m, rfl, hscan⟩ := stringScan_plain hsingle h
        obtain ⟨items, hitems⟩ := ih hshort hrest hscan
        refine ⟨.direct [c] :: items, ?_⟩
        have hstray : DirectCharacter (rest.take m) [c] :=
          .stray hhigh hc fun d hd => hutf8 d (prefix_of_take hd)
        exact .direct hstray hitems

theorem AcceptedLiteralBody.items (h : AcceptedLiteralBody body) : ∃ items, LiteralBody body items := by
  obtain ⟨lexer, hbytes, htype, hvalue⟩ := h
  simp only [handleStringLiteral] at htype hvalue
  split at htype
  · rename_i hclosed
    rw [hclosed] at hvalue
    rw [textFrom_advance] at hvalue
    obtain rfl := String.ofList_injective (Option.some.inj hvalue)
    exact stringScan_items _ (Nat.le_refl _) (fun c hc => hbytes c (List.mem_of_mem_drop hc))
      (Prod.ext rfl hclosed)
  all_goals cases htype

theorem acceptedLiteralBody_closed
    (hbytes : body.all (fun c => decide (c.toNat < 256)) = true)
    (hscan : stringScan 0 (body ++ ['"']) = (body.length, .closed)) : AcceptedLiteralBody body := by
  let lexer : Lexer := ⟨'"' :: (body ++ ['"']), none, 0, 1, 0, [], [], [], false⟩
  have hrest : (lexer.advance 1).rest = body ++ ['"'] := rfl
  refine ⟨lexer, ?_, ?_, ?_⟩
  · have hquote : '"'.toNat < 256 := by decide
    have hbody : ∀ c ∈ body, c.toNat < 256 := fun c hc =>
      of_decide_eq_true (all_eq_true.mp hbytes c hc)
    intro c hc
    simp only [lexer, mem_cons, List.mem_append, List.not_mem_nil, or_false] at hc
    rcases hc with rfl | hc | rfl
    · exact hquote
    · exact hbody c hc
    · exact hquote
  · simp only [handleStringLiteral, hrest, hscan]
    rfl
  · have htext := textFrom_advance (lexer.advance 1) body.length
    rw [hrest, List.take_left] at htext
    simp only [handleStringLiteral, hrest, hscan]
    exact congrArg some htext

-- Reports

theorem DirectCharacter.ne_nil (h : DirectCharacter rest bytes) : 0 < bytes.length := by
  cases h with
  | @utf8 c hc =>
    obtain ⟨a, text, hchars⟩ := utf8Chars_cons c
    rw [hchars]
    exact Nat.succ_pos _
  | stray hhigh hbyte hfirst => exact Nat.one_pos

theorem simpleEscapeValue_lt (hc : c ∈ simpleEscapes) : (simpleEscapeValue c).toNat < 256 := by
  have hall : simpleEscapes.all (fun c => (simpleEscapeValue c).toNat < 256) = true := rfl
  simpa using all_eq_true.mp hall c hc

def LiteralItem.Proper : LiteralItem → Prop
  | direct bytes => 0 < bytes.length ∧ ∀ b ∈ bytes, b.toNat < 256
  | simpleEscape c => c ∈ simpleEscapes
  | numericEscape _ => True
  | universalName codePoint => codePoint < 2 ^ 32

theorem LiteralBody.proper (h : LiteralBody body items) : ∀ item ∈ items, item.Proper := by
  induction h with
  | nil => exact List.forall_mem_nil _
  | direct hbytes _ ih => exact forall_mem_cons.mpr ⟨⟨hbytes.ne_nil, hbytes.byte⟩, ih⟩
  | simpleEscape hc _ ih => exact forall_mem_cons.mpr ⟨hc, ih⟩
  | octal _ _ _ _ _ ih | hex _ _ _ _ ih => exact forall_mem_cons.mpr ⟨trivial, ih⟩
  | universalName hform _ _ ih => exact forall_mem_cons.mpr ⟨hexNumber_lt (by omega), ih⟩

theorem LiteralItem.Proper.values_lt {item : LiteralItem} (h : item.Proper) :
    ∀ low ∈ item.values, low < 2 ^ 32 := by
  cases item with
  | direct bytes =>
    simp only [LiteralItem.values, List.mem_map]
    rintro _ ⟨b, hb, rfl⟩
    have := h.2 b hb
    omega
  | simpleEscape c =>
    have hvalue := simpleEscapeValue_lt h
    simp only [LiteralItem.values, mem_singleton]
    omega
  | numericEscape value =>
    simp only [LiteralItem.values, mem_singleton]
    omega
  | universalName codePoint =>
    simp only [LiteralItem.values, mem_singleton, forall_eq]
    exact h

theorem literalMaxVal_lt {width : Nat} (hwidth : 0 < width) (hlow : low < 2 ^ 32) :
    literalMaxVal width < low ↔ 2 ^ width ≤ low := by
  unfold literalMaxVal
  split
  · have hwide : 63 ≤ width := by omega
    have hpow : 2 ^ 63 ≤ 2 ^ width := Nat.pow_le_pow_right (by decide) hwide
    omega
  · have hpow : 0 < 2 ^ width := Nat.two_pow_pos width
    rw [Int.toNat_natCast]
    omega

theorem StringDecoder.report {width : Nat} (d : StringDecoder (literalMaxVal width) σ) (res : σ)
    (h : LiteralBody body items) (hwidth : 0 < width) (hok : d.ok res = true)
    (hoverflow : d.overflow res = false) :
    d.overflow (d.loop 0 res body) = true ∨ d.ok (d.loop 0 res body) = false ↔
      ∃ item ∈ items, ∃ low ∈ item.values, Unrepresentable width low := by
  have hflag : ∀ p : Nat → Prop, (∃ low ∈ items.flatMap LiteralItem.values, p low) ↔
      ∃ item ∈ items, ∃ low ∈ item.values, p low := by
    intro p
    simp only [List.mem_flatMap]
    exact ⟨fun ⟨low, ⟨item, hitem, hlow⟩, hp⟩ => ⟨item, hitem, low, hlow, hp⟩,
      fun ⟨item, hitem, low, hlow, hp⟩ => ⟨low, ⟨item, hitem, hlow⟩, hp⟩⟩
  rw [d.loop_body h, d.overflow_foldl, d.ok_foldl, hok, hoverflow]
  simp only [Bool.false_eq_true, Bool.true_eq_false, false_or, hflag]
  constructor
  · rintro (⟨item, hitem, low, hlow, hvalue⟩ | ⟨item, hitem, low, hlow, hvalue⟩)
    · exact ⟨item, hitem, low, hlow,
        .inl ((literalMaxVal_lt hwidth ((h.proper _ hitem).values_lt _ hlow)).mp hvalue)⟩
    · exact ⟨item, hitem, low, hlow, .inr hvalue⟩
  · rintro ⟨item, hitem, low, hlow, hvalue | hvalue⟩
    · exact .inl ⟨item, hitem, low, hlow,
        (literalMaxVal_lt hwidth ((h.proper _ hitem).values_lt _ hlow)).mpr hvalue⟩
    · exact .inr ⟨item, hitem, low, hlow, hvalue⟩

theorem reportsExactly_iff : ReportsExactly width items ↔
    ((∃ item ∈ items, ∃ low ∈ item.values, Unrepresentable width low) ↔
      ∃ value, .numericEscape value ∈ items ∧ 2 ^ width ≤ value) := by
  constructor
  · rintro ⟨hseen, honly⟩
    refine ⟨?_, fun ⟨value, hmem, hvalue⟩ => hseen hmem hvalue⟩
    rintro ⟨item, hitem, low, hlow, hrefused⟩
    by_contra hnone
    refine honly (fun value hmem => ?_) item hitem low hlow hrefused
    by_contra hlarge
    exact hnone ⟨value, hmem, Nat.le_of_not_lt hlarge⟩
  · intro h
    refine ⟨fun hmem hvalue => h.mpr ⟨_, hmem, hvalue⟩, ?_⟩
    intro hsmall item hitem low hlow hrefused
    obtain ⟨value, hmem, hvalue⟩ := h.mp ⟨item, hitem, low, hlow, hrefused⟩
    exact absurd (hsmall value hmem) (Nat.not_lt_of_le hvalue)

-- What is written

def lowByte (value : Nat) : Char := Char.ofNat (value % 256)

theorem lowByte_toNat (h : b.toNat < 256) : lowByte b.toNat = b := by
  rw [lowByte, Nat.mod_eq_of_lt h, Char.ofNat_toNat]

theorem bytes_foldl (values : List Nat) (res : LiteralDecode)
    (hcap : res.bytes.length + values.length < cap) :
    (values.foldl (LiteralDecode.push maxVal cap) res).bytes = res.bytes ++ values.map lowByte := by
  induction values generalizing res with
  | nil => simp
  | cons value values ih =>
    rw [length_cons] at hcap
    have hpush : (res.push maxVal cap value).bytes = res.bytes ++ [lowByte value] :=
      if_pos (by omega)
    have hnext : (res.push maxVal cap value).bytes.length + values.length < cap := by
      rw [hpush, length_append, List.length_singleton]
      omega
    rw [foldl_cons, ih _ hnext, hpush]
    simp

theorem elements_foldl (values : List Nat) (res : WideLiteralDecode) :
    (values.foldl (WideLiteralDecode.push maxVal) res).elements = res.elements ++ values := by
  induction values generalizing res with
  | nil => simp
  | cons value values ih =>
    have hpush : (res.push maxVal value).elements = res.elements ++ [value] := rfl
    rw [foldl_cons, ih, hpush, List.append_assoc]
    rfl

theorem LiteralBody.values_length (h : LiteralBody body items) :
    (items.flatMap LiteralItem.values).length ≤ body.length := by
  induction h with
  | nil => exact Nat.le_refl 0
  | direct _ _ ih => simpa [LiteralItem.values] using ih
  | _ =>
    simp only [flatMap_cons, LiteralItem.values, length_append, length_cons, List.length_nil]
    omega

theorem utf8Chars_two (h : 0x80 ≤ c.toNat) : 2 ≤ (utf8Chars c).length := by
  have hval : c.val.toNat = c.toNat := rfl
  simp only [utf8Chars, String.utf8EncodeChar, hval, List.length_map]
  split
  · omega
  split
  · exact Nat.le_refl 2
  split
  · exact Nat.le_succ 2
  · exact Nat.le_add_right 2 2

theorem NarrowPart.length (h : NarrowPart item part) : item.values.length ≤ part.length := by
  cases h with
  | @universalName c =>
    obtain ⟨a, text, hchars⟩ := utf8Chars_cons c
    rw [hchars]
    exact Nat.succ_le_succ (Nat.zero_le _)
  | _ => simp [LiteralItem.values]

theorem NarrowPart.single (h : NarrowPart (.universalName codePoint) part) (hlen : part.length = 1) :
    codePoint < 0x80 := by
  cases h with
  | universalName =>
    by_contra hhigh
    have htwo := utf8Chars_two (Nat.le_of_not_lt hhigh)
    omega

theorem parts_length (h : List.Forall₂ NarrowPart items parts) :
    (items.flatMap LiteralItem.values).length ≤ parts.flatten.length ∧
      ((items.flatMap LiteralItem.values).length = parts.flatten.length →
        ∀ codePoint, .universalName codePoint ∈ items → codePoint < 0x80) := by
  induction h with
  | nil => simp
  | @cons item part items parts hpart _ ih =>
    have hle := hpart.length
    simp only [flatMap_cons, List.flatten_cons, length_append]
    refine ⟨by omega, fun hlen codePoint hmem => ?_⟩
    rcases mem_cons.mp hmem with rfl | hmem
    · exact hpart.single (by simp only [LiteralItem.values, List.length_singleton] at hle hlen; omega)
    · exact ih.2 (by omega) codePoint hmem

theorem LiteralItem.Proper.part (h : item.Proper)
    (hname : ∀ codePoint, item = .universalName codePoint → codePoint < 0x80) :
    NarrowPart item (item.values.map lowByte) := by
  cases item with
  | direct bytes =>
    have hsame : (LiteralItem.direct bytes).values.map lowByte = bytes := by
      rw [LiteralItem.values, List.map_map]
      exact (List.map_congr_left fun b hb => lowByte_toNat (h.2 b hb)).trans (List.map_id bytes)
    rw [hsame]
    exact .direct
  | simpleEscape c =>
    have hbyte : lowByte (simpleEscapeValue c).toNat = Char.ofNat (simpleEscapeValue c).toNat := by
      rw [lowByte, Nat.mod_eq_of_lt (simpleEscapeValue_lt h)]
    rw [LiteralItem.values, List.map_singleton, hbyte]
    exact .simpleEscape
  | numericEscape value =>
    refine .numericEscape fun hvalue => ?_
    rw [lowByte, Nat.mod_mod_of_dvd value (by decide), Nat.mod_eq_of_lt hvalue]
  | universalName codePoint =>
    have hascii := hname codePoint rfl
    have hnat : (Char.ofNat codePoint).toNat = codePoint := Utf8.toNat_ofNat (.inl (by omega))
    have hchars : utf8Chars (Char.ofNat codePoint) = [lowByte codePoint] := by
      rw [utf8Chars_ascii (by omega), lowByte, Nat.mod_eq_of_lt (by omega)]
    rw [LiteralItem.values, List.map_singleton, ← hchars]
    have hpart : NarrowPart (.universalName (Char.ofNat codePoint).toNat) (utf8Chars (Char.ofNat codePoint)) :=
      .universalName
    rwa [hnat] at hpart

theorem values_flatMap_length {items : List LiteralItem} (h : ∀ item ∈ items, item.Proper) :
    items.length ≤ (items.flatMap LiteralItem.values).length ∧
      ((items.flatMap LiteralItem.values).length = items.length ↔
        ∀ bytes, .direct bytes ∈ items → bytes.length = 1) := by
  induction items with
  | nil => simp
  | cons item items ih =>
    obtain ⟨hitem, hitems⟩ := forall_mem_cons.mp h
    obtain ⟨hle, hiff⟩ := ih hitems
    simp only [flatMap_cons, length_append, length_cons]
    cases item with
    | direct bytes =>
      have hlen : (LiteralItem.direct bytes).values.length = bytes.length := by simp [LiteralItem.values]
      have hpos := hitem.1
      refine ⟨by omega, fun hsum other hmem => ?_, fun hall => ?_⟩
      · rcases mem_cons.mp hmem with heq | hmem
        · obtain rfl := LiteralItem.direct.inj heq
          omega
        · exact hiff.mp (by omega) other hmem
      · have hhead := hall bytes List.mem_cons_self
        have htail := hiff.mpr fun other hmem => hall other (List.mem_cons_of_mem _ hmem)
        omega
    | _ =>
      simp only [LiteralItem.values, List.length_singleton, mem_cons, reduceCtorEq, false_or]
      exact ⟨by omega, by rw [← hiff]; omega⟩

-- Faithful decoding of accepted bodies

theorem narrowFaithful_iff {width : Nat} (h : LiteralBody body items) (hwidth : 0 < width) :
    NarrowFaithful width body items ↔ ReportsExactly width items ∧
      (width ≤ 8 → ∀ codePoint, .universalName codePoint ∈ items → codePoint < 0x80) := by
  let cap := if (width : Int) ≤ 8 then body.length + 1 else 0
  let d := narrowDecoder (literalMaxVal width) cap
  have hreport := d.report ⟨true, false, 0, []⟩ h hwidth rfl rfl
  have hrun : decodeCStringLiteral body width =
      (items.flatMap LiteralItem.values).foldl d.push ⟨true, false, 0, []⟩ := d.loop_body h _
  have hlength : (decodeCStringLiteral body width).length = (items.flatMap LiteralItem.values).length := by
    rw [hrun]
    exact (d.length_foldl _ _).trans (Nat.zero_add _)
  have hbytes : width ≤ 8 → (decodeCStringLiteral body width).bytes =
      (items.flatMap LiteralItem.values).map lowByte := by
    intro hnarrow
    have hcap : cap = body.length + 1 := if_pos (by omega)
    rw [hrun]
    refine (bytes_foldl _ _ ?_).trans (List.nil_append _)
    rw [hcap, List.length_nil, Nat.zero_add]
    exact Nat.lt_succ_of_le h.values_length
  constructor
  · rintro ⟨hexact, hwritten, -⟩
    refine ⟨reportsExactly_iff.mpr (hreport.symm.trans hexact), fun hnarrow => ?_⟩
    obtain ⟨parts, hparts, hflat⟩ := hwritten hnarrow
    refine (parts_length hparts).2 ?_
    rw [← hflat, hbytes hnarrow, List.length_map]
  · rintro ⟨hexact, hnames⟩
    refine ⟨hreport.trans (reportsExactly_iff.mp hexact), fun hnarrow => ?_, fun hnarrow => ?_⟩
    · refine ⟨items.map fun item => item.values.map lowByte, ?_, ?_⟩
      · refine List.forall₂_map_right_iff.mpr (List.forall₂_same.mpr fun item hitem => ?_)
        refine (h.proper item hitem).part fun codePoint hname => ?_
        subst hname
        exact hnames hnarrow codePoint hitem
      · rw [hbytes hnarrow, List.map_flatMap, List.flatMap_def]
    · rw [hbytes hnarrow, hlength, List.length_map]

theorem wideFaithful_iff {width : Nat} (h : LiteralBody body items) (hwidth : 0 < width) :
    WideFaithful width body items ↔ ReportsExactly width items ∧
      ∀ bytes, .direct bytes ∈ items → bytes.length = 1 := by
  let d := wideDecoder (literalMaxVal width)
  have hreport := d.report ⟨true, false, 0, []⟩ h hwidth rfl rfl
  have hrun : decodeCStringLiteralWide body width =
      (items.flatMap LiteralItem.values).foldl d.push ⟨true, false, 0, []⟩ := d.loop_body h _
  have helements : (decodeCStringLiteralWide body width).elements = items.flatMap LiteralItem.values := by
    rw [hrun]
    exact elements_foldl _ _
  have hlength : (decodeCStringLiteralWide body width).length =
      (decodeCStringLiteralWide body width).elements.length := by
    rw [helements, hrun]
    exact (d.length_foldl _ _).trans (Nat.zero_add _)
  have hdirect := (values_flatMap_length h.proper).2
  constructor
  · rintro ⟨hexact, hwritten, -⟩
    rw [helements] at hwritten
    exact ⟨reportsExactly_iff.mpr (hreport.symm.trans hexact), hdirect.mp hwritten⟩
  · rintro ⟨hexact, hbytes⟩
    refine ⟨hreport.trans (reportsExactly_iff.mp hexact), ?_, hlength⟩
    rw [helements]
    exact hdirect.mpr hbytes

/-- An accepted body is a sequence of items. A decoder reports exactly the escapes that do not fit
where 32 bits show them and nothing else is refused; the narrow one keeps its characters where no
universal name needs more than a byte, the wide one where no direct character does. -/
theorem decodeCStringLiteral_faithful_iff (body : List Char) (h : AcceptedLiteralBody body) :
    (∃ items, LiteralBody body items) ∧
    ∀ items, LiteralBody body items → ∀ width : Nat, 0 < width →
      (NarrowFaithful width body items ↔ ReportsExactly width items ∧
        (width ≤ 8 → ∀ codePoint, .universalName codePoint ∈ items → codePoint < 0x80)) ∧
      (WideFaithful width body items ↔ ReportsExactly width items ∧
        ∀ bytes, .direct bytes ∈ items → bytes.length = 1) :=
  ⟨h.items, fun _ hbody _ hwidth => ⟨narrowFaithful_iff hbody hwidth, wideFaithful_iff hbody hwidth⟩⟩

/-- The capital A as a hexadecimal escape. -/
theorem decodeCStringLiteral_faithful_hex : NarrowFaithful 8 "\\x41".toList [.numericEscape 0x41] := by
  have haccepted : AcceptedLiteralBody "\\x41".toList := acceptedLiteralBody_closed rfl rfl
  have hbody : LiteralBody ('\\' :: 'x' :: (['4', '1'] ++ [])) [.numericEscape 0x41] :=
    .hex (List.cons_ne_nil _ _) (List.all_eq_true.mp rfl) (by simp) .nil
  refine (((decodeCStringLiteral_faithful_iff _ haccepted).2 _ hbody 8 (by decide)).1).mpr ⟨⟨?_, ?_⟩, ?_⟩
  · intro value hmem hlarge
    obtain rfl : value = 0x41 := by simpa using hmem
    exact absurd hlarge (by decide)
  · intro _ item hitem low hlow hrefused
    obtain rfl : item = .numericEscape 0x41 := by simpa using hitem
    obtain rfl : low = 0x41 := by simpa [LiteralItem.values] using hlow
    rcases hrefused with h | h | h
    · exact absurd h (by decide)
    · exact absurd h (by decide)
    · exact absurd h.1 (by decide)
  · intro _ codePoint hmem
    simp at hmem

/-- A universal name beyond ASCII becomes the low byte of its code point. -/
theorem universalName_not_faithful : ∃ body items, AcceptedLiteralBody body ∧ LiteralBody body items ∧
    body = "\\u00e9".toList ∧ ¬NarrowFaithful 8 body items := by
  have hbody : LiteralBody ('\\' :: 'u' :: (['0', '0', 'e', '9'] ++ [])) [.universalName 0xE9] :=
    .universalName (.inl ⟨rfl, rfl⟩) (List.all_eq_true.mp rfl) .nil
  refine ⟨_, _, acceptedLiteralBody_closed rfl rfl, hbody, rfl, ?_⟩
  rintro ⟨-, hwritten, -⟩
  obtain ⟨parts, hparts, hflat⟩ := hwritten (Nat.le_refl 8)
  have hnames := (parts_length hparts).2 (by rw [← hflat]; rfl)
  exact absurd (hnames 0xE9 List.mem_cons_self) (by decide)

end Fisics
