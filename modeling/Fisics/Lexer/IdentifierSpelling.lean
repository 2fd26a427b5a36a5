import Fisics.Lexer.Spelling

/-!
# Identifier spellings

An identifier is a sequence of code points, and the source writes each of them as a
letter or digit, as UTF-8 or as a universal character name of four or eight digits. The
lexer keeps the UTF-8 of the sequence, whichever way it was written.
-/

namespace Fisics

open List (cons_append flatMap_cons forall_mem_cons length_cons map_cons map_nil)

-- The characters of an identifier

def hexNumber (digits : List Char) : Nat :=
  digits.foldl (fun value d => value * 16 + (lexerHexValue d).getD 0) 0

inductive IdentifierCharacter where
  | word (c : Char) (hword : isWord c = true)
  | utf8 (c : Char) (hhigh : 0x80 ≤ c.toNat)
  | universalName (c letter : Char) (digits : List Char)
      (hform : letter = 'u' ∧ digits.length = 4 ∨ letter = 'U' ∧ digits.length = 8)
      (hhex : ∀ d ∈ digits, (lexerHexValue d).isSome = true) (hvalue : hexNumber digits = c.toNat)

def byteChar (b : UInt8) : Char := Char.ofNat b.toNat

def utf8Chars (c : Char) : List Char := (String.utf8EncodeChar c).map byteChar

namespace IdentifierCharacter

def codePoint : IdentifierCharacter → Char
  | word c _ => c
  | utf8 c _ => c
  | universalName c _ _ _ _ _ => c

def spelling : IdentifierCharacter → List Char
  | word c _ => [c]
  | utf8 c _ => utf8Chars c
  | universalName _ letter digits _ _ _ => '\\' :: letter :: digits

end IdentifierCharacter

def Denotes (text codePoints : List Char) : Prop :=
  ∃ cs : List IdentifierCharacter, cs.flatMap IdentifierCharacter.spelling = text ∧
    cs.map IdentifierCharacter.codePoint = codePoints

/-- The text that some run of the lexer over bytes takes as one identifier. -/
def AcceptedIdentifier (text : List Char) : Prop :=
  ∃ lexer : Lexer, (∀ c ∈ lexer.source, c.toNat < 256) ∧
    lexer.rest.take (identifierLength 0 lexer.rest) = text

-- Bytes

theorem byteChar_toNat (b : UInt8) : (byteChar b).toNat = b.toNat :=
  Utf8.toNat_ofNat (.inl (Nat.lt_trans b.toNat_lt (by decide)))

theorem byteChar_injective : Function.Injective byteChar := by
  intro a b h
  have hnat := congrArg Char.toNat h
  rw [byteChar_toNat, byteChar_toNat] at hnat
  exact UInt8.toNat_inj.mp hnat

theorem byteChar_ofNat (h : c.toNat < 256) : byteChar (UInt8.ofNat c.toNat) = c := by
  have hnat : (UInt8.ofNat c.toNat).toNat = c.toNat := by
    rw [UInt8.toNat_ofNat', Nat.mod_eq_of_lt h]
  rw [byteChar, hnat, Char.ofNat_toNat]

theorem utf8Chars_ascii (h : c.toNat < 0x80) : utf8Chars c = [c] := by
  have hbyte : c.toNat.toUInt8 = UInt8.ofNat c.toNat := rfl
  rw [utf8Chars, Utf8.encodeChar_ascii h, hbyte, List.map_singleton, byteChar_ofNat (by omega)]

theorem flatMap_utf8Chars (cs : List Char) : cs.flatMap utf8Chars = (Utf8.encode cs).map byteChar := by
  induction cs with
  | nil => rfl
  | cons c cs ih => rw [flatMap_cons, ih, Utf8.encode_cons, List.map_append, utf8Chars]

theorem flatMap_utf8Chars_injective : Function.Injective (List.flatMap utf8Chars) := by
  intro cs ds h
  simp only [flatMap_utf8Chars] at h
  exact Utf8.encode_injective (List.map_injective_iff.mpr byteChar_injective h)

theorem ofNat_eq_byteChar (h : m = n % 256) : Char.ofNat m = byteChar (UInt8.ofNat n) := by
  rw [byteChar, UInt8.toNat_ofNat', h]

theorem lead_or (i k : Nat) (hx : x < 2 ^ i) : 2 ^ i * k ||| x = 2 ^ i * k + x :=
  (Nat.two_pow_add_eq_or_of_lt hx k).symm

theorem lexerEncodeUtf8_eq (c : Char) : lexerEncodeUtf8 c.toNat = utf8Chars c := by
  have hc := Utf8.toNat_scalar c
  have hval : c.val.toNat = c.toNat := rfl
  have hmask : ∀ n, n &&& 0x3F = n % 64 := fun n => Nat.and_two_pow_sub_one_eq_mod n 6
  have htail : ∀ n, 0x80 ||| n % 64 = 128 + n % 64 := fun n => lead_or 7 1 (by omega)
  simp only [lexerEncodeUtf8, utf8Chars, String.utf8EncodeChar, hval, Nat.shiftRight_eq_div_pow, hmask,
    htail]
  split
  · simp only [map_cons, map_nil, List.cons.injEq]
    exact ⟨ofNat_eq_byteChar (by omega), trivial⟩
  split
  · have hlead : 0xC0 ||| c.toNat / 2 ^ 6 = 192 + c.toNat / 2 ^ 6 := lead_or 6 3 (by omega)
    simp only [map_cons, map_nil, List.cons.injEq, hlead]
    exact ⟨ofNat_eq_byteChar (by omega), ofNat_eq_byteChar (by omega), trivial⟩
  split
  · have hlead : 0xE0 ||| c.toNat / 2 ^ 12 = 224 + c.toNat / 2 ^ 12 := lead_or 5 7 (by omega)
    simp only [map_cons, map_nil, List.cons.injEq, hlead]
    exact ⟨ofNat_eq_byteChar (by omega), ofNat_eq_byteChar (by omega),
      ofNat_eq_byteChar (by omega), trivial⟩
  · have hlead : 0xF0 ||| c.toNat / 2 ^ 18 = 240 + c.toNat / 2 ^ 18 := lead_or 4 15 (by omega)
    simp only [map_cons, map_nil, List.cons.injEq, hlead]
    exact ⟨ofNat_eq_byteChar (by omega), ofNat_eq_byteChar (by omega),
      ofNat_eq_byteChar (by omega), ofNat_eq_byteChar (by omega), trivial⟩

-- What the lexer keeps

theorem lexerHexValue_lt (h : lexerHexValue d = some value) : value < 16 := by
  have hrange : ∀ a b : Char, a ≤ b ↔ a.toNat ≤ b.toNat := fun _ _ => Iff.rfl
  unfold lexerHexValue at h
  split at h
  · rename_i hd
    simp only [Char.isDigit, Bool.and_eq_true, decide_eq_true_eq] at hd
    have hle : d.toNat ≤ '9'.toNat := hd.2
    have hvalue := Option.some.inj h
    have hzero : '0'.toNat = 48 := rfl
    have hnine : '9'.toNat = 57 := rfl
    omega
  · split at h
    · rename_i hd
      rw [hrange, hrange] at hd
      have hvalue := Option.some.inj h
      have ha : 'a'.toNat = 97 := rfl
      have hf : 'f'.toNat = 102 := rfl
      omega
    · split at h
      · rename_i hd
        rw [hrange, hrange] at hd
        have hvalue := Option.some.inj h
        have ha : 'A'.toNat = 65 := rfl
        have hf : 'F'.toNat = 70 := rfl
        omega
      · cases h

/-- The digits of a name never leave the 32 bits of the code point. -/
theorem hexDigits_eq (hhex : ∀ d ∈ digits, (lexerHexValue d).isSome = true)
    (hfits : (value + 1) * 16 ^ digits.length ≤ 2 ^ 32) (rest : List Char) :
    hexDigits digits.length value (digits ++ rest) =
      some (digits.foldl (fun value d => value * 16 + (lexerHexValue d).getD 0) value) := by
  induction digits generalizing value with
  | nil => rfl
  | cons d digits ih =>
    obtain ⟨hd, hdigits⟩ := forall_mem_cons.mp hhex
    obtain ⟨x, hx⟩ := Option.isSome_iff_exists.mp hd
    have hlt := lexerHexValue_lt hx
    have hpow : 0 < 16 ^ digits.length := Nat.pow_pos (by decide)
    have hnext : (value * 16 + x + 1) * 16 ^ digits.length ≤ 2 ^ 32 := by
      calc (value * 16 + x + 1) * 16 ^ digits.length
          ≤ (value + 1) * 16 * 16 ^ digits.length := Nat.mul_le_mul_right _ (by omega)
        _ = (value + 1) * 16 ^ (d :: digits).length := by
          rw [length_cons, Nat.pow_succ', Nat.mul_assoc]
        _ ≤ 2 ^ 32 := hfits
    have hsmall : value * 16 + x < 2 ^ 32 :=
      Nat.lt_of_lt_of_le (Nat.lt_succ_self _) (Nat.le_trans (Nat.le_mul_of_pos_right _ hpow) hnext)
    rw [length_cons, cons_append, hexDigits, hx, Option.bind_some, Nat.mod_eq_of_lt hsmall,
      ih hdigits hnext, List.foldl_cons, hx, Option.getD_some]

theorem hexDigits_isSome (h : hexDigits digits value text = some codepoint) :
    ∀ d ∈ text.take digits, (lexerHexValue d).isSome = true := by
  induction digits generalizing value text with
  | zero => simp
  | succ digits ih =>
    cases text with
    | nil => simp
    | cons c text => ?_
    rw [hexDigits] at h
    cases hc : lexerHexValue c with
    | none => simp [hc] at h
    | some x =>
      rw [hc] at h
      exact forall_mem_cons.mpr ⟨by rw [hc]; rfl, ih h⟩

theorem normalize_skip (skip : Nat) (text : List Char) :
    lexerNormalizeIdentifierSpelling skip text = lexerNormalizeIdentifierSpelling 0 (text.drop skip) := by
  induction text generalizing skip with
  | nil => cases skip <;> simp [lexerNormalizeIdentifierSpelling]
  | cons c text ih =>
    cases skip with
    | zero => rfl
    | succ skip =>
      exact ih skip

theorem normalize_append (h : '\\' ∉ text) (rest : List Char) :
    lexerNormalizeIdentifierSpelling 0 (text ++ rest) =
      text ++ lexerNormalizeIdentifierSpelling 0 rest := by
  induction text with
  | nil => rfl
  | cons c text ih =>
    rw [List.mem_cons, not_or] at h
    rw [cons_append, normalize_cons (Ne.symm h.1), ih h.2, cons_append]

theorem isAlpha_eq (c : Char) :
    c.isAlpha = (decide ('A'.val ≤ c.val ∧ c.val ≤ 'Z'.val) ||
      decide ('a'.val ≤ c.val) && decide (c.val ≤ 'z'.val)) := rfl

theorem toNat_of_isWord (h : isWord c = true) : c.toNat < 0x80 := by
  simp only [isWord, Char.isAlphanum, isAlpha_eq, Char.isDigit, Bool.or_eq_true, Bool.and_eq_true,
    decide_eq_true_eq, beq_iff_eq, UInt32.le_iff_toNat_le] at h
  rcases h with h | rfl
  · simp at h
    omega
  · decide

theorem utf8Chars_high (h : 0x80 ≤ c.toNat) : ∀ d ∈ utf8Chars c, 0x80 ≤ d.toNat := by
  intro d hd
  obtain ⟨b, hb, rfl⟩ := List.mem_map.mp hd
  rw [byteChar_toNat]
  exact Utf8.encodeChar_high h b hb

theorem normalize_spelling (c : IdentifierCharacter) (rest : List Char) :
    lexerNormalizeIdentifierSpelling 0 (c.spelling ++ rest) =
      utf8Chars c.codePoint ++ lexerNormalizeIdentifierSpelling 0 rest := by
  cases c with
  | word c hword =>
    have hbyte : IsWordByte c := .inl hword
    rw [IdentifierCharacter.spelling, IdentifierCharacter.codePoint,
      utf8Chars_ascii (toNat_of_isWord hword)]
    exact normalize_cons hbyte.ne_backslash rest
  | utf8 c hhigh =>
    refine normalize_append ?_ rest
    intro hmem
    have hback := utf8Chars_high hhigh _ hmem
    exact absurd hback (by decide)
  | universalName c letter digits hform hhex hvalue =>
    have hfits : (0 + 1) * 16 ^ digits.length ≤ 2 ^ 32 := by
      rcases hform with ⟨-, hlength⟩ | ⟨-, hlength⟩ <;> rw [hlength] <;> decide
    have hhexed := hexDigits_eq hhex hfits rest
    have hcode : hexDigits digits.length 0 (digits ++ rest) = some c.toNat := by
      rw [hhexed]
      exact congrArg some hvalue
    have hletter : letter = 'u' ∧ digits.length = 4 ∨ letter = 'U' ∧ digits.length = 8 := hform
    simp only [IdentifierCharacter.spelling, IdentifierCharacter.codePoint, cons_append]
    rw [normalize_ucn hletter hcode, normalize_skip, List.drop_succ_cons, List.drop_left,
      lexerEncodeUtf8_eq]

theorem normalize_flatMap (cs : List IdentifierCharacter) :
    lexerNormalizeIdentifierSpelling 0 (cs.flatMap IdentifierCharacter.spelling) =
      (cs.map IdentifierCharacter.codePoint).flatMap utf8Chars := by
  induction cs with
  | nil => rfl
  | cons c cs ih => rw [flatMap_cons, normalize_spelling, ih, map_cons, flatMap_cons]

-- What the lexer accepts

theorem identifierLength_skip (skip : Nat) (text : List Char) (h : skip ≤ text.length) :
    identifierLength skip text = skip + identifierLength 0 (text.drop skip) := by
  induction text generalizing skip with
  | nil =>
    obtain rfl := Nat.le_zero.mp h
    simp
  | cons c text ih =>
    cases skip with
    | zero => simp
    | succ skip =>
      rw [identifierLength, ih skip (Nat.le_of_succ_le_succ h), List.drop_succ_cons]
      omega

theorem ucn_character (h : 0 < lexerIdentifierUcnLength text) :
    ∃ (c : IdentifierCharacter) (rest : List Char), text = c.spelling ++ rest ∧
      lexerIdentifierUcnLength text = c.spelling.length := by
  obtain ⟨letter, digits, rest, codepoint, rfl, hform, hhex, hsupported, hlength⟩ := ucn_cases h
  have hrange := supported_range hsupported
  have henough := hexDigits_length hhex
  have hlen : (rest.take digits).length = digits := List.length_take_of_le henough
  have hsome := hexDigits_isSome hhex
  have hfits : (0 + 1) * 16 ^ (rest.take digits).length ≤ 2 ^ 32 := by
    rw [hlen]
    rcases hform with ⟨-, rfl⟩ | ⟨-, rfl⟩ <;> decide
  have hvalue := hexDigits_eq hsome hfits []
  rw [hlen, List.append_nil, hexDigits_take hhex (Nat.le_refl digits)] at hvalue
  refine ⟨.universalName (Char.ofNat codepoint) letter (rest.take digits) ?_ hsome ?_,
    rest.drop digits, ?_, ?_⟩
  · rw [hlen]
    exact hform
  · rw [Utf8.toNat_ofNat (.inl (by omega))]
    exact (Option.some.inj hvalue).symm
  · simp [IdentifierCharacter.spelling]
  · rw [hlength, IdentifierCharacter.spelling, length_cons, length_cons, hlen]

theorem continuation_range (hbyte : n < 256) (h : n &&& 0xC0 = 0x80) : 0x80 ≤ n ∧ n < 0xC0 := by
  have hall : ∀ n : Fin 256, n.val &&& 0xC0 = 0x80 → 0x80 ≤ n.val ∧ n.val < 0xC0 := by decide +kernel
  exact hall ⟨n, hbyte⟩ h

theorem utf8Length_two (h : 0 < lexerIdentifierUtf8Length text) :
    ∃ a b rest, text = a :: b :: rest ∧ 0xC2 ≤ a.toNat ∧ a.toNat ≤ 0xDF ∧
      b.toNat &&& 0xC0 = 0x80 ∧ lexerIdentifierUtf8Length text = 2 := by
  unfold lexerIdentifierUtf8Length at h ⊢
  cases hdecode : lexerDecodeUtf8 text with
  | none => simp [hdecode] at h
  | some r => ?_
  obtain ⟨length, codepoint⟩ := r
  simp only [hdecode] at h ⊢
  split at h
  · rename_i hsupported
    have hrange := supported_range hsupported
    cases text with
    | nil => simp [lexerDecodeUtf8] at hdecode
    | cons a rest => ?_
    simp only [lexerDecodeUtf8, Option.bind_eq_some_iff] at hdecode
    obtain ⟨⟨lead, bits⟩, hlead, codepoint', hcont, hlast⟩ := hdecode
    split at hlast
    · cases hlast
    rename_i hshort
    obtain ⟨rfl, rfl⟩ : lead = length ∧ codepoint' = codepoint := by simpa using hlast
    split at hlead
    · rename_i ha
      obtain ⟨rfl, rfl⟩ : 2 = lead ∧ _ = bits := by simpa using hlead
      cases rest with
      | nil => simp [utf8Continuation] at hcont
      | cons b rest => ?_
      simp only [Nat.reduceSub, utf8Continuation] at hcont
      split at hcont
      · cases hcont
      rename_i hb
      exact ⟨a, b, rest, rfl, ha.1, ha.2, Decidable.not_not.mp hb, if_pos hsupported⟩
    · -- a longer sequence of so small a code point is refused
      split at hlead
      · obtain ⟨rfl, -⟩ : 3 = lead ∧ _ = bits := by simpa using hlead
        exact absurd (.inl ⟨rfl, by omega⟩) hshort
      split at hlead
      · obtain ⟨rfl, -⟩ : 4 = lead ∧ _ = bits := by simpa using hlead
        exact absurd (.inr (.inl ⟨rfl, by omega⟩)) hshort
      · cases hlead
  · omega

theorem utf8_character (hbytes : ∀ c ∈ text, Char.toNat c < 256) (h : 0 < lexerIdentifierUtf8Length text) :
    ∃ (c : IdentifierCharacter) (rest : List Char), text = c.spelling ++ rest ∧
      lexerIdentifierUtf8Length text = c.spelling.length := by
  obtain ⟨a, b, rest, rfl, hlow, hhigh, hb, hlength⟩ := utf8Length_two h
  obtain ⟨ha256, hrest⟩ := forall_mem_cons.mp hbytes
  have hb256 := (forall_mem_cons.mp hrest).1
  have htail := continuation_range hb256 hb
  have hnat : ∀ {d : Char}, d.toNat < 256 → (UInt8.ofNat d.toNat).toNat = d.toNat := by
    intro d hd
    rw [UInt8.toNat_ofNat', Nat.mod_eq_of_lt hd]
  have hseq : Utf8.IsSequence [UInt8.ofNat a.toNat, UInt8.ofNat b.toNat] := by
    simp only [Utf8.IsSequence, Utf8.Tail, hnat ha256, hnat hb256]
    omega
  obtain ⟨c, hc⟩ := Utf8.exists_char hseq
  have hchars : utf8Chars c = [a, b] := by
    rw [utf8Chars, hc, map_cons, List.map_singleton, byteChar_ofNat ha256, byteChar_ofNat hb256]
  have hwide : 0x80 ≤ c.toNat := by
    by_contra hascii
    rw [utf8Chars_ascii (by omega)] at hchars
    cases hchars
  refine ⟨.utf8 c hwide, rest, ?_, ?_⟩
  · rw [IdentifierCharacter.spelling, hchars]
    rfl
  · rw [hlength, IdentifierCharacter.spelling, hchars]
    rfl

theorem identifierLength_ucn (hword : isWord c ≠ true) (h : 0 < lexerIdentifierUcnLength (c :: rest)) :
    identifierLength 0 (c :: rest) =
      identifierLength (lexerIdentifierUcnLength (c :: rest) - 1) rest + 1 := by
  rw [identifierLength, if_neg hword]
  exact if_pos h

theorem identifierLength_utf8 (hword : isWord c ≠ true) (hucn : ¬0 < lexerIdentifierUcnLength (c :: rest))
    (h : 0 < lexerIdentifierUtf8Length (c :: rest)) :
    identifierLength 0 (c :: rest) =
      identifierLength (lexerIdentifierUtf8Length (c :: rest) - 1) rest + 1 := by
  rw [identifierLength, if_neg hword]
  exact (if_neg hucn).trans (if_pos h)

theorem utf8Chars_cons (c : Char) : ∃ a text, utf8Chars c = a :: text := by
  unfold utf8Chars String.utf8EncodeChar
  dsimp only
  split
  · exact ⟨_, _, rfl⟩
  split
  · exact ⟨_, _, rfl⟩
  · split <;> exact ⟨_, _, rfl⟩

theorem spelling_cons (c : IdentifierCharacter) : ∃ a text, c.spelling = a :: text := by
  cases c with
  | word c hword => exact ⟨c, [], rfl⟩
  | utf8 c hhigh => exact utf8Chars_cons c
  | universalName c letter digits hform hhex hvalue => exact ⟨'\\', letter :: digits, rfl⟩

theorem identifier_characters (text : List Char) (hbytes : ∀ c ∈ text, c.toNat < 256) (skip : Nat) :
    ∃ cs : List IdentifierCharacter, cs.flatMap IdentifierCharacter.spelling =
      (text.drop skip).take (identifierLength 0 (text.drop skip)) := by
  induction text generalizing skip with
  | nil => exact ⟨[], by simp⟩
  | cons c rest ih =>
    have hrest := (forall_mem_cons.mp hbytes).2
    cases skip with
    | succ skip => exact ih hrest skip
    | zero => ?_
    rw [List.drop_zero]
    -- a character of more than one byte: the scan passes over the rest of it
    have hlong : ∀ (d : IdentifierCharacter) (text : List Char), c :: rest = d.spelling ++ text →
        identifierLength 0 (c :: rest) = identifierLength (d.spelling.length - 1) rest + 1 →
        ∃ cs : List IdentifierCharacter, cs.flatMap IdentifierCharacter.spelling =
          (c :: rest).take (identifierLength 0 (c :: rest)) := by
      intro d text htext hlength
      obtain ⟨a, tail, ha⟩ := spelling_cons d
      rw [ha] at htext hlength
      rw [cons_append] at htext
      obtain ⟨rfl, rfl⟩ := List.cons.inj htext
      obtain ⟨cs, hcs⟩ := ih hrest tail.length
      refine ⟨d :: cs, ?_⟩
      have hskip := identifierLength_skip tail.length (tail ++ text) (by simp)
      rw [List.drop_left] at hcs hskip
      rw [hlength, length_cons, Nat.add_sub_cancel, hskip, flatMap_cons, hcs, ha,
        List.take_succ_cons, List.take_length_add_append]
      rfl
    by_cases hword : isWord c = true
    · obtain ⟨cs, hcs⟩ := ih hrest 0
      refine ⟨.word c hword :: cs, ?_⟩
      rw [identifierLength, if_pos hword, List.take_succ_cons, flatMap_cons, hcs, List.drop_zero]
      rfl
    by_cases hucn : 0 < lexerIdentifierUcnLength (c :: rest)
    · obtain ⟨d, text, htext, hlength⟩ := ucn_character hucn
      refine hlong d text htext ?_
      rw [identifierLength_ucn hword hucn, hlength]
    by_cases hutf8 : 0 < lexerIdentifierUtf8Length (c :: rest)
    · obtain ⟨d, text, htext, hlength⟩ := utf8_character hbytes hutf8
      refine hlong d text htext ?_
      rw [identifierLength_utf8 hword hucn hutf8, hlength]
    · refine ⟨[], ?_⟩
      rw [identifierLength, if_neg hword]
      simp only [if_neg hucn, if_neg hutf8]
      rfl

theorem AcceptedIdentifier.characters (h : AcceptedIdentifier text) :
    ∃ cs : List IdentifierCharacter, cs.flatMap IdentifierCharacter.spelling = text := by
  obtain ⟨lexer, hbytes, rfl⟩ := h
  exact identifier_characters lexer.rest (fun c hc => hbytes c (List.mem_of_mem_drop hc)) 0

theorem AcceptedIdentifier.no_backslash (h : AcceptedIdentifier text) :
    '\\' ∉ lexerNormalizeIdentifierSpelling 0 text := by
  obtain ⟨lexer, -, rfl⟩ := h
  intro hmem
  exact ((identifier_bytes lexer.rest 0).1 _ hmem).ne_backslash rfl

/-- The spelling that is kept says exactly which code points were written: two accepted texts have
the same spelling iff they denote the same code points, and a spelling is its own spelling. -/
theorem lexerNormalizeIdentifierSpelling_canonical (a b : List Char) (ha : AcceptedIdentifier a)
    (hb : AcceptedIdentifier b) :
    (∃ codePoints, Denotes a codePoints) ∧
    (∀ codesA codesB, Denotes a codesA → Denotes b codesB →
      (lexerNormalizeIdentifierSpelling 0 a = lexerNormalizeIdentifierSpelling 0 b ↔ codesA = codesB)) ∧
    lexerNormalizeIdentifierSpelling 0 (lexerNormalizeIdentifierSpelling 0 a) =
      lexerNormalizeIdentifierSpelling 0 a := by
  refine ⟨?_, ?_, normalize_eq ha.no_backslash⟩
  · obtain ⟨cs, hcs⟩ := ha.characters
    exact ⟨_, cs, hcs, rfl⟩
  · rintro codesA codesB ⟨cs, rfl, rfl⟩ ⟨ds, rfl, rfl⟩
    rw [normalize_flatMap, normalize_flatMap]
    exact flatMap_utf8Chars_injective.eq_iff

/-- The small alpha as UTF-8, and as a name in either case of its digits. -/
theorem lexerNormalizeIdentifierSpelling_canonical_alpha :
    lexerNormalizeIdentifierSpelling 0 "\\u03B1".toList =
        lexerNormalizeIdentifierSpelling 0 "\\U000003b1".toList ↔ ['α'] = ['α'] := by
  have hlexed : ∀ text : List Char, text.all (·.toNat < 256) = true →
      text.take (identifierLength 0 text) = text → AcceptedIdentifier text := by
    intro text hbytes htake
    refine ⟨⟨text, none, 0, 1, 0, [], [], [], false⟩, ?_, htake⟩
    intro c hc
    exact of_decide_eq_true (List.all_eq_true.mp hbytes c hc)
  have hshort : AcceptedIdentifier "\\u03B1".toList := hlexed _ (by decide) (by decide)
  have hlong : AcceptedIdentifier "\\U000003b1".toList := hlexed _ (by decide) (by decide)
  refine (lexerNormalizeIdentifierSpelling_canonical _ _ hshort hlong).2.1 _ _ ?_ ?_
  · exact ⟨[.universalName 'α' 'u' "03B1".toList (by decide) (List.all_eq_true.mp rfl) (by decide)],
      rfl, rfl⟩
  · exact ⟨[.universalName 'α' 'U' "000003b1".toList (by decide) (List.all_eq_true.mp rfl) (by decide)],
      rfl, rfl⟩

end Fisics
