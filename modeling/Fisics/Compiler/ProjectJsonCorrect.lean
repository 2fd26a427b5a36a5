import Fisics.Compiler.ProjectJsonValues
import Mathlib.Data.List.TakeWhile

/-!
# The JSON parser accepts its language

`fisics_json_parse` succeeds on the documents of the grammar that are valid UTF-8, are
nested at most 64 deep, repeat no key in an object and have neither `U+0000` nor a lone
surrogate in a string. The tree it gives is the document's, with its strings in UTF-8.
What `json_string` writes is read back.
-/

namespace Fisics.Json

open Utf8
open JsonValue (map nesting)

-- Values

theorem encode_bracket (cs : List Char) : encode ('[' :: cs) = char '[' :: encode cs :=
  encode_ascii (by decide)

theorem encode_brace (cs : List Char) : encode ('\x7b' :: cs) = char '\x7b' :: encode cs :=
  encode_ascii (by decide)

theorem encode_close (cs : List Char) : encode (cs ++ [']']) = encode cs ++ [char ']'] := by
  rw [encode_append, encode_ascii (by decide)]
  rfl

theorem encode_closeBrace (cs : List Char) : encode (cs ++ ['\x7d']) = encode cs ++ [char '\x7d'] := by
  rw [encode_append, encode_ascii (by decide)]
  rfl

theorem skipWhitespace_text (hw : IsWs w) (hc : c.toNat < 0x80) (hb : isWhitespace (char c) = false) :
    skipWhitespace (encode w ++ (encode (c :: cs) ++ rest)) = char c :: (encode cs ++ rest) :=
  skipWhitespace_front hw (encode_ascii hc) hb

theorem parseValue_number (hw : IsWs w) (h : NumberText cs) (hrest : Delimited rest) :
    parseValue (room + 1) (encode w ++ (encode cs ++ rest)) = .ok (.number (encode cs), rest) := by
  have hnumber := parseNumber_complete h hrest
  obtain ⟨c, tail, rfl, hascii, hc⟩ := numberText_front h
  obtain ⟨hopen, -, -⟩ := opens_numberFront hascii hc
  have htest : char c = char '-' ∨ char '0' ≤ char c ∧ char c ≤ char '9' := by
    rcases hc with rfl | hc
    · exact .inl rfl
    · exact .inr ⟨(char_le_char (by decide) hascii).mpr hc.1, (char_le_char hascii (by decide)).mpr hc.2⟩
  have hne : ∀ d : Char, d.toNat < 0x80 → d ≠ '-' → ¬DigitChar d → char c ≠ char d := by
    intro d hd hminus hdigit heq
    obtain rfl := char_inj hascii hd heq
    rcases hc with hc | hc
    · exact hminus hc
    · exact hdigit hc
  have hbrace := hne '\x7b' (by decide) (by decide) (fun h => absurd h.2 (by decide))
  have hbracket := hne '[' (by decide) (by decide) (fun h => absurd h.2 (by decide))
  have hquote := hne '"' (by decide) (by decide) (fun h => absurd h.1 (by decide))
  rw [parseValue_front (skipWhitespace_text hw hascii hopen), if_neg hbrace, if_neg hbracket,
    if_neg hquote, if_pos htest]
  rw [encode_ascii hascii] at hnumber
  rw [encode_ascii hascii]
  exact hnumber

theorem parseValue_string (hw : IsWs w) (h : StringText cs points) (hplain : PlainPoints points) :
    parseValue (room + 1) (encode w ++ (encode cs ++ rest)) =
      .ok (.string (encodePoints points), rest) := by
  have hstring : parseString (encode cs ++ rest) = .ok (encodePoints points, rest) :=
    parseString_complete (plainString_iff.mpr ⟨h, hplain⟩)
  obtain ⟨tail, hcs⟩ := stringText_front h
  rw [parseValue_front (skipWhitespace_front hw hcs (by decide)), if_neg (by decide),
    if_neg (by decide), if_pos rfl]
  rw [hcs, List.cons_append] at hstring
  rw [hstring]
  rfl

theorem parseValue_complete (room : Nat) : Complete (parseValue room) room := by
  induction room with
  | zero =>
    intro w cs tree rest hw hv hadm hrest
    exact absurd hadm (not_admitted_zero tree)
  | succ room ih =>
    intro w cs tree rest hw hv hadm hrest
    cases hv with
    | null =>
      rw [parseValue_front (skipWhitespace_text hw (by decide) (by decide)), if_neg (by decide),
        if_neg (by decide), if_neg (by decide), if_neg (by decide)]
      exact parseLiteral_null
    | true =>
      rw [parseValue_front (skipWhitespace_text hw (by decide) (by decide)), if_neg (by decide),
        if_neg (by decide), if_neg (by decide), if_neg (by decide)]
      exact parseLiteral_true
    | false =>
      rw [parseValue_front (skipWhitespace_text hw (by decide) (by decide)), if_neg (by decide),
        if_neg (by decide), if_neg (by decide), if_neg (by decide)]
      exact parseLiteral_false
    | number h =>
      rw [parseValue_number hw h hrest, map, encodePoints_toNat]
    | string h =>
      have hplain := hadm.plain
      rw [parseValue_string hw h hplain, map]
    | emptyArray hw' =>
      rw [parseValue_front (skipWhitespace_text hw (by decide) (by decide)), if_neg (by decide),
        if_pos rfl, encode_close, List.append_assoc]
      exact parseArray_empty hw'
    | array h =>
      rw [parseValue_front (skipWhitespace_text hw (by decide) (by decide)), if_neg (by decide),
        if_pos rfl, encode_close, List.append_assoc, map]
      exact parseArray_complete ih h (admitted_array.mp hadm)
    | emptyObject hw' =>
      rw [parseValue_front (skipWhitespace_text hw (by decide) (by decide)), if_pos rfl,
        encode_closeBrace, List.append_assoc]
      exact parseObject_empty hw'
    | object h =>
      obtain ⟨hkeys, hmembers⟩ := admitted_object.mp hadm
      rw [parseValue_front (skipWhitespace_text hw (by decide) (by decide)), if_pos rfl,
        encode_closeBrace, List.append_assoc, map]
      exact parseObject_complete ih h hkeys hmembers

theorem parseValue_sound (room : Nat) : Sound (parseValue room) room := by
  induction room with
  | zero =>
    intro bytes v rest h
    rw [parseValue] at h
    cases hfront : skipWhitespace bytes with
    | nil | cons c tail => simp [hfront, jsonError] at h
  | succ room ih =>
    intro bytes v rest h
    obtain ⟨w, hw, hbytes⟩ := skipWhitespace_sound bytes
    cases hfront : skipWhitespace bytes with
    | nil =>
      rw [parseValue, hfront] at h
      simp [jsonError] at h
    | cons c tail => ?_
    rw [parseValue_front hfront] at h
    rw [hfront] at hbytes
    subst hbytes
    split at h
    · rename_i hc
      subst hc
      rcases parseObject_sound ih h with ⟨w', hw', rfl, rfl⟩ | ⟨cs, trees, hcs, hkeys, hadm, rfl, rfl⟩
      · refine ⟨w, _, _, hw, .emptyObject hw',
          admitted_object.mpr ⟨List.nodup_nil, admittedMembers_nil _⟩, ?_, rfl⟩
        rw [encode_brace, encode_closeBrace]
        simp
      · refine ⟨w, _, _, hw, .object hcs, admitted_object.mpr ⟨hkeys, hadm⟩, ?_, ?_⟩
        · rw [encode_brace, encode_closeBrace]
          simp
        · rw [map]
    split at h
    · rename_i hc
      subst hc
      rcases parseArray_sound ih h with ⟨w', hw', rfl, rfl⟩ | ⟨cs, trees, hcs, hadm, rfl, rfl⟩
      · refine ⟨w, _, _, hw, .emptyArray hw', admitted_array.mpr (admittedItems_nil _), ?_, rfl⟩
        rw [encode_bracket, encode_close]
        simp
      · refine ⟨w, _, _, hw, .array hcs, admitted_array.mpr hadm, ?_, ?_⟩
        · rw [encode_bracket, encode_close]
          simp
        · rw [map]
    split at h
    · cases hstring : parseString (c :: tail) with
      | error => simp [hstring, Except.map] at h
      | ok r => ?_
      obtain ⟨out, rest'⟩ := r
      obtain ⟨cs, points, hcs, hbytes, rfl⟩ := parseString_sound hstring
      obtain ⟨htext, hplain⟩ := plainString_iff.mp hcs
      obtain ⟨rfl, rfl⟩ : .string (encodePoints points) = v ∧ rest' = rest := by
        simpa [hstring, Except.map] using h
      refine ⟨w, cs, _, hw, .string htext, ⟨by simp [nesting], trivial, hplain⟩, ?_, ?_⟩
      · rw [hbytes]
      · rw [map]
    split at h
    · obtain ⟨cs, hcs, hbytes, rfl⟩ := parseNumber_sound h
      refine ⟨w, cs, _, hw, .number hcs, ⟨by simp [nesting], trivial, trivial⟩, ?_, ?_⟩
      · rw [hbytes]
      · rw [map, encodePoints_toNat]
    · obtain ⟨cs, tree, hv, hadm, hbytes, rfl⟩ := parseLiteral_sound h
      exact ⟨w, cs, tree, hw, hv, hadm, by rw [hbytes], rfl⟩

theorem Sound.length (h : Sound parseItem room) (hread : parseItem bytes = .ok (v, rest)) :
    rest.length ≤ bytes.length := by
  obtain ⟨w, cs, tree, -, -, -, rfl, -⟩ := h _ _ _ hread
  simp only [List.length_append]
  omega

theorem parseValue_safe (room : Nat) : ∀ bytes, Safe (parseValue room bytes) := by
  induction room with
  | zero =>
    intro bytes
    rw [parseValue]
    split
    all_goals exact safe_jsonError _ _
  | succ room ih =>
    intro bytes
    have hsteady : Steady (parseValue room) := fun bytes =>
      ⟨ih bytes, fun v rest hread => (parseValue_sound room).length hread⟩
    cases hfront : skipWhitespace bytes with
    | nil =>
      rw [parseValue, hfront]
      exact safe_jsonError _ _
    | cons c tail => ?_
    rw [parseValue_front hfront]
    split
    · exact parseObject_safe hsteady tail
    split
    · exact parseArray_safe hsteady tail
    split
    · rcases parseString_safe (c :: tail) with ⟨r, hr⟩ | ⟨l, f, a, hr⟩
      · rw [hr]
        exact .inl ⟨_, rfl⟩
      · rw [hr]
        exact .inr ⟨l, f, a, rfl⟩
    split
    · exact parseNumber_safe c tail
    · exact parseLiteral_safe (c :: tail)

-- Documents

theorem fisicsJsonParse_complete (h : DocumentText doc tree) (hadm : Admitted maxDepth tree) :
    fisicsJsonParse (encode doc) = .ok (tree.map encodePoints) := by
  cases h with
  | @document before cs _ after hb hv ha =>
    have hnil : Delimited [] := by
      intro b hb
      cases hb
    have hdel : Delimited (encode after) := by
      have := delimited_ws ha hnil
      rwa [List.append_nil] at this
    have hskip : skipWhitespace (encode after) = [] := by
      have := skipWhitespace_ws ha []
      rwa [List.append_nil] at this
    have hread := parseValue_complete maxDepth before cs tree (encode after) hb hv hadm hdel
    simp only [fisicsJsonParse, encode_append, hread, bind, Except.bind, hskip]
    rfl

theorem fisicsJsonParse_sound (h : fisicsJsonParse text = .ok v) :
    ∃ doc tree, text = encode doc ∧ DocumentText doc tree ∧ Admitted maxDepth tree ∧
      v = tree.map encodePoints := by
  obtain ⟨⟨value, rest⟩, hread, hend⟩ := exists_of_bind h
  obtain ⟨before, cs, tree, hb, hv, hadm, rfl, rfl⟩ := parseValue_sound maxDepth _ _ _ hread
  obtain ⟨after, ha, hrest⟩ := skipWhitespace_sound rest
  cases hskip : skipWhitespace rest with
  | cons b tail => simp [hskip, jsonError] at hend
  | nil => ?_
  rw [hskip, List.append_nil] at hrest
  obtain rfl : tree.map encodePoints = v := by simpa [hskip, pure, Except.pure] using hend
  refine ⟨_, tree, ?_, .document hb hv ha, hadm, rfl⟩
  rw [hrest]
  simp

theorem fisicsJsonParse_safe (text : Bytes) : Safe (fisicsJsonParse text) := by
  refine Safe.bind (parseValue_safe maxDepth text) ?_
  rintro ⟨value, rest⟩ -
  dsimp only
  split
  · exact safe_jsonError _ _
  · exact safe_ok _

-- What the writer writes

theorem exists_hexChar (h : x < 16) : ∃ d, HexDigit d x ∧ hexChar x = char d := by
  by_cases hlt : x < 10
  · have hd : (Char.ofNat (48 + x)).toNat = 48 + x := toNat_ofNat (by omega)
    refine ⟨Char.ofNat (48 + x), hexDigit_iff.mpr (by omega), ?_⟩
    simp [hexChar, hlt, char, hd]
  · have hd : (Char.ofNat (87 + x)).toNat = 87 + x := toNat_ofNat (by omega)
    refine ⟨Char.ofNat (87 + x), hexDigit_iff.mpr (by omega), ?_⟩
    simp [hexChar, hlt, char, hd]

/-- A character as the writer writes it is read as that character. -/
def Rewritten (c : Char) : Prop :=
  ∃ ws, (String.utf8EncodeChar c).flatMap jsonStringByte = encode ws ∧
    ∀ ds points, PlainChars ds points → PlainChars (ws ++ ds) (c.toNat :: points)

theorem rewritten_escape (hc : c.toNat < 0x80) (he : (e, c.toNat) ∈ escapes)
    (h : jsonStringByte (char c) = [char '\\', char e]) : Rewritten c := by
  obtain ⟨-, hascii, -, -⟩ := simpleEscape_complete he
  refine ⟨['\\', e], ?_, fun _ _ hds => .escape he hds⟩
  rw [encodeChar_ascii hc, encode_backslash, encode_ascii hascii]
  simpa [char] using h

theorem rewritten_control (hc : c.toNat < 0x20) (hne : c.toNat ≠ 0)
    (h : jsonStringByte (char c) = [char '\\', char 'u', char '0', char '0',
      hexChar (c.toNat / 16), hexChar (c.toNat % 16)]) : Rewritten c := by
  obtain ⟨a, ha, hhigh⟩ := exists_hexChar (x := c.toNat / 16) (by omega)
  obtain ⟨b, hb, hlow⟩ := exists_hexChar (x := c.toNat % 16) (by omega)
  have hzero : HexDigit '0' 0 := .digit ⟨by decide, by decide⟩
  have hhex := Hex4.digits hzero hzero ha hb
  have hunit : 0 * 4096 + 0 * 256 + c.toNat / 16 * 16 + c.toNat % 16 = c.toNat := by omega
  rw [hunit] at hhex
  have hescape := EscapeText.unit hhex ⟨hne, by omega⟩
  refine ⟨'\\' :: 'u' :: ['0', '0', a, b], ?_, fun _ _ hds => .unicode hescape hds⟩
  rw [encodeChar_ascii (by omega), encode_backslash, encode_u, hhex.encode]
  simpa [char, hhigh, hlow] using h

theorem jsonStringByte_eq (b : UInt8) :
    jsonStringByte b =
      if b.toNat = 34 then [char '\\', char '"']
      else if b.toNat = 92 then [char '\\', char '\\']
      else if b.toNat = 8 then [char '\\', char 'b']
      else if b.toNat = 12 then [char '\\', char 'f']
      else if b.toNat = 10 then [char '\\', char 'n']
      else if b.toNat = 13 then [char '\\', char 'r']
      else if b.toNat = 9 then [char '\\', char 't']
      else if b.toNat < 32 then
        [char '\\', char 'u', char '0', char '0', hexChar (b.toNat / 16), hexChar (b.toNat % 16)]
      else [b] := by
  have hquote : b = char '"' ↔ b.toNat = 34 := UInt8.toNat_inj.symm
  have hback : b = char '\\' ↔ b.toNat = 92 := UInt8.toNat_inj.symm
  have h8 : b = 8 ↔ b.toNat = 8 := UInt8.toNat_inj.symm
  have h12 : b = 12 ↔ b.toNat = 12 := UInt8.toNat_inj.symm
  have h10 : b = 10 ↔ b.toNat = 10 := UInt8.toNat_inj.symm
  have h13 : b = 13 ↔ b.toNat = 13 := UInt8.toNat_inj.symm
  have h9 : b = 9 ↔ b.toNat = 9 := UInt8.toNat_inj.symm
  have hlt : b < 0x20 ↔ b.toNat < 32 := UInt8.lt_iff_toNat_lt
  simp only [jsonStringByte, hquote, hback, h8, h12, h10, h13, h9, hlt]

theorem jsonStringByte_plain (h : 32 ≤ b.toNat ∧ b.toNat ≠ 34 ∧ b.toNat ≠ 92) : jsonStringByte b = [b] := by
  rw [jsonStringByte_eq, if_neg (by omega), if_neg (by omega), if_neg (by omega), if_neg (by omega),
    if_neg (by omega), if_neg (by omega), if_neg (by omega), if_neg (by omega)]

theorem flatMap_plain {bytes : Bytes} (h : ∀ b ∈ bytes, 32 ≤ b.toNat ∧ b.toNat ≠ 34 ∧ b.toNat ≠ 92) :
    bytes.flatMap jsonStringByte = bytes := by
  induction bytes with
  | nil => rfl
  | cons b bytes ih =>
    obtain ⟨hb, hbytes⟩ := List.forall_mem_cons.mp h
    rw [List.flatMap_cons, jsonStringByte_plain hb, ih hbytes]
    rfl

theorem rewritten_plain (h : 32 ≤ c.toNat ∧ c.toNat ≠ 34 ∧ c.toNat ≠ 92) : Rewritten c := by
  have hc : 0x20 ≤ c.toNat ∧ c ≠ '"' ∧ c ≠ '\\' := by
    refine ⟨h.1, ?_, ?_⟩
    · rintro rfl
      exact absurd rfl h.2.1
    · rintro rfl
      exact absurd rfl h.2.2
  refine ⟨[c], ?_, fun _ _ hds => .unescaped hc hds⟩
  rw [flatMap_plain]
  · simp
  · intro b hb
    by_cases hascii : c.toNat < 0x80
    · rw [encodeChar_ascii hascii] at hb
      obtain rfl := List.mem_singleton.mp hb
      have hb : (char c).toNat = c.toNat := toNat_char hascii
      unfold char at hb
      omega
    · have hhigh := encodeChar_high (Nat.le_of_not_lt hascii) b hb
      omega

theorem rewritten (hne : c.toNat ≠ 0) : Rewritten c := by
  by_cases hplain : 32 ≤ c.toNat ∧ c.toNat ≠ 34 ∧ c.toNat ≠ 92
  · exact rewritten_plain hplain
  have hascii : c.toNat < 0x80 := by omega
  have hbyte := jsonStringByte_eq (char c)
  rw [toNat_char hascii] at hbyte
  iterate 7
    split at hbyte
    · rename_i heq
      exact rewritten_escape hascii (by rw [heq]; simp [escapes]) hbyte
  split at hbyte
  · rename_i hlt
    exact rewritten_control hlt hne hbyte
  · omega

theorem plainChars_written (h : ∀ c ∈ cs, c.toNat ≠ 0) :
    ∃ ws, (encode cs).flatMap jsonStringByte = encode ws ∧ PlainChars ws (cs.map Char.toNat) := by
  induction cs with
  | nil => exact ⟨[], rfl, .nil⟩
  | cons c cs ih =>
    obtain ⟨hc, hcs⟩ := List.forall_mem_cons.mp h
    obtain ⟨ws, hws, hplain⟩ := ih hcs
    obtain ⟨vs, hvs, hread⟩ := rewritten hc
    refine ⟨vs ++ ws, ?_, hread _ _ hplain⟩
    rw [encode_cons, List.flatMap_append, hvs, hws, encode_append]

theorem takeWhile_encode (h : ∀ c ∈ cs, c.toNat ≠ 0) : (encode cs).takeWhile (· ≠ 0) = encode cs := by
  rw [List.takeWhile_eq_self_iff]
  intro b hb
  obtain ⟨c, hc, hmem⟩ := List.mem_flatMap.mp hb
  have hne := h c hc
  have hbne : b.toNat ≠ 0 := by
    by_cases hascii : c.toNat < 0x80
    · rw [encodeChar_ascii hascii] at hmem
      obtain rfl := List.mem_singleton.mp hmem
      have hb : (char c).toNat = c.toNat := toNat_char hascii
      unfold char at hb
      omega
    · have hhigh := encodeChar_high (Nat.le_of_not_lt hascii) b hmem
      omega
  simp only [ne_eq, decide_eq_true_eq]
  rintro rfl
  exact hbne rfl

theorem fisicsJsonParse_jsonString (h : ∀ c ∈ cs, c.toNat ≠ 0) :
    fisicsJsonParse (jsonString (encode cs)) = .ok (.string (encode cs)) := by
  obtain ⟨ws, hws, hplain⟩ := plainChars_written h
  obtain ⟨htext, hpoints⟩ := plainString_iff.mp (PlainString.string hplain)
  have hwritten : jsonString (encode cs) = encode ('"' :: (ws ++ ['"'])) := by
    rw [jsonString, takeWhile_encode h, hws, encode_quote, encode_append, encode_quote]
    rfl
  have hdoc := DocumentText.document isWs_nil (.string htext) isWs_nil
  have hparse := fisicsJsonParse_complete hdoc ⟨by simp [nesting, maxDepth], trivial, hpoints⟩
  rw [List.nil_append, List.append_nil, map, encodePoints_toNat] at hparse
  rw [hwritten, hparse]

-- The language

/-- The documents that the parser takes, with their trees. -/
def Accepted (plain : List Nat → Prop) (text : Bytes) (tree : JsonValue (List Nat)) : Prop :=
  ∃ doc, text = encode doc ∧ DocumentText doc tree ∧ tree.nesting ≤ 64 ∧ tree.DistinctKeys ∧
    tree.Strings plain

/-- The parser accepts `plain` documents, gives their trees with the strings in UTF-8, never
reads behind the end and reads back what the writer writes. -/
def Correct (plain : List Nat → Prop) : Prop :=
  (∀ text v, fisicsJsonParse text = .ok v ↔ ∃ tree, Accepted plain text tree ∧ v = tree.map encodePoints) ∧
  (∀ text, fisicsJsonParse text ≠ .error .outOfBounds ∧ fisicsJsonParse text ≠ .error .spent) ∧
  ∀ cs : List Char, '\x00' ∉ cs → fisicsJsonParse (jsonString (encode cs)) = .ok (.string (encode cs))

theorem fisicsJsonParse_correct : Correct PlainPoints := by
  refine ⟨?_, ?_, ?_⟩
  · intro text v
    constructor
    · intro h
      obtain ⟨doc, tree, rfl, hdoc, ⟨hn, hd, hs⟩, rfl⟩ := fisicsJsonParse_sound h
      exact ⟨tree, ⟨doc, rfl, hdoc, hn, hd, hs⟩, rfl⟩
    · rintro ⟨tree, ⟨doc, rfl, hdoc, hn, hd, hs⟩, rfl⟩
      exact fisicsJsonParse_complete hdoc ⟨hn, hd, hs⟩
  · intro text
    rcases fisicsJsonParse_safe text with ⟨v, h⟩ | ⟨left, format, argument, h⟩
    all_goals
      rw [h]
      exact ⟨by simp, by simp⟩
  · intro cs hcs
    apply fisicsJsonParse_jsonString
    intro c hc heq
    obtain rfl : c = '\x00' := Char.toNat_inj.mp heq
    exact hcs hc

/-- The text `"\ud800"`. -/
def unpairedSurrogate : List Char := ['"', '\\', 'u', 'd', '8', '0', '0', '"']

/-- `"\ud800"` is a document of the grammar without `U+0000`, and the parser refuses it. -/
theorem unpairedSurrogate_refused :
    fisicsJsonParse (encode unpairedSurrogate) =
        .error (.failed 1 "unpaired high surrogate" []) ∧
      ¬Correct fun points => ∀ p ∈ points, p ≠ 0 := by
  have hrefused : fisicsJsonParse (encode unpairedSurrogate) =
      .error (.failed 1 "unpaired high surrogate" []) := rfl
  refine ⟨hrefused, ?_⟩
  rintro ⟨hlanguage, -, -⟩
  have hd : HexDigit 'd' 13 := .lower ⟨by decide, by decide⟩
  have h8 : HexDigit '8' 8 := .digit ⟨by decide, by decide⟩
  have h0 : HexDigit '0' 0 := .digit ⟨by decide, by decide⟩
  have htext := StringText.string (.unicode hd h8 h0 h0 .nil)
  have hdoc : DocumentText unpairedSurrogate (.string [0xd800]) :=
    .document isWs_nil (.string htext) isWs_nil
  have hparse := (hlanguage (encode unpairedSurrogate) _).mpr
    ⟨_, ⟨_, rfl, hdoc, by simp [JsonValue.nesting], trivial, by simp [JsonValue.Strings]⟩, rfl⟩
  cases hparse

end Fisics.Json
