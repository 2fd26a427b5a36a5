import Fisics.Compiler.ProjectJsonEscapes

/-!
# White space and numbers of the JSON parser

`skip_whitespace` skips the grammar's white space, and `parse_number` reads its numbers
as far as they go: behind a number stands no byte that could continue it.
-/

namespace Fisics.Json

open Utf8

-- White space

theorem isWhitespace_char (h : c = ' ' ∨ c = '\t' ∨ c = '\n' ∨ c = '\r') :
    isWhitespace (char c) = true := by
  rcases h with rfl | rfl | rfl | rfl <;> decide

theorem exists_of_isWhitespace (h : isWhitespace b = true) :
    ∃ c, (c = ' ' ∨ c = '\t' ∨ c = '\n' ∨ c = '\r') ∧ b = char c := by
  simp only [isWhitespace, Bool.or_eq_true, beq_iff_eq] at h
  rcases h with ((h | h) | h) | h
  · exact ⟨' ', by simp, h⟩
  · exact ⟨'\t', by simp, h⟩
  · exact ⟨'\r', by simp, h⟩
  · exact ⟨'\n', by simp, h⟩

theorem ascii_of_ws (h : c = ' ' ∨ c = '\t' ∨ c = '\n' ∨ c = '\r') : c.toNat < 0x80 := by
  rcases h with rfl | rfl | rfl | rfl <;> decide

theorem skipWhitespace_ws (hw : IsWs w) (rest : Bytes) :
    skipWhitespace (encode w ++ rest) = skipWhitespace rest := by
  induction w with
  | nil => rfl
  | cons c w ih =>
    obtain ⟨hc, hw⟩ := List.forall_mem_cons.mp hw
    rw [encode_ascii (ascii_of_ws hc), List.cons_append, ← ih hw]
    simp [skipWhitespace, isWhitespace_char hc]

theorem skipWhitespace_cons (h : isWhitespace b = false) (rest : Bytes) :
    skipWhitespace (b :: rest) = b :: rest := by
  simp [skipWhitespace, h]

theorem skipWhitespace_sound (bytes : Bytes) : ∃ w, IsWs w ∧ bytes = encode w ++ skipWhitespace bytes := by
  induction bytes with
  | nil => exact ⟨[], by simp [IsWs], rfl⟩
  | cons b bytes ih =>
    cases hb : isWhitespace b with
    | false => exact ⟨[], by simp [IsWs], by rw [skipWhitespace_cons hb]; rfl⟩
    | true => ?_
    obtain ⟨w, hw, hbytes⟩ := ih
    obtain ⟨c, hc, rfl⟩ := exists_of_isWhitespace hb
    refine ⟨c :: w, List.forall_mem_cons.mpr ⟨hc, hw⟩, ?_⟩
    rw [encode_ascii (ascii_of_ws hc), List.cons_append]
    simpa [skipWhitespace, hb] using hbytes

theorem skipWhitespace_length (bytes : Bytes) : (skipWhitespace bytes).length ≤ bytes.length := by
  obtain ⟨w, -, hbytes⟩ := skipWhitespace_sound bytes
  have hlen := congrArg List.length hbytes
  rw [List.length_append] at hlen
  omega

-- Digits

theorem isDigit_iff : isDigit b = true ↔ 48 ≤ b.toNat ∧ b.toNat ≤ 57 := by
  have h0 : char '0' ≤ b ↔ 48 ≤ b.toNat := UInt8.le_iff_toNat_le
  have h9 : b ≤ char '9' ↔ b.toNat ≤ 57 := UInt8.le_iff_toNat_le
  simp [isDigit, h0, h9]

theorem digitChar_iff : DigitChar c ↔ 48 ≤ c.toNat ∧ c.toNat ≤ 57 := Iff.rfl

theorem DigitChar.ascii (h : DigitChar c) : c.toNat < 0x80 := by
  rw [digitChar_iff] at h
  omega

theorem isDigit_char (h : DigitChar c) : isDigit (char c) = true := by
  rw [isDigit_iff, toNat_char h.ascii]
  exact digitChar_iff.mp h

theorem exists_digitChar (h : isDigit b = true) : ∃ c, DigitChar c ∧ b = char c := by
  rw [isDigit_iff] at h
  obtain ⟨c, hc, rfl⟩ := exists_ascii (b := b) (by omega)
  rw [← hc] at h
  exact ⟨c, digitChar_iff.mpr h, rfl⟩

theorem dropWhile_digits (hds : ∀ d ∈ ds, DigitChar d) (hrest : digitAhead rest = false) :
    (encode ds ++ rest).dropWhile isDigit = rest := by
  induction ds with
  | nil =>
    cases rest with
    | nil => rfl
    | cons b rest =>
      have hb : isDigit b = false := hrest
      simp [hb]
  | cons d ds ih =>
    obtain ⟨hd, hds⟩ := List.forall_mem_cons.mp hds
    rw [encode_ascii hd.ascii, List.cons_append, List.dropWhile_cons_of_pos (isDigit_char hd), ih hds]

theorem dropWhile_digits_sound (bytes : Bytes) :
    ∃ ds, (∀ d ∈ ds, DigitChar d) ∧ bytes = encode ds ++ bytes.dropWhile isDigit ∧
      (digitAhead bytes = true → ds ≠ []) := by
  induction bytes with
  | nil => exact ⟨[], by simp, rfl, by simp [digitAhead]⟩
  | cons b bytes ih =>
    cases hb : isDigit b with
    | false => exact ⟨[], by simp, by simp [hb], by simp [digitAhead, hb]⟩
    | true => ?_
    obtain ⟨ds, hds, hbytes, -⟩ := ih
    obtain ⟨d, hd, rfl⟩ := exists_digitChar hb
    refine ⟨d :: ds, List.forall_mem_cons.mpr ⟨hd, hds⟩, ?_, by simp⟩
    rw [encode_ascii hd.ascii, List.dropWhile_cons_of_pos hb, List.cons_append, ← hbytes]

theorem digitAhead_digits (h : DigitsText ds) (rest : Bytes) : digitAhead (encode ds ++ rest) = true := by
  obtain ⟨hne, hds⟩ := h
  cases ds with
  | nil => exact absurd rfl hne
  | cons d ds =>
    obtain ⟨hd, -⟩ := List.forall_mem_cons.mp hds
    rw [encode_ascii hd.ascii]
    exact isDigit_char hd

theorem digitsText_of_digitAhead (h : digitAhead bytes = true) :
    ∃ ds, DigitsText ds ∧ bytes = encode ds ++ bytes.dropWhile isDigit := by
  obtain ⟨ds, hds, hbytes, hne⟩ := dropWhile_digits_sound bytes
  exact ⟨ds, ⟨hne h, hds⟩, hbytes⟩

-- The parts of a number

theorem encode_dot (cs : List Char) : encode ('.' :: cs) = char '.' :: encode cs :=
  encode_ascii (by decide)

theorem ascii_of_nonzero (h : '1' ≤ c ∧ c ≤ '9') : c.toNat < 0x80 := by
  have h9 : c.toNat ≤ 57 := h.2
  omega

theorem char_le_char (hc : c.toNat < 0x80) (hd : d.toNat < 0x80) : char c ≤ char d ↔ c ≤ d := by
  rw [UInt8.le_iff_toNat_le, toNat_char hc, toNat_char hd]
  rfl

theorem parseInteger_complete (h : IntText int) (hrest : digitAhead rest = false) :
    parseInteger (encode int ++ rest) = .ok rest := by
  cases h with
  | zero =>
    rw [encode_ascii (by decide)]
    simp [parseInteger, hrest]
  | @digits c ds hc hds => ?_
  have hascii := ascii_of_nonzero hc
  have hdigit : DigitChar c := ⟨Nat.le_trans (by decide : 48 ≤ 49) hc.1, hc.2⟩
  have hne : char c ≠ char '0' := by
    intro heq
    obtain rfl := char_inj hascii (by decide) heq
    exact absurd hc.1 (by decide)
  have hrange : char '1' ≤ char c ∧ char c ≤ char '9' :=
    ⟨(char_le_char (by decide) hascii).mpr hc.1, (char_le_char hascii (by decide)).mpr hc.2⟩
  rw [encode_ascii hascii, List.cons_append]
  simp only [parseInteger, if_neg hne, if_pos hrange,
    List.dropWhile_cons_of_pos (isDigit_char hdigit), dropWhile_digits hds hrest]

theorem parseInteger_sound (h : parseInteger bytes = .ok rest) :
    ∃ int, IntText int ∧ bytes = encode int ++ rest := by
  cases bytes with
  | nil => simp [parseInteger] at h
  | cons b tail => ?_
  simp only [parseInteger] at h
  split at h
  · rename_i hb
    split at h
    · simp [jsonError] at h
    cases h
    refine ⟨['0'], .zero, ?_⟩
    rw [hb, encode_ascii (by decide)]
    rfl
  · split at h
    · rename_i hb
      have h1 : 49 ≤ b.toNat := UInt8.le_iff_toNat_le.mp hb.1
      have h9 : b.toNat ≤ 57 := UInt8.le_iff_toNat_le.mp hb.2
      obtain ⟨c, hc, rfl⟩ := exists_ascii (b := b) (by omega)
      obtain ⟨ds, hds, htail, -⟩ := dropWhile_digits_sound tail
      have hdigit : isDigit (char c) = true := isDigit_iff.mpr ⟨by omega, h9⟩
      rw [List.dropWhile_cons_of_pos hdigit] at h
      cases h
      have hrange : 49 ≤ c.toNat ∧ c.toNat ≤ 57 := by omega
      refine ⟨c :: ds, .digits hrange hds, ?_⟩
      rw [encode_ascii (by omega), List.cons_append, ← htail]
    · simp [jsonError] at h

theorem parseFraction_complete (h : FracText frac) (hdot : ∀ b ∈ rest.head?, b ≠ char '.')
    (hrest : digitAhead rest = false) : parseFraction (encode frac ++ rest) = .ok rest := by
  cases h with
  | none => ?_
  | frac h =>
    rw [encode_dot, List.cons_append]
    simp only [parseFraction, if_true, digitAhead_digits h, dropWhile_digits h.2 hrest]
  cases rest with
  | nil => rfl
  | cons b rest =>
    have hb := hdot b rfl
    simp [parseFraction, hb]

theorem parseFraction_sound (h : parseFraction bytes = .ok rest) :
    ∃ frac, FracText frac ∧ bytes = encode frac ++ rest := by
  cases bytes with
  | nil =>
    cases h
    exact ⟨[], .none, rfl⟩
  | cons b tail => ?_
  simp only [parseFraction] at h
  split at h
  · rename_i hb
    split at h
    · rename_i hahead
      obtain ⟨ds, hds, htail⟩ := digitsText_of_digitAhead hahead
      cases h
      refine ⟨'.' :: ds, .frac hds, ?_⟩
      rw [hb, encode_dot, List.cons_append, ← htail]
    · simp [jsonError] at h
  · cases h
    exact ⟨[], .none, rfl⟩

theorem skipSign_complete (hsign : sign = [] ∨ sign = ['+'] ∨ sign = ['-'])
    (hds : digitAhead bytes = true) : skipSign (encode sign ++ bytes) = bytes := by
  rcases hsign with rfl | rfl | rfl
  · cases bytes with
    | nil => rfl
    | cons b bytes => ?_
    have hb : 48 ≤ b.toNat ∧ b.toNat ≤ 57 := isDigit_iff.mp hds
    have hne : ¬(b = char '+' ∨ b = char '-') := by
      rintro (rfl | rfl)
      all_goals exact absurd hb.1 (by decide)
    simp [skipSign, hne]
  all_goals rfl

theorem skipSign_sound (bytes : Bytes) :
    ∃ sign, (sign = [] ∨ sign = ['+'] ∨ sign = ['-']) ∧ bytes = encode sign ++ skipSign bytes := by
  cases bytes with
  | nil => exact ⟨[], .inl rfl, rfl⟩
  | cons b bytes => ?_
  by_cases hplus : b = char '+'
  · subst hplus
    exact ⟨['+'], by simp, rfl⟩
  by_cases hminus : b = char '-'
  · subst hminus
    exact ⟨['-'], by simp, rfl⟩
  · exact ⟨[], .inl rfl, by simp [skipSign, hplus, hminus]⟩

theorem parseExponent_complete (h : ExpText exp)
    (he : ∀ b ∈ rest.head?, b ≠ char 'e' ∧ b ≠ char 'E') (hrest : digitAhead rest = false) :
    parseExponent (encode exp ++ rest) = .ok rest := by
  cases h with
  | none =>
    cases rest with
    | nil => rfl
    | cons b rest =>
      have hb := he b rfl
      simp [parseExponent, hb]
  | @exp e sign ds hc hsign hds =>
    have hascii : e.toNat < 0x80 := by rcases hc with rfl | rfl <;> decide
    have hchar : char e = char 'e' ∨ char e = char 'E' := by rcases hc with rfl | rfl <;> simp
    have hskip := skipSign_complete hsign (digitAhead_digits hds rest)
    rw [encode_ascii hascii, encode_append, List.cons_append, List.append_assoc]
    simp only [parseExponent, if_pos hchar, hskip, digitAhead_digits hds, if_true,
      dropWhile_digits hds.2 hrest]

theorem parseExponent_sound (h : parseExponent bytes = .ok rest) :
    ∃ exp, ExpText exp ∧ bytes = encode exp ++ rest := by
  cases bytes with
  | nil =>
    cases h
    exact ⟨[], .none, rfl⟩
  | cons b tail => ?_
  simp only [parseExponent] at h
  split at h
  · rename_i hb
    split at h
    · rename_i hahead
      obtain ⟨sign, hsign, hsigned⟩ := skipSign_sound tail
      obtain ⟨ds, hds, htail⟩ := digitsText_of_digitAhead hahead
      cases h
      obtain ⟨e, he, hascii, rfl⟩ : ∃ e, (e = 'e' ∨ e = 'E') ∧ e.toNat < 0x80 ∧ b = char e := by
        rcases hb with hb | hb
        · exact ⟨'e', .inl rfl, by decide, hb⟩
        · exact ⟨'E', .inr rfl, by decide, hb⟩
      refine ⟨e :: (sign ++ ds), .exp he hsign hds, ?_⟩
      rw [encode_ascii hascii, encode_append, List.cons_append, List.append_assoc, ← htail, ← hsigned]
    · simp [jsonError] at h
  · cases h
    exact ⟨[], .none, rfl⟩

-- Numbers

/-- No byte in front that could continue a number. -/
def Delimited (rest : Bytes) : Prop :=
  ∀ b ∈ rest.head?, isDigit b = false ∧ b ≠ char '.' ∧ b ≠ char 'e' ∧ b ≠ char 'E'

theorem Delimited.digitAhead (h : Delimited rest) : digitAhead rest = false := by
  cases rest with
  | nil => rfl
  | cons b rest => exact (h b rfl).1

theorem exp_front (h : ExpText exp) (hrest : Delimited rest) :
    Json.digitAhead (encode exp ++ rest) = false ∧ ∀ b ∈ (encode exp ++ rest).head?, b ≠ char '.' := by
  cases h with
  | none =>
    refine ⟨hrest.digitAhead, ?_⟩
    intro b hb
    exact (hrest b hb).2.1
  | exp he hsign hds => ?_
  rcases he with rfl | rfl
  all_goals
    refine ⟨rfl, ?_⟩
    rintro b ⟨⟩
    decide

theorem frac_front (h : FracText frac) (hexp : ExpText exp) (hrest : Delimited rest) :
    Json.digitAhead (encode frac ++ (encode exp ++ rest)) = false := by
  cases h with
  | none => exact (exp_front hexp hrest).1
  | frac hds =>
    rw [encode_dot]
    rfl

theorem parseInteger_signed (hminus : minus = [] ∨ minus = ['-']) (h : IntText int)
    (hrest : Json.digitAhead rest = false) :
    ∃ c, byteAt (encode minus ++ (encode int ++ rest)) 0 = .ok c ∧
      parseInteger (if c = char '-' then (encode minus ++ (encode int ++ rest)).drop 1
        else encode minus ++ (encode int ++ rest)) = .ok rest := by
  have hint := parseInteger_complete h hrest
  rcases hminus with rfl | rfl
  · obtain ⟨c, ds, rfl, hascii, hne⟩ : ∃ c ds, int = c :: ds ∧ c.toNat < 0x80 ∧ c ≠ '-' := by
      cases h with
      | zero => exact ⟨'0', [], rfl, by decide, by decide⟩
      | @digits c ds hc hds =>
        refine ⟨c, ds, rfl, ascii_of_nonzero hc, ?_⟩
        rintro rfl
        exact absurd hc.1 (by decide)
    rw [encode_ascii hascii] at hint ⊢
    refine ⟨char c, rfl, ?_⟩
    rw [if_neg fun heq => hne (char_inj hascii (by decide) heq)]
    exact hint
  · exact ⟨char '-', rfl, hint⟩

theorem parseNumber_complete (h : NumberText cs) (hrest : Delimited rest) :
    parseNumber (encode cs ++ rest) = .ok (.number (encode cs), rest) := by
  cases h with
  | @number minus int frac exp hminus hint hfrac hexp =>
    obtain ⟨hahead, hdot⟩ := exp_front hexp hrest
    obtain ⟨c, hc, hinteger⟩ := parseInteger_signed hminus hint (frac_front hfrac hexp hrest)
    have hfraction := parseFraction_complete hfrac hdot hahead
    have hexponent := parseExponent_complete hexp (fun b hb => (hrest b hb).2.2) hrest.digitAhead
    have htext : encode (minus ++ (int ++ (frac ++ exp))) ++ rest =
        encode minus ++ (encode int ++ (encode frac ++ (encode exp ++ rest))) := by simp
    simp only [parseNumber, htext, hc, hinteger, hfraction, hexponent, bind, Except.bind]
    rw [← htext, List.length_append, Nat.add_sub_cancel, List.take_left]
    rfl

theorem parseNumber_sound (h : parseNumber bytes = .ok (v, rest)) :
    ∃ cs, NumberText cs ∧ bytes = encode cs ++ rest ∧ v = .number (encode cs) := by
  obtain ⟨c, hc, h₁⟩ := exists_of_bind h
  obtain ⟨rest₁, hinteger, h₂⟩ := exists_of_bind h₁
  obtain ⟨rest₂, hfraction, h₃⟩ := exists_of_bind h₂
  obtain ⟨rest₃, hexponent, h₄⟩ := exists_of_bind h₃
  obtain ⟨hv, rfl⟩ : .number (bytes.take (bytes.length - rest₃.length)) = v ∧ rest₃ = rest := by
    simpa [pure, Except.pure] using h₄
  obtain ⟨int, hint, hbytes₁⟩ := parseInteger_sound hinteger
  obtain ⟨frac, hfrac, hbytes₂⟩ := parseFraction_sound hfraction
  obtain ⟨exp, hexp, hbytes₃⟩ := parseExponent_sound hexponent
  obtain ⟨minus, hminus, hbytes⟩ : ∃ minus, (minus = [] ∨ minus = ['-']) ∧
      bytes = encode minus ++ (if c = char '-' then bytes.drop 1 else bytes) := by
    cases bytes with
    | nil => simp [byteAt] at hc
    | cons b bytes => ?_
    cases hc
    split
    · rename_i hb
      exact ⟨['-'], .inr rfl, by rw [hb]; rfl⟩
    · exact ⟨[], .inl rfl, rfl⟩
  have htext : bytes = encode (minus ++ (int ++ (frac ++ exp))) ++ rest₃ := by
    rw [hbytes, hbytes₁, hbytes₂, hbytes₃]
    simp
  refine ⟨_, .number hminus hint hfrac hexp, htext, ?_⟩
  rw [← hv, htext, List.length_append, Nat.add_sub_cancel, List.take_left]

theorem parseInteger_safe (bytes : Bytes) : Safe (parseInteger bytes) := by
  cases bytes with
  | nil => exact .inr ⟨_, _, _, rfl⟩
  | cons b bytes => ?_
  simp only [parseInteger]
  split
  · split
    · exact safe_jsonError _ _
    · exact safe_ok _
  · split
    · exact safe_ok _
    · exact safe_jsonError _ _

theorem parseFraction_safe (bytes : Bytes) : Safe (parseFraction bytes) := by
  cases bytes with
  | nil => exact safe_ok _
  | cons b bytes => ?_
  simp only [parseFraction]
  split
  · split
    · exact safe_ok _
    · exact safe_jsonError _ _
  · exact safe_ok _

theorem parseExponent_safe (bytes : Bytes) : Safe (parseExponent bytes) := by
  cases bytes with
  | nil => exact safe_ok _
  | cons b bytes => ?_
  simp only [parseExponent]
  split
  · split
    · exact safe_ok _
    · exact safe_jsonError _ _
  · exact safe_ok _

theorem parseNumber_safe (b : UInt8) (rest : Bytes) : Safe (parseNumber (b :: rest)) := by
  refine Safe.bind (parseInteger_safe _) ?_
  intro bytes _
  refine Safe.bind (parseFraction_safe bytes) ?_
  intro bytes _
  refine Safe.bind (parseExponent_safe bytes) ?_
  intro bytes _
  exact safe_ok _

end Fisics.Json
