import Fisics.Compiler.ProjectJsonEscapes

/-!
# Strings of the JSON parser

`parse_string` reads the strings of the grammar whose code points are characters other
than `U+0000`, and gives their UTF-8.
-/

namespace Fisics.Json

open Utf8

/-- `*char` without lone surrogates and `U+0000`, with its characters. -/
inductive PlainChars : List Char → List Nat → Prop
  | nil : PlainChars [] []
  | unescaped (hc : 0x20 ≤ c.toNat ∧ c ≠ '"' ∧ c ≠ '\\') (hcs : PlainChars cs points) :
      PlainChars (c :: cs) (c.toNat :: points)
  | escape (hc : (c, p) ∈ escapes) (hcs : PlainChars cs points) :
      PlainChars ('\\' :: c :: cs) (p :: points)
  | unicode (hu : EscapeText us p) (hcs : PlainChars cs points) :
      PlainChars ('\\' :: 'u' :: (us ++ cs)) (p :: points)

theorem encodePoints_cons (p : Nat) (points : List Nat) :
    encodePoints (p :: points) = String.utf8EncodeChar (Char.ofNat p) ++ encodePoints points := rfl

theorem copyBytes_append (seq rest : Bytes) : copyBytes seq.length (seq ++ rest) = .ok (seq, rest) := by
  induction seq with
  | nil => rfl
  | cons b seq ih => simp [copyBytes, ih, Except.map]

theorem validUtf8Sequence_encodeChar (hc : 0x20 ≤ c.toNat) (rest : Bytes) :
    validUtf8Sequence (String.utf8EncodeChar c ++ rest) =
      .ok (some (String.utf8EncodeChar c).length) := by
  refine validUtf8Sequence_complete (isSequence_encodeChar c) ?_
  obtain ⟨a, tail, ha, hascii⟩ := encodeChar_head c
  rw [ha]
  simp only [List.head?_cons, Option.mem_def, Option.some.injEq]
  rintro _ rfl
  omega

theorem parseStringLoop_unescaped (hc : 0x20 ≤ c.toNat ∧ c ≠ '"' ∧ c ≠ '\\') :
    parseStringLoop (rounds + 1) buffer (String.utf8EncodeChar c ++ rest) =
      parseStringLoop rounds (buffer ++ String.utf8EncodeChar c) rest := by
  have hvalid := validUtf8Sequence_encodeChar hc.1 rest
  have hcopy := copyBytes_append (String.utf8EncodeChar c) rest
  obtain ⟨a, tail, ha, hascii⟩ := encodeChar_head c
  have hne : ∀ d : Char, d.toNat < 0x80 → c ≠ d → a ≠ char d := by
    rintro d hd hcd rfl
    rw [toNat_char hd] at hascii
    exact hcd (Char.toNat_inj.mp (hascii hd))
  rw [ha] at hvalid hcopy ⊢
  simp only [List.cons_append] at hvalid hcopy ⊢
  simp only [parseStringLoop, if_neg (hne '"' (by decide) hc.2.1),
    if_neg (hne '\\' (by decide) hc.2.2), hvalid, hcopy, bind, Except.bind]

theorem encodeChar_ofNat_ascii (hp : p < 0x80) : String.utf8EncodeChar (Char.ofNat p) = [p.toUInt8] := by
  have hnat := toNat_ofNat (n := p) (by omega)
  rw [encodeChar_ascii (by omega), hnat]

theorem char_backslash_ne_quote : char '\\' ≠ char '"' := by decide

theorem parseStringLoop_escape (hc : (c, p) ∈ escapes) :
    parseStringLoop (rounds + 1) buffer (encode ('\\' :: c :: cs) ++ rest) =
      parseStringLoop rounds (buffer ++ String.utf8EncodeChar (Char.ofNat p)) (encode cs ++ rest) := by
  obtain ⟨hesc, hascii, hp, -⟩ := simpleEscape_complete hc
  rw [encode_backslash, encode_ascii hascii, encodeChar_ofNat_ascii hp]
  simp [parseStringLoop, char_backslash_ne_quote, hesc]

theorem parseStringLoop_unicode (hu : EscapeText us p) :
    parseStringLoop (rounds + 1) buffer (encode ('\\' :: 'u' :: (us ++ cs)) ++ rest) =
      parseStringLoop rounds (buffer ++ String.utf8EncodeChar (Char.ofNat p)) (encode cs ++ rest) := by
  have hnone : simpleEscape (char 'u') = none := by decide
  rw [encode_backslash, encode_u, encode_append]
  simp only [List.cons_append, List.append_assoc, parseStringLoop, if_neg char_backslash_ne_quote,
    if_true, hnone, parseUnicodeEscape_complete hu, bind, Except.bind]

theorem parseStringLoop_complete (h : PlainChars cs points) (hrounds : (encode cs).length < rounds) :
    parseStringLoop rounds buffer (encode cs ++ char '"' :: rest) =
      .ok (buffer ++ encodePoints points, rest) := by
  induction h generalizing rounds buffer with
  | nil =>
    obtain ⟨rounds, rfl⟩ := Nat.exists_eq_add_one_of_ne_zero (Nat.ne_zero_of_lt hrounds)
    simp [parseStringLoop, encodePoints]
  | @unescaped c cs points hc hcs ih =>
    obtain ⟨rounds, rfl⟩ := Nat.exists_eq_add_one_of_ne_zero (Nat.ne_zero_of_lt hrounds)
    have hpos := List.length_pos_iff.mpr (String.utf8EncodeChar_ne_nil (c := c))
    rw [encode_cons, List.length_append] at hrounds
    rw [encode_cons, List.append_assoc, parseStringLoop_unescaped hc, ih (by omega),
      encodePoints_cons, Char.ofNat_toNat, List.append_assoc]
  | escape hc hcs ih =>
    obtain ⟨rounds, rfl⟩ := Nat.exists_eq_add_one_of_ne_zero (Nat.ne_zero_of_lt hrounds)
    rw [encode_backslash, List.length_cons, encode_cons, List.length_append] at hrounds
    rw [parseStringLoop_escape hc, ih (by omega), encodePoints_cons, List.append_assoc]
  | unicode hu hcs ih =>
    obtain ⟨rounds, rfl⟩ := Nat.exists_eq_add_one_of_ne_zero (Nat.ne_zero_of_lt hrounds)
    rw [encode_backslash, List.length_cons, encode_u, List.length_cons, encode_append,
      List.length_append] at hrounds
    rw [parseStringLoop_unicode hu, ih (by omega), encodePoints_cons, List.append_assoc]

theorem eq_char_of_encodeChar (hc : c.toNat < 0x80)
    (h : b :: tail = String.utf8EncodeChar c ++ rest) : b = char c := by
  rw [encodeChar_ascii hc] at h
  exact (List.cons.inj h).1

theorem unescaped_of_sequence (hbytes : b :: tail = String.utf8EncodeChar c ++ rest)
    (hprint : ∀ a ∈ (String.utf8EncodeChar c).head?, 0x20 ≤ a.toNat) (hquote : b ≠ char '"')
    (hback : b ≠ char '\\') : 0x20 ≤ c.toNat ∧ c ≠ '"' ∧ c ≠ '\\' := by
  refine ⟨?_, ?_, ?_⟩
  · by_contra hlt
    have hascii : c.toNat < 0x80 := by omega
    have hge := hprint (char c) (by rw [encodeChar_ascii hascii]; rfl)
    rw [toNat_char hascii] at hge
    omega
  · rintro rfl
    exact hquote (eq_char_of_encodeChar (by decide) hbytes)
  · rintro rfl
    exact hback (eq_char_of_encodeChar (by decide) hbytes)

/-- The loop reads one character and goes on with the bytes behind it. -/
def Reads (rounds : Nat) (buffer bytes : Bytes) : Prop :=
  ∃ cs p tail, bytes = encode cs ++ tail ∧ tail.length < bytes.length ∧
    (∀ ds points, PlainChars ds points → PlainChars (cs ++ ds) (p :: points)) ∧
    parseStringLoop (rounds + 1) buffer bytes =
      parseStringLoop rounds (buffer ++ String.utf8EncodeChar (Char.ofNat p)) tail

theorem parseStringLoop_back (rounds : Nat) (buffer tail : Bytes) :
    Fails (parseStringLoop (rounds + 1) buffer (char '\\' :: tail)) ∨
      Reads rounds buffer (char '\\' :: tail) := by
  cases tail with
  | nil =>
    left
    simp only [parseStringLoop, if_neg char_backslash_ne_quote, if_true, fails_jsonError]
  | cons e tail => ?_
  cases he : simpleEscape e with
  | some b =>
    obtain ⟨c, p, hmem, rfl, rfl⟩ := simpleEscape_sound he
    obtain ⟨-, hascii, hp, -⟩ := simpleEscape_complete hmem
    have hbytes : encode ['\\', c] ++ tail = char '\\' :: char c :: tail := by
      rw [encode_backslash, encode_ascii hascii]
      rfl
    refine .inr ⟨['\\', c], p, tail, hbytes.symm, by simp only [List.length_cons]; omega,
      fun _ _ hds => .escape hmem hds, ?_⟩
    rw [← hbytes, parseStringLoop_escape hmem]
    rfl
  | none =>
    by_cases hu : e = char 'u'
    · subst hu
      have heq : parseStringLoop (rounds + 1) buffer (char '\\' :: char 'u' :: tail) =
          (parseUnicodeEscape tail).bind fun r => parseStringLoop rounds (buffer ++ r.1) r.2 := by
        simp only [parseStringLoop, if_neg char_backslash_ne_quote, if_true, he]
        rfl
      rcases parseUnicodeEscape_safe tail with ⟨⟨out, rest⟩, hout⟩ | ⟨l, f, a, hfail⟩
      · obtain ⟨us, p, hus, rfl, rfl⟩ := parseUnicodeEscape_sound hout
        refine .inr ⟨'\\' :: 'u' :: us, p, rest, ?_, ?_, fun _ _ hds => .unicode hus hds, ?_⟩
        · rw [encode_backslash, encode_u]
          rfl
        · simp
          omega
        · rw [heq, hout]
          rfl
      · left
        rw [heq, hfail]
        exact ⟨l, f, a, rfl⟩
    · left
      simp only [parseStringLoop, if_neg char_backslash_ne_quote, if_true, he, if_neg hu, fails_jsonError]

theorem parseStringLoop_round (rounds : Nat) (buffer bytes : Bytes) :
    Fails (parseStringLoop (rounds + 1) buffer bytes) ∨
      (∃ rest, bytes = char '"' :: rest ∧ parseStringLoop (rounds + 1) buffer bytes = .ok (buffer, rest)) ∨
      Reads rounds buffer bytes := by
  cases bytes with
  | nil => exact .inl (fails_jsonError _ _)
  | cons b tail => ?_
  by_cases hquote : b = char '"'
  · refine .inr (.inl ⟨tail, by rw [hquote], ?_⟩)
    simp only [parseStringLoop, if_pos hquote]
  by_cases hback : b = char '\\'
  · subst hback
    rcases parseStringLoop_back rounds buffer tail with hfail | hread
    · exact .inl hfail
    · exact .inr (.inr hread)
  obtain ⟨r, hvalid, hseq⟩ := validUtf8Sequence_sound (b :: tail)
  cases r with
  | none =>
    left
    simp only [parseStringLoop, if_neg hquote, if_neg hback, hvalid, bind, Except.bind, fails_jsonError]
  | some n => ?_
  obtain ⟨seq, rest, hbytes, rfl, hisSeq, hprint⟩ := hseq n rfl
  obtain ⟨c, rfl⟩ := exists_char hisSeq
  have hc := unescaped_of_sequence hbytes hprint hquote hback
  refine .inr (.inr ⟨[c], c.toNat, rest, by simpa using hbytes, ?_,
    fun _ _ hds => .unescaped hc hds, ?_⟩)
  · have hpos := List.length_pos_iff.mpr (String.utf8EncodeChar_ne_nil (c := c))
    rw [hbytes, List.length_append]
    omega
  · rw [hbytes, parseStringLoop_unescaped hc, Char.ofNat_toNat]

theorem parseStringLoop_sound (h : parseStringLoop rounds buffer bytes = .ok (out, rest)) :
    ∃ cs points, PlainChars cs points ∧ bytes = encode cs ++ char '"' :: rest ∧
      out = buffer ++ encodePoints points := by
  induction rounds generalizing buffer bytes with
  | zero => simp [parseStringLoop] at h
  | succ rounds ih =>
    rcases parseStringLoop_round rounds buffer bytes with ⟨_, _, _, hfail⟩ | ⟨tail, rfl, hok⟩ |
      ⟨cs, p, tail, rfl, -, hplain, hloop⟩
    · simp [hfail] at h
    · obtain ⟨rfl, rfl⟩ : buffer = out ∧ tail = rest := by simpa [hok] using h
      exact ⟨[], [], .nil, rfl, by simp [encodePoints]⟩
    · rw [hloop] at h
      obtain ⟨ds, points, hds, rfl, rfl⟩ := ih h
      exact ⟨cs ++ ds, p :: points, hplain ds points hds, by simp, by simp [encodePoints_cons]⟩

theorem parseStringLoop_safe (h : bytes.length < rounds) : Safe (parseStringLoop rounds buffer bytes) := by
  induction rounds generalizing buffer bytes with
  | zero => omega
  | succ rounds ih =>
    rcases parseStringLoop_round rounds buffer bytes with hfail | ⟨tail, rfl, hok⟩ |
      ⟨cs, p, tail, hbytes, hlt, hplain, hloop⟩
    · exact .inr hfail
    · exact .inl ⟨_, hok⟩
    · rw [hloop]
      exact ih (by omega)

/-- A string without lone surrogates and `U+0000`. -/
inductive PlainString : List Char → List Nat → Prop
  | string (h : PlainChars cs points) : PlainString ('"' :: (cs ++ ['"'])) points

theorem parseString_complete (h : PlainString cs points) :
    parseString (encode cs ++ rest) = .ok (encodePoints points, rest) := by
  cases h with
  | string h =>
    rw [encode_quote, encode_append, encode_quote]
    simp only [List.cons_append, List.append_assoc, encode_nil, List.nil_append, parseString, if_true]
    rw [parseStringLoop_complete h (by simp only [List.length_cons, List.length_append]; omega)]
    rfl

theorem parseString_sound (h : parseString bytes = .ok (out, rest)) :
    ∃ cs points, PlainString cs points ∧ bytes = encode cs ++ rest ∧ out = encodePoints points := by
  cases bytes with
  | nil => simp [parseString, jsonError] at h
  | cons b tail => ?_
  simp only [parseString] at h
  split at h
  · rename_i hb
    obtain ⟨cs, points, hcs, rfl, rfl⟩ := parseStringLoop_sound h
    refine ⟨_, points, .string hcs, ?_, rfl⟩
    rw [hb, encode_quote, encode_append, encode_quote]
    simp
  · simp [jsonError] at h

theorem parseString_safe (bytes : Bytes) : Safe (parseString bytes) := by
  cases bytes with
  | nil => exact safe_jsonError _ _
  | cons b tail => ?_
  simp only [parseString]
  split
  · exact parseStringLoop_safe (Nat.lt_succ_self _)
  · exact safe_jsonError _ _

-- The strings of the grammar

def PlainPoints (points : List Nat) : Prop := ∀ p ∈ points, p ≠ 0 ∧ ¬IsHigh p ∧ ¬IsLow p

theorem codePoints_unit (h : ∀ v rest, items = .unit v :: rest → ¬(IsHigh u ∧ IsLow v)) :
    codePoints (.unit u :: items) = u :: codePoints items := by
  cases items with
  | nil => rfl
  | cons item items =>
    cases item with
    | point p => rfl
    | unit v => rw [codePoints, if_neg (h v items rfl)]

theorem scalar_of_plain (hlt : u < 0x10000) (h : u ≠ 0 ∧ ¬IsHigh u ∧ ¬IsLow u) : Scalar u := by
  unfold IsHigh IsLow at h
  unfold Scalar
  omega

theorem plainChars_of_charsText (h : CharsText cs items) (hlen : cs.length ≤ n)
    (hplain : PlainPoints (codePoints items)) : PlainChars cs (codePoints items) := by
  induction n generalizing cs items with
  | zero =>
    cases h with
    | nil => exact .nil
    | unescaped | escape | unicode => simp at hlen
  | succ n ih =>
    cases h with
    | nil => exact .nil
    | unescaped hc hcs =>
      obtain ⟨-, htail⟩ := List.forall_mem_cons.mp hplain
      exact .unescaped hc (ih hcs (by simpa using hlen) htail)
    | escape hc hcs =>
      obtain ⟨-, htail⟩ := List.forall_mem_cons.mp hplain
      exact .escape hc (ih hcs (by simp at hlen; omega) htail)
    | unicode ha hb hc hd hcs =>
      have hhex := Hex4.digits ha hb hc hd
      generalize hu : (_ + _ : Nat) = u at hhex hplain ⊢
      rename_i cs items
      by_cases hpair : ∃ v rest, items = .unit v :: rest ∧ IsHigh u ∧ IsLow v
      · obtain ⟨v, rest, rfl, hhigh, hlow⟩ := hpair
        have hpoints : codePoints (.unit u :: .unit v :: rest) = pairPoint u v :: codePoints rest := by
          rw [codePoints, if_pos ⟨hhigh, hlow⟩]
        rw [hpoints] at hplain ⊢
        obtain ⟨-, htail⟩ := List.forall_mem_cons.mp hplain
        cases hcs with
        | unicode ha' hb' hc' hd' hcs =>
          have hescape := EscapeText.pair hhex hhigh (.digits ha' hb' hc' hd') hlow
          exact .unicode hescape (ih hcs (by simp at hlen; omega) htail)
      · have hpoints : codePoints (.unit u :: items) = u :: codePoints items :=
          codePoints_unit fun v rest heq hboth => hpair ⟨v, rest, heq, hboth⟩
        rw [hpoints] at hplain ⊢
        obtain ⟨hhead, htail⟩ := List.forall_mem_cons.mp hplain
        have hescape := EscapeText.unit hhex (scalar_of_plain hhex.lt hhead)
        exact .unicode hescape (ih hcs (by simp at hlen; omega) htail)

theorem charsText_of_plainChars (h : PlainChars cs points) :
    ∃ items, CharsText cs items ∧ codePoints items = points := by
  induction h with
  | nil => exact ⟨[], .nil, rfl⟩
  | unescaped hc hcs ih =>
    obtain ⟨items, hitems, rfl⟩ := ih
    exact ⟨_, .unescaped hc hitems, rfl⟩
  | escape hc hcs ih =>
    obtain ⟨items, hitems, rfl⟩ := ih
    exact ⟨_, .escape hc hitems, rfl⟩
  | unicode hu hcs ih =>
    obtain ⟨items, hitems, rfl⟩ := ih
    cases hu with
    | unit h hu =>
      cases h with
      | digits ha hb hc hd =>
        refine ⟨_, .unicode ha hb hc hd hitems, codePoints_unit ?_⟩
        intro v rest _ hboth
        exact hu.not_surrogate.1 hboth.1
    | pair h hhigh h' hlow =>
      cases h with
      | digits ha hb hc hd =>
        cases h' with
        | digits ha' hb' hc' hd' =>
          refine ⟨_, .unicode ha hb hc hd (.unicode ha' hb' hc' hd' hitems), ?_⟩
          rw [codePoints, if_pos ⟨hhigh, hlow⟩]

theorem PlainChars.plainPoints (h : PlainChars cs points) : ∀ p ∈ points, Scalar p := by
  induction h with
  | nil => simp
  | @unescaped c cs points hc hcs ih =>
    refine List.forall_mem_cons.mpr ⟨⟨by omega, toNat_scalar c⟩, ih⟩
  | escape hc hcs ih =>
    obtain ⟨-, -, hp, hne⟩ := simpleEscape_complete hc
    exact List.forall_mem_cons.mpr ⟨⟨hne, by omega⟩, ih⟩
  | unicode hu hcs ih => exact List.forall_mem_cons.mpr ⟨hu.scalar, ih⟩

theorem plainPoints_of_scalar (h : ∀ p ∈ points, Scalar p) : PlainPoints points := by
  intro p hp
  obtain ⟨hhigh, hlow⟩ := (h p hp).not_surrogate
  exact ⟨(h p hp).1, hhigh, hlow⟩

theorem plainString_iff : PlainString cs points ↔ StringText cs points ∧ PlainPoints points := by
  constructor
  · rintro ⟨h⟩
    obtain ⟨items, hitems, rfl⟩ := charsText_of_plainChars h
    exact ⟨.string hitems, plainPoints_of_scalar h.plainPoints⟩
  · rintro ⟨⟨h⟩, hplain⟩
    exact .string (plainChars_of_charsText h (Nat.le_refl _) hplain)

/-- Strings of the grammar that have the same bytes are the same. -/
theorem encodePoints_injOn (hps : ∀ p ∈ ps, Scalar p) (hqs : ∀ q ∈ qs, Scalar q)
    (h : encodePoints ps = encodePoints qs) : ps = qs := by
  have hchars : ps.map Char.ofNat = qs.map Char.ofNat := encode_injective h
  have hback : ∀ points : List Nat, (∀ p ∈ points, Scalar p) →
      (points.map Char.ofNat).map Char.toNat = points := by
    intro points hpoints
    rw [List.map_map]
    exact (List.map_congr_left fun p hp => toNat_ofNat (hpoints p hp).2).trans (List.map_id' points)
  rw [← hback ps hps, ← hback qs hqs, hchars]

end Fisics.Json
