import Fisics.Compiler.ProjectJsonGrammar
import Mathlib.Data.Nat.Bitwise

/-!
# The characters of the JSON parser's strings

What the functions below `parse_string` accept: the bytes of one character, and the
escapes. Each has a lemma for the texts it accepts and one for what it accepted; no
read is behind the end.
-/

namespace Fisics.Json

open Utf8
open UInt8 (le_iff_toNat_le lt_iff_toNat_lt toNat_inj)

-- Outcomes

/-- The parser stops with a failure of its own. -/
def Fails (p : Parse α) : Prop := ∃ left format argument, p = .error (.failed left format argument)

theorem fails_jsonError (rest : Bytes) (format : String) :
    Fails (jsonError rest format : Parse α) := ⟨_, _, _, rfl⟩

/-- No read behind the end, and no loop whose count runs out. -/
def Safe (p : Parse α) : Prop := (∃ a, p = .ok a) ∨ Fails p

theorem safe_ok (a : α) : Safe (.ok a : Parse α) := .inl ⟨a, rfl⟩

theorem safe_jsonError (rest : Bytes) (format : String) : Safe (jsonError rest format : Parse α) :=
  .inr (fails_jsonError rest format)

theorem Safe.bind (hp : Safe p) (hf : ∀ a, p = .ok a → Safe (f a)) :
    Safe (p.bind f) := by
  rcases hp with ⟨a, rfl⟩ | ⟨left, format, argument, rfl⟩
  · exact hf a rfl
  · exact .inr ⟨left, format, argument, rfl⟩

theorem exists_of_bind {p : Parse α} (h : p.bind f = .ok b) :
    ∃ a, p = .ok a ∧ f a = .ok b := by
  cases p with
  | error => simp [Except.bind] at h
  | ok a => exact ⟨a, rfl, h⟩

theorem byteAt_zero (a : UInt8) (rest : Bytes) : byteAt (a :: rest) 0 = .ok a := rfl

theorem byteAt_one (a b : UInt8) (rest : Bytes) : byteAt (a :: b :: rest) 1 = .ok b := rfl

-- One character

instance (b : UInt8) : Decidable (Tail b) := inferInstanceAs (Decidable (_ ∧ _))

theorem continuation_iff (b : UInt8) : b &&& 0xc0 = 0x80 ↔ Tail b := by
  have h : ∀ n < 256, (n &&& 0xc0 = 0x80 ↔ 0x80 ≤ n ∧ n < 0xc0) := by decide +kernel
  rw [← toNat_inj, UInt8.toNat_and]
  exact h b.toNat b.toNat_lt

theorem continues_eq (h : bytes[i]? = some b) : continues bytes i = .ok (decide (Tail b)) := by
  by_cases hb : Tail b <;> simp [continues, byteAt, h, Except.map, continuation_iff, hb]

@[simp] theorem andThen_false (p : Parse Bool) : andThen (.ok false) p = .ok false := rfl
@[simp] theorem andThen_true (p : Parse Bool) : andThen (.ok true) p = p := rfl

/-- `n` bytes that follow a first one stand in front. -/
def Tails : Nat → Bytes → Prop
  | 0, _ => True
  | _ + 1, [] => False
  | n + 1, b :: rest => Tail b ∧ Tails n rest

instance Tails.decide : (n : Nat) → (bytes : Bytes) → Decidable (Tails n bytes)
  | 0, _ => .isTrue trivial
  | _ + 1, [] => .isFalse id
  | n + 1, b :: rest => have := Tails.decide n rest; inferInstanceAs (Decidable (Tail b ∧ Tails n rest))

/-- The tests of one length: the range of the first byte, the bytes there are, and then the bytes themselves. -/
theorem twoBytes_eq (x : Bool) (a : UInt8) (rest : Bytes) :
    andThen (.ok (x && 2 ≤ (a :: rest).length)) (continues (a :: rest) 1) =
      .ok (x && decide (Tails 1 rest)) := by
  rcases rest with _ | ⟨b, rest⟩
  · cases x <;> rfl
  · cases x <;> simp [Tails, continues_eq]

theorem threeBytes_eq (x : Bool) (a : UInt8) (rest : Bytes) :
    andThen (andThen (.ok (x && 3 ≤ (a :: rest).length)) (continues (a :: rest) 1)) (continues (a :: rest) 2) =
      .ok (x && decide (Tails 2 rest)) := by
  rcases rest with _ | ⟨b, _ | ⟨c, rest⟩⟩
  · cases x <;> rfl
  · cases x <;> simp [Tails]
  · cases x <;> by_cases hb : Tail b <;> simp [Tails, continues_eq, hb]

theorem fourBytes_eq (x : Bool) (a : UInt8) (rest : Bytes) :
    andThen (andThen (andThen (.ok (x && 4 ≤ (a :: rest).length)) (continues (a :: rest) 1))
      (continues (a :: rest) 2)) (continues (a :: rest) 3) =
      .ok (x && decide (Tails 3 rest)) := by
  rcases rest with _ | ⟨b, _ | ⟨c, _ | ⟨d, rest⟩⟩⟩
  · cases x <;> rfl
  · cases x <;> simp [Tails]
  · cases x <;> simp [Tails]
  · cases x <;> by_cases hb : Tail b <;> by_cases hc : Tail c <;> simp [Tails, continues_eq, hb, hc]

theorem validUtf8Sequence_cons (a : UInt8) (rest : Bytes) :
    validUtf8Sequence (a :: rest) =
      if a < 0x80 then .ok (if 0x20 ≤ a then some 1 else none)
      else if (0xc2 ≤ a ∧ a ≤ 0xdf) ∧ Tails 1 rest then .ok (some 2)
      else if (0xe0 ≤ a ∧ a ≤ 0xef) ∧ Tails 2 rest then
        (byteAt rest 0).map fun second =>
          if a = 0xe0 ∧ second < 0xa0 ∨ a = 0xed ∧ 0xa0 ≤ second then none else some 3
      else if (0xf0 ≤ a ∧ a ≤ 0xf4) ∧ Tails 3 rest then
        (byteAt rest 0).map fun second =>
          if a = 0xf0 ∧ second < 0x90 ∨ a = 0xf4 ∧ 0x90 ≤ second then none else some 4
      else .ok none := by
  simp only [validUtf8Sequence, twoBytes_eq, threeBytes_eq, fourBytes_eq]
  simp [bind, Except.bind, pure, Except.pure]
  rfl

theorem validUtf8Sequence_complete (h : IsSequence seq) (hc : ∀ a ∈ seq.head?, 0x20 ≤ a.toNat) :
    validUtf8Sequence (seq ++ rest) = .ok (some seq.length) := by
  unfold IsSequence at h
  split at h
  · rename_i a
    have hlt : a < 0x80 := lt_iff_toNat_lt.mpr h
    have hle : 0x20 ≤ a := le_iff_toNat_le.mpr (hc a rfl)
    simp [validUtf8Sequence_cons, hlt, hle]
  · rename_i a b
    have hlt : ¬a.toNat < 0x80 := by omega
    simp [validUtf8Sequence_cons, Tails, lt_iff_toNat_lt, le_iff_toNat_le, hlt, h]
  · rename_i a b c
    have hlt : ¬a.toNat < 0x80 := by omega
    have hle : ¬a.toNat ≤ 0xdf := by omega
    obtain ⟨h1, h2, h3, h4, h5, h6⟩ := h
    simp [validUtf8Sequence_cons, Tails, lt_iff_toNat_lt, le_iff_toNat_le, ← toNat_inj, hlt, hle, h1, h2,
      h3, h4, byteAt, Except.map]
    omega
  · rename_i a b c d
    have hlt : ¬a.toNat < 0x80 := by omega
    have hle : ¬a.toNat ≤ 0xdf := by omega
    have hle' : ¬a.toNat ≤ 0xef := by omega
    obtain ⟨h1, h2, h3, h4, h5, h6, h7⟩ := h
    simp [validUtf8Sequence_cons, Tails, lt_iff_toNat_lt, le_iff_toNat_le, ← toNat_inj, hlt, hle, hle', h1,
      h2, h3, h4, h5, byteAt, Except.map]
    omega
  · exact h.elim

theorem exists_of_tails_succ (h : Tails (n + 1) bytes) :
    ∃ b rest, bytes = b :: rest ∧ Tail b ∧ Tails n rest := by
  cases bytes with
  | nil => exact h.elim
  | cons b rest => exact ⟨b, rest, rfl, h⟩

theorem validUtf8Sequence_sound (bytes : Bytes) :
    ∃ r, validUtf8Sequence bytes = .ok r ∧ ∀ n, r = some n →
      ∃ seq rest, bytes = seq ++ rest ∧ seq.length = n ∧ IsSequence seq ∧
        ∀ a ∈ seq.head?, 0x20 ≤ a.toNat := by
  cases bytes with
  | nil => exact ⟨none, rfl, by simp⟩
  | cons a rest => ?_
  simp only [validUtf8Sequence_cons, lt_iff_toNat_lt, le_iff_toNat_le, ← toNat_inj]
  split
  · rename_i hlt
    refine ⟨_, rfl, ?_⟩
    intro n hn
    obtain ⟨hle, rfl⟩ : 0x20 ≤ a.toNat ∧ 1 = n := by simpa using hn
    exact ⟨[a], rest, rfl, rfl, hlt, by simpa using hle⟩
  split
  · rename_i hlt h
    obtain ⟨hlead, htails⟩ := h
    obtain ⟨b, rest, rfl, hb, -⟩ := exists_of_tails_succ htails
    refine ⟨_, rfl, ?_⟩
    rintro n ⟨⟩
    refine ⟨[a, b], rest, rfl, rfl, ⟨hlead.1, hlead.2, hb⟩, ?_⟩
    simp at hlead ⊢
    omega
  split
  · rename_i hlt h2 h
    obtain ⟨hlead, htails⟩ := h
    obtain ⟨b, rest, rfl, hb, htails⟩ := exists_of_tails_succ htails
    obtain ⟨c, rest, rfl, hc, -⟩ := exists_of_tails_succ htails
    refine ⟨_, rfl, ?_⟩
    intro n hn
    obtain ⟨hle, rfl⟩ := by simpa using hn
    refine ⟨[a, b, c], rest, rfl, rfl, ⟨hlead.1, hlead.2, hb, hc, ?_⟩, ?_⟩
    · exact hle
    · simp at hlead ⊢
      omega
  split
  · rename_i h
    obtain ⟨hlead, htails⟩ := h
    obtain ⟨b, rest, rfl, hb, htails⟩ := exists_of_tails_succ htails
    obtain ⟨c, rest, rfl, hc, htails⟩ := exists_of_tails_succ htails
    obtain ⟨d, rest, rfl, hd, -⟩ := exists_of_tails_succ htails
    refine ⟨_, rfl, ?_⟩
    intro n hn
    obtain ⟨hle, rfl⟩ := by simpa using hn
    refine ⟨[a, b, c, d], rest, rfl, rfl, ⟨hlead.1, hlead.2, hb, hc, hd, ?_⟩, ?_⟩
    · exact hle
    · simp at hlead ⊢
      omega
  · exact ⟨none, rfl, by simp⟩

-- Single bytes

theorem toNat_char (h : c.toNat < 0x80) : (char c).toNat = c.toNat := by
  simp [char]
  omega

theorem encode_ascii (h : c.toNat < 0x80) : encode (c :: cs) = char c :: encode cs := by
  simp [encodeChar_ascii h, char]

theorem char_inj (hc : c.toNat < 0x80) (hd : d.toNat < 0x80) (h : char c = char d) : c = d := by
  have hnat := congrArg UInt8.toNat h
  rw [toNat_char hc, toNat_char hd] at hnat
  exact Char.toNat_inj.mp hnat

theorem exists_ascii (h : b.toNat < 0x80) : ∃ c : Char, c.toNat = b.toNat ∧ char c = b := by
  have hc := toNat_ofNat (n := b.toNat) (by omega)
  refine ⟨Char.ofNat b.toNat, hc, ?_⟩
  apply toNat_inj.mp
  rw [toNat_char (by omega), hc]

/-- Only an `ASCII` character has a byte below `0x80`. -/
theorem encodeChar_head (c : Char) :
    ∃ a tail, String.utf8EncodeChar c = a :: tail ∧ (a.toNat < 0x80 → c.toNat = a.toNat) := by
  by_cases hc : c.toNat < 0x80
  · refine ⟨char c, [], encodeChar_ascii hc, ?_⟩
    simp [toNat_char hc]
  have hval : c.val.toNat = c.toNat := rfl
  unfold String.utf8EncodeChar
  simp only [hval]
  split
  · omega
  split
  · refine ⟨_, _, rfl, ?_⟩
    simp
    omega
  split
  all_goals
    refine ⟨_, _, rfl, ?_⟩
    simp
    omega

-- Escapes

theorem hexDigit_iff : HexDigit c x ↔
    48 ≤ c.toNat ∧ c.toNat ≤ 57 ∧ x = c.toNat - 48 ∨
      97 ≤ c.toNat ∧ c.toNat ≤ 102 ∧ x = c.toNat - 87 ∨
      65 ≤ c.toNat ∧ c.toNat ≤ 70 ∧ x = c.toNat - 55 := by
  constructor
  · intro h
    cases h with
    | digit hc => exact .inl ⟨hc.1, hc.2, rfl⟩
    | lower hc => exact .inr (.inl ⟨hc.1, hc.2, rfl⟩)
    | upper hc => exact .inr (.inr ⟨hc.1, hc.2, rfl⟩)
  · rintro (⟨h, h', rfl⟩ | ⟨h, h', rfl⟩ | ⟨h, h', rfl⟩)
    · exact .digit ⟨h, h'⟩
    · exact .lower ⟨h, h'⟩
    · exact .upper ⟨h, h'⟩

theorem HexDigit.bounds (h : HexDigit c x) : c.toNat < 0x80 ∧ x < 16 := by
  rw [hexDigit_iff] at h
  omega

theorem hexDigit_eq_some : hexDigit b = some x ↔
    48 ≤ b.toNat ∧ b.toNat ≤ 57 ∧ x = b.toNat - 48 ∨
      97 ≤ b.toNat ∧ b.toNat ≤ 102 ∧ x = b.toNat - 87 ∨
      65 ≤ b.toNat ∧ b.toNat ≤ 70 ∧ x = b.toNat - 55 := by
  have h0 : char '0' ≤ b ↔ 48 ≤ b.toNat := le_iff_toNat_le
  have h9 : b ≤ char '9' ↔ b.toNat ≤ 57 := le_iff_toNat_le
  have ha : char 'a' ≤ b ↔ 97 ≤ b.toNat := le_iff_toNat_le
  have hf : b ≤ char 'f' ↔ b.toNat ≤ 102 := le_iff_toNat_le
  have hA : char 'A' ≤ b ↔ 65 ≤ b.toNat := le_iff_toNat_le
  have hF : b ≤ char 'F' ↔ b.toNat ≤ 70 := le_iff_toNat_le
  simp only [hexDigit, h0, h9, ha, hf, hA, hF]
  iterate 3
    split
    · simp only [Option.some.injEq]
      omega
  · simp only [reduceCtorEq, false_iff]
    omega

theorem hexDigit_char (h : HexDigit c x) : hexDigit (char c) = some x := by
  rw [hexDigit_eq_some, toNat_char h.bounds.1]
  exact hexDigit_iff.mp h

theorem exists_hexDigit (h : hexDigit b = some x) : ∃ c, HexDigit c x ∧ b = char c := by
  rw [hexDigit_eq_some] at h
  obtain ⟨c, hc, rfl⟩ := exists_ascii (b := b) (by omega)
  rw [← hc] at h
  exact ⟨c, hexDigit_iff.mpr h, rfl⟩

theorem shift_or_digit (hx : x < 16) : value <<< 4 ||| x = value * 16 + x := by
  rw [← Nat.shiftLeft_add_eq_or_of_lt hx, Nat.shiftLeft_eq]

theorem parseHex4Loop_digit (h : HexDigit c x) (count value : Nat) (rest : Bytes) :
    parseHex4Loop (count + 1) value (char c :: rest) = parseHex4Loop count (value * 16 + x) rest := by
  simp [parseHex4Loop, hexDigit_char h, shift_or_digit h.bounds.2]

theorem parseHex4Loop_some (h : parseHex4Loop (count + 1) value bytes = .ok (some unit, rest)) :
    ∃ c x tail, bytes = char c :: tail ∧ HexDigit c x ∧
      parseHex4Loop count (value * 16 + x) tail = .ok (some unit, rest) := by
  cases bytes with
  | nil => simp [parseHex4Loop] at h
  | cons b tail => ?_
  simp only [parseHex4Loop] at h
  cases hb : hexDigit b with
  | none => simp [hb] at h
  | some x =>
    obtain ⟨c, hc, rfl⟩ := exists_hexDigit hb
    rw [hb] at h
    exact ⟨c, x, tail, rfl, hc, by simpa [shift_or_digit hc.bounds.2] using h⟩

theorem parseHex4Loop_ok (h : count ≤ bytes.length) : ∃ r, parseHex4Loop count value bytes = .ok r := by
  induction count generalizing value bytes with
  | zero => exact ⟨_, rfl⟩
  | succ count ih =>
    cases bytes with
    | nil => simp at h
    | cons b tail => ?_
    simp only [parseHex4Loop]
    cases hexDigit b with
    | none => exact ⟨_, rfl⟩
    | some x => exact ih (by simpa using h)

/-- The four digits of a unit. -/
inductive Hex4 : List Char → Nat → Prop
  | digits (ha : HexDigit a x₁) (hb : HexDigit b x₂) (hc : HexDigit c x₃) (hd : HexDigit d x₄) :
      Hex4 [a, b, c, d] (x₁ * 4096 + x₂ * 256 + x₃ * 16 + x₄)

theorem Hex4.encode (h : Hex4 cs unit) : encode cs = cs.map char := by
  cases h with
  | digits ha hb hc hd =>
    simp [encode_ascii, ha.bounds, hb.bounds, hc.bounds, hd.bounds, -encode_cons]

theorem Hex4.length (h : Hex4 cs unit) : (Utf8.encode cs).length = 4 := by
  rw [h.encode]
  cases h with
  | digits => rfl

theorem Hex4.lt (h : Hex4 cs unit) : unit < 0x10000 := by
  cases h with
  | digits ha hb hc hd =>
    have hx₁ := ha.bounds.2
    have hx₂ := hb.bounds.2
    have hx₃ := hc.bounds.2
    have hx₄ := hd.bounds.2
    omega

theorem parseHex4_complete (h : Hex4 cs unit) :
    parseHex4 (Utf8.encode cs ++ rest) = .ok (some unit, rest) := by
  rw [h.encode]
  cases h with
  | digits ha hb hc hd =>
    rename_i a x₁ b x₂ c x₃ d x₄
    have hunit : (((0 * 16 + x₁) * 16 + x₂) * 16 + x₃) * 16 + x₄ =
        x₁ * 4096 + x₂ * 256 + x₃ * 16 + x₄ := by omega
    rw [parseHex4, if_neg (by simp)]
    simp only [List.map_cons, List.map_nil, List.cons_append, List.nil_append]
    rw [parseHex4Loop_digit ha, parseHex4Loop_digit hb, parseHex4Loop_digit hc,
      parseHex4Loop_digit hd, hunit]
    rfl

theorem parseHex4_sound (h : parseHex4 bytes = .ok (some unit, rest)) :
    ∃ cs, Hex4 cs unit ∧ bytes = Utf8.encode cs ++ rest := by
  unfold parseHex4 at h
  split at h
  · simp at h
  obtain ⟨a, x₁, tail, rfl, ha, h⟩ := parseHex4Loop_some h
  obtain ⟨b, x₂, tail, rfl, hb, h⟩ := parseHex4Loop_some h
  obtain ⟨c, x₃, tail, rfl, hc, h⟩ := parseHex4Loop_some h
  obtain ⟨d, x₄, tail, rfl, hd, h⟩ := parseHex4Loop_some h
  obtain ⟨hunit, rfl⟩ : (((0 * 16 + x₁) * 16 + x₂) * 16 + x₃) * 16 + x₄ = unit ∧ tail = rest := by
    simpa [parseHex4Loop] using h
  obtain rfl : x₁ * 4096 + x₂ * 256 + x₃ * 16 + x₄ = unit := by omega
  have hdigits := Hex4.digits ha hb hc hd
  exact ⟨_, hdigits, by simp [hdigits.encode]⟩

theorem parseHex4_ok (bytes : Bytes) : ∃ r, parseHex4 bytes = .ok r := by
  unfold parseHex4
  split
  · exact ⟨_, rfl⟩
  · exact parseHex4Loop_ok (by omega)

/-- A character other than `U+0000`. -/
def Scalar (p : Nat) : Prop := p ≠ 0 ∧ (p < 0xd800 ∨ 0xdfff < p ∧ p < 0x110000)

theorem or_lead (h : x < 2 ^ i) : 2 ^ i * a ||| x = x + 2 ^ i * a := by
  rw [← Nat.two_pow_add_eq_or_of_lt h, Nat.add_comm]

theorem appendUtf8_complete (h : Scalar p) :
    appendUtf8 p = some (String.utf8EncodeChar (Char.ofNat p)) := by
  obtain ⟨h0, hp⟩ := h
  have hval : (Char.ofNat p).val.toNat = p := toNat_ofNat hp
  have hmask : ∀ n : Nat, n &&& 0x3f = n % 64 := fun n => Nat.and_two_pow_sub_one_eq_mod n 6
  have htail : ∀ n : Nat, 0x80 ||| n % 64 = n % 64 + 0x80 := fun n =>
    or_lead (i := 6) (a := 2) (Nat.mod_lt n (by decide))
  simp only [appendUtf8, String.utf8EncodeChar, hval, hmask, htail, Nat.shiftRight_eq_div_pow]
  rw [if_neg h0]
  split
  · rfl
  split
  · have hor : 0xc0 ||| p / 2 ^ 6 = p / 2 ^ 6 + 0xc0 :=
      or_lead (i := 6) (a := 3) (by omega)
    have hlead : 0xc0 ||| p / 2 ^ 6 = p / 64 % 32 + 0xc0 := by omega
    rw [hlead]
  split
  · have hor : 0xe0 ||| p / 2 ^ 12 = p / 2 ^ 12 + 0xe0 :=
      or_lead (i := 4) (a := 14) (by omega)
    have hlead : 0xe0 ||| p / 2 ^ 12 = p / 4096 % 16 + 0xe0 := by omega
    rw [if_neg (by omega), hlead]
  · have hor : 0xf0 ||| p / 2 ^ 18 = p / 2 ^ 18 + 0xf0 :=
      or_lead (i := 3) (a := 30) (by omega)
    have hlead : 0xf0 ||| p / 2 ^ 18 = p / 262144 % 8 + 0xf0 := by omega
    rw [if_pos (by omega), hlead]

theorem appendUtf8_none (h : ¬Scalar p) : appendUtf8 p = none := by
  simp only [Scalar, not_and_or, not_or] at h
  unfold appendUtf8
  split
  · rfl
  split
  · omega
  split
  · omega
  · split
    · rw [if_pos (by omega)]
    · rw [if_neg (by omega)]

theorem appendUtf8_sound (h : appendUtf8 p = some bytes) :
    Scalar p ∧ bytes = String.utf8EncodeChar (Char.ofNat p) := by
  by_cases hp : Scalar p
  · rw [appendUtf8_complete hp] at h
    exact ⟨hp, (Option.some.inj h).symm⟩
  · simp [appendUtf8_none hp] at h

theorem encode_backslash (cs : List Char) : encode ('\\' :: cs) = char '\\' :: encode cs :=
  encode_ascii (by decide)

theorem encode_u (cs : List Char) : encode ('u' :: cs) = char 'u' :: encode cs :=
  encode_ascii (by decide)

theorem encode_quote (cs : List Char) : encode ('"' :: cs) = char '"' :: encode cs :=
  encode_ascii (by decide)

theorem pairPoint_eq (high low : Nat) :
    0x10000 + ((high - 0xd800) <<< 10) + (low - 0xdc00) = pairPoint high low := by
  unfold pairPoint
  rw [Nat.shiftLeft_eq]

theorem parseLowSurrogate_eq (high : Nat) (tail : Bytes) (hlen : 4 ≤ tail.length) :
    parseLowSurrogate high (char '\\' :: char 'u' :: tail) =
      (parseHex4 tail).bind fun (low, rest) =>
        match low with
        | none => jsonError rest "invalid low surrogate"
        | some low =>
          if IsLow low then .ok (pairPoint high low, rest)
          else jsonError rest "invalid low surrogate" := by
  have hlen' : ¬(char '\\' :: char 'u' :: tail).length < 6 := by
    simp
    omega
  simp only [parseLowSurrogate, if_neg hlen', byteAt, bind, pairPoint_eq]
  obtain ⟨⟨low, rest⟩, hr⟩ := parseHex4_ok tail
  cases low with
  | none => simp [hr, Except.bind]
  | some low => ?_
  have hiff : low < 0xdc00 ∨ 0xdfff < low ↔ ¬IsLow low := by
    unfold IsLow
    omega
  simp [hr, Except.bind, hiff, pure, Except.pure]

theorem parseLowSurrogate_complete (h : Hex4 cs low) (hlow : IsLow low) :
    parseLowSurrogate high (encode ('\\' :: 'u' :: cs) ++ rest) = .ok (pairPoint high low, rest) := by
  simp only [encode_backslash, encode_u, List.cons_append]
  rw [parseLowSurrogate_eq _ _ (by simp [h.length]), parseHex4_complete h]
  simp [Except.bind, hlow]

theorem parseLowSurrogate_front (h : 6 ≤ bytes.length) :
    ∃ a b tail, bytes = a :: b :: tail ∧ 4 ≤ tail.length := by
  rcases bytes with _ | ⟨a, _ | ⟨b, tail⟩⟩
  · simp at h
  · simp at h
  · exact ⟨a, b, tail, rfl, by simpa using h⟩

theorem parseLowSurrogate_cases (high : Nat) (bytes : Bytes) :
    Fails (parseLowSurrogate high bytes) ∨
      ∃ tail, bytes = char '\\' :: char 'u' :: tail ∧ 4 ≤ tail.length := by
  by_cases hlen : bytes.length < 6
  · left
    simp only [parseLowSurrogate, if_pos hlen, fails_jsonError]
  obtain ⟨a, b, tail, rfl, htail⟩ := parseLowSurrogate_front (Nat.le_of_not_lt hlen)
  by_cases ha : a = char '\\'
  · by_cases hb : b = char 'u'
    · subst ha hb
      exact .inr ⟨tail, rfl, htail⟩
    · left
      simp [parseLowSurrogate, byteAt_zero, byteAt_one, bind, Except.bind, hb, fails_jsonError]
  · left
    simp [parseLowSurrogate, byteAt_zero, bind, Except.bind, ha, fails_jsonError]

theorem parseLowSurrogate_sound (h : parseLowSurrogate high bytes = .ok (p, rest)) :
    ∃ cs low, Hex4 cs low ∧ IsLow low ∧ p = pairPoint high low ∧
      bytes = encode ('\\' :: 'u' :: cs) ++ rest := by
  rcases parseLowSurrogate_cases high bytes with ⟨_, _, _, hf⟩ | ⟨tail, rfl, htail⟩
  · simp [hf] at h
  · rw [parseLowSurrogate_eq _ _ htail] at h
    obtain ⟨⟨low, rest'⟩, hr, h⟩ := exists_of_bind h
    cases low with
    | none => simp [jsonError] at h
    | some low => ?_
    by_cases hlow : IsLow low
    · obtain ⟨rfl, rfl⟩ : pairPoint high low = p ∧ rest' = rest := by simpa [hlow] using h
      obtain ⟨cs, hcs, rfl⟩ := parseHex4_sound hr
      exact ⟨cs, low, hcs, hlow, rfl, by simp [encode_backslash, encode_u, -encode_cons]⟩
    · simp [hlow, jsonError] at h

theorem parseLowSurrogate_safe (high : Nat) (bytes : Bytes) : Safe (parseLowSurrogate high bytes) := by
  rcases parseLowSurrogate_cases high bytes with hf | ⟨tail, rfl, htail⟩
  · exact .inr hf
  · rw [parseLowSurrogate_eq _ _ htail]
    refine Safe.bind (.inl (parseHex4_ok tail)) ?_
    rintro ⟨low, rest⟩ -
    cases low with
    | none => exact safe_jsonError _ _
    | some low =>
      by_cases hlow : IsLow low
      · simp only [if_pos hlow, safe_ok]
      · simp only [if_neg hlow, safe_jsonError]

/-- What follows `\u`: one unit, or the two of a pair. -/
inductive EscapeText : List Char → Nat → Prop
  | unit (h : Hex4 cs u) (hu : Scalar u) : EscapeText cs u
  | pair (h : Hex4 cs high) (hhigh : IsHigh high) (h' : Hex4 ds low) (hlow : IsLow low) :
      EscapeText (cs ++ '\\' :: 'u' :: ds) (pairPoint high low)

theorem scalar_pairPoint (hhigh : IsHigh high) (hlow : IsLow low) : Scalar (pairPoint high low) := by
  unfold IsHigh at hhigh
  unfold IsLow at hlow
  unfold Scalar pairPoint
  omega

theorem EscapeText.scalar (h : EscapeText cs p) : Scalar p := by
  cases h with
  | unit h hu => exact hu
  | pair h hhigh h' hlow => exact scalar_pairPoint hhigh hlow

theorem Scalar.not_surrogate (h : Scalar u) : ¬(0xd800 ≤ u ∧ u ≤ 0xdbff) ∧ ¬(0xdc00 ≤ u ∧ u ≤ 0xdfff) := by
  unfold Scalar at h
  omega

theorem parseSurrogates_unit (hu : Scalar u) : parseSurrogates u rest = .ok (u, rest) := by
  obtain ⟨hhigh, hlow⟩ := hu.not_surrogate
  rw [parseSurrogates, if_neg hhigh, if_neg hlow]

theorem parseSurrogates_pair (hhigh : IsHigh high) (h : Hex4 cs low) (hlow : IsLow low) :
    parseSurrogates high (encode ('\\' :: 'u' :: cs) ++ rest) = .ok (pairPoint high low, rest) := by
  rw [parseSurrogates, if_pos ⟨hhigh.1, hhigh.2⟩, parseLowSurrogate_complete h hlow]

theorem parseUnicodeEscape_of_hex4 (h : Hex4 cs u) (hp : Scalar p)
    (hr : parseSurrogates u tail = .ok (p, rest)) :
    parseUnicodeEscape (encode cs ++ tail) = .ok (String.utf8EncodeChar (Char.ofNat p), rest) := by
  simp only [parseUnicodeEscape, parseHex4_complete h, bind, Except.bind, hr, appendUtf8_complete hp]
  rfl

theorem parseUnicodeEscape_complete (h : EscapeText cs p) :
    parseUnicodeEscape (encode cs ++ rest) = .ok (String.utf8EncodeChar (Char.ofNat p), rest) := by
  cases h with
  | unit h hu => exact parseUnicodeEscape_of_hex4 h hu (parseSurrogates_unit hu)
  | pair h hhigh h' hlow =>
    rw [encode_append, List.append_assoc]
    exact parseUnicodeEscape_of_hex4 h (scalar_pairPoint hhigh hlow) (parseSurrogates_pair hhigh h' hlow)

theorem parseSurrogates_sound (h : Hex4 cs unit) (hr : parseSurrogates unit bytes = .ok (p, rest))
    (hp : Scalar p) : ∃ ds, EscapeText (cs ++ ds) p ∧ bytes = encode ds ++ rest := by
  unfold parseSurrogates at hr
  split at hr
  · rename_i hhigh
    obtain ⟨ds, low, hds, hlow, hpair, hbytes⟩ := parseLowSurrogate_sound hr
    have hescape := EscapeText.pair h hhigh hds hlow
    rw [← hpair] at hescape
    exact ⟨_, hescape, hbytes⟩
  · split at hr
    · simp [jsonError] at hr
    · obtain ⟨rfl, rfl⟩ := hr
      refine ⟨[], ?_, rfl⟩
      rw [List.append_nil]
      exact .unit h hp

theorem parseUnicodeEscape_sound (h : parseUnicodeEscape bytes = .ok (out, rest)) :
    ∃ cs p, EscapeText cs p ∧ bytes = encode cs ++ rest ∧ out = String.utf8EncodeChar (Char.ofNat p) := by
  obtain ⟨⟨unit, tail⟩, hhex, hunit⟩ := exists_of_bind h
  cases unit with
  | none => simp [jsonError] at hunit
  | some unit => ?_
  obtain ⟨cs, hcs, rfl⟩ := parseHex4_sound hhex
  obtain ⟨⟨p, tail'⟩, hpoint, hout⟩ := exists_of_bind hunit
  cases happ : appendUtf8 p with
  | none => simp [happ, jsonError] at hout
  | some bytes => ?_
  obtain ⟨hscalar, rfl⟩ := appendUtf8_sound happ
  simp only [happ, pure, Except.pure, Except.ok.injEq, Prod.mk.injEq] at hout
  obtain ⟨rfl, rfl⟩ := hout
  obtain ⟨ds, hescape, rfl⟩ := parseSurrogates_sound hcs hpoint hscalar
  exact ⟨cs ++ ds, p, hescape, by simp, rfl⟩

theorem parseUnicodeEscape_safe (bytes : Bytes) : Safe (parseUnicodeEscape bytes) := by
  refine Safe.bind (.inl (parseHex4_ok bytes)) ?_
  rintro ⟨unit, rest⟩ -
  cases unit with
  | none => exact safe_jsonError _ _
  | some unit => ?_
  refine Safe.bind ?_ ?_
  · unfold parseSurrogates
    split
    · exact parseLowSurrogate_safe _ _
    split
    · exact safe_jsonError _ _
    · exact safe_ok _
  · rintro ⟨p, rest⟩ -
    dsimp only
    cases appendUtf8 p with
    | none => exact safe_jsonError _ _
    | some bytes => exact safe_ok _

theorem simpleEscape_complete (h : (c, p) ∈ escapes) :
    simpleEscape (char c) = some p.toUInt8 ∧ c.toNat < 0x80 ∧ p < 0x80 ∧ p ≠ 0 := by
  simp only [escapes, List.mem_cons, Prod.mk.injEq, List.not_mem_nil, or_false] at h
  rcases h with ⟨rfl, rfl⟩ | ⟨rfl, rfl⟩ | ⟨rfl, rfl⟩ | ⟨rfl, rfl⟩ | ⟨rfl, rfl⟩ | ⟨rfl, rfl⟩ |
    ⟨rfl, rfl⟩ | ⟨rfl, rfl⟩ <;> decide

theorem simpleEscape_sound (h : simpleEscape e = some b) :
    ∃ c p, (c, p) ∈ escapes ∧ e = char c ∧ b = p.toUInt8 := by
  unfold simpleEscape at h
  split at h
  · rename_i he
    exact ⟨'"', 0x22, by simp [escapes], he, (Option.some.inj h).symm⟩
  split at h
  · rename_i he
    exact ⟨'\\', 0x5c, by simp [escapes], he, (Option.some.inj h).symm⟩
  split at h
  · rename_i he
    exact ⟨'/', 0x2f, by simp [escapes], he, (Option.some.inj h).symm⟩
  split at h
  · rename_i he
    exact ⟨'b', 0x8, by simp [escapes], he, (Option.some.inj h).symm⟩
  split at h
  · rename_i he
    exact ⟨'f', 0xc, by simp [escapes], he, (Option.some.inj h).symm⟩
  split at h
  · rename_i he
    exact ⟨'n', 0xa, by simp [escapes], he, (Option.some.inj h).symm⟩
  split at h
  · rename_i he
    exact ⟨'r', 0xd, by simp [escapes], he, (Option.some.inj h).symm⟩
  split at h
  · rename_i he
    exact ⟨'t', 0x9, by simp [escapes], he, (Option.some.inj h).symm⟩
  · simp at h

end Fisics.Json
