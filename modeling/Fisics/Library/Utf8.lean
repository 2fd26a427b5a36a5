import Mathlib.Data.List.Basic

/-!
# UTF-8

The bytes of a list of characters, and the byte sequences that encode one character
(the ranges of the Unicode standard, by the first byte).
-/

namespace Utf8

def encode (cs : List Char) : List UInt8 := cs.flatMap String.utf8EncodeChar

@[simp] theorem encode_nil : encode [] = [] := rfl

@[simp] theorem encode_cons (c : Char) (cs : List Char) :
    encode (c :: cs) = String.utf8EncodeChar c ++ encode cs := rfl

@[simp] theorem encode_append (cs ds : List Char) : encode (cs ++ ds) = encode cs ++ encode ds :=
  List.flatMap_append

theorem encode_injective : Function.Injective encode := by
  intro cs ds h
  have hbytes : cs.utf8Encode = ds.utf8Encode := congrArg List.toByteArray h
  have hdecode := congrArg ByteArray.utf8Decode? hbytes
  rw [List.utf8Decode?_utf8Encode, List.utf8Decode?_utf8Encode] at hdecode
  simpa using congrArg Array.toList (Option.some.inj hdecode)

theorem encodeChar_ascii (h : c.toNat < 0x80) : String.utf8EncodeChar c = [c.toNat.toUInt8] := by
  have hle : c.val.toNat ≤ 0x7f := Nat.le_of_lt_succ h
  simp only [String.utf8EncodeChar, hle, if_true]
  rfl

theorem encodeChar_high (hc : 0x80 ≤ c.toNat) : ∀ b ∈ String.utf8EncodeChar c, 0x80 ≤ b.toNat := by
  have hval : c.val.toNat = c.toNat := rfl
  unfold String.utf8EncodeChar
  simp only [hval]
  split
  · omega
  split
  · simp only [List.mem_cons, List.not_mem_nil, or_false, forall_eq_or_imp, forall_eq,
      UInt8.toNat_ofNat']
    omega
  split
  all_goals
    simp only [List.mem_cons, List.not_mem_nil, or_false, forall_eq_or_imp, forall_eq,
      UInt8.toNat_ofNat']
    omega

-- One character

/-- A byte after the first. -/
def Tail (b : UInt8) : Prop := 0x80 ≤ b.toNat ∧ b.toNat < 0xc0

def IsSequence : List UInt8 → Prop
  | [a] => a.toNat < 0x80
  | [a, b] => 0xc2 ≤ a.toNat ∧ a.toNat ≤ 0xdf ∧ Tail b
  | [a, b, c] =>
    0xe0 ≤ a.toNat ∧ a.toNat ≤ 0xef ∧ Tail b ∧ Tail c ∧ (a.toNat = 0xe0 → 0xa0 ≤ b.toNat) ∧
      (a.toNat = 0xed → b.toNat < 0xa0)
  | [a, b, c, d] =>
    0xf0 ≤ a.toNat ∧ a.toNat ≤ 0xf4 ∧ Tail b ∧ Tail c ∧ Tail d ∧
      (a.toNat = 0xf0 → 0x90 ≤ b.toNat) ∧ (a.toNat = 0xf4 → b.toNat < 0x90)
  | _ => False

theorem toNat_scalar (c : Char) : c.toNat < 0xd800 ∨ 0xdfff < c.toNat ∧ c.toNat < 0x110000 := c.valid

theorem isSequence_encodeChar (c : Char) : IsSequence (String.utf8EncodeChar c) := by
  have hc := toNat_scalar c
  have hval : c.val.toNat = c.toNat := rfl
  unfold String.utf8EncodeChar
  simp only [hval]
  split
  · simp only [IsSequence, UInt8.toNat_ofNat']
    omega
  split
  · simp only [IsSequence, Tail, UInt8.toNat_ofNat']
    omega
  split
  all_goals
    simp only [IsSequence, Tail, UInt8.toNat_ofNat']
    omega

theorem toNat_ofNat (h : n < 0xd800 ∨ 0xdfff < n ∧ n < 0x110000) : (Char.ofNat n).toNat = n := by
  have hvalid : n.isValidChar := h
  rw [Char.ofNat, dif_pos hvalid]
  rfl

theorem exists_val (h : n < 0xd800 ∨ 0xdfff < n ∧ n < 0x110000) :
    ∃ c : Char, c.val.toNat = n := ⟨Char.ofNat n, toNat_ofNat h⟩

theorem ofNat_toNat_eq (h : n = a.toNat) : UInt8.ofNat n = a := by
  subst h
  simp

theorem exists_char (h : IsSequence bytes) : ∃ c, String.utf8EncodeChar c = bytes := by
  unfold IsSequence Tail at h
  split at h
  · rename_i a
    obtain ⟨ch, hval⟩ := exists_val (n := a.toNat) (by omega)
    refine ⟨ch, ?_⟩
    simp only [String.utf8EncodeChar, hval]
    rw [if_pos (by omega), ofNat_toNat_eq rfl]
  · rename_i a b
    obtain ⟨ch, hval⟩ := exists_val (n := (a.toNat - 0xc0) * 64 + (b.toNat - 0x80)) (by omega)
    refine ⟨ch, ?_⟩
    simp only [String.utf8EncodeChar, hval]
    rw [if_neg (by omega), if_pos (by omega), ofNat_toNat_eq (a := a) (by omega),
      ofNat_toNat_eq (a := b) (by omega)]
  · rename_i a b c
    obtain ⟨ch, hval⟩ := exists_val
      (n := (a.toNat - 0xe0) * 4096 + (b.toNat - 0x80) * 64 + (c.toNat - 0x80)) (by omega)
    refine ⟨ch, ?_⟩
    simp only [String.utf8EncodeChar, hval]
    rw [if_neg (by omega), if_neg (by omega), if_pos (by omega), ofNat_toNat_eq (a := a) (by omega),
      ofNat_toNat_eq (a := b) (by omega), ofNat_toNat_eq (a := c) (by omega)]
  · rename_i a b c d
    obtain ⟨ch, hval⟩ := exists_val
      (n := (a.toNat - 0xf0) * 262144 + (b.toNat - 0x80) * 4096 + (c.toNat - 0x80) * 64 +
        (d.toNat - 0x80)) (by omega)
    refine ⟨ch, ?_⟩
    simp only [String.utf8EncodeChar, hval]
    rw [if_neg (by omega), if_neg (by omega), if_neg (by omega), ofNat_toNat_eq (a := a) (by omega),
      ofNat_toNat_eq (a := b) (by omega), ofNat_toNat_eq (a := c) (by omega),
      ofNat_toNat_eq (a := d) (by omega)]
  · exact h.elim

end Utf8
