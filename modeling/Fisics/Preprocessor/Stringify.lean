import Fisics.Lexer.Spelling
import Fisics.Preprocessor.MacroArgs
import Fisics.Syntax.StringLiteral
import Mathlib.Algebra.Order.BigOperators.Group.List

/-!
# What `#` makes of an argument

The string that `append_stringified_argument` builds is decoded to the stored texts of
the argument's tokens with single spaces between them. These are the spellings of the
tokens exactly where every token keeps its text.
-/

namespace Fisics

def spaced (texts : List (List Char)) : List Char := (texts.intersperse [' ']).flatten

@[simp] theorem spaced_singleton (text : List Char) : spaced [text] = text := List.append_nil text

@[simp] theorem spaced_cons_cons (a b : List Char) (texts : List (List Char)) :
    spaced (a :: b :: texts) = a ++ ' ' :: spaced (b :: texts) := rfl

-- Escaping and decoding

def escaped (text : List Char) : List Char :=
  text.flatMap fun c => if c = '\\' ∨ c = '"' then ['\\', c] else [c]

theorem escaped_append (a b : List Char) : escaped (a ++ b) = escaped a ++ escaped b :=
  List.flatMap_append

theorem escaped_spaced (texts : List (List Char)) :
    escaped (spaced texts) = spaced (texts.map escaped) := by
  induction texts with
  | nil => rfl
  | cons a texts ih =>
    cases texts with
    | nil => simp
    | cons b texts =>
      have hspace : escaped (' ' :: spaced (b :: texts)) = ' ' :: escaped (spaced (b :: texts)) := rfl
      rw [spaced_cons_cons, escaped_append, hspace, ih]
      rfl

theorem toList_stringifiedText (raw : List Token) :
    (stringifiedText raw).toList = escaped (spaced (raw.map fun tok => (tokenText tok).toList)) := by
  rw [escaped_spaced, List.map_map, stringifiedText, String.toList_ofList]
  rfl

theorem length_le_escaped (text : List Char) : text.length ≤ (escaped text).length := by
  induction text with
  | nil => exact Nat.le_refl 0
  | cons c text ih =>
    rw [show escaped (c :: text) = (if c = '\\' ∨ c = '"' then ['\\', c] else [c]) ++ escaped text
      from rfl, List.length_append, List.length_cons]
    split
    all_goals
      simp
      omega

theorem push_byte (hc : c.toNat < 256) (hcap : bytes.length + 1 < cap) :
    LiteralDecode.push 255 cap ⟨true, false, n, bytes⟩ c.toNat = ⟨true, false, n + 1, bytes ++ [c]⟩ := by
  have hmod : c.toNat % 256 = c.toNat := Nat.mod_eq_of_lt hc
  have hle : ¬255 < c.toNat := by omega
  have hmax : ¬0x10FFFF < c.toNat := by omega
  have hsurrogate : ¬0xD800 ≤ c.toNat := by omega
  simp [LiteralDecode.push, hmod, hle, hmax, hsurrogate, hcap]

/-- One character of the text, with its backslash where it has one. -/
theorem decodeLoop_escaped_cons (maxVal cap : Nat) (res : LiteralDecode) (c : Char) (text : List Char) :
    decodeLoop maxVal cap 0 res (escaped (c :: text)) =
      decodeLoop maxVal cap 0 (res.push maxVal cap c.toNat) (escaped text) := by
  have hcons : escaped (c :: text) = (if c = '\\' ∨ c = '"' then ['\\', c] else [c]) ++ escaped text := rfl
  rw [hcons]
  split
  · rename_i hc
    rcases hc with rfl | rfl
    all_goals rfl
  · rename_i hc
    rw [not_or] at hc
    simp [decodeLoop, hc.1]

theorem decodeLoop_escaped (n : Nat) (bytes : List Char) (hbytes : ∀ c ∈ text, c.toNat < 256)
    (hcap : bytes.length + text.length < cap) :
    decodeLoop 255 cap 0 ⟨true, false, n, bytes⟩ (escaped text) =
      ⟨true, false, n + text.length, bytes ++ text⟩ := by
  induction text generalizing n bytes with
  | nil => simp [escaped, decodeLoop]
  | cons c text ih =>
    obtain ⟨hc, hrest⟩ := List.forall_mem_cons.mp hbytes
    rw [List.length_cons] at hcap
    rw [decodeLoop_escaped_cons, push_byte hc (by omega), ih _ _ hrest (by simp; omega)]
    simp
    omega

theorem decode_escaped (hbytes : ∀ c ∈ text, c.toNat < 256) :
    decodeCStringLiteral (escaped text) 8 = ⟨true, false, text.length, text⟩ := by
  have hlen := length_le_escaped text
  have hcap : ([] : List Char).length + text.length < (escaped text).length + 1 := by
    simp
    omega
  have hloop := decodeLoop_escaped 0 [] hbytes hcap
  rw [Nat.zero_add, List.nil_append] at hloop
  exact hloop

-- Counting marks

theorem marks_spaced (texts : List (List Char)) : marks (spaced texts) = (texts.map marks).sum := by
  induction texts with
  | nil => rfl
  | cons a texts ih =>
    cases texts with
    | nil => simp
    | cons b texts =>
      have hspace : marks (' ' :: spaced (b :: texts)) = marks (spaced (b :: texts)) := rfl
      rw [spaced_cons_cons, marks_append, hspace, ih]
      rfl

/-- Pointwise no more, and no less in all, is the same at each place. -/
theorem eq_of_sum_eq (f g : α → Nat) {items : List α} (hle : ∀ x ∈ items, f x ≤ g x)
    (hsum : (items.map f).sum = (items.map g).sum) : ∀ x ∈ items, f x = g x := by
  induction items with
  | nil => simp
  | cons x items ih =>
    obtain ⟨hx, hitems⟩ := List.forall_mem_cons.mp hle
    have hrest := List.sum_le_sum hitems
    simp only [List.map_cons, List.sum_cons] at hsum
    exact List.forall_mem_cons.mpr ⟨by omega, ih hitems (by omega)⟩

theorem mem_spaced (h : c ∈ spaced texts) : c = ' ' ∨ ∃ text ∈ texts, c ∈ text := by
  induction texts with
  | nil => cases h
  | cons a texts ih =>
    cases texts with
    | nil =>
      rw [spaced_singleton] at h
      exact .inr ⟨a, List.mem_singleton_self a, h⟩
    | cons b texts => ?_
    rw [spaced_cons_cons, List.mem_append, List.mem_cons] at h
    rcases h with h | rfl | h
    · exact .inr ⟨a, List.mem_cons_self, h⟩
    · exact .inl rfl
    · refine (ih h).imp_right ?_
      rintro ⟨text, htext, hc⟩
      exact ⟨text, List.mem_cons_of_mem a htext, hc⟩

-- Spellings

/-- The decoded string is the spellings of the argument's tokens. -/
def StringifiesTo (argument : List (Token × List (Char × List Char))) (origin : SourceRange) : Prop :=
  decodeCStringLiteral
      (tokenText (stringifiedArgument (argument.map Prod.fst) origin)).toList 8 =
    ⟨true, false, (spaced (argument.map fun t => writtenText t.2)).length,
      spaced (argument.map fun t => writtenText t.2)⟩

theorem decode_stringified (argument : List (Token × List (Char × List Char))) (origin : SourceRange)
    (h : ∀ t ∈ argument, LexedAs t.1 t.2) :
    decodeCStringLiteral
        (tokenText (stringifiedArgument (argument.map Prod.fst) origin)).toList 8 =
      ⟨true, false, (spaced (argument.map fun t => (tokenText t.1).toList)).length,
        spaced (argument.map fun t => (tokenText t.1).toList)⟩ := by
  have htext : (tokenText (stringifiedArgument (argument.map Prod.fst) origin)).toList =
      escaped (spaced (argument.map fun t => (tokenText t.1).toList)) := by
    show (stringifiedText _).toList = _
    rw [toList_stringifiedText, List.map_map]
    rfl
  rw [htext]
  apply decode_escaped
  intro c hc
  rcases mem_spaced hc with rfl | ⟨text, htext, hc⟩
  · decide
  · obtain ⟨t, ht, rfl⟩ := List.mem_map.mp htext
    exact lexedAs_bytes (h t ht) c hc

theorem stringifiesTo_iff (argument : List (Token × List (Char × List Char))) (origin : SourceRange)
    (h : ∀ t ∈ argument, LexedAs t.1 t.2) :
    StringifiesTo argument origin ↔ ∀ t ∈ argument, KeepsSpelling t.1 t.2 := by
  rw [StringifiesTo, decode_stringified argument origin h]
  constructor
  · intro heq
    have hspaced : spaced (argument.map fun t => (tokenText t.1).toList) =
        spaced (argument.map fun t => writtenText t.2) := congrArg LiteralDecode.bytes heq
    have hsum : (argument.map fun t => marks (tokenText t.1).toList).sum =
        (argument.map fun t => marks (writtenText t.2)).sum := by
      have hmarks := congrArg marks hspaced
      simpa only [marks_spaced, List.map_map, Function.comp_def] using hmarks
    have hle : ∀ t ∈ argument, marks (tokenText t.1).toList ≤ marks (writtenText t.2) := by
      intro t ht
      rcases lexedAs_kept_or_lost (h t ht) with ⟨-, hsame⟩ | ⟨-, hlt⟩
      · rw [hsame]
      · exact Nat.le_of_lt hlt
    have hmarks : ∀ t ∈ argument, marks (tokenText t.1).toList = marks (writtenText t.2) :=
      eq_of_sum_eq _ _ hle hsum
    intro t ht
    rcases lexedAs_kept_or_lost (h t ht) with ⟨hkeeps, -⟩ | ⟨-, hlt⟩
    · exact hkeeps
    · exact absurd (hmarks t ht) (Nat.ne_of_lt hlt)
  · intro hkeeps
    have hsame : (argument.map fun t => (tokenText t.1).toList) =
        argument.map fun t => writtenText t.2 := by
      refine List.map_congr_left ?_
      intro t ht
      rcases lexedAs_kept_or_lost (h t ht) with ⟨-, hsame⟩ | ⟨hnot, -⟩
      · exact hsame
      · exact absurd (hkeeps t ht) hnot
    rw [hsame]

def lexerAt (source : List Char) : Lexer := ⟨source, none, 0, 1, 0, [], [], [], false⟩

/-- The token that a `+` is read as. -/
def plusToken : Token := (handleOperator (lexerAt ['+'])).1

theorem lexedAs_plus : LexedAs plusToken [('+', ['+'])] := by
  refine ⟨lexerAt ['+'], (lexerAt ['+']).advance 1, false, ['+'], rfl, ?_, rfl, fun _ => rfl, rfl, rfl⟩
  simp [lexerAt]

/-- `#x` of `+ +`. -/
theorem stringifiesTo_plus :
    LexedAs plusToken [('+', ['+'])] ∧
      StringifiesTo [(plusToken, [('+', ['+'])]), (plusToken, [('+', ['+'])])] emptyRange := by
  refine ⟨lexedAs_plus, (stringifiesTo_iff _ emptyRange ?_).mpr ?_⟩
  · simp [lexedAs_plus]
  · have hkeeps : KeepsSpelling plusToken [('+', ['+'])] := ⟨keepsText_of_plain rfl _, by simp⟩
    simp [hkeeps]

/-- The token that the string literal `"a"` is read as. -/
def stringToken : Token := (handleStringLiteral (lexerAt ['"', 'a', '"'])).1

def stringCells : List (Char × List Char) := [('"', ['"']), ('a', ['a']), ('"', ['"'])]

theorem lexedAs_string : LexedAs stringToken stringCells := by
  refine ⟨lexerAt ['"', 'a', '"'], (lexerAt ['"', 'a', '"']).advance 3, false, ['"', 'a', '"'], rfl, ?_,
    rfl, fun _ => rfl, rfl, rfl⟩
  simp [lexerAt]

/-- `#x` of `"a"` is `"a"`, not `"\"a\""`. -/
theorem string_not_stringifiesTo :
    LexedAs stringToken stringCells ∧ ¬StringifiesTo [(stringToken, stringCells)] emptyRange := by
  refine ⟨lexedAs_string, ?_⟩
  unfold StringifiesTo
  decide

/-- The digraph `<:` is read as `[`, which `#x` makes `"["`. -/
example : let tok := (handlePunctuation (lexerAt ['['])).1
    LexedAs tok [('[', ['<', ':'])] ∧ tokenText tok = "[" := by
  refine ⟨⟨lexerAt ['['], (lexerAt ['[']).advance 1, false, ['<', ':'], rfl, ?_, rfl, fun _ => rfl, rfl,
    rfl⟩, rfl⟩
  simp [lexerAt]

end Fisics
