import Fisics.Syntax.ConstantAgreement
import Fisics.Syntax.StringDecoding

/-!
# Tags of string literals

The lexer marks the encoding of a literal in the text of its token, and escapes the text
of a narrow literal that looks marked. The reader takes three marks off; the lexer looks
for two of them.
-/

namespace Fisics

variable {lexer : Lexer} {tok : Token}

-- Literals in the source

inductive LiteralPrefix
  | narrow | u8 | longWide | shortWide | fullWide
  deriving DecidableEq

namespace LiteralPrefix

def spelling : LiteralPrefix → List Char
  | narrow => []
  | u8 => ['u', '8']
  | longWide => ['L']
  | shortWide => ['u']
  | fullWide => ['U']

def encoding : LiteralPrefix → LiteralEncoding
  | narrow => .narrow
  | u8 => .utf8
  | longWide | shortWide | fullWide => .wide

def tagged (p : LiteralPrefix) (body : List Char) : List Char :=
  match p.encoding with
  | .narrow =>
    if ['W', '|'].isPrefixOf body || ['U', '8', '|'].isPrefixOf body then 'N' :: '|' :: body else body
  | .utf8 => 'U' :: '8' :: '|' :: body
  | .wide => 'W' :: '|' :: body

end LiteralPrefix

def AtLiteral (lexer : Lexer) (p : LiteralPrefix) (body : List Char) : Prop :=
  ∃ back, (skipWhitespace lexer).rest = p.spelling ++ '"' :: (body ++ '"' :: back) ∧
    stringScan 0 (body ++ '"' :: back) = (body.length, .closed)

-- Its token

theorem handleStringLiteral_closed (hrest : (lexer.advance 1).rest = body ++ '"' :: back)
    (hscan : stringScan 0 (body ++ '"' :: back) = (body.length, .closed)) :
    (handleStringLiteral lexer).1.type = .string ∧
      (handleStringLiteral lexer).1.value = some (String.ofList body) := by
  have htext := textFrom_advance (lexer.advance 1) body.length
  rw [hrest, List.take_left] at htext
  simp only [handleStringLiteral, hrest, hscan]
  exact ⟨rfl, congrArg some htext⟩

theorem advance_rest (lexer : Lexer) (n : Nat) : (lexer.advance n).rest = lexer.rest.drop n := by
  simp [Lexer.rest, Lexer.advance, Nat.add_comm]

theorem prependLiteralPrefix_value (h : tok.value = some (String.ofList body)) (tag : String) :
    (prependLiteralPrefix tok tag).value = some (String.ofList (tag.toList ++ body)) := by
  simp [prependLiteralPrefix, h]

theorem peek_eq (lexer : Lexer) (k : Nat) : lexer.peek k = lexer.rest.getD k '\x00' := by
  simp [Lexer.peek, Lexer.rest, List.getD]

theorem dispatchToken_wide (hletter : c = 'L' ∨ c = 'u' ∨ c = 'U')
    (hrest : lexer.rest = c :: '"' :: (body ++ '"' :: back))
    (hscan : stringScan 0 (body ++ '"' :: back) = (body.length, .closed)) (next : Lexer → Token × Lexer) :
    (dispatchToken next lexer).1.type = .string ∧
      (dispatchToken next lexer).1.value = some (String.ofList ('W' :: '|' :: body)) := by
  have hcur : lexer.cur = c := by rw [Lexer.cur, peek_eq, hrest]; rfl
  have hnext : lexer.peek 1 = '"' := by rw [peek_eq, hrest]; rfl
  have hbody : ((lexer.advance 1).advance 1).rest = body ++ '"' :: back := by
    rw [advance_rest, advance_rest, hrest]
    rfl
  obtain ⟨htype, hvalue⟩ := handleStringLiteral_closed hbody hscan
  have hnot : ¬ (lexer.cur = 'u' ∧ lexer.peek 1 = '8' ∧ lexer.peek 2 = '"') := by
    rintro ⟨-, height, -⟩
    rw [hnext] at height
    exact absurd height (by decide)
  rw [dispatchToken, if_neg hnot, if_pos ⟨by rwa [hcur], hnext⟩]
  exact ⟨htype, prependLiteralPrefix_value hvalue "W|"⟩

theorem utf8Length_quote (text : List Char) : lexerIdentifierUtf8Length ('"' :: text) = 0 := by
  by_contra hlength
  obtain ⟨a, b, rest, htext, hlow, -⟩ := utf8Length_two (Nat.pos_of_ne_zero hlength)
  cases htext
  exact absurd hlow (by decide)

theorem markAmbiguous_value (htype : tok.type = .string) (hvalue : tok.value = some (String.ofList body)) :
    (markAmbiguousNarrowStringLiteral tok).type = .string ∧
      (markAmbiguousNarrowStringLiteral tok).value =
        some (String.ofList (LiteralPrefix.narrow.tagged body)) := by
  have htext : (tokenText tok).toList = body := by simp [tokenText, hvalue]
  simp only [markAmbiguousNarrowStringLiteral, htype, htext, true_and, LiteralPrefix.tagged,
    LiteralPrefix.encoding, Bool.or_eq_true]
  split_ifs
  · exact ⟨htype, prependLiteralPrefix_value hvalue "N|"⟩
  · exact ⟨htype, hvalue⟩

theorem dispatchToken_narrow (hrest : lexer.rest = '"' :: (body ++ '"' :: back))
    (hscan : stringScan 0 (body ++ '"' :: back) = (body.length, .closed)) (next : Lexer → Token × Lexer) :
    (dispatchToken next lexer).1.type = .string ∧
      (dispatchToken next lexer).1.value = some (String.ofList (LiteralPrefix.narrow.tagged body)) := by
  have hcur : lexer.cur = '"' := by rw [Lexer.cur, peek_eq, hrest]; rfl
  have hbody : (lexer.advance 1).rest = body ++ '"' :: back := by
    rw [advance_rest, hrest]
    rfl
  obtain ⟨htype, hvalue⟩ := handleStringLiteral_closed hbody hscan
  have hword : ¬ ('"'.isAlpha = true ∨ '"' = '_' ∨ 0 < lexerIdentifierUtf8Length lexer.rest) := by
    rw [hrest, utf8Length_quote]
    decide
  unfold dispatchToken
  rw [hcur]
  rw [if_neg (by simp), if_neg (by simp), if_neg (by simp), if_neg (by simp), if_neg hword, if_neg (by decide),
    if_neg (by simp), if_pos rfl]
  exact markAmbiguous_value htype hvalue

variable {p : LiteralPrefix}

/-- What the dispatch makes of a literal, whatever comes behind it. -/
theorem dispatchToken_literal (hrest : lexer.rest = p.spelling ++ '"' :: (body ++ '"' :: back))
    (hscan : stringScan 0 (body ++ '"' :: back) = (body.length, .closed)) (next : Lexer → Token × Lexer) :
    (dispatchToken next lexer).1.type = .string ∧
      (dispatchToken next lexer).1.value = some (String.ofList (p.tagged body)) := by
  cases p with
  | narrow => exact dispatchToken_narrow hrest hscan next
  | longWide => exact dispatchToken_wide (.inl rfl) hrest hscan next
  | shortWide => exact dispatchToken_wide (.inr (.inl rfl)) hrest hscan next
  | fullWide => exact dispatchToken_wide (.inr (.inr rfl)) hrest hscan next
  | u8 =>
    have hcur : lexer.cur = 'u' := by rw [Lexer.cur, peek_eq, hrest]; rfl
    have hnext : lexer.peek 1 = '8' := by rw [peek_eq, hrest]; rfl
    have hquote : lexer.peek 2 = '"' := by rw [peek_eq, hrest]; rfl
    have hbody : ((lexer.advance 2).advance 1).rest = body ++ '"' :: back := by
      rw [advance_rest, advance_rest, hrest]
      rfl
    obtain ⟨htype, hvalue⟩ := handleStringLiteral_closed hbody hscan
    rw [dispatchToken, if_pos ⟨hcur, hnext, hquote⟩]
    exact ⟨htype, prependLiteralPrefix_value hvalue "U8|"⟩

theorem getNextToken_literal (h : AtLiteral lexer p body) :
    (getNextToken lexer).1.type = .string ∧
      (getNextToken lexer).1.value = some (String.ofList (p.tagged body)) := by
  obtain ⟨back, hrest, hscan⟩ := h
  have hnonempty : (skipWhitespace lexer).rest ≠ [] := by simp [hrest]
  have hbefore : (skipWhitespace lexer).position < (skipWhitespace lexer).length := by
    by_contra hbehind
    exact hnonempty (List.drop_eq_nil_of_le (Nat.le_of_not_lt hbehind))
  have hcur : (skipWhitespace lexer).cur ≠ '\x00' := by
    rw [Lexer.cur, peek_eq, hrest]
    cases p <;> simp [LiteralPrefix.spelling]
  have hmore : (skipWhitespace lexer).isEOF = false := by
    simp [Lexer.isEOF, hcur, hbefore]
  rw [getNextToken, getNextTokenFuel, hmore]
  exact dispatchToken_literal hrest hscan _

-- Reading the tag

def decodedLiteral (lexer : Lexer) : Option (LiteralEncoding × List Char) :=
  (getNextToken lexer).1.value.map fun text => astLiteralEncoding text.toList

/-- A narrow body that looks escaped and is not. -/
def LiteralPrefix.Misread (p : LiteralPrefix) (body : List Char) : Prop :=
  p = .narrow ∧ ['N', '|'] <+: body

instance (p : LiteralPrefix) (body : List Char) : Decidable (p.Misread body) :=
  inferInstanceAs (Decidable (_ ∧ _))

theorem astLiteralEncoding_tagged (p : LiteralPrefix) (body : List Char) :
    astLiteralEncoding (p.tagged body) = (p.encoding, if p.Misread body then body.drop 2 else body) := by
  cases p with
  | narrow => ?_
  | u8 | longWide | shortWide | fullWide => rfl
  simp only [LiteralPrefix.tagged, LiteralPrefix.encoding, LiteralPrefix.Misread, true_and]
  split_ifs with hmarked hescaped hescaped
  · obtain ⟨rest, rfl⟩ := hescaped
    simp at hmarked
  · rfl
  · obtain ⟨rest, rfl⟩ := hescaped
    rfl
  · unfold astLiteralEncoding
    split
    · exact absurd ⟨_, rfl⟩ hescaped
    · simp at hmarked
    · simp at hmarked
    · rfl

theorem misread_ne (h : p.Misread body) : body.drop 2 ≠ body := by
  obtain ⟨-, rest, rfl⟩ := h
  intro hsame
  have hlength := congrArg List.length hsame
  simp only [List.length_drop, List.length_append, List.length_cons, List.length_nil] at hlength
  omega

theorem decodedLiteral_eq (h : AtLiteral lexer p body) :
    decodedLiteral lexer = some (p.encoding, if p.Misread body then body.drop 2 else body) := by
  rw [decodedLiteral, (getNextToken_literal h).2, Option.map_some, String.toList_ofList,
    astLiteralEncoding_tagged]

/-- A literal is read back with its encoding and body exactly when it is no narrow one that begins
with the tag of an escaped text; literals that are read back share nothing. -/
theorem decodedLiteral_iff (lexer : Lexer) (p : LiteralPrefix) (body : List Char) :
    (AtLiteral lexer p body → (decodedLiteral lexer = some (p.encoding, body) ↔ ¬ p.Misread body)) ∧
    ∀ lexer' p' body', AtLiteral lexer p body → AtLiteral lexer' p' body' →
      ¬ p.Misread body → ¬ p'.Misread body' → decodedLiteral lexer = decodedLiteral lexer' →
      p.encoding = p'.encoding ∧ body = body' := by
  refine ⟨?_, ?_⟩
  · intro h
    rw [decodedLiteral_eq h]
    split_ifs with hmisread
    · refine iff_of_false ?_ (not_not_intro hmisread)
      intro hsame
      exact misread_ne hmisread (Prod.mk.inj (Option.some.inj hsame)).2
    · exact iff_of_true rfl hmisread
  · intro lexer' p' body' h h' hread hread' hsame
    rw [decodedLiteral_eq h, decodedLiteral_eq h', if_neg hread, if_neg hread'] at hsame
    exact Prod.mk.inj (Option.some.inj hsame)

/-- `"W|a"`. -/
theorem decodedLiteral_marked :
    decodedLiteral (initLexer "\"W|a\"".toList none false) = some (.narrow, "W|a".toList) :=
  ((decodedLiteral_iff _ .narrow _).1 ⟨[], by decide, by decide⟩).mpr (by decide)

/-- `"N|a"` is read as `a`, as `"a"` is. -/
theorem escapedTag_misread :
    ¬ ((∀ lexer p body, AtLiteral lexer p body → decodedLiteral lexer = some (p.encoding, body)) ∧
      ∀ lexer lexer' p p' body body', AtLiteral lexer p body → AtLiteral lexer' p' body' →
        decodedLiteral lexer = decodedLiteral lexer' → p.encoding = p'.encoding ∧ body = body') := by
  rintro ⟨hread, -⟩
  have hescaped := hread (initLexer "\"N|a\"".toList none false) .narrow "N|a".toList ⟨[], by decide, by decide⟩
  revert hescaped
  decide

end Fisics
