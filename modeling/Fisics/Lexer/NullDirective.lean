import Fisics.Lexer.Lookback

/-!
# Null directives

A `#` alone on its line is a directive without a name. The handler looks for the name
behind all the blank space that follows, newlines among it: when the next line begins
with a word, this word becomes the name of the directive.
-/

namespace Fisics

/-- Nothing but blanks between the `#` at the position and the end of its line. -/
def nullDirective (lexer : Lexer) : Bool :=
  ((lexer.rest.drop 1).takeWhile (fun c => c != '\n')).all isspace

/-- The first character behind the blank space after the `#` may start a name. -/
def wordFollows (lexer : Lexer) : Bool :=
  match (lexer.rest.drop 1).dropWhile isspace with
  | [] => false
  | c :: _ => c.isAlpha || c == '_'

/-- The directive keeps to its line: a name stands behind the `#` on the same line, and a null
directive is a `#` of its own, with the tokens behind it that the blank line would have. -/
structure LineLocal (lexer : Lexer) : Prop where
  name : (handlePreprocessorDirective lexer).1.type ≠ .hash →
    ∃ blanks name tail, lexer.rest = '#' :: (blanks ++ name ++ tail) ∧ '\n' ∉ blanks ∧
      (handlePreprocessorDirective lexer).1.value = some (String.ofList name)
  null : nullDirective lexer = true →
    (handlePreprocessorDirective lexer).1.type = .hash ∧
    ∀ budget, fillFromLexer budget (handlePreprocessorDirective lexer).2 =
      fillFromLexer budget (blankAt lexer.position lexer)

-- The blank space behind the hash

theorem skipSpaces_rest (lexer : Lexer) :
    (skipSpaces lexer.rest lexer).rest = lexer.rest.dropWhile isspace := by
  generalize htext : lexer.rest = text
  induction text generalizing lexer with
  | nil => exact htext
  | cons c text ih =>
    unfold skipSpaces
    split
    · rename_i hc
      rw [htext, List.dropWhile_cons_of_neg (by simpa using hc)]
    rename_i hc
    rw [List.dropWhile_cons_of_pos (by simpa using hc)]
    split
    · exact ih lexer.newline (by rw [rest_newline, htext]; rfl)
    · exact ih (lexer.advance 1) (by rw [rest_advance, htext]; rfl)

theorem skipSpaces_beforeLine (hmem : '\n' ∈ text.takeWhile isspace) (hi : i ≤ Lexer.position lexer) :
    BeforeLine i (skipSpaces text lexer) := by
  induction text generalizing lexer with
  | nil => cases hmem
  | cons c text ih =>
    by_cases hspace : isspace c = true
    · rw [List.takeWhile_cons_of_pos hspace] at hmem
      have hnot : ¬(!isspace c) = true := by simp [hspace]
      rw [skipSpaces, if_neg hnot]
      split
      · exact BeforeLine.skipSpaces ⟨Nat.lt_succ_of_le hi, Nat.lt_succ_of_le hi⟩ text
      rename_i hc
      have htail : '\n' ∈ text.takeWhile isspace := by
        rcases List.mem_cons.mp hmem with h | h
        · exact absurd h.symm hc
        · exact h
      exact ih htail (Nat.le_succ_of_le hi)
    · rw [List.takeWhile_cons_of_neg hspace] at hmem
      cases hmem

/-- Blank space before a token may be passed over first. -/
theorem skipWhitespace_skipSpaces (lexer : Lexer) :
    skipWhitespace (skipSpaces lexer.rest lexer) = skipWhitespace lexer := by
  unfold skipWhitespace
  rw [skipSpaces_rest]
  generalize htext : lexer.rest = text
  induction text generalizing lexer with
  | nil => rfl
  | cons c text ih =>
    unfold skipSpaces
    split
    · rename_i hc
      rw [List.dropWhile_cons_of_neg (by simpa using hc)]
    rename_i hc
    have hspace : isspace c = true := by simpa using hc
    have hback : c ≠ '\\' := by
      rintro rfl
      cases hspace
    rw [List.dropWhile_cons_of_pos hspace, skipBlank, if_neg hc]
    · split
      · exact ih lexer.newline (by rw [rest_newline, htext]; rfl)
      · exact ih (lexer.advance 1) (by rw [rest_advance, htext]; rfl)
    all_goals exact fun rest hc _ => hback hc

theorem null_of_newline {text : List Char} (hmem : '\n' ∈ text.takeWhile isspace) :
    (text.takeWhile (fun c => c != '\n')).all isspace = true := by
  induction text with
  | nil => rfl
  | cons c text ih =>
    by_cases hspace : isspace c = true
    · rw [List.takeWhile_cons_of_pos hspace] at hmem
      by_cases hc : c = '\n'
      · simp [hc]
      have htail : '\n' ∈ text.takeWhile isspace := by
        rcases List.mem_cons.mp hmem with h | h
        · exact absurd h.symm hc
        · exact h
      simpa [List.takeWhile_cons, hc, hspace] using ih htail
    · rw [List.takeWhile_cons_of_neg hspace] at hmem
      cases hmem

/-- Behind a null directive the blank space reaches the next line or the end of the text. -/
theorem null_cases {text : List Char} (h : (text.takeWhile (fun c => c != '\n')).all isspace = true) :
    '\n' ∈ text.takeWhile isspace ∨ text.dropWhile isspace = [] := by
  induction text with
  | nil => exact .inr rfl
  | cons c text ih =>
    by_cases hc : c = '\n'
    · subst hc
      exact .inl (by simp [isspace])
    rw [List.takeWhile_cons_of_pos (by simpa using hc), List.all_cons, Bool.and_eq_true] at h
    rw [List.takeWhile_cons_of_pos h.1, List.dropWhile_cons_of_pos h.1]
    exact (ih h.2).imp_left (List.mem_cons_of_mem c)

-- The handler

theorem directiveTokenType_ne_hash (directive : String) : directiveTokenType directive ≠ .hash := by
  unfold directiveTokenType
  repeat' split
  all_goals decide

theorem textFrom_skipWhile (lexer : Lexer) (p : Char → Bool) :
    (lexer.skipWhile p).textFrom lexer.position = String.ofList (lexer.rest.takeWhile p) := by
  have htake : lexer.rest.take (lexer.rest.takeWhile p).length = lexer.rest.takeWhile p :=
    (List.prefix_iff_eq_take.mp (List.takeWhile_prefix p)).symm
  rw [Lexer.skipWhile, textFrom_advance, htake]

def behindHash (lexer : Lexer) : Lexer := skipSpaces (lexer.advance 1).rest (lexer.advance 1)

theorem behindHash_rest (lexer : Lexer) :
    (behindHash lexer).rest = (lexer.rest.drop 1).dropWhile isspace := by
  rw [behindHash, skipSpaces_rest, rest_advance]

theorem noName_eq (lexer : Lexer) :
    (!(behindHash lexer).cur.isAlpha && (behindHash lexer).cur != '_') = !wordFollows lexer := by
  rw [Lexer.cur_eq, behindHash_rest, wordFollows]
  cases (lexer.rest.drop 1).dropWhile isspace with
  | nil => rfl
  | cons c rest => simp [bne]

theorem handlePreprocessorDirective_eq (hstart : atLineStart lexer = true) :
    handlePreprocessorDirective lexer =
      if wordFollows lexer then
        let directive := String.ofList (((lexer.rest.drop 1).dropWhile isspace).takeWhile isWord)
        emit ((behindHash lexer).skipWhile isWord) (directiveTokenType directive) directive lexer.mark
      else emit (behindHash lexer) .hash "#" lexer.mark := by
  have hname : (skipSpaces (lexer.advance 1).rest (lexer.advance 1)) = behindHash lexer := rfl
  have hnot : ¬(!atLineStart lexer) = true := by simp [hstart]
  unfold handlePreprocessorDirective
  simp only [if_neg hnot, hname, noName_eq, textFrom_skipWhile, behindHash_rest]
  cases wordFollows lexer with
  | false => rfl
  | true => rfl

-- The tokens behind a null directive

theorem fillFromLexer_congr (h : getNextToken a = getNextToken b) (budget : Nat) :
    fillFromLexer budget a = fillFromLexer budget b := by
  cases budget <;> simp only [fillFromLexer, h]

theorem getNextToken_congr (hlength : Lexer.length a = b.length)
    (hskip : skipWhitespace a = skipWhitespace b) : getNextToken a = getNextToken b := by
  simp only [getNextToken, getNextTokenFuel, hlength, hskip]

theorem skipSpaces_source (text : List Char) (lexer : Lexer) :
    (skipSpaces text lexer).source = lexer.source := by
  induction text generalizing lexer with
  | nil => rfl
  | cons c text ih =>
    unfold skipSpaces
    split
    · rfl
    split
    · exact ih lexer.newline
    · exact ih (lexer.advance 1)

theorem getNextToken_behindHash (hcur : lexer.cur = '#') :
    getNextToken (blankAt lexer.position (behindHash lexer)) =
      getNextToken (blankAt lexer.position lexer) := by
  have hrest := rest_of_cur hcur (by decide)
  have hafter : (blankAt lexer.position (lexer.advance 1)).rest = (lexer.advance 1).rest :=
    blankAt_drop _ (Nat.lt_succ_self _)
  have hblank : (blankAt lexer.position lexer).rest = ' ' :: (lexer.advance 1).rest := by
    have hset : (blankAt lexer.position lexer).rest = lexer.rest.set 0 ' ' := by
      rw [Lexer.rest, blankAt, List.drop_set, if_neg (Nat.lt_irrefl _), Nat.sub_self]
      rfl
    rw [hset, hrest, List.set_cons_zero, rest_advance]
  refine getNextToken_congr ?_ ?_
  · rw [blankAt_length, blankAt_length, Lexer.length, behindHash, skipSpaces_source]
    rfl
  · calc skipWhitespace (blankAt lexer.position (behindHash lexer))
        = skipWhitespace (blankAt lexer.position (lexer.advance 1)) := by
          rw [behindHash, ← skipSpaces_blankAt, ← hafter, skipWhitespace_skipSpaces]
      _ = skipWhitespace (blankAt lexer.position lexer) := by
          have hspace : ∀ text stop, skipBlank (' ' :: text) stop = skipBlank text (stop.advance 1) := by
            intro text stop
            simp [skipBlank, isspace]
          rw [skipWhitespace, skipWhitespace, hafter, hblank, hspace, blankAt_advance]

theorem fillFromLexer_end (h : lexer.rest = []) (budget : Nat) :
    fillFromLexer budget lexer = ([makeToken (lexer.advance 1) .eof "EOF" lexer.mark], true) := by
  have hskip : skipWhitespace lexer = lexer := by
    rw [skipWhitespace, h]
    rfl
  have hend : lexer.isEOF = true := by
    have hle : lexer.length ≤ lexer.position := List.drop_eq_nil_iff.mp h
    simp [Lexer.isEOF, hle]
  have hnext : getNextToken lexer = emit (lexer.advance 1) .eof "EOF" lexer.mark := by
    simp only [getNextToken, getNextTokenFuel, hskip, if_pos hend]
  cases budget <;>
    · rw [fillFromLexer]
      simp only [hnext]
      exact if_pos rfl

theorem fillFromLexer_null (hcur : lexer.cur = '#') (hnull : nullDirective lexer = true) (budget : Nat) :
    fillFromLexer budget (behindHash lexer) = fillFromLexer budget (blankAt lexer.position lexer) := by
  rw [← fillFromLexer_congr (getNextToken_behindHash hcur)]
  rcases null_cases hnull with hline | hend
  · have hbefore : BeforeLine lexer.position (behindHash lexer) := by
      refine skipSpaces_beforeLine ?_ (Nat.le_succ _)
      rw [rest_advance]
      exact hline
    exact (fillFromLexer_blankAt hbefore budget).symm
  · -- the text ends with the directive
    have hrest : (behindHash lexer).rest = [] := by rw [behindHash_rest, hend]
    have hblank : (blankAt lexer.position (behindHash lexer)).rest = [] := by
      refine List.drop_eq_nil_iff.mpr ?_
      have hle := List.drop_eq_nil_iff.mp hrest
      exact Nat.le_trans (Nat.le_of_eq List.length_set) hle
    rw [fillFromLexer_end hrest, fillFromLexer_end hblank, blankAt_advance, makeToken_blankAt, blankAt_mark]

/-- The directive at the start of a line keeps to its line unless the line has nothing else and the
next character that is not blank may start a name. -/
theorem handlePreprocessorDirective_lineLocal_iff (lexer : Lexer) (hcur : lexer.cur = '#')
    (hstart : atLineStart lexer = true) :
    LineLocal lexer ↔ ¬(nullDirective lexer = true ∧ wordFollows lexer = true) := by
  have hdirective := handlePreprocessorDirective_eq hstart
  constructor
  · rintro hlocal ⟨hnull, hword⟩
    rw [if_pos hword] at hdirective
    have htype := (hlocal.null hnull).1
    rw [hdirective] at htype
    exact directiveTokenType_ne_hash _ htype
  · intro hnot
    cases hword : wordFollows lexer with
    | false =>
      rw [hword] at hdirective
      have hemit : handlePreprocessorDirective lexer = emit (behindHash lexer) .hash "#" lexer.mark :=
        hdirective
      constructor
      · intro htype
        rw [hemit] at htype
        exact absurd rfl htype
      · intro hnull
        rw [hemit]
        exact ⟨rfl, fillFromLexer_null hcur hnull⟩
    | true =>
      rw [if_pos hword] at hdirective
      have hnull : ¬nullDirective lexer = true := fun h => hnot ⟨h, hword⟩
      constructor
      · intro _
        have hvalue : (handlePreprocessorDirective lexer).1.value =
            some (String.ofList (((lexer.rest.drop 1).dropWhile isspace).takeWhile isWord)) := by
          rw [hdirective]
          rfl
        refine ⟨(lexer.rest.drop 1).takeWhile isspace,
          ((lexer.rest.drop 1).dropWhile isspace).takeWhile isWord,
          ((lexer.rest.drop 1).dropWhile isspace).dropWhile isWord, ?_,
          fun hmem => hnull (null_of_newline hmem), hvalue⟩
        rw [List.append_assoc, List.takeWhile_append_dropWhile, List.takeWhile_append_dropWhile]
        exact rest_of_cur hcur (by decide)
      · exact fun h => absurd h hnull

/-- A null directive before a number. -/
theorem lineLocal_before_number : LineLocal (initLexer "#\n1\n".toList none false) :=
  (handlePreprocessorDirective_lineLocal_iff _ (by decide) (by decide)).mpr (by decide)

/-- The first word of the line behind a null directive is taken as the directive's name. -/
theorem not_lineLocal_before_word : ¬LineLocal (initLexer "#\nint x;\n".toList none false) := by
  intro h
  have htype := (h.null (by decide)).1
  revert htype
  decide

end Fisics
