import Fisics.Lexer.Laws

/-!
# What the lexer looks back at

The lexer reads its text from the position on, and looks back only to the start of the
line. `blankAt` puts a blank at one place of the text: when that place lies before the
line, every handler gives the token that it gives without the blank, and a lexer that
differs from the other in the blank alone.
-/

namespace Fisics

def blankAt (i : Nat) (lexer : Lexer) : Lexer := { lexer with source := lexer.source.set i ' ' }

structure BeforeLine (i : Nat) (lexer : Lexer) : Prop where
  position : i < lexer.position
  lineStart : i < lexer.lineStart

structure SameToken (i : Nat) (r blanked : Token × Lexer) : Prop where
  token : blanked.1 = r.1
  lexer : blanked.2 = blankAt i r.2
  before : BeforeLine i r.2

-- Moves

theorem BeforeLine.advance (h : BeforeLine i lexer) (n : Nat) : BeforeLine i (lexer.advance n) :=
  ⟨Nat.lt_of_lt_of_le h.position (Nat.le_add_right _ n), h.lineStart⟩

theorem BeforeLine.newline (h : BeforeLine i lexer) : BeforeLine i lexer.newline :=
  ⟨Nat.lt_succ_of_lt h.position, Nat.lt_succ_of_lt h.position⟩

theorem BeforeLine.skipWhile (h : BeforeLine i lexer) (p : Char → Bool) :
    BeforeLine i (lexer.skipWhile p) := h.advance _

theorem BeforeLine.reportError (h : BeforeLine i lexer) (message got : String) :
    BeforeLine i (lexer.reportError message got) := ⟨h.position, h.lineStart⟩

section
variable (i : Nat) (lexer : Lexer)

@[simp] theorem blankAt_advance (n : Nat) :
    (blankAt i lexer).advance n = blankAt i (lexer.advance n) := rfl

@[simp] theorem blankAt_reportError (message got : String) :
    (blankAt i lexer).reportError message got = blankAt i (lexer.reportError message got) := rfl

@[simp] theorem blankAt_mark : (blankAt i lexer).mark = lexer.mark := rfl

@[simp] theorem blankAt_position :
    (blankAt i lexer).position = lexer.position := rfl

@[simp] theorem blankAt_filePath :
    lexerFilePath (blankAt i lexer) = lexerFilePath lexer := rfl

@[simp] theorem blankAt_length : (blankAt i lexer).length = lexer.length :=
  List.length_set

end

theorem blankAt_drop (lexer : Lexer) (h : i < n) :
    (blankAt i lexer).source.drop n = lexer.source.drop n := by
  rw [blankAt, List.drop_set, if_pos h]

theorem BeforeLine.rest (h : BeforeLine i lexer) : (blankAt i lexer).rest = lexer.rest :=
  blankAt_drop lexer h.position

theorem BeforeLine.peek (h : BeforeLine i lexer) (k : Nat) : (blankAt i lexer).peek k = lexer.peek k := by
  have hne : i ≠ lexer.position + k := Nat.ne_of_lt (Nat.lt_of_lt_of_le h.position (Nat.le_add_right _ k))
  simp only [Lexer.peek, blankAt, List.getD_eq_getElem?_getD, List.getElem?_set_ne hne]

theorem BeforeLine.cur (h : BeforeLine i lexer) : (blankAt i lexer).cur = lexer.cur := h.peek 0

theorem BeforeLine.isEOF (h : BeforeLine i lexer) : (blankAt i lexer).isEOF = lexer.isEOF := by
  simp only [Lexer.isEOF, blankAt_length, blankAt_position, h.cur]

theorem BeforeLine.blankAt_skipWhile (h : BeforeLine i lexer) (p : Char → Bool) :
    (blankAt i lexer).skipWhile p = blankAt i (lexer.skipWhile p) := by
  simp only [Lexer.skipWhile, h.rest, blankAt_advance]

theorem blankAt_textFrom (lexer : Lexer) (h : i < start) :
    (blankAt i lexer).textFrom start = lexer.textFrom start := by
  simp only [Lexer.textFrom, blankAt_drop lexer h, blankAt_position]

theorem makeToken_blankAt (i : Nat) (lexer : Lexer) (type : TokenType) (value : String)
    (start : LexerMark) :
    makeToken (blankAt i lexer) type value start = makeToken lexer type value start := by
  simp only [makeToken, lexerMarkSourceLocation, blankAt_length]
  rfl

theorem BeforeLine.emit (h : BeforeLine i stop) (type : TokenType) (value : String) (start : LexerMark) :
    SameToken i (emit stop type value start) (emit (blankAt i stop) type value start) :=
  ⟨makeToken_blankAt i stop type value start, rfl, h⟩

theorem SameToken.ite [Decidable p] (ha : SameToken i a a') (hb : SameToken i b b') :
    SameToken i (if p then a else b) (if p then a' else b') := by
  split
  · exact ha
  · exact hb

theorem SameToken.mapToken (h : SameToken i r blanked) (f : Token → Token) :
    SameToken i (f r.1, r.2) (f blanked.1, blanked.2) :=
  ⟨congrArg f h.token, h.lexer, h.before⟩

-- Words and numbers

theorem BeforeLine.handleIdentifierOrKeyword (h : BeforeLine i lexer) :
    SameToken i (handleIdentifierOrKeyword lexer) (handleIdentifierOrKeyword (blankAt i lexer)) := by
  unfold Fisics.handleIdentifierOrKeyword
  rw [h.rest]
  exact (h.advance _).emit _ _ _

def NumberScan.blankAt (i : Nat) (scan : NumberScan) : NumberScan :=
  { scan with lexer := Fisics.blankAt i scan.lexer }

theorem BeforeLine.scanRadix (h : BeforeLine i lexer) :
    scanRadix (blankAt i lexer) = (scanRadix lexer).blankAt i ∧ BeforeLine i (scanRadix lexer).lexer := by
  have hsource : (Fisics.blankAt i lexer).source.drop lexer.position = lexer.source.drop lexer.position :=
    blankAt_drop lexer h.position
  unfold Fisics.scanRadix
  simp only [h.cur, h.peek, blankAt_advance, (h.advance 2).blankAt_skipWhile,
    ((h.advance 2).skipWhile _).blankAt_skipWhile, h.blankAt_skipWhile, blankAt_position, hsource]
  split
  · exact ⟨rfl, (h.advance 2).skipWhile _⟩
  split
  · exact ⟨rfl, ((h.advance 2).skipWhile _).skipWhile _⟩
  · exact ⟨rfl, h.skipWhile _⟩

theorem BeforeLine.scanFraction (h : BeforeLine i scan.lexer) :
    scanFraction (scan.blankAt i) = (scanFraction scan).blankAt i ∧
      BeforeLine i (scanFraction scan).lexer := by
  unfold Fisics.scanFraction
  simp only [NumberScan.blankAt, h.cur, blankAt_advance, (h.advance 1).blankAt_skipWhile, blankAt_position]
  split
  · exact ⟨rfl, (h.advance 1).skipWhile _⟩
  · exact ⟨rfl, h⟩

theorem BeforeLine.atExponent (h : BeforeLine i scan.lexer) :
    atExponent (scan.blankAt i) = atExponent scan := by
  simp only [Fisics.atExponent, NumberScan.blankAt, h.cur]

theorem BeforeLine.scanExponent (h : BeforeLine i scan.lexer) :
    scanExponent (scan.blankAt i) = ((scanExponent scan).1.blankAt i, (scanExponent scan).2) ∧
      BeforeLine i (scanExponent scan).1.lexer := by
  have hmark := h.advance 1
  have hdigits : BeforeLine i (if (scan.lexer.advance 1).cur = '+' ∨ (scan.lexer.advance 1).cur = '-'
      then (scan.lexer.advance 1).advance 1 else scan.lexer.advance 1) := by
    split
    · exact hmark.advance 1
    · exact hmark
  unfold Fisics.scanExponent
  simp only [NumberScan.blankAt, blankAt_advance, hmark.cur, ← apply_ite (Fisics.blankAt i)]
  generalize (if (scan.lexer.advance 1).cur = '+' ∨ (scan.lexer.advance 1).cur = '-'
    then (scan.lexer.advance 1).advance 1 else scan.lexer.advance 1) = digits at hdigits ⊢
  have hstop := hdigits.skipWhile Char.isDigit
  simp only [hdigits.blankAt_skipWhile, hstop.blankAt_skipWhile, blankAt_position]
  split
  · exact ⟨rfl, hstop.skipWhile _⟩
  · exact ⟨rfl, hstop⟩

theorem BeforeLine.scanSuffix (h : BeforeLine i scan.lexer) :
    scanSuffix (scan.blankAt i) = (scanSuffix scan).blankAt i ∧ BeforeLine i (scanSuffix scan).lexer := by
  refine ⟨?_, h.advance _⟩
  simp only [Fisics.scanSuffix, NumberScan.blankAt, h.rest, blankAt_advance]

theorem BeforeLine.rejectNumber (h : BeforeLine i lexer) (message : String) (hstart : i < start.position) :
    SameToken i (rejectNumber lexer message start) (rejectNumber (blankAt i lexer) message start) := by
  simp only [Fisics.rejectNumber, blankAt_textFrom lexer hstart, blankAt_reportError]
  exact (h.reportError _ _).emit _ _ _

theorem BeforeLine.finishNumber (h : BeforeLine i scan.lexer) (hstart : i < start.position) :
    SameToken i (finishNumber scan start) (finishNumber (scan.blankAt i) start) := by
  have herror : numberError (scan.blankAt i) = numberError scan := by
    simp only [numberError, NumberScan.blankAt, h.cur]
  unfold Fisics.finishNumber
  rw [herror]
  cases numberError scan with
  | none =>
    simp only [NumberScan.blankAt, blankAt_textFrom scan.lexer hstart]
    exact h.emit _ _ _
  | some message =>
    simp only [numberErrorEnd, NumberScan.blankAt, h.cur, h.blankAt_skipWhile]
    split
    · exact (h.skipWhile _).rejectNumber message hstart
    · exact h.rejectNumber message hstart

theorem BeforeLine.handleNumber (h : BeforeLine i lexer) :
    SameToken i (handleNumber lexer) (handleNumber (blankAt i lexer)) := by
  obtain ⟨hradix, hbefore⟩ := h.scanRadix
  obtain ⟨hfraction, hscan⟩ := hbefore.scanFraction
  obtain ⟨hexponent, hafter⟩ := hscan.scanExponent
  unfold Fisics.handleNumber
  simp only [hradix, hfraction, hscan.atExponent, hexponent, blankAt_mark]
  split
  · split
    · obtain ⟨hsuffix, hstop⟩ := hafter.scanSuffix
      rw [hsuffix]
      exact hstop.finishNumber h.position
    · exact hafter.rejectNumber _ h.position
  · obtain ⟨hsuffix, hstop⟩ := hscan.scanSuffix
    rw [hsuffix]
    exact hstop.finishNumber h.position

-- Literals

theorem BeforeLine.handleStringLiteral (h : BeforeLine i lexer) :
    SameToken i (handleStringLiteral lexer) (handleStringLiteral (blankAt i lexer)) := by
  have hbody := h.advance 1
  have hstop := hbody.advance (stringScan 0 (lexer.advance 1).rest).1
  unfold Fisics.handleStringLiteral
  simp only [blankAt_advance, blankAt_mark, blankAt_position, hbody.rest]
  cases (stringScan 0 (lexer.advance 1).rest).2 with
  | closed =>
    simp only [blankAt_textFrom _ hbody.position]
    exact (hstop.advance 1).emit _ _ _
  | unterminated => exact (hstop.reportError _ _).emit _ _ _
  | invalid message got value =>
    simp only [blankAt_reportError, hstop.rest]
    exact ((hstop.advance _).reportError _ _).emit _ _ _

theorem BeforeLine.handleCharLiteral (h : BeforeLine i lexer) :
    SameToken i (handleCharLiteral lexer) (handleCharLiteral (blankAt i lexer)) := by
  have hbody := h.advance 1
  have hstop := hbody.advance (charScan 0 ⟨0, 0, 0⟩ (lexer.advance 1).rest).1
  unfold Fisics.handleCharLiteral
  simp only [blankAt_advance, blankAt_mark, hbody.rest]
  cases (charScan 0 ⟨0, 0, 0⟩ (lexer.advance 1).rest).2.1 with
  | closed =>
    dsimp only
    split
    · exact (hstop.reportError _ _).emit _ _ _
    · exact hstop.emit _ _ _
  | unterminated => exact (hstop.reportError _ _).emit _ _ _
  | invalid message got value =>
    simp only [blankAt_reportError, hstop.rest]
    exact ((hstop.advance _).reportError _ _).emit _ _ _

-- Directives, comments and operators

theorem skipSpaces_blankAt (i : Nat) (text : List Char) (lexer : Lexer) :
    skipSpaces text (blankAt i lexer) = blankAt i (skipSpaces text lexer) := by
  induction text generalizing lexer with
  | nil => rfl
  | cons c text ih =>
    unfold skipSpaces
    split
    · rfl
    split
    · exact ih lexer.newline
    · exact ih (lexer.advance 1)

section
variable (h : BeforeLine i lexer)

include h

theorem BeforeLine.skipSpaces (text : List Char) :
    BeforeLine i (skipSpaces text lexer) := by
  induction text generalizing lexer with
  | nil => exact h
  | cons c text ih =>
    unfold Fisics.skipSpaces
    split
    · exact h
    split
    · exact ih h.newline
    · exact ih (h.advance 1)

theorem BeforeLine.atLineStart :
    atLineStart (blankAt i lexer) = atLineStart lexer := by
  have hdrop : (Fisics.blankAt i lexer).source.drop lexer.lineStart = lexer.source.drop lexer.lineStart :=
    blankAt_drop lexer h.lineStart
  unfold Fisics.atLineStart
  rw [← hdrop]
  rfl

theorem BeforeLine.handlePreprocessorDirective :
    SameToken i (handlePreprocessorDirective lexer) (handlePreprocessorDirective (blankAt i lexer)) := by
  have hafter := h.advance 1
  have hbefore := hafter.skipSpaces (lexer.advance 1).rest
  unfold Fisics.handlePreprocessorDirective
  simp only [h.atLineStart, blankAt_advance, blankAt_mark, hafter.cur, hafter.rest,
    skipSpaces_blankAt, hbefore.cur, blankAt_position, hbefore.blankAt_skipWhile]
  split
  · split
    · exact (hafter.advance 1).emit _ _ _
    · exact hafter.emit _ _ _
  split
  · exact hbefore.emit _ _ _
  rw [blankAt_textFrom _ hbefore.position]
  exact (hbefore.skipWhile _).emit _ _ _

theorem BeforeLine.skipBlockComment (text : List Char) :
    skipBlockComment text (blankAt i lexer) =
        (blankAt i (skipBlockComment text lexer).1, (skipBlockComment text lexer).2) ∧
      BeforeLine i (skipBlockComment text lexer).1 := by
  fun_induction Fisics.skipBlockComment text lexer with
  | case1 lexer => exact ⟨rfl, h⟩
  | case2 lexer rest => exact ⟨rfl, h.advance 2⟩
  | case3 lexer rest hnot ih =>
    rw [Fisics.skipBlockComment]
    · exact ih h.newline
    · exact hnot
  | case4 lexer c rest hnot hc ih =>
    rw [Fisics.skipBlockComment, if_neg hc]
    · exact ih (h.advance 1)
    · exact hnot

theorem BeforeLine.handleUnknownToken :
    SameToken i (handleUnknownToken lexer) (handleUnknownToken (blankAt i lexer)) := by
  have hafter := h.advance 1
  unfold Fisics.handleUnknownToken
  simp only [h.cur, blankAt_advance, blankAt_mark, blankAt_filePath, blankAt_reportError]
  exact .ite (.ite (hafter.emit _ _ _) ((hafter.reportError _ _).emit _ _ _))
    ((hafter.reportError _ _).emit _ _ _)

theorem BeforeLine.handleOperator :
    SameToken i (handleOperator lexer) (handleOperator (blankAt i lexer)) := by
  unfold Fisics.handleOperator
  rw [h.cur, h.peek, h.peek]
  cases operatorToken lexer.cur (lexer.peek 1) (lexer.peek 2) with
  | none => exact h.handleUnknownToken
  | some r => exact (h.advance _).emit _ _ _

theorem BeforeLine.handlePunctuation :
    SameToken i (handlePunctuation lexer) (handlePunctuation (blankAt i lexer)) := by
  unfold Fisics.handlePunctuation
  rw [h.cur, h.peek, h.peek]
  cases punctuationToken lexer.cur (lexer.peek 1) (lexer.peek 2) with
  | none => exact (h.advance 1).emit _ _ _
  | some r => exact (h.advance _).emit _ _ _

theorem BeforeLine.handleUnsupportedUcn :
    SameToken i (handleUnsupportedUcn lexer) (handleUnsupportedUcn (blankAt i lexer)) := by
  unfold Fisics.handleUnsupportedUcn
  simp only [h.peek, h.rest, blankAt_advance, blankAt_mark, blankAt_position,
    blankAt_textFrom _ h.position, blankAt_reportError]
  exact ((h.advance _).reportError _ _).emit _ _ _

end

/-- Two readers of the next token that the blank does not tell apart. -/
def SameNext (i : Nat) (next : Lexer → Token × Lexer) : Prop :=
  ∀ lexer, BeforeLine i lexer → SameToken i (next lexer) (next (blankAt i lexer))

theorem BeforeLine.handleComment (h : BeforeLine i lexer) (hnext : SameNext i next) :
    SameToken i (handleComment next lexer) (handleComment next (blankAt i lexer)) := by
  have hbody := h.advance 2
  obtain ⟨hcomment, hstop⟩ := hbody.skipBlockComment (lexer.advance 2).rest
  unfold Fisics.handleComment
  simp only [h.peek, blankAt_advance, blankAt_mark, hbody.rest, hbody.blankAt_skipWhile, hcomment,
    blankAt_reportError]
  split
  · exact (h.advance 1).emit _ _ _
  split
  · exact hbody.emit _ _ _
  split
  · exact hnext _ (hbody.skipWhile _)
  · split
    · split
      · exact hnext _ hstop
      · exact (hstop.reportError _ _).emit _ _ _
    · exact (h.advance 1).emit _ _ _

-- The token stream

theorem BeforeLine.dispatchToken (h : BeforeLine i lexer) (hnext : SameNext i next) :
    SameToken i (dispatchToken next lexer) (dispatchToken next (blankAt i lexer)) := by
  have hone := h.advance 1
  unfold Fisics.dispatchToken
  simp only [h.cur, h.peek, h.rest, blankAt_advance]
  refine .ite ((h.advance 2).handleStringLiteral.mapToken (prependLiteralPrefix · "U8|")) ?_
  refine .ite (hone.handleStringLiteral.mapToken (prependLiteralPrefix · "W|")) ?_
  refine .ite (hone.handleCharLiteral.mapToken (prependLiteralPrefix · "W|")) ?_
  refine .ite (.ite h.handleIdentifierOrKeyword h.handleUnsupportedUcn) ?_
  refine .ite h.handleIdentifierOrKeyword ?_
  refine .ite h.handleNumber ?_
  refine .ite h.handleNumber ?_
  refine .ite (h.handleStringLiteral.mapToken markAmbiguousNarrowStringLiteral) ?_
  refine .ite h.handleCharLiteral ?_
  refine .ite h.handlePreprocessorDirective ?_
  refine .ite (h.handleComment hnext) ?_
  refine .ite h.handleOperator ?_
  exact .ite h.handlePunctuation h.handleUnknownToken

theorem BeforeLine.skipBlank (h : BeforeLine i lexer) (text : List Char) :
    skipBlank text (blankAt i lexer) = blankAt i (skipBlank text lexer) ∧
      BeforeLine i (skipBlank text lexer) := by
  fun_induction Fisics.skipBlank text lexer with
  | case1 lexer rest ih => exact ih (h.advance 2)
  | case2 lexer rest ih => exact ih (h.advance 3)
  | case3 lexer c rest hlf hcrlf hspace =>
    rw [Fisics.skipBlank, if_pos hspace]
    · exact ⟨rfl, h⟩
    · exact hlf
    · exact hcrlf
  | case4 rest lexer hlf hcrlf hspace ih => exact ih h.newline
  | case5 lexer c rest hlf hcrlf hspace hc ih =>
    rw [Fisics.skipBlank, if_neg hspace, if_neg hc]
    · exact ih (h.advance 1)
    · exact hlf
    · exact hcrlf
  | case6 lexer => exact ⟨rfl, h⟩

theorem BeforeLine.skipWhitespace (h : BeforeLine i lexer) :
    skipWhitespace (blankAt i lexer) = blankAt i (skipWhitespace lexer) ∧
      BeforeLine i (skipWhitespace lexer) := by
  unfold Fisics.skipWhitespace
  rw [h.rest]
  exact h.skipBlank _

theorem getNextTokenFuel_blankAt (i : Nat) (fuel : Nat) : SameNext i (getNextTokenFuel fuel) := by
  induction fuel with
  | zero => exact fun lexer h => (h.advance 1).emit _ _ _
  | succ fuel ih =>
    intro lexer h
    obtain ⟨hskip, hbefore⟩ := h.skipWhitespace
    unfold getNextTokenFuel
    simp only [hskip, hbefore.isEOF, blankAt_advance, blankAt_mark]
    exact .ite ((hbefore.advance 1).emit _ _ _) (hbefore.dispatchToken ih)

theorem getNextToken_blankAt (i : Nat) : SameNext i getNextToken := by
  intro lexer h
  unfold getNextToken
  rw [blankAt_length]
  exact getNextTokenFuel_blankAt i _ lexer h

theorem fillFromLexer_blankAt (h : BeforeLine i lexer) (budget : Nat) :
    fillFromLexer budget (blankAt i lexer) = fillFromLexer budget lexer := by
  induction budget generalizing lexer with
  | zero =>
    have hnext := getNextToken_blankAt i lexer h
    simp only [fillFromLexer, hnext.token]
  | succ budget ih =>
    have hnext := getNextToken_blankAt i lexer h
    simp only [fillFromLexer, hnext.token, hnext.lexer, ih hnext.before]

end Fisics
