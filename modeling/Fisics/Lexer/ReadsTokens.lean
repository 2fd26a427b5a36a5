import Fisics.Lexer.ReadsLaws
import Mathlib.Data.List.TakeWhile

/-!
# The token stream under checked reads

Literals, directives, comments and operators, then the run: every call of
`getNextToken` reads inside the text and moves the position on, tokens do not
overlap, and the end of the text comes after one call more than it has
characters.
-/

namespace Fisics.Reads

open Option (bind_eq_bind bind_some)

-- String literals

theorem stringTailLoop_eq (h : At lexer text) (hfuel : text.length ≤ fuel) :
    stringTailLoop (fuel + 1) lexer = some (lexer.advance (stringTail false text)) := by
  induction fuel generalizing lexer text with
  | zero =>
    cases text with
    | nil => rw [stringTailLoop, h.isEOF_nil]; rfl
    | cons c rest => cases hfuel
  | succ fuel ih =>
    cases text with
    | nil => rw [stringTailLoop, h.isEOF_nil]; rfl
    | cons c rest => ?_
    have hrest := Nat.le_of_succ_le_succ hfuel
    rw [stringTailLoop, h.isEOF_cons, h.charAt_cons, stringTail]
    simp only [bind_eq_bind, bind_some, Bool.false_eq_true, if_false]
    split
    · rfl
    split
    · rfl
    split
    · rename_i hescape
      subst hescape
      cases rest with
      | nil => rw [h.advance.isEOF_nil]; rfl
      | cons e rest => ?_
      rw [h.advance.isEOF_cons, h.advance.charAt_cons]
      simp only [bind_some, Bool.false_eq_true, if_false, beq_self_eq_true, stringTail]
      split
      · rfl
      rw [ih h.advance.advance (Nat.le_of_succ_le hrest), advance_advance, advance_advance]
      congr 2
      omega
    · rename_i hescape
      rw [ih h.advance hrest, advance_advance, beq_eq_false_iff_ne.mpr hescape, Nat.add_comm]

theorem stringEscape_eq (h : At lexer (e :: rest)) (hne : e ≠ '\n') :
    stringEscape lexer e = some (lexer.advance (Fisics.stringEscape (e :: rest)).1,
      (Fisics.stringEscape (e :: rest)).2) := by
  have hafter := h.advance
  rw [Fisics.stringEscape]
  · unfold stringEscape
    dsimp only
    split
    · rfl
    split
    · rw [readWhile_eq (by decide) hafter]
      by_cases hempty : rest.takeWhile isxdigit = []
      all_goals simp [hempty]
    split
    · rw [readAtMost_eq (by decide) hafter]
      simp only [bind_eq_bind, bind_some, advance_advance]
      rfl
    · split
      · rw [readAtMost_eq (by decide) hafter]
        simp only [bind_eq_bind, bind_some, advance_advance]
        rfl
      · split
        · rw [readAtMost_eq (by decide) hafter]
          simp only [bind_eq_bind, bind_some, advance_advance]
        · rfl
  · exact hne

theorem stringEscape_le (text : List Char) : (Fisics.stringEscape text).1 ≤ text.length := by
  have hmany : ∀ (p : Char → Bool) (n : Nat) (xs : List Char),
      ((xs.take n).takeWhile p).length ≤ xs.length :=
    fun p n xs => Nat.le_trans (List.takeWhile_prefix p).length_le (List.length_take_le' n xs)
  have hrun : ∀ n (xs : List Char), hexRun n xs ≤ xs.length := hmany isxdigit
  unfold Fisics.stringEscape
  split
  · exact Nat.zero_le _
  · exact Nat.zero_le _
  rename_i e rest _
  have hwhile : (rest.takeWhile isxdigit).length ≤ rest.length :=
    (List.takeWhile_prefix isxdigit).length_le
  have h₄ := hrun 4 rest
  have h₈ := hrun 8 rest
  have hoctal := hmany isOctalDigit 2 rest
  dsimp only
  split
  · simp
  split
  · split
    · simp
    · simp only [List.length_cons]; omega
  split
  · simp only [List.length_cons]; omega
  · split
    · simp only [List.length_cons]; omega
    · split
      · simp only [List.length_cons]; omega
      · simp

theorem stringScan_skip (h : n ≤ text.length) :
    stringScan n text = ((stringScan 0 (text.drop n)).1 + n, (stringScan 0 (text.drop n)).2) := by
  induction n generalizing text with
  | zero => rfl
  | succ n ih =>
    cases text with
    | nil => cases h
    | cons c rest =>
      rw [stringScan, ih (Nat.le_of_succ_le_succ h), List.drop_succ_cons]
      rfl

theorem stringScan_le (skip : Nat) (text : List Char) : (stringScan skip text).1 ≤ text.length := by
  induction text generalizing skip with
  | nil => cases skip <;> exact Nat.le_refl 0
  | cons c rest ih =>
    cases skip with
    | succ skip => exact Nat.succ_le_succ (ih skip)
    | zero => ?_
    have hescape := stringEscape_le rest
    unfold stringScan
    split
    · exact Nat.zero_le _
    split
    · exact Nat.zero_le _
    split
    · split
      · rename_i heq
        rw [heq] at hescape
        simp only [List.length_cons]
        omega
      · exact Nat.succ_le_succ (ih _)
    · exact Nat.succ_le_succ (ih 0)

theorem stringLoop_eq (h : At lexer text) (hfuel : text.length ≤ fuel) :
    stringLoop (fuel + 1) lexer = some (lexer.advance (stringScan 0 text).1, (stringScan 0 text).2) := by
  induction fuel generalizing lexer text with
  | zero =>
    cases text with
    | nil => rw [stringLoop, h.charAt_nil]; rfl
    | cons c rest => cases hfuel
  | succ fuel ih =>
    cases text with
    | nil => rw [stringLoop, h.charAt_nil]; rfl
    | cons c rest => ?_
    have hrest := Nat.le_of_succ_le_succ hfuel
    rw [stringLoop, h.charAt_cons, stringScan]
    simp only [bind_eq_bind, bind_some, h.ne, false_or]
    split
    · rfl
    split
    · rfl
    split
    · cases rest with
      | nil =>
        rw [h.advance.charAt_nil]
        rfl
      | cons e rest => ?_
      rw [h.advance.charAt_cons]
      simp only [bind_some, h.advance.ne, false_or]
      split
      · rename_i hnewline
        subst hnewline
        rfl
      rename_i hnewline
      have hle := stringEscape_le (e :: rest)
      rw [stringEscape_eq h.advance hnewline]
      generalize Fisics.stringEscape (e :: rest) = r at hle
      obtain ⟨taken, ending⟩ := r
      cases ending with
      | some ending => simp
      | none => ?_
      simp only [bind_some]
      rw [ih (h.advance.drop hle) (by rw [List.length_drop]; omega), stringScan_skip hle]
      simp only [advance_advance]
      congr 3
      omega
    · rw [ih h.advance hrest, advance_advance, Nat.add_comm]

theorem handleStringLiteral_spans (h : At lexer (c :: rest)) :
    Spans lexer (handleStringLiteral lexer) (Fisics.handleStringLiteral lexer) := by
  have hbody := h.advance
  have hstop := hbody.forward_advance (stringScan_le 0 rest)
  have hlength := h.length
  simp only [List.length_cons] at hlength
  have hloop := stringLoop_eq hbody (show rest.length ≤ lexer.length by omega)
  have hread := readText_forward hbody hstop
  have hlt : ∀ n, lexer.position < ((lexer.advance 1).advance n).position := by
    intro n
    simp only [advance_position]
    omega
  unfold handleStringLiteral Fisics.handleStringLiteral
  simp only [hbody.ahead]
  rw [hloop]
  simp only [bind_eq_bind, bind_some]
  cases (stringScan 0 rest).2 with
  | closed =>
    simp only [hread, bind_some]
    exact emit_spans (Nat.lt_of_lt_of_le (hlt _) (Nat.le_add_right _ 1)) rfl
  | unterminated => exact emit_spans (hlt _) rfl
  | invalid message got value =>
    obtain ⟨more, hmore⟩ := hstop.inside
    have htail := stringTailLoop_eq hmore (show more.length ≤ lexer.length from hmore.fuel)
    simp only [htail, bind_some, hmore.ahead]
    exact emit_spans (Nat.lt_of_lt_of_le (hlt _) (Nat.le_add_right _ _)) rfl

-- Character literals

theorem charTailLoop_eq (h : At lexer text) (hfuel : text.length ≤ fuel) :
    charTailLoop (fuel + 1) lexer = some (lexer.advance (charTail text)) := by
  induction text generalizing lexer fuel with
  | nil => rw [charTailLoop, h.isEOF_nil]; rfl
  | cons c rest ih =>
    cases fuel with
    | zero => cases hfuel
    | succ fuel => ?_
    rw [charTailLoop, h.isEOF_cons, h.charAt_cons, charTail]
    simp only [bind_eq_bind, bind_some, Bool.false_eq_true, if_false]
    split
    · rfl
    split
    · rfl
    · rw [ih h.advance (Nat.le_of_succ_le_succ hfuel), advance_advance, Nat.add_comm]

theorem isEOF_beyond (h : lexer.length < lexer.position) : isEOF lexer = some true := by
  rw [isEOF, if_pos (Nat.le_of_lt h)]

theorem takeWhile_take_length (p : Char → Bool) (text : List Char) :
    (text.take (text.takeWhile p).length).takeWhile p = text.takeWhile p := by
  rw [take_length_takeWhile, List.takeWhile_idem]

theorem charEscape_eq (h : At lexer (e :: rest)) :
    charEscape lexer e = some (lexer.advance (Fisics.charEscape (e :: rest)).1,
      (Fisics.charEscape (e :: rest)).2) := by
  have hafter := h.advance
  rw [Fisics.charEscape]
  unfold charEscape
  dsimp only
  split
  · rfl
  iterate 2
    split
    · rw [readAtMost_eq (by decide) hafter]
      simp only [bind_eq_bind, bind_some, advance_advance]
      rfl
  · split
    · rw [readWhile_eq (by decide) hafter]
      simp only [bind_eq_bind, bind_some, advance_advance, hexRunValue,
        takeWhile_take_length, List.isEmpty_iff, List.length_eq_zero_iff]
      rfl
    · split
      · rw [readAtMost_eq (by decide) hafter]
        simp only [bind_eq_bind, bind_some, advance_advance]
      · simp [h.ne]

theorem charEscape_nil (lexer : Lexer) :
    charEscape lexer '\x00' = some (lexer.advance (Fisics.charEscape []).1, (Fisics.charEscape []).2) := rfl

theorem charScan_skip (h : n ≤ text.length) (v : CharValue) :
    charScan n v text = ((charScan 0 v (text.drop n)).1 + n, (charScan 0 v (text.drop n)).2) := by
  induction n generalizing text with
  | zero => rfl
  | succ n ih =>
    cases text with
    | nil => cases h
    | cons c rest =>
      rw [charScan, ih (Nat.le_of_succ_le_succ h), List.drop_succ_cons]
      rfl

theorem charEscape_le (h : Fisics.charEscape text = (taken, .ok val)) : taken ≤ text.length := by
  have hmany : ∀ (p : Char → Bool) (n : Nat) (xs : List Char),
      ((xs.take n).takeWhile p).length ≤ xs.length :=
    fun p n xs => Nat.le_trans (List.takeWhile_prefix p).length_le (List.length_take_le' n xs)
  unfold Fisics.charEscape at h
  split at h
  · cases h
  rename_i e rest
  have hwhile : (rest.takeWhile isxdigit).length ≤ rest.length :=
    (List.takeWhile_prefix isxdigit).length_le
  have h₄ : hexRun 4 rest ≤ rest.length := hmany isxdigit 4 rest
  have h₈ : hexRun 8 rest ≤ rest.length := hmany isxdigit 8 rest
  have hoctal := hmany isOctalDigit 2 rest
  rw [List.length_cons]
  split at h
  · cases h; omega
  iterate 2
    split at h
    · have htaken := (Prod.mk.inj h).1
      omega
  · split at h
    · have htaken := (Prod.mk.inj h).1
      omega
    · split at h
      · have htaken := (Prod.mk.inj h).1
        omega
      · cases h

theorem charLoop_eq (h : At lexer text) (hfuel : text.length ≤ fuel) (v : CharValue) :
    charLoop (fuel + 1) v lexer = some (lexer.advance (charScan 0 v text).1, (charScan 0 v text).2) := by
  induction fuel generalizing lexer text v with
  | zero =>
    cases text with
    | nil => rw [charLoop, h.charAt_nil]; rfl
    | cons c rest => cases hfuel
  | succ fuel ih =>
    cases text with
    | nil => rw [charLoop, h.charAt_nil]; rfl
    | cons c rest => ?_
    have hrest := Nat.le_of_succ_le_succ hfuel
    have hescape : ∀ e, charAt (lexer.advance 1) 0 = some e → charEscape (lexer.advance 1) e =
        some ((lexer.advance 1).advance (Fisics.charEscape rest).1, (Fisics.charEscape rest).2) := by
      intro e he
      cases rest with
      | nil =>
        cases h.advance.charAt_nil.symm.trans he
        exact charEscape_nil _
      | cons d rest =>
        cases h.advance.charAt_cons.symm.trans he
        exact charEscape_eq h.advance
    obtain ⟨e, he⟩ : ∃ e, charAt (lexer.advance 1) 0 = some e := ⟨_, h.advance.charAt_cur⟩
    rw [charLoop, h.charAt_cons, charScan]
    simp only [bind_eq_bind, bind_some, h.ne, false_or, he, hescape e he]
    split
    · rfl
    split
    · rfl
    split
    · cases htaken : Fisics.charEscape rest with
      | mk taken result =>
        cases result with
        | error ending => simp only [advance_advance]
        | ok val => ?_
        have hle := charEscape_le htaken
        dsimp only
        rw [ih (h.advance.drop hle) (by rw [List.length_drop]; omega), charScan_skip hle]
        simp only [advance_advance]
        congr 3
        omega
    · rw [ih h.advance hrest, advance_advance, Nat.add_comm]

/-- The scan behind an error, which may stand behind the terminator. -/
theorem charTail_eq (stop : Lexer) (hnul : '\x00' ∉ stop.source) :
    charTailLoop (stop.length + 1) stop = some (stop.advance (charTail stop.rest)) := by
  by_cases hinside : stop.position ≤ stop.length
  · have hat : At stop stop.rest := ⟨rfl, hinside, hnul⟩
    exact charTailLoop_eq hat hat.fuel
  have hrest : stop.rest = [] := List.drop_eq_nil_of_le (Nat.le_of_not_le hinside)
  rw [charTailLoop, isEOF_beyond (Nat.lt_of_not_le hinside), hrest]
  rfl

theorem handleCharLiteral_spans (h : At lexer (c :: rest)) :
    Spans lexer (handleCharLiteral lexer) (Fisics.handleCharLiteral lexer) := by
  have hbody := h.advance
  have hlength := h.length
  simp only [List.length_cons] at hlength
  have hloop := charLoop_eq hbody (show rest.length ≤ lexer.length by omega) ⟨0, 0, 0⟩
  have hlt : ∀ n, lexer.position < ((lexer.advance 1).advance n).position := by
    intro n
    simp only [advance_position]
    omega
  unfold handleCharLiteral Fisics.handleCharLiteral
  simp only [hbody.ahead]
  rw [hloop]
  simp only [bind_eq_bind, bind_some]
  cases (charScan 0 ⟨0, 0, 0⟩ rest).2.1 with
  | closed =>
    dsimp only
    split
    all_goals exact emit_spans (hlt _) rfl
  | unterminated => exact emit_spans (hlt _) rfl
  | invalid message got value =>
    have htail := charTail_eq ((lexer.advance 1).advance (charScan 0 ⟨0, 0, 0⟩ rest).1) h.noNul
    simp only [advance_length] at htail
    simp only [htail, bind_some]
    exact emit_spans (Nat.lt_of_lt_of_le (hlt _) (Nat.le_add_right _ _)) rfl

-- Directives

theorem blanksAt_eq (lexer : Lexer) (count i : Nat) (h : i + count ≤ lexer.length) :
    blanksAt lexer count i =
      some (((lexer.source.drop i).take count).all fun c => c == ' ' || c == '\t' || c == '\r') := by
  induction count generalizing i with
  | zero => simp [blanksAt]
  | succ count ih =>
    have hlt : i < lexer.source.length := by
      simp only [Lexer.length] at h
      omega
    have hread : sourceAt lexer i = some lexer.source[i] := by
      rw [sourceAt, List.getElem?_append_left hlt, List.getElem?_eq_getElem hlt]
    rw [blanksAt, hread, List.drop_eq_getElem_cons hlt, List.take_succ_cons, List.all_cons]
    simp only [bind_eq_bind, bind_some, ih (i + 1) (by omega)]
    cases (lexer.source[i] == ' ' || lexer.source[i] == '\t' || lexer.source[i] == '\r') <;> rfl

theorem atLineStart_eq (h : At lexer text) :
    blanksAt lexer (lexer.position - lexer.lineStart) lexer.lineStart = some (atLineStart lexer) := by
  have hinside := h.inside
  by_cases hle : lexer.lineStart ≤ lexer.position
  · exact blanksAt_eq lexer _ _ (by omega)
  have hnone : lexer.position - lexer.lineStart = 0 := by omega
  rw [atLineStart, hnone, List.take_zero]
  rfl

theorem skipSpacesLoop_eq (h : At lexer text) (hfuel : text.length ≤ fuel) :
    skipSpacesLoop (fuel + 1) lexer = some (skipSpaces text lexer) := by
  induction text generalizing lexer fuel with
  | nil => rw [skipSpacesLoop, h.charAt_nil]; rfl
  | cons c rest ih =>
    cases fuel with
    | zero => cases hfuel
    | succ fuel => ?_
    have hrest := Nat.le_of_succ_le_succ hfuel
    rw [skipSpacesLoop, h.charAt_cons, skipSpaces]
    simp only [bind_eq_bind, bind_some]
    split
    · rfl
    split
    · exact ih h.newline hrest
    · exact ih h.advance hrest

theorem skipSpaces_onward (h : At lexer text) : Forward lexer (skipSpaces text lexer) := by
  induction text generalizing lexer with
  | nil => exact h.forward
  | cons c rest ih =>
    unfold skipSpaces
    split
    · exact h.forward
    split
    · exact h.forward_newline.trans (ih h.newline)
    · exact (h.forward_advance (by simp)).trans (ih h.advance)

theorem handlePreprocessorDirective_spans (h : At lexer (c :: rest)) :
    Spans lexer (handlePreprocessorDirective lexer) (Fisics.handlePreprocessorDirective lexer) := by
  have hafter := h.advance
  have hlength := h.length
  simp only [List.length_cons] at hlength
  have hforward : Forward lexer (lexer.advance 1) := h.forward_advance (by simp)
  have hlt : ∀ stop, Forward (lexer.advance 1) stop → lexer.position < stop.position :=
    fun stop hstop => Nat.lt_of_succ_le hstop.le
  have hspaces := skipSpaces_onward hafter
  obtain ⟨more, hname⟩ := hspaces.inside
  have hskip := skipSpacesLoop_eq hafter (show rest.length ≤ lexer.length by omega)
  unfold handlePreprocessorDirective Fisics.handlePreprocessorDirective
  simp only [atLineStart_eq h, bind_eq_bind, bind_some, hafter.charAt_cur, hafter.ahead]
  split
  · split
    · exact emit_spans (Nat.lt_of_lt_of_le (Nat.lt_succ_self _) (Nat.le_add_right _ 1)) rfl
    · exact emit_spans (Nat.lt_succ_self _) rfl
  rw [hskip, bind_some]
  simp only [hname.charAt_cur, bind_some]
  split
  · exact emit_spans (hlt _ hspaces) (hforward.trans hspaces).source
  have hword := hname.forward_skipWhile isWord
  have hread := readText_forward hname hword
  rw [readWhile_skip hname (by decide)]
  simp only [bind_some, hread]
  exact emit_spans (hlt _ (hspaces.trans hword)) (hforward.trans (hspaces.trans hword)).source

-- Comments

theorem Spans.of_forward (hstop : Forward lexer stop) (h : Spans stop r t) : Spans lexer r t := by
  obtain ⟨start, hr, hstart, hlt, hsource⟩ := h
  exact ⟨start, hr, Nat.le_trans hstop.le hstart, hlt, hsource.trans hstop.source⟩

theorem blockCommentLoop_cons (h : At lexer (c :: rest)) (fuel : Nat)
    (hclose : ∀ rest', c = '*' → rest = '/' :: rest' → False) :
    blockCommentLoop (fuel + 1) lexer =
      if c = '\n' then blockCommentLoop fuel lexer.newline
      else blockCommentLoop fuel (lexer.advance 1) := by
  have hsecond : ∃ d, (if c = '*' then charAt lexer 1 else some '\x00') = some d ∧
      ¬(c = '*' ∧ d = '/') := by
    split
    · cases rest with
      | nil => exact ⟨'\x00', h.charAt 1, by simp⟩
      | cons d rest =>
        refine ⟨d, h.charAt 1, ?_⟩
        rintro ⟨hstar, rfl⟩
        exact hclose rest hstar rfl
    · rename_i hstar
      exact ⟨'\x00', rfl, fun hand => hstar hand.1⟩
  obtain ⟨d, hd, hnot⟩ := hsecond
  rw [blockCommentLoop, h.charAt_cons]
  simp only [bind_eq_bind, bind_some, hd, if_neg hnot, if_neg h.ne]

theorem blockCommentLoop_eq (h : At lexer text) (hfuel : text.length ≤ fuel) :
    blockCommentLoop (fuel + 1) lexer = some (skipBlockComment text lexer) := by
  fun_induction skipBlockComment text lexer generalizing fuel with
  | case1 lexer => rw [blockCommentLoop, h.charAt_nil]; rfl
  | case2 rest lexer =>
    have hsecond : charAt lexer 1 = some '/' := h.charAt 1
    rw [blockCommentLoop, h.charAt_cons]
    simp [hsecond]
  | case3 rest lexer hclose ih =>
    cases fuel with
    | zero => cases hfuel
    | succ fuel =>
      rw [blockCommentLoop_cons h _ hclose, if_pos rfl]
      exact ih h.newline (Nat.le_of_succ_le_succ hfuel)
  | case4 c rest lexer hclose hnewline ih =>
    cases fuel with
    | zero => cases hfuel
    | succ fuel =>
      rw [blockCommentLoop_cons h _ hclose, if_neg hnewline]
      exact ih h.advance (Nat.le_of_succ_le_succ hfuel)

theorem skipBlockComment_forward (h : At lexer text) : Forward lexer (skipBlockComment text lexer).1 := by
  fun_induction skipBlockComment text lexer with
  | case1 => exact h.forward
  | case2 => exact h.forward_advance (by simp)
  | case3 rest lexer _ ih => exact h.forward_newline.trans (ih h.newline)
  | case4 c rest lexer _ _ ih => exact (h.forward_advance (by simp)).trans (ih h.advance)

theorem handleComment_spans
    (h : At lexer (c :: rest))
    (hnext : ∀ stop, Forward (lexer.advance 1) stop → Spans stop (next stop) (next' stop)) :
    Spans lexer (handleComment next lexer) (Fisics.handleComment next' lexer) := by
  have hlength := h.length
  have hpeek : charAt lexer 1 = some (lexer.peek 1) := h.charAt_peek (by simp)
  have hone : Forward lexer (lexer.advance 1) := h.forward_advance (by simp)
  have htwo : lexer.peek 1 ≠ '\x00' → Forward (lexer.advance 1) (lexer.advance 2) := by
    intro hne
    have hlt := h.lt_of_peek hne
    exact h.advance.forward_advance (Nat.lt_of_succ_lt_succ hlt)
  have hread : ∀ stop, Forward (lexer.advance 1) stop → Spans lexer (next stop) (next' stop) :=
    fun stop hstop => .of_forward (hone.trans hstop) (hnext stop hstop)
  unfold handleComment Fisics.handleComment
  simp only [h.charAt_cons, bind_eq_bind, bind_some, if_neg h.ne, hpeek]
  split
  · exact emit_spans (Nat.lt_succ_self _) rfl
  rename_i hnul
  have hbehind := htwo hnul
  obtain ⟨more, hat⟩ := hbehind.inside
  split
  · exact emit_spans (Nat.lt_add_of_pos_right (by decide)) rfl
  split
  · rw [readWhile_skip hat (by decide)]
    exact hread _ (hbehind.trans (hat.forward_skipWhile _))
  split
  · have hblock := skipBlockComment_forward hat
    have hfuel : more.length ≤ lexer.length := hat.fuel
    rw [blockCommentLoop_eq hat hfuel, hat.ahead]
    simp only [bind_some]
    split
    · exact hread _ (hbehind.trans hblock)
    exact emit_spans (Nat.lt_of_succ_le (hbehind.trans hblock).le)
      (hone.trans (hbehind.trans hblock)).source
  · exact emit_spans (Nat.lt_succ_self _) rfl

-- Operators and punctuation

theorem handleUnknownToken_spans (h : At lexer text) :
    Spans lexer (handleUnknownToken lexer) (Fisics.handleUnknownToken lexer) := by
  unfold handleUnknownToken Fisics.handleUnknownToken
  simp only [h.charAt_cur, bind_eq_bind, bind_some]
  split
  · split
    all_goals exact emit_spans (Nat.lt_succ_self _) rfl
  · exact emit_spans (Nat.lt_succ_self _) rfl

theorem operatorToken_pos (h : operatorToken c d e = some (type, text)) : 0 < text.length := by
  unfold operatorToken at h
  repeat' split at h
  all_goals
    cases h
    try decide

/-- The second character counts behind `~` nowhere, and the third only behind a
repeated `<` or `>`. -/
theorem operatorToken_congr (hd : c ≠ '~' → d' = d) (he : c = '<' ∨ c = '>' → d = c → e' = e) :
    operatorToken c d' e' = operatorToken c d e := by
  by_cases htilde : c = '~'
  · subst htilde
    rfl
  rw [hd htilde]
  by_cases hshift : (c = '<' ∨ c = '>') ∧ d = c
  · rw [he hshift.1 hshift.2]
  unfold operatorToken
  split
  any_goals rfl
  · rw [if_neg fun h => hshift ⟨.inl rfl, h⟩, if_neg fun h => hshift ⟨.inl rfl, h⟩]
  · rw [if_neg fun h => hshift ⟨.inr rfl, h⟩, if_neg fun h => hshift ⟨.inr rfl, h⟩]

theorem handleOperator_spans (h : At lexer (c :: rest)) :
    Spans lexer (handleOperator lexer) (Fisics.handleOperator lexer) := by
  have hpeek : charAt lexer 1 = some (lexer.peek 1) := h.charAt_peek (by simp)
  obtain ⟨d, hd, hdeq⟩ : ∃ d, (if c = '~' then some '\x00' else charAt lexer 1) = some d ∧
      (c ≠ '~' → d = lexer.peek 1) := by
    split
    · rename_i htilde
      exact ⟨_, rfl, fun hne => absurd htilde hne⟩
    · exact ⟨_, hpeek, fun _ => rfl⟩
  obtain ⟨e, he, heeq⟩ : ∃ e, (if (c = '<' ∨ c = '>') ∧ d = c then charAt lexer 2 else some '\x00') =
      some e ∧ (c = '<' ∨ c = '>' → lexer.peek 1 = c → e = lexer.peek 2) := by
    split
    · rename_i hshift
      have hne : c ≠ '~' := by
        rintro rfl
        simp at hshift
      have hlt : 1 < (c :: rest).length := h.lt_of_peek (by
        rw [← hdeq hne, hshift.2]
        exact h.ne)
      exact ⟨_, h.charAt_peek hlt, fun _ _ => rfl⟩
    · rename_i hshift
      refine ⟨_, rfl, fun hc hsame => absurd ⟨hc, ?_⟩ hshift⟩
      rw [hdeq (by rintro rfl; simp at hc), hsame]
  unfold handleOperator Fisics.handleOperator
  simp only [h.charAt_cons, bind_eq_bind, bind_some, hd, he,
    operatorToken_congr hdeq heeq, h.cur_cons]
  cases htoken : operatorToken c (lexer.peek 1) (lexer.peek 2) with
  | none => exact handleUnknownToken_spans h
  | some token => exact emit_spans (Nat.lt_add_of_pos_right (operatorToken_pos htoken)) rfl

theorem punctuationToken_pos (h : punctuationToken c d e = some (type, text)) : 0 < text.length := by
  unfold punctuationToken at h
  repeat' split at h
  all_goals
    cases h
    try decide

/-- Only behind a point the characters that follow count. -/
theorem punctuationToken_congr (hd : c = '.' → d' = d) (he : c = '.' → d = '.' → e' = e) :
    punctuationToken c d' e' = punctuationToken c d e := by
  by_cases hdot : c = '.'
  · rw [hd hdot]
    by_cases hsecond : d = '.'
    · rw [he hdot hsecond]
    simp [punctuationToken, hsecond]
  · unfold punctuationToken
    split
    any_goals rfl
    exact absurd rfl hdot

theorem handlePunctuation_spans (h : At lexer (c :: rest)) :
    Spans lexer (handlePunctuation lexer) (Fisics.handlePunctuation lexer) := by
  have hpeek : charAt lexer 1 = some (lexer.peek 1) := h.charAt_peek (by simp)
  obtain ⟨d, hd, hdeq⟩ : ∃ d, (if c = '.' then charAt lexer 1 else some '\x00') = some d ∧
      (c = '.' → d = lexer.peek 1) := by
    split
    · exact ⟨_, hpeek, fun _ => rfl⟩
    rename_i hdot
    exact ⟨_, rfl, fun h => absurd h hdot⟩
  obtain ⟨e, he, heeq⟩ : ∃ e, (if c = '.' ∧ d = '.' then charAt lexer 2 else some '\x00') =
      some e ∧ (c = '.' → lexer.peek 1 = '.' → e = lexer.peek 2) := by
    split
    · rename_i hdots
      have hlt : 1 < (c :: rest).length := h.lt_of_peek (by
        rw [← hdeq hdots.1, hdots.2]
        decide)
      exact ⟨_, h.charAt_peek hlt, fun _ _ => rfl⟩
    · rename_i hdots
      exact ⟨_, rfl, fun hc hsecond => absurd ⟨hc, (hdeq hc).trans hsecond⟩ hdots⟩
  unfold handlePunctuation Fisics.handlePunctuation
  simp only [h.charAt_cons, bind_eq_bind, bind_some, hd, he,
    punctuationToken_congr hdeq heeq, h.cur_cons]
  cases htoken : punctuationToken c (lexer.peek 1) (lexer.peek 2) with
  | none => exact emit_spans (Nat.lt_succ_self _) rfl
  | some token => exact emit_spans (Nat.lt_add_of_pos_right (punctuationToken_pos htoken)) rfl

-- The dispatch

theorem handleUnsupportedUcn_spans (h : At lexer text) (hpeek : lexer.peek 1 ≠ '\x00') :
    Spans lexer (handleUnsupportedUcn (lexer.peek 1) lexer) (Fisics.handleUnsupportedUcn lexer) := by
  have hlt := h.lt_of_peek hpeek
  have hdigits := h.drop (Nat.succ_le_of_lt hlt)
  have htaken : ∀ n, ((text.drop 2).take n |>.takeWhile isxdigit).length ≤ (text.drop 2).length :=
    fun n => Nat.le_trans (List.takeWhile_prefix _).length_le (List.length_take_le' n _)
  have hstop := fun n => (h.forward_advance (Nat.succ_le_of_lt hlt)).trans
    (hdigits.forward_advance (htaken n))
  have hread := fun n => readText_forward h (hstop n)
  unfold handleUnsupportedUcn Fisics.handleUnsupportedUcn
  rw [readAtMost_eq (by decide) hdigits]
  simp only [bind_eq_bind, bind_some, hread, h.ahead, hexRun]
  rw [advance_advance]
  exact emit_spans (Nat.lt_add_of_pos_right (by omega)) rfl

theorem Spans.retag (h : Spans lexer r t) (f : Token → Token) :
    Spans lexer (r.map (Reads.retag f)) (f t.1, t.2) := by
  obtain ⟨start, rfl, hstart, hlt, hsource⟩ := h
  exact ⟨start, rfl, hstart, hlt, hsource⟩

theorem Spans.ite [Decidable p] (ha : p → Spans lexer a t) (hb : ¬p → Spans lexer b t') :
    Spans lexer (if p then a else b) (if p then t else t') := by
  by_cases hp : p
  · rw [if_pos hp, if_pos hp]
    exact ha hp
  · rw [if_neg hp, if_neg hp]
    exact hb hp

theorem identifierLength_pos (h : isWord c = true ∨ 0 < Fisics.lexerIdentifierUcnLength (c :: rest) ∨
    0 < Fisics.lexerIdentifierUtf8Length (c :: rest)) : 0 < identifierLength 0 (c :: rest) := by
  rw [identifierLength]
  dsimp only
  split
  · exact Nat.succ_pos _
  rename_i hword
  split
  · exact Nat.succ_pos _
  rename_i hucn
  rw [if_pos ((h.resolve_left hword).resolve_left hucn)]
  exact Nat.succ_pos _

theorem isWord_of_isAlpha (h : c.isAlpha = true ∨ c = '_') : isWord c = true := by
  rcases h with h | rfl
  · simp [isWord, Char.isAlphanum, h]
  · rfl

theorem At.guardedAt_peek (h : At lexer text) (k : Nat) :
    Reads.guardedAt lexer k = some (lexer.peek k) := by
  rw [h.guardedAt, h.peek]

theorem At.cons_of_peek (h : At lexer text) (hpeek : lexer.peek k = c) (hne : c ≠ '\x00') :
    ∃ rest, At (lexer.advance k) (c :: rest) ∧ Forward lexer (lexer.advance k) := by
  have hlt := h.lt_of_peek (hpeek ▸ hne)
  have hdrop := h.drop (Nat.le_of_lt hlt)
  rw [List.drop_eq_getElem_cons hlt] at hdrop
  refine ⟨text.drop (k + 1), ?_, h.forward_advance (Nat.le_of_lt hlt)⟩
  rw [h.peek, List.getD_eq_getElem?_getD, List.getElem?_eq_getElem hlt, Option.getD_some] at hpeek
  rwa [hpeek] at hdrop

theorem dispatchToken_spans
    (h : At lexer (c :: rest))
    (hnext : ∀ stop, Forward (lexer.advance 1) stop → Spans stop (next stop) (next' stop)) :
    Spans lexer (dispatchToken next lexer) (Fisics.dispatchToken next' lexer) := by
  have hprefixed : ∀ k quote, lexer.peek k = quote → quote ≠ '\x00' →
      Spans lexer (handleStringLiteral (lexer.advance k)) (Fisics.handleStringLiteral (lexer.advance k)) ∧
      Spans lexer (handleCharLiteral (lexer.advance k)) (Fisics.handleCharLiteral (lexer.advance k)) := by
    intro k quote hquote hne
    obtain ⟨more, hat, hforward⟩ := h.cons_of_peek hquote hne
    exact ⟨.of_forward hforward (handleStringLiteral_spans hat),
      .of_forward hforward (handleCharLiteral_spans hat)⟩
  have hutf8 : (if lexer.cur.isAlpha ∨ lexer.cur = '_' then some 0
      else lexerIdentifierUtf8Length lexer) =
      some (if lexer.cur.isAlpha ∨ lexer.cur = '_' then 0
        else Fisics.lexerIdentifierUtf8Length (c :: rest)) := by
    rw [lexerIdentifierUtf8Length_eq h, apply_ite some]
  -- whether the bytes are decoded for a letter makes no difference
  have hdecoded : (lexer.cur.isAlpha ∨ lexer.cur = '_' ∨
      0 < if lexer.cur.isAlpha ∨ lexer.cur = '_' then 0
        else Fisics.lexerIdentifierUtf8Length (c :: rest)) ↔
      (lexer.cur.isAlpha ∨ lexer.cur = '_' ∨ 0 < Fisics.lexerIdentifierUtf8Length (c :: rest)) := by
    rw [← or_assoc, ← or_assoc]
    refine or_congr_right' fun hletter => ?_
    rw [if_neg hletter]
  have hcur := h.cur_cons
  unfold dispatchToken Fisics.dispatchToken
  simp only [h.charAt_cur, h.guardedAt_peek, lexerIdentifierUcnLength_eq h, bind_eq_bind,
    bind_some, hutf8, h.ahead, hdecoded]
  refine .ite (fun hc => (hprefixed 2 _ hc.2.2 (by decide)).1.retag _) fun _ => ?_
  refine .ite (fun hc => (hprefixed 1 _ hc.2 (by decide)).1.retag _) fun _ => ?_
  refine .ite (fun hc => (hprefixed 1 _ hc.2 (by decide)).2.retag _) fun _ => ?_
  refine .ite (fun hc => ?_) fun _ => ?_
  · refine .ite (fun hucn => handleIdentifierOrKeyword_spans h (identifierLength_pos (.inr (.inl hucn))))
      fun _ => handleUnsupportedUcn_spans h ?_
    rcases hc.2 with hn | hn <;> rw [hn] <;> decide
  refine .ite (fun hc => handleIdentifierOrKeyword_spans h (identifierLength_pos ?_)) fun _ => ?_
  · rw [← or_assoc, hcur] at hc
    exact hc.imp isWord_of_isAlpha .inr
  refine .ite (fun hc => handleNumber_spans h (.inl (hcur ▸ hc))) fun _ => ?_
  refine .ite (fun hc => handleNumber_spans h (.inr (hcur ▸ hc.1))) fun _ => ?_
  refine .ite (fun _ => (handleStringLiteral_spans h).retag _) fun _ => ?_
  refine .ite (fun _ => handleCharLiteral_spans h) fun _ => ?_
  refine .ite (fun _ => handlePreprocessorDirective_spans h) fun _ => ?_
  refine .ite (fun _ => handleComment_spans h hnext) fun _ => ?_
  refine .ite (fun _ => handleOperator_spans h) fun _ => ?_
  exact .ite (fun _ => handlePunctuation_spans h) fun _ => handleUnknownToken_spans h

-- The run

theorem skipWhitespace_beyond (h : lexer.length < lexer.position) :
    skipWhitespace lexer = some lexer ∧ Fisics.skipWhitespace lexer = lexer := by
  have hrest : lexer.rest = [] := List.drop_eq_nil_of_le (Nat.le_of_lt h)
  refine ⟨?_, by rw [Fisics.skipWhitespace, hrest, skipBlank]⟩
  rw [skipWhitespace, skipWhitespaceLoop, if_neg (Nat.not_lt_of_gt h)]

theorem At.isEOF_eq (h : At lexer text) : isEOF lexer = some lexer.isEOF := by
  have hlength := h.length
  cases text with
  | nil =>
    simp only [List.length_nil] at hlength
    rw [h.isEOF_nil, Lexer.isEOF, decide_eq_true (by omega), Bool.true_or]
  | cons c rest =>
    simp only [List.length_cons] at hlength
    rw [h.isEOF_cons, Lexer.isEOF, h.cur_cons, decide_eq_false (by omega), Bool.false_or,
      beq_eq_false_iff_ne.mpr h.ne]

/-- Each call reads inside the text and takes at least one character. -/
theorem getNextTokenFuel_spans (fuel : Nat) (lexer : Lexer) (hnul : '\x00' ∉ lexer.source)
    (hfuel : lexer.length - lexer.position < fuel) :
    Spans lexer (getNextTokenFuel fuel lexer) (Fisics.getNextTokenFuel fuel lexer) := by
  induction fuel generalizing lexer with
  | zero => cases hfuel
  | succ fuel ih =>
    by_cases hinside : lexer.position ≤ lexer.length
    · have h : At lexer lexer.rest := ⟨rfl, hinside, hnul⟩
      have hforward : Forward lexer (Fisics.skipWhitespace lexer) := skipBlank_forward h
      rw [getNextTokenFuel, skipWhitespace_eq h, Fisics.getNextTokenFuel]
      simp only [bind_eq_bind, bind_some]
      generalize Fisics.skipWhitespace lexer = start at hforward ⊢
      obtain ⟨text, hat⟩ := hforward.inside
      rw [hat.isEOF_eq, bind_some]
      refine .of_forward hforward ?_
      refine .ite (fun _ => emit_spans (Nat.lt_succ_self _) rfl) fun heof => ?_
      cases text with
      | nil => exact absurd (Option.some.inj (hat.isEOF_eq.symm.trans hat.isEOF_nil)) heof
      | cons c rest => ?_
      refine dispatchToken_spans hat fun stop hstop => ?_
      have hlength := hat.length
      have hbehind : start.position < stop.position := Nat.lt_of_succ_le hstop.le
      have hsource : stop.source = lexer.source := hstop.source.trans hforward.source
      have hsame : stop.length = lexer.length := by rw [Lexer.length, hsource, Lexer.length]
      have hstart : start.length = lexer.length := by rw [Lexer.length, hforward.source, Lexer.length]
      have hle := hforward.le
      simp only [List.length_cons] at hlength
      exact ih stop (hsource ▸ hnul) (by omega)
    · have hbeyond := Nat.lt_of_not_le hinside
      obtain ⟨hread, hskip⟩ := skipWhitespace_beyond hbeyond
      have heof : lexer.isEOF = true := by simp [Lexer.isEOF, Nat.le_of_lt hbeyond]
      rw [getNextTokenFuel, hread, Fisics.getNextTokenFuel, hskip]
      simp only [bind_eq_bind, bind_some, isEOF_beyond hbeyond, heof, if_true]
      exact emit_spans (Nat.lt_succ_self _) rfl

theorem getNextToken_spans (lexer : Lexer) (hnul : '\x00' ∉ lexer.source) :
    Spans lexer (getNextToken lexer) (Fisics.getNextToken lexer) :=
  getNextTokenFuel_spans _ lexer hnul (by omega)

theorem getNextToken_end (h : lexer.length ≤ lexer.position) :
    (Fisics.getNextToken lexer).1.type = .eof := by
  have hrest : lexer.rest = [] := List.drop_eq_nil_of_le h
  have heof : lexer.isEOF = true := by simp [Lexer.isEOF, h]
  rw [Fisics.getNextToken, Fisics.getNextTokenFuel, Fisics.skipWhitespace, hrest, skipBlank]
  simp only [heof, if_true]
  rfl

/-- A call of `getNextToken`: the positions before it and after it, where its token
starts, and the token. -/
structure Call where
  before : Nat
  start : Nat
  token : Token
  stop : Nat

def calls : (count : Nat) → Lexer → Option (List Call)
  | 0, _ => some []
  | count + 1, lexer => do
    let (start, token, stop) ← getNextToken lexer
    let later ← calls count stop
    some (⟨lexer.position, start.position, token, stop.position⟩ :: later)

def tokensOf : (count : Nat) → Lexer → List Token
  | 0, _ => []
  | count + 1, lexer =>
    let r := Fisics.getNextToken lexer
    r.1 :: tokensOf count r.2

def Call.Progress (call : Call) : Prop := call.before ≤ call.start ∧ call.start < call.stop

def Call.Behind (a b : Call) : Prop := a.stop ≤ b.before

theorem calls_progress (count : Nat) (lexer : Lexer) (hnul : '\x00' ∉ lexer.source) :
    ∃ run, calls count lexer = some run ∧ run.map Call.token = tokensOf count lexer ∧
      (∀ call ∈ run, lexer.position ≤ call.before ∧ call.Progress) ∧ run.Pairwise Call.Behind ∧
      (0 < count → lexer.length < lexer.position + count → ∃ call ∈ run, call.token.type = .eof) := by
  induction count generalizing lexer with
  | zero => exact ⟨[], rfl, rfl, by simp, .nil, fun h => absurd h (Nat.lt_irrefl 0)⟩
  | succ count ih =>
    obtain ⟨start, hread, hstart, hlt, hsource⟩ := getNextToken_spans lexer hnul
    obtain ⟨run, hrun, htokens, hprogress, hpairs, heof⟩ :=
      ih (Fisics.getNextToken lexer).2 (hsource ▸ hnul)
    have hlength : (Fisics.getNextToken lexer).2.length = lexer.length := by
      rw [Lexer.length, hsource, Lexer.length]
    refine ⟨⟨lexer.position, start.position, (Fisics.getNextToken lexer).1,
      (Fisics.getNextToken lexer).2.position⟩ :: run, ?_, ?_, ?_, ?_, ?_⟩
    · rw [calls, hread]
      simp [hrun]
    · rw [List.map_cons, htokens]
      rfl
    · refine List.forall_mem_cons.mpr ⟨⟨Nat.le_refl _, hstart, hlt⟩, fun call hcall => ?_⟩
      obtain ⟨hle, hcall⟩ := hprogress call hcall
      exact ⟨Nat.le_trans (Nat.le_of_lt (Nat.lt_of_le_of_lt hstart hlt)) hle, hcall⟩
    · exact List.pairwise_cons.mpr ⟨fun call hcall => (hprogress call hcall).1, hpairs⟩
    · intro _ hcount
      by_cases hend : lexer.length ≤ lexer.position
      · exact ⟨_, List.mem_cons_self, getNextToken_end hend⟩
      obtain ⟨call, hcall, htype⟩ := heof (by omega) (by omega)
      exact ⟨call, List.mem_cons_of_mem _ hcall, htype⟩

-- Any source

theorem translateTrigraph_noNul (h : translateTrigraph text = some (out, taken)) :
    ∀ w ∈ out, w.1 ≠ '\x00' := by
  unfold translateTrigraph at h
  split at h
  · split at h
    · cases h; simp
    · cases h; simp
    · rename_i mapped hmapped _ _
      cases h
      intro w hw
      rw [List.mem_singleton.mp hw]
      rintro rfl
      unfold translateTrigraphChar at hmapped
      split at hmapped <;> simp at hmapped
    · cases h
  · cases h

theorem translateDigraph_noNul (h : '\x00' ∉ text) : ∀ w ∈ (translateDigraph text).1, w.1 ≠ '\x00' := by
  unfold translateDigraph
  split
  all_goals try simp
  rintro rfl
  exact h List.mem_cons_self

theorem initLexer_noNul (filePath : Option String) (enableTrigraphs : Bool)
    (h : '\x00' ∉ source) : '\x00' ∉ (initLexer source filePath enableTrigraphs).source := by
  have hround : ∀ text, '\x00' ∉ text → ∀ w ∈ (translateAt enableTrigraphs text).1, w.1 ≠ '\x00' := by
    intro text htext
    unfold translateAt
    split
    · cases ht : translateTrigraph text with
      | none => exact translateDigraph_noNul htext
      | some r => exact translateTrigraph_noNul ht
    · exact translateDigraph_noNul htext
  intro hmem
  obtain ⟨m, hm, hchar⟩ := List.mem_map.mp hmem
  exact translateLoop_all ('\x00' ∉ ·) (· ≠ '\x00') enableTrigraphs
    (fun c _ h hrest => h (List.mem_cons_of_mem c hrest)) hround 0 (1, 1) source h m hm hchar

/-- A character constant that the text breaks off in its escape takes the terminator. -/
example : (calls 3 (initLexer ['\'', '\\'] none false)).map
      (·.map fun call => (call.before, call.start, call.stop)) =
    some [(0, 0, 3), (3, 3, 4), (4, 4, 5)] := by decide

end Fisics.Reads
