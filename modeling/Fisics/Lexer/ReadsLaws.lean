import Fisics.Lexer.Reads
import Fisics.Lexer.Spelling

/-!
# Laws of the checked reads

Inside a text without NUL no read fails, and every handler gives what the lexer's
handler of the same name gives. A loop is followed through the text behind the
position: each of its rounds takes at least one character, so the length of the
source is fuel enough.
-/

namespace Fisics.Reads

open Option (bind_eq_bind bind_some)
open List (getD length_cons length_nil)

-- Positions inside the text

/-- The lexer stands inside its text, or at the terminator, with `text` ahead. -/
structure At (lexer : Lexer) (text : List Char) : Prop where
  ahead : lexer.rest = text
  inside : lexer.position ≤ lexer.length
  noNul : '\x00' ∉ lexer.source

@[simp] theorem advance_advance (lexer : Lexer) (m n : Nat) :
    (lexer.advance m).advance n = lexer.advance (m + n) := by
  simp [Lexer.advance, Nat.add_assoc]

@[simp] theorem advance_zero (lexer : Lexer) : lexer.advance 0 = lexer := rfl

@[simp] theorem advance_position (lexer : Lexer) (n : Nat) :
    (lexer.advance n).position = lexer.position + n := rfl

@[simp] theorem newline_position (lexer : Lexer) : lexer.newline.position = lexer.position + 1 := rfl

@[simp] theorem advance_length (lexer : Lexer) (n : Nat) : (lexer.advance n).length = lexer.length := rfl

@[simp] theorem newline_length (lexer : Lexer) : lexer.newline.length = lexer.length := rfl

theorem At.length (h : At lexer text) : lexer.position + text.length = lexer.length := by
  have hinside := h.inside
  rw [← h.ahead]
  simp only [Lexer.rest, List.length_drop, Lexer.length] at hinside ⊢
  omega

theorem At.charAt (h : At lexer text) (k : Nat) : charAt lexer k = (text ++ ['\x00'])[k]? := by
  have hdrop : text ++ ['\x00'] = (lexer.source ++ ['\x00']).drop lexer.position := by
    rw [← h.ahead, Lexer.rest, List.drop_append_of_le_length h.inside]
  rw [hdrop, List.getElem?_drop]
  rfl

theorem At.charAt_nil (h : At lexer []) : Reads.charAt lexer 0 = some '\x00' := h.charAt 0

theorem At.charAt_cons (h : At lexer (c :: rest)) : Reads.charAt lexer 0 = some c := h.charAt 0

theorem At.peek (h : At lexer text) (k : Nat) : lexer.peek k = text.getD k '\x00' := by
  rw [← h.ahead]
  simp [Lexer.peek, Lexer.rest]

theorem At.drop (h : At lexer text) (hn : n ≤ text.length) : At (lexer.advance n) (text.drop n) where
  ahead := by rw [← h.ahead, Lexer.rest, Lexer.rest, List.drop_drop]; rfl
  inside := by
    have hlength := h.length
    simp only [advance_position, advance_length]
    omega
  noNul := h.noNul

theorem At.advance (h : At lexer (c :: rest)) : At (lexer.advance 1) rest :=
  h.drop (Nat.succ_le_of_lt (Nat.zero_lt_succ _))

theorem At.newline (h : At lexer (c :: rest)) : At lexer.newline rest := by
  obtain ⟨hrest, hinside, hnul⟩ := h.advance
  exact ⟨hrest, hinside, hnul⟩

theorem At.ne (h : At lexer (c :: rest)) : c ≠ '\x00' := by
  rintro rfl
  refine h.noNul (List.mem_of_mem_drop (i := lexer.position) ?_)
  rw [← Lexer.rest, h.ahead]
  exact List.mem_cons_self

structure Forward (lexer stop : Lexer) : Prop where
  inside : ∃ more, At stop more
  le : lexer.position ≤ stop.position
  source : stop.source = lexer.source

theorem At.forward (h : At lexer text) : Forward lexer lexer := ⟨⟨text, h⟩, Nat.le_refl _, rfl⟩

theorem Forward.trans (h : Forward lexer mid) (h' : Forward mid stop) : Forward lexer stop :=
  ⟨h'.inside, Nat.le_trans h.le h'.le, h'.source.trans h.source⟩

theorem At.forward_advance (h : At lexer text) (hn : n ≤ text.length) :
    Forward lexer (lexer.advance n) := ⟨⟨_, h.drop hn⟩, Nat.le_add_right _ n, rfl⟩

theorem At.forward_newline (h : At lexer (c :: rest)) : Forward lexer lexer.newline :=
  ⟨⟨_, h.newline⟩, Nat.le_succ _, rfl⟩

-- Loops that pass characters

theorem readWhileLoop_eq (hp : p '\x00' = false) (h : At lexer text) (hfuel : text.length ≤ fuel) :
    readWhileLoop p (fuel + 1) lexer =
      some (text.takeWhile p, lexer.advance (text.takeWhile p).length) := by
  induction text generalizing lexer fuel with
  | nil => simp [readWhileLoop, h.charAt_nil, hp]
  | cons c rest ih =>
    cases fuel with
    | zero => cases hfuel
    | succ fuel => ?_
    rw [readWhileLoop, h.charAt_cons]
    by_cases hc : p c = true
    · simp [hc, ih h.advance (Nat.le_of_succ_le_succ hfuel), Nat.add_comm]
    · simp [hc]

theorem At.fuel (h : At lexer text) : text.length ≤ lexer.length := by
  have hlength := h.length
  omega

theorem readWhile_eq (hp : p '\x00' = false) (h : At lexer text) :
    readWhile p lexer = some (text.takeWhile p, lexer.advance (text.takeWhile p).length) :=
  readWhileLoop_eq hp h h.fuel

theorem readAtMost_eq (hp : p '\x00' = false) (h : At lexer text) (count : Nat) :
    readAtMost p count lexer =
      some ((text.take count).takeWhile p, lexer.advance ((text.take count).takeWhile p).length) := by
  induction count generalizing lexer text with
  | zero => simp [readAtMost]
  | succ count ih =>
    cases text with
    | nil => simp [readAtMost, h.charAt_nil, hp]
    | cons c rest => ?_
    unfold readAtMost
    rw [h.charAt_cons]
    by_cases hc : p c = true
    · simp [hc, ih h.advance, Nat.add_comm]
    · simp [hc]

theorem mapM_getElem? (xs : List α) (start n : Nat) (h : start + n ≤ xs.length) :
    (List.range' start n).mapM (xs[·]?) = some ((xs.drop start).take n) := by
  induction n generalizing start with
  | zero => simp
  | succ n ih =>
    have hstart : start < xs.length := by omega
    rw [List.range'_succ, List.mapM_cons, ih (start + 1) (by omega), List.getElem?_eq_getElem hstart,
      List.drop_eq_getElem_cons hstart]
    rfl

theorem readText_eq (h : At lexer text) (hn : n ≤ text.length) (hsource : stop.source = lexer.source)
    (hstop : stop.position = lexer.position + n) :
    readText stop lexer.position = some (text.take n) := by
  have hlength := h.length
  have hread : sourceAt stop = fun i => (lexer.source ++ ['\x00'])[i]? := by
    funext i
    rw [sourceAt, hsource]
  have htake : ((lexer.source ++ ['\x00']).drop lexer.position).take n = text.take n := by
    rw [List.drop_append_of_le_length h.inside, ← Lexer.rest, h.ahead, List.take_append_of_le_length hn]
  unfold readText
  rw [hstop, Nat.add_sub_cancel_left, hread, mapM_getElem? _ _ _ (by
    simp only [Lexer.length] at hlength
    simp only [List.length_append, List.length_singleton]
    omega), htake]

-- Blank space

theorem At.guardedAt (h : At lexer text) (k : Nat) : guardedAt lexer k = some (text.getD k '\x00') := by
  have hlength := h.length
  unfold Reads.guardedAt
  split
  · rw [h.charAt, List.getElem?_append_left (by omega), List.getD_eq_getElem?_getD,
      List.getElem?_eq_getElem (by omega), Option.getD_some]
  · rw [List.getD_eq_getElem?_getD, List.getElem?_eq_none (by omega), Option.getD_none]

theorem At.isEOF_nil (h : At lexer []) : isEOF lexer = some true := by
  have hlength := h.length
  simp only [length_nil] at hlength
  unfold isEOF
  rw [if_pos (by omega)]

theorem At.isEOF_cons (h : At lexer (c :: rest)) : isEOF lexer = some false := by
  have hlength := h.length
  simp only [length_cons] at hlength
  unfold isEOF
  rw [if_neg (by omega), h.charAt_cons]
  simp [h.ne]

theorem getD_eq_cons (h : getD text 0 '\x00' = c) (hc : c ≠ '\x00') : ∃ rest, text = c :: rest := by
  cases text with
  | nil => exact absurd h.symm hc
  | cons d rest => exact ⟨rest, by rw [← h]; rfl⟩

theorem notSplice (h : ∀ rest', c = '\\' → rest = '\n' :: rest' → False) :
    ¬(c = '\\' ∧ getD rest 0 '\x00' = '\n') := by
  rintro ⟨rfl, hnext⟩
  obtain ⟨rest', rfl⟩ := getD_eq_cons hnext (by decide)
  exact h rest' rfl rfl

theorem notReturn (h : ∀ rest', c = '\\' → rest = '\r' :: '\n' :: rest' → False) :
    ¬(c = '\\' ∧ getD rest 0 '\x00' = '\r' ∧ getD rest 1 '\x00' = '\n') := by
  rintro ⟨rfl, hnext, hnext2⟩
  obtain ⟨rest', rfl⟩ := getD_eq_cons hnext (by decide)
  obtain ⟨rest'', rfl⟩ := getD_eq_cons (show getD rest' 0 '\x00' = '\n' from hnext2) (by decide)
  exact h rest'' rfl rfl

theorem skipWhitespaceLoop_cons (h : At lexer (c :: rest)) (fuel : Nat) :
    skipWhitespaceLoop (fuel + 1) lexer =
      if c = '\\' ∧ rest.getD 0 '\x00' = '\n' then skipWhitespaceLoop fuel (lexer.advance 2)
      else if c = '\\' ∧ rest.getD 0 '\x00' = '\r' ∧ rest.getD 1 '\x00' = '\n' then
        skipWhitespaceLoop fuel (lexer.advance 3)
      else if !isspace c then some lexer
      else if c = '\n' then skipWhitespaceLoop fuel lexer.newline
      else skipWhitespaceLoop fuel (lexer.advance 1) := by
  have hlength := h.length
  simp only [length_cons] at hlength
  rw [skipWhitespaceLoop, if_pos (by omega), h.charAt_cons, h.guardedAt, h.guardedAt]
  rfl

theorem skipWhitespaceLoop_eq (h : At lexer text) (hfuel : text.length ≤ fuel) :
    skipWhitespaceLoop (fuel + 1) lexer = some (skipBlank text lexer) := by
  fun_induction skipBlank text lexer generalizing fuel with
  | case1 lexer rest ih =>
    cases fuel with
    | zero => cases hfuel
    | succ fuel =>
      rw [skipWhitespaceLoop_cons h, if_pos ⟨rfl, rfl⟩]
      exact ih h.advance.advance (Nat.le_of_succ_le (Nat.le_of_succ_le_succ hfuel))
  | case2 lexer rest ih =>
    cases fuel with
    | zero => cases hfuel
    | succ fuel => ?_
    rw [skipWhitespaceLoop_cons h, if_neg (by simp), if_pos ⟨rfl, rfl, rfl⟩]
    refine ih h.advance.advance.advance ?_
    simp only [length_cons] at hfuel
    omega
  | case3 c rest lexer hsplice hreturn hspace =>
    rw [skipWhitespaceLoop_cons h, if_neg (notSplice hsplice), if_neg (notReturn hreturn), if_pos hspace]
  | case4 rest lexer hsplice hreturn hspace ih =>
    cases fuel with
    | zero => cases hfuel
    | succ fuel =>
      rw [skipWhitespaceLoop_cons h, if_neg (notSplice hsplice), if_neg (notReturn hreturn),
        if_neg hspace, if_pos rfl]
      exact ih h.newline (Nat.le_of_succ_le_succ hfuel)
  | case5 c rest lexer hsplice hreturn hspace hnewline ih =>
    cases fuel with
    | zero => cases hfuel
    | succ fuel =>
      rw [skipWhitespaceLoop_cons h, if_neg (notSplice hsplice), if_neg (notReturn hreturn),
        if_neg hspace, if_neg hnewline]
      exact ih h.advance (Nat.le_of_succ_le_succ hfuel)
  | case6 lexer =>
    have hlength := h.length
    rw [skipWhitespaceLoop, if_neg (by simp only [length_nil] at hlength; omega)]

theorem skipWhitespace_eq (h : At lexer text) :
    skipWhitespace lexer = some (Fisics.skipWhitespace lexer) := by
  rw [Fisics.skipWhitespace, h.ahead]
  exact skipWhitespaceLoop_eq h h.fuel

theorem skipBlank_forward (h : At lexer text) : Forward lexer (skipBlank text lexer) := by
  fun_induction skipBlank text lexer with
  | case1 lexer rest ih => exact (h.forward_advance (by simp)).trans (ih h.advance.advance)
  | case2 lexer rest ih => exact (h.forward_advance (by simp)).trans (ih h.advance.advance.advance)
  | case3 | case6 => exact h.forward
  | case4 rest lexer _ _ _ ih => exact h.forward_newline.trans (ih h.newline)
  | case5 c rest lexer _ _ _ _ ih => exact (h.forward_advance (by simp)).trans (ih h.advance)

-- Identifiers and keywords

theorem At.sourceAt_cons (h : At lexer (c :: rest)) : sourceAt lexer lexer.position = some c :=
  h.charAt_cons

theorem hexDigits_advance (lexer : Lexer) (n digits codepoint i : Nat) :
    hexDigits (lexer.advance n) digits codepoint i = hexDigits lexer digits codepoint i := by
  induction digits generalizing codepoint i with
  | zero => rfl
  | succ digits ih =>
    simp only [hexDigits, ih]
    rfl

theorem utf8Continuation_advance (lexer : Lexer) (n count codepoint i : Nat) :
    utf8Continuation (lexer.advance n) count codepoint i = utf8Continuation lexer count codepoint i := by
  induction count generalizing codepoint i with
  | zero => rfl
  | succ count ih =>
    simp only [utf8Continuation, ih]
    rfl

theorem hexDigits_eq (h : At lexer text) (digits codepoint : Nat) :
    hexDigits lexer digits codepoint lexer.position = some (Fisics.hexDigits digits codepoint text) := by
  induction digits generalizing lexer text codepoint with
  | zero => rfl
  | succ digits ih =>
    have hlength := h.length
    cases text with
    | nil =>
      simp only [length_nil] at hlength
      rw [hexDigits, if_pos (by omega), Fisics.hexDigits]
    | cons c rest => ?_
    simp only [length_cons] at hlength
    rw [hexDigits, if_neg (by omega), h.sourceAt_cons, Fisics.hexDigits]
    cases hvalue : lexerHexValue c with
    | none => simp [hvalue]
    | some value =>
      simp only [bind_eq_bind, bind_some, hvalue]
      rw [← ih h.advance, hexDigits_advance]
      rfl

theorem utf8Continuation_eq (h : At lexer text) (hcount : count ≤ text.length) (codepoint : Nat) :
    utf8Continuation lexer count codepoint lexer.position =
      some (Fisics.utf8Continuation count codepoint text) := by
  induction count generalizing lexer text codepoint with
  | zero => rfl
  | succ count ih =>
    cases text with
    | nil => cases hcount
    | cons c rest => ?_
    rw [utf8Continuation, h.sourceAt_cons, Fisics.utf8Continuation]
    simp only [bind_eq_bind, bind_some]
    split
    · rfl
    rw [← ih h.advance (Nat.le_of_succ_le_succ hcount), utf8Continuation_advance]
    rfl

theorem lexerIdentifierUcnLength_eq (h : At lexer text) :
    lexerIdentifierUcnLength lexer = some (Fisics.lexerIdentifierUcnLength text) := by
  have hlength := h.length
  unfold lexerIdentifierUcnLength
  cases text with
  | nil =>
    simp only [length_nil] at hlength
    rw [if_pos (by omega)]
    rfl
  | cons c rest => ?_
  cases rest with
  | nil =>
    simp only [length_cons, length_nil] at hlength
    rw [if_pos (by omega)]
    simp [Fisics.lexerIdentifierUcnLength]
  | cons d rest => ?_
  simp only [length_cons] at hlength
  rw [if_neg (by omega), h.charAt_cons]
  simp only [bind_eq_bind, bind_some]
  by_cases hc : c = '\\'
  · subst hc
    have hhex : ∀ digits, hexDigits lexer digits 0 (lexer.position + 2) =
        some (Fisics.hexDigits digits 0 rest) := by
      intro digits
      rw [← hexDigits_advance lexer 2]
      exact hexDigits_eq h.advance.advance digits 0
    have hd : Reads.charAt lexer 1 = some d := h.charAt 1
    rw [if_neg (by simp), hd, Fisics.lexerIdentifierUcnLength]
    by_cases hletter : d = 'u' ∨ d = 'U'
    · simp only [bind_some, hhex]
      rw [if_neg (by rcases hletter with rfl | rfl <;> decide), if_pos hletter]
      cases Fisics.hexDigits (if d = 'u' then 4 else 8) 0 rest with
      | none => rfl
      | some codepoint => exact (apply_ite some _ _ _).symm
    · simp [not_or.mp hletter]
  · simp [hc, Fisics.lexerIdentifierUcnLength]

theorem utf8Continuation_short (h : text.length < count) (codepoint : Nat) :
    Fisics.utf8Continuation count codepoint text = none := by
  induction count generalizing text codepoint with
  | zero => cases h
  | succ count ih =>
    cases text with
    | nil => rfl
    | cons c rest => ?_
    rw [Fisics.utf8Continuation]
    split
    · rfl
    · exact ih (Nat.lt_of_succ_lt_succ h) _

theorem lexerDecodeUtf8_eq (h : At lexer (c :: rest)) :
    lexerDecodeUtf8 lexer = some (Fisics.lexerDecodeUtf8 (c :: rest)) := by
  have hlength := h.length
  simp only [length_cons] at hlength
  unfold lexerDecodeUtf8 Fisics.lexerDecodeUtf8
  simp only [h.charAt_cons, bind_eq_bind, bind_some]
  generalize (if 0xC2 ≤ c.toNat ∧ c.toNat ≤ 0xDF then some (2, c.toNat &&& 0x1F)
    else if 0xE0 ≤ c.toNat ∧ c.toNat ≤ 0xEF then some (3, c.toNat &&& 0x0F)
    else if 0xF0 ≤ c.toNat ∧ c.toNat ≤ 0xF4 then some (4, c.toNat &&& 0x07)
    else none) = lead
  cases lead with
  | none => rfl
  | some lead => ?_
  obtain ⟨length, bits⟩ := lead
  dsimp only
  split
  · rw [bind_some, utf8Continuation_short (by omega), Option.bind_none]
  have hcont : utf8Continuation lexer (length - 1) bits (lexer.position + 1) =
      some (Fisics.utf8Continuation (length - 1) bits rest) := by
    rw [← utf8Continuation_advance lexer 1]
    exact utf8Continuation_eq h.advance (by omega) bits
  rw [hcont, bind_some, bind_some]
  cases Fisics.utf8Continuation (length - 1) bits rest with
  | none => rfl
  | some codepoint => exact (apply_ite some _ _ _).symm

theorem lexerIdentifierUtf8Length_eq (h : At lexer text) :
    lexerIdentifierUtf8Length lexer = some (Fisics.lexerIdentifierUtf8Length text) := by
  have hlength := h.length
  unfold lexerIdentifierUtf8Length
  cases text with
  | nil =>
    simp only [length_nil] at hlength
    rw [if_pos (by omega)]
    rfl
  | cons c rest => ?_
  simp only [length_cons] at hlength
  rw [if_neg (by omega), lexerDecodeUtf8_eq h, Fisics.lexerIdentifierUtf8Length]
  cases Fisics.lexerDecodeUtf8 (c :: rest) with
  | none => rfl
  | some r => rfl

theorem lexerIdentifierUcnLength_le (text : List Char) :
    Fisics.lexerIdentifierUcnLength text ≤ text.length := by
  by_cases h : 0 < Fisics.lexerIdentifierUcnLength text
  · obtain ⟨c, digits, rest, codepoint, rfl, -, hhex, -, heq⟩ := ucn_cases h
    have hlength := hexDigits_length hhex
    simp only [heq, length_cons]
    omega
  · omega

theorem lexerIdentifierUtf8Length_le (text : List Char) :
    Fisics.lexerIdentifierUtf8Length text ≤ text.length := by
  unfold Fisics.lexerIdentifierUtf8Length
  cases hdecode : Fisics.lexerDecodeUtf8 text with
  | none => exact Nat.zero_le _
  | some r => ?_
  obtain ⟨length, codepoint⟩ := r
  obtain ⟨c, rest, bits, rfl, -, hcont⟩ := decodeUtf8_cases hdecode
  have hlength : length - 1 ≤ rest.length := by
    by_contra hshort
    rw [utf8Continuation_short (by omega)] at hcont
    cases hcont
  dsimp only
  split
  · simp only [length_cons]
    omega
  · exact Nat.zero_le _

theorem identifierLength_skip (h : n ≤ text.length) :
    identifierLength n text = n + identifierLength 0 (text.drop n) := by
  induction n generalizing text with
  | zero => simp
  | succ n ih =>
    cases text with
    | nil => cases h
    | cons c rest =>
      rw [identifierLength, ih (Nat.le_of_succ_le_succ h), List.drop_succ_cons]
      omega

theorem identifierLength_le (skip : Nat) (text : List Char) : identifierLength skip text ≤ text.length := by
  induction text generalizing skip with
  | nil => cases skip <;> exact Nat.le_refl 0
  | cons c rest ih =>
    cases skip with
    | succ skip => exact Nat.succ_le_succ (ih skip)
    | zero => ?_
    unfold identifierLength
    dsimp only
    split
    · exact Nat.succ_le_succ (ih 0)
    split
    · exact Nat.succ_le_succ (ih _)
    split
    · exact Nat.succ_le_succ (ih _)
    · exact Nat.zero_le _

theorem identifierLoop_cons (h : At lexer (c :: rest)) (fuel : Nat) :
    identifierLoop (fuel + 1) lexer =
      if isWord c then identifierLoop fuel (lexer.advance 1)
      else if 0 < Fisics.lexerIdentifierUcnLength (c :: rest) then
        identifierLoop fuel (lexer.advance (Fisics.lexerIdentifierUcnLength (c :: rest)))
      else if 0 < Fisics.lexerIdentifierUtf8Length (c :: rest) then
        identifierLoop fuel (lexer.advance (Fisics.lexerIdentifierUtf8Length (c :: rest)))
      else some lexer := by
  rw [identifierLoop, h.charAt_cons, lexerIdentifierUcnLength_eq h, lexerIdentifierUtf8Length_eq h]
  rfl

theorem identifierLoop_nil (h : At lexer []) (fuel : Nat) :
    identifierLoop (fuel + 1) lexer = some lexer := by
  rw [identifierLoop, h.charAt_nil, lexerIdentifierUcnLength_eq h, lexerIdentifierUtf8Length_eq h]
  rfl

theorem identifierLength_name (hn : 0 < n) (hle : n ≤ (c :: rest).length) :
    identifierLength (n - 1) rest + 1 = n + identifierLength 0 ((c :: rest).drop n) := by
  obtain ⟨n, rfl⟩ := Nat.exists_eq_succ_of_ne_zero (Nat.ne_of_gt hn)
  rw [Nat.succ_sub_one, identifierLength_skip (Nat.le_of_succ_le_succ hle), List.drop_succ_cons]
  omega

theorem identifierLoop_eq (h : At lexer text) (hfuel : text.length ≤ fuel) :
    identifierLoop (fuel + 1) lexer = some (lexer.advance (identifierLength 0 text)) := by
  induction fuel generalizing lexer text with
  | zero =>
    cases text with
    | nil => exact identifierLoop_nil h 0
    | cons c rest => cases hfuel
  | succ fuel ih =>
    cases text with
    | nil => exact identifierLoop_nil h _
    | cons c rest => ?_
    have jump : ∀ n, 0 < n → n ≤ (c :: rest).length →
        identifierLoop (fuel + 1) (lexer.advance n) =
          some (lexer.advance (identifierLength (n - 1) rest + 1)) := by
      intro n hn hle
      rw [ih (h.drop hle) (by rw [List.length_drop]; omega), advance_advance,
        identifierLength_name hn hle]
    rw [identifierLoop_cons h, identifierLength]
    dsimp only
    split
    · exact jump 1 Nat.one_pos (by simp)
    split
    · rename_i hucn
      exact jump _ hucn (lexerIdentifierUcnLength_le _)
    split
    · rename_i hutf8
      exact jump _ hutf8 (lexerIdentifierUtf8Length_le _)
    · rfl

/-- The handler reads inside the text and gives the lexer's token, which starts at
the position or behind it and takes at least one character. -/
def Spans (lexer : Lexer) (r : Option Marked) (t : Token × Lexer) : Prop :=
  ∃ start, r = some (start, t) ∧ lexer.position ≤ start.position ∧
    start.position < t.2.position ∧ t.2.source = lexer.source

theorem emit_spans (hstop : lexer.position < stop.position) (hsource : stop.source = lexer.source) :
    Spans lexer (emit stop type value lexer.mark) (Fisics.emit stop type value lexer.mark) :=
  ⟨lexer.mark, rfl, Nat.le_refl _, hstop, hsource⟩

theorem handleIdentifierOrKeyword_spans (h : At lexer text) (hpos : 0 < identifierLength 0 text) :
    Spans lexer (handleIdentifierOrKeyword lexer) (Fisics.handleIdentifierOrKeyword lexer) := by
  have hread : readText (lexer.advance (identifierLength 0 text)) lexer.position =
      some (text.take (identifierLength 0 text)) := readText_eq h (identifierLength_le 0 text) rfl rfl
  unfold handleIdentifierOrKeyword Fisics.handleIdentifierOrKeyword
  simp only [identifierLoop_eq h h.fuel, bind_eq_bind, bind_some, hread, h.ahead]
  exact emit_spans (Nat.lt_add_of_pos_right hpos) rfl

-- Numbers

section
variable (h : At lexer text)

include h

theorem At.charAt_peek (hk : k ≤ text.length) :
    Reads.charAt lexer k = some (lexer.peek k) := by
  rw [h.charAt, h.peek]
  rcases Nat.lt_or_eq_of_le hk with hk | rfl
  · rw [List.getElem?_append_left hk, List.getD_eq_getElem?_getD, List.getElem?_eq_getElem hk,
      Option.getD_some]
  · simp

theorem At.lt_of_peek (hk : lexer.peek k ≠ '\x00') : k < text.length := by
  rw [h.peek] at hk
  by_contra hle
  refine hk ?_
  rw [List.getD_eq_getElem?_getD, List.getElem?_eq_none (by omega), Option.getD_none]

theorem At.charAt_cur : Reads.charAt lexer 0 = some lexer.cur :=
  h.charAt_peek (Nat.zero_le _)

theorem At.skipWhile_eq (p : Char → Bool) :
    lexer.skipWhile p = lexer.advance (text.takeWhile p).length := by
  rw [Lexer.skipWhile, h.ahead]

theorem At.skipWhile (p : Char → Bool) :
    At (lexer.skipWhile p) (text.drop (text.takeWhile p).length) := by
  rw [h.skipWhile_eq]
  exact h.drop (List.takeWhile_prefix p).length_le

theorem readWhile_skip (hp : p '\x00' = false) :
    readWhile p lexer = some (text.takeWhile p, lexer.skipWhile p) := by
  rw [readWhile_eq hp h, h.skipWhile_eq]

theorem skipWhile_position (p : Char → Bool) :
    (lexer.skipWhile p).position = lexer.position + (text.takeWhile p).length := by
  rw [h.skipWhile_eq, advance_position]

theorem At.forward_skipWhile (p : Char → Bool) : Forward lexer (lexer.skipWhile p) :=
  ⟨⟨_, h.skipWhile p⟩, by rw [skipWhile_position h]; exact Nat.le_add_right _ _, rfl⟩

end

theorem take_length_takeWhile (p : Char → Bool) (text : List Char) :
    text.take (text.takeWhile p).length = text.takeWhile p :=
  (List.prefix_iff_eq_take.mp (List.takeWhile_prefix p)).symm

theorem sourceBetween (h : At lexer text) (p : Char → Bool) :
    (lexer.source.drop lexer.position).take ((lexer.skipWhile p).position - lexer.position) =
      text.takeWhile p := by
  rw [skipWhile_position h, Nat.add_sub_cancel_left, ← Lexer.rest, h.ahead, take_length_takeWhile]

structure Scanned (lexer : Lexer) (r : Option NumberScan) (scan : NumberScan) : Prop where
  eq : r = some scan
  forward : Forward lexer scan.lexer

theorem scanRadix_scanned (h : At lexer text) :
    Scanned lexer (scanRadix lexer) (Fisics.scanRadix lexer) := by
  have hn : (if lexer.cur = '0' then charAt lexer 1 else some '\x00') =
      some (if lexer.cur = '0' then lexer.peek 1 else '\x00') := by
    split
    · rename_i hzero
      have hlt : 0 < text.length := h.lt_of_peek (k := 0) (by rw [← Lexer.cur, hzero]; decide)
      exact h.charAt_peek hlt
    · rfl
  have behind : lexer.peek 1 ≠ '\x00' → 2 ≤ text.length :=
    fun hpeek => Nat.succ_le_of_lt (h.lt_of_peek hpeek)
  unfold scanRadix
  simp only [h.charAt_cur, bind_eq_bind, bind_some, hn]
  by_cases hx : lexer.cur = '0' ∧ (lexer.peek 1 = 'x' ∨ lexer.peek 1 = 'X')
  · have hlength := behind (by rcases hx.2 with hx | hx <;> rw [hx] <;> decide)
    have h₂ := h.drop hlength
    unfold Fisics.scanRadix
    rw [if_pos hx, if_pos (by simpa [hx.1] using hx.2), readWhile_skip h₂ (by decide)]
    refine ⟨?_, (h.forward_advance hlength).trans (h₂.forward_skipWhile _)⟩
    simp [skipWhile_position h₂]
  · rw [if_neg (fun hcond => hx ⟨hcond.1, by simpa [hcond.1] using hcond.2⟩)]
    by_cases hb : lexer.cur = '0' ∧ (lexer.peek 1 = 'b' ∨ lexer.peek 1 = 'B')
    · have hlength := behind (by rcases hb.2 with hb | hb <;> rw [hb] <;> decide)
      have h₂ := h.drop hlength
      have h₃ := h₂.skipWhile fun c => c == '0' || c == '1'
      unfold Fisics.scanRadix
      rw [if_neg hx, if_pos hb, if_pos (by simpa [hb.1] using hb.2), readWhile_skip h₂ (by decide),
        bind_some, readWhile_skip h₃ (by decide)]
      refine ⟨?_, ((h.forward_advance hlength).trans (h₂.forward_skipWhile _)).trans
        (h₃.forward_skipWhile _)⟩
      simp only [skipWhile_position h₂, skipWhile_position h₃, advance_position]
      generalize List.takeWhile Char.isDigit _ = others
      cases others <;> simp
    · unfold Fisics.scanRadix
      rw [if_neg hx, if_neg hb, if_neg (fun hcond => hb ⟨hcond.1, by simpa [hcond.1] using hcond.2⟩),
        readWhile_skip h (by decide)]
      refine ⟨?_, h.forward_skipWhile _⟩
      simp [sourceBetween h]

theorem scanFraction_scanned (hat : At scan.lexer more) :
    Scanned scan.lexer (Reads.scanFraction scan) (Fisics.scanFraction scan) := by
  unfold Reads.scanFraction Fisics.scanFraction
  simp only [hat.charAt_cur, bind_eq_bind, bind_some]
  split
  · rename_i hdot
    have hlt : 0 < more.length := hat.lt_of_peek (k := 0) (by rw [← Lexer.cur, hdot]; decide)
    have hbody := hat.drop hlt
    have hnul : (if scan.isHex = true then isxdigit else Char.isDigit) '\x00' = false := by
      split <;> decide
    rw [readWhile_skip hbody hnul]
    refine ⟨?_, (hat.forward_advance hlt).trans (hbody.forward_skipWhile _)⟩
    simp only [bind_some, skipWhile_position hbody, Nat.add_sub_cancel_left]
  · exact ⟨rfl, hat.forward⟩

theorem atExponent_eq (hat : At scan.lexer more) : atExponent scan = some (Fisics.atExponent scan) := by
  rw [atExponent, hat.charAt_cur]
  rfl

theorem At.forward_sign (h : At lexer text) :
    Forward lexer (if lexer.cur = '+' ∨ lexer.cur = '-' then lexer.advance 1 else lexer) := by
  split
  · rename_i hsign
    have hlt : 0 < text.length := h.lt_of_peek (k := 0) (by
      rw [← Lexer.cur]
      rcases hsign with hsign | hsign <;> rw [hsign] <;> decide)
    exact h.forward_advance hlt
  · exact h.forward

theorem scanExponent_eq (hat : At scan.lexer more) (hexp : Fisics.atExponent scan = true) :
    scanExponent scan = some (Fisics.scanExponent scan) ∧
      Forward scan.lexer (Fisics.scanExponent scan).1.lexer := by
  have hlt : 0 < more.length := hat.lt_of_peek (k := 0) (by
    intro hnul
    simp [Fisics.atExponent, Lexer.cur, hnul] at hexp)
  have hmark := hat.drop hlt
  have hsign := hmark.forward_sign
  unfold scanExponent Fisics.scanExponent
  simp only [hmark.charAt_cur, bind_eq_bind, bind_some]
  obtain ⟨text, htext⟩ := hsign.inside
  have hstop := htext.skipWhile Char.isDigit
  have hforward := ((hat.forward_advance hlt).trans hsign).trans (htext.forward_skipWhile Char.isDigit)
  rw [readWhile_skip htext (by decide)]
  simp only [bind_some, skipWhile_position htext]
  by_cases hempty : text.takeWhile Char.isDigit = []
  · rw [readWhile_skip hstop (by decide)]
    simp only [hempty, List.isEmpty_nil, if_true, length_nil, Nat.add_zero, bind_some]
    exact ⟨trivial, hforward.trans (hstop.forward_skipWhile _)⟩
  · have hlength : (text.takeWhile Char.isDigit).length ≠ 0 := by simpa using hempty
    simp only [List.isEmpty_iff, hempty, if_false, Nat.add_eq_left, hlength]
    exact ⟨trivial, hforward⟩

theorem suffixLoop_eq (h : At lexer text) (hfuel : text.length ≤ fuel) (seenU : Bool) (lCount : Nat) :
    suffixLoop (fuel + 1) seenU lCount lexer =
      some (lexer.advance (suffixLength seenU lCount text).1, (suffixLength seenU lCount text).2) := by
  induction text generalizing lexer fuel seenU lCount with
  | nil =>
    rw [suffixLoop, h.charAt_nil]
    rfl
  | cons c rest ih =>
    cases fuel with
    | zero => cases hfuel
    | succ fuel => ?_
    have next : ∀ seenU lCount, suffixLoop (fuel + 1) seenU lCount (lexer.advance 1) =
        some (lexer.advance ((suffixLength seenU lCount rest).1 + 1),
          (suffixLength seenU lCount rest).2) := by
      intro seenU lCount
      rw [ih h.advance (Nat.le_of_succ_le_succ hfuel), advance_advance, Nat.add_comm]
    rw [suffixLoop, h.charAt_cons, suffixLength]
    simp only [bind_eq_bind, bind_some, next]
    split
    · split
      all_goals rfl
    split
    all_goals
      split
      · rfl
      · rfl

theorem suffixLength_le (seenU : Bool) (lCount : Nat) (text : List Char) :
    (suffixLength seenU lCount text).1 ≤ text.length := by
  induction text generalizing seenU lCount with
  | nil => exact Nat.le_refl 0
  | cons c rest ih =>
    rw [suffixLength]
    iterate 2
      split
      · split
        · exact Nat.zero_le _
        · exact Nat.succ_le_succ (ih _ _)
    · split
      · exact Nat.succ_le_succ (ih _ _)
      · exact Nat.zero_le _

theorem scanSuffix_scanned (hat : At scan.lexer more) :
    Scanned scan.lexer (scanSuffix scan) (Fisics.scanSuffix scan) := by
  unfold scanSuffix Fisics.scanSuffix
  rw [suffixLoop_eq hat hat.fuel, hat.ahead]
  exact ⟨rfl, hat.forward_advance (suffixLength_le false 0 more)⟩

theorem readText_forward (h : At lexer text) (hstop : Forward lexer stop) :
    readText stop lexer.position =
      some ((stop.source.drop lexer.position).take (stop.position - lexer.position)) := by
  obtain ⟨more, hmore⟩ := hstop.inside
  have hlength := h.length
  have hinside := hmore.inside
  have hle := hstop.le
  have hsame : stop.length = lexer.length := by rw [Lexer.length, hstop.source, Lexer.length]
  rw [hstop.source, ← Lexer.rest, h.ahead]
  exact readText_eq h (by omega) hstop.source (by omega)

theorem rejectNumber_spans (h : At lexer text) (hstop : Forward lexer stop)
    (hlt : lexer.position < stop.position) :
    Spans lexer (rejectNumber stop message lexer.mark) (Fisics.rejectNumber stop message lexer.mark) := by
  have hread := readText_forward h hstop
  unfold rejectNumber Fisics.rejectNumber
  simp only [Lexer.mark, hread, bind_eq_bind, bind_some]
  exact emit_spans hlt hstop.source

theorem finishNumber_spans (h : At lexer text) (hstop : Forward lexer scan.lexer)
    (hlt : lexer.position < scan.lexer.position) :
    Spans lexer (finishNumber scan lexer.mark) (Fisics.finishNumber scan lexer.mark) := by
  obtain ⟨more, hat⟩ := hstop.inside
  have hread := readText_forward h hstop
  unfold finishNumber Fisics.finishNumber
  simp only [hat.charAt_cur, bind_eq_bind, bind_some]
  cases numberError scan with
  | none =>
    simp only [Lexer.mark, hread, bind_some]
    exact emit_spans hlt hstop.source
  | some message => ?_
  unfold numberErrorEnd
  dsimp only
  split
  · have hword := hat.forward_skipWhile isWord
    rw [readWhile_skip hat (by decide)]
    exact rejectNumber_spans h (hstop.trans hword) (Nat.lt_of_lt_of_le hlt hword.le)
  · exact rejectNumber_spans h hstop hlt

theorem At.cur_cons (h : At lexer (c :: rest)) : lexer.cur = c := h.peek 0

theorem scanFraction_lt (h : At lexer (c :: rest)) (hc : c.isDigit = true ∨ c = '.') :
    lexer.position < (Fisics.scanFraction (Fisics.scanRadix lexer)).lexer.position := by
  rcases hc with hc | rfl
  · have hlt : lexer.position < (Fisics.scanRadix lexer).lexer.position := by
      unfold Fisics.scanRadix
      split
      · exact Nat.lt_of_lt_of_le (Nat.lt_add_of_pos_right (by decide)) (Nat.le_add_right _ _)
      split
      · exact Nat.lt_of_lt_of_le (Nat.lt_add_of_pos_right (by decide))
          (Nat.le_trans (Nat.le_add_right _ _) (Nat.le_add_right _ _))
      · rw [skipWhile_position h, List.takeWhile_cons_of_pos hc]
        exact Nat.lt_add_of_pos_right (Nat.succ_pos _)
    obtain ⟨more, hat⟩ := (scanRadix_scanned h).forward.inside
    exact Nat.lt_of_lt_of_le hlt (scanFraction_scanned hat).forward.le
  · have hstay : (Fisics.scanRadix lexer).lexer = lexer := by
      unfold Fisics.scanRadix
      simp only [h.cur_cons]
      rw [if_neg (by simp), if_neg (by simp)]
      rw [h.skipWhile_eq]
      rfl
    unfold Fisics.scanFraction
    rw [hstay, h.cur_cons, if_pos rfl]
    exact Nat.lt_of_lt_of_le (Nat.lt_succ_self _) (Nat.le_add_right _ _)

theorem handleNumber_spans (h : At lexer (c :: rest)) (hc : c.isDigit = true ∨ c = '.') :
    Spans lexer (handleNumber lexer) (Fisics.handleNumber lexer) := by
  have hradix := scanRadix_scanned h
  obtain ⟨more, hat⟩ := hradix.forward.inside
  have hfraction := scanFraction_scanned hat
  have hforward := hradix.forward.trans hfraction.forward
  have hlt := scanFraction_lt h hc
  unfold handleNumber Fisics.handleNumber
  simp only [hradix.eq, hfraction.eq, bind_eq_bind, bind_some]
  generalize Fisics.scanFraction (Fisics.scanRadix lexer) = scan at hforward hlt ⊢
  obtain ⟨ahead, hahead⟩ := hforward.inside
  simp only [atExponent_eq hahead, bind_some]
  have hfinish : ∀ scan', Forward scan.lexer (NumberScan.lexer scan') → Spans lexer
      ((scanSuffix scan').bind fun suffixed => finishNumber suffixed lexer.mark)
      (Fisics.finishNumber (Fisics.scanSuffix scan') lexer.mark) := by
    intro scan' hscan
    obtain ⟨behind, hbehind⟩ := hscan.inside
    have hsuffix := scanSuffix_scanned hbehind
    rw [hsuffix.eq, bind_some]
    exact finishNumber_spans h ((hforward.trans hscan).trans hsuffix.forward)
      (Nat.lt_of_lt_of_le hlt (hscan.trans hsuffix.forward).le)
  split
  · rename_i hexp
    obtain ⟨hread, hscan⟩ := scanExponent_eq hahead hexp
    rw [hread, bind_some]
    split
    · exact hfinish _ hscan
    · exact rejectNumber_spans h (hforward.trans hscan) (Nat.lt_of_lt_of_le hlt hscan.le)
  · exact hfinish scan hahead.forward

end Fisics.Reads
