import Fisics.Lexer.Laws
import Fisics.Lexer.Phases
import Fisics.Library.Utf8
import Mathlib.Data.List.Count
import Mathlib.Tactic.IntervalCases

/-!
# Spellings of tokens

The text that a token covers, and what the lexer keeps of it as the token's value. A
string literal loses its quotes, a character literal becomes a number, a universal
character name becomes a character and a directive loses its `#`; every other token
keeps its text. What is lost shows in the number of quotes, backslashes and hashes.
-/

namespace Fisics

def sliceOf (source : List α) (first last : Nat) : List α :=
  (source.drop first).take (last - first)

/-- A `#` that begins a line passes over the blanks behind it; they are not its spelling. -/
def spellingOf (tok : Token) (text : List α) : List α :=
  if tok.type = .hash then text.take 1 else text

def translated (cells : List (Char × List Char)) : List Char := cells.map Prod.fst

/-- Trigraphs are replaced and spliced lines joined before, digraphs stay as they are. -/
def writtenText (cells : List (Char × List Char)) : List Char := cells.flatMap Prod.snd

/-- A token that the lexer reads, without an error, from bytes other than `NUL`, and what
it covers. `next` reads what follows a comment, so a token does not depend on it. -/
def LexedAs (tok : Token) (cells : List (Char × List Char)) : Prop :=
  ∃ (start stop : Lexer) (enableTrigraphs : Bool) (source : List Char),
    start.source = translatedText enableTrigraphs source ∧
    (∀ c ∈ start.source, 0 < c.toNat ∧ c.toNat < 256) ∧
    start.isEOF = false ∧ (∀ next, dispatchToken next start = (tok, stop)) ∧
    stop.errors = start.errors ∧
    cells = spellingOf tok
      (sliceOf (writtenCells (spliced enableTrigraphs false source)) start.position stop.position)

/-- The tokens that keep their text: no literal, no word with a universal character name,
no directive. -/
def KeepsText (tok : Token) (spelling : List Char) : Prop :=
  tok.type ≠ .string ∧ tok.type ≠ .charLiteral ∧ isDirectiveType tok.type = false ∧
    (isWordType tok.type = true → '\\' ∉ spelling ∧ '#' ∉ spelling)

/-- The tokens that keep their spelling: a digraph in it is replaced. -/
def KeepsSpelling (tok : Token) (cells : List (Char × List Char)) : Prop :=
  KeepsText tok (translated cells) ∧ ∀ cell ∈ cells, cell.2 = [cell.1]

def isMark (c : Char) : Bool :=
  c == '"' || c == '\'' || c == '\\' || c == '#' || c == '%' || c == ':'

def marks (text : List Char) : Nat := text.countP isMark

@[simp] theorem marks_append (a b : List Char) : marks (a ++ b) = marks a + marks b :=
  List.countP_append

/-- A digraph has more marks than the character that it stands for. -/
theorem marks_digraph (h : digraphChar a b = some c) : marks [c] < marks [a, b] := by
  unfold digraphChar at h
  split at h <;> cases h <;> decide

theorem marks_written (h : ∀ cell ∈ cells, cell.2 = [cell.1] ∨
    ∃ a b, digraphChar a b = some cell.1 ∧ cell.2 = [a, b]) :
    ((∀ cell ∈ cells, cell.2 = [cell.1]) ∧ writtenText cells = translated cells) ∨
      ¬(∀ cell ∈ cells, cell.2 = [cell.1]) ∧ marks (translated cells) < marks (writtenText cells) := by
  induction cells with
  | nil => exact .inl ⟨by simp, rfl⟩
  | cons cell cells ih => ?_
  obtain ⟨hcell, hcells⟩ := List.forall_mem_cons.mp h
  have hwritten : writtenText (cell :: cells) = cell.2 ++ writtenText cells := List.flatMap_cons
  have hmarks : marks (translated (cell :: cells)) = marks [cell.1] + marks (translated cells) :=
    marks_append [cell.1] _
  rw [List.forall_mem_cons, hwritten, hmarks, marks_append]
  rcases ih hcells with ⟨hplain, hsame⟩ | ⟨hnot, hlt⟩
  · rcases hcell with hcell | ⟨a, b, hmapped, hcell⟩
    · refine .inl ⟨⟨hcell, hplain⟩, ?_⟩
      rw [hcell, hsame]
      rfl
    · have hless := marks_digraph hmapped
      refine .inr ⟨fun hall => ?_, ?_⟩
      · exact absurd (hall.1.symm.trans hcell) (by simp)
      · rw [hcell, hsame]
        omega
  · refine .inr ⟨fun hall => hnot hall.2, ?_⟩
    rcases hcell with hcell | ⟨a, b, hmapped, hcell⟩
    · rw [hcell]
      omega
    · have hless := marks_digraph hmapped
      rw [hcell]
      omega

theorem marks_pos (hmem : c ∈ text) (hc : isMark c = true) : 0 < marks text :=
  List.countP_pos_iff.mpr ⟨c, hmem, hc⟩

-- Slices

theorem sliceOf_split (source : List Char) (h : first ≤ mid) (h' : mid ≤ last) :
    sliceOf source first last = sliceOf source first mid ++ sliceOf source mid last := by
  have hdrop : source.drop mid = (source.drop first).drop (mid - first) := by
    rw [List.drop_drop, Nat.add_sub_cancel' h]
  have hlen : last - first = (mid - first) + (last - mid) := by omega
  rw [sliceOf, sliceOf, sliceOf, hdrop, hlen, List.take_add]

theorem mem_sliceOf (h : source[j]? = some c) (hfirst : first ≤ j) (hlast : j < last) :
    c ∈ sliceOf source first last := by
  have hget : (source.drop first)[j - first]? = some c := by
    rw [List.getElem?_drop, Nat.add_sub_cancel' hfirst, h]
  have htake : (sliceOf source first last)[j - first]? = some c := by
    rw [sliceOf, List.getElem?_take_of_lt (by omega), hget]
  exact List.mem_of_getElem? htake

theorem marks_slice_lt (h : source[j]? = some c) (hc : isMark c = true) (hfirst : first ≤ j)
    (hj : j < mid) (hmid : mid ≤ last) (hlast : last ≤ stop) :
    marks (sliceOf source mid last) < marks (sliceOf source first stop) := by
  have hpos := marks_pos (mem_sliceOf h hfirst hj) hc
  rw [sliceOf_split source (show first ≤ mid by omega) (show mid ≤ stop by omega),
    sliceOf_split source hmid hlast, marks_append, marks_append]
  omega

theorem peek_getElem (h : Lexer.peek lexer k ≠ '\x00') :
    lexer.source[lexer.position + k]? = some (lexer.peek k) := by
  unfold Lexer.peek at h ⊢
  rw [List.getD_eq_getElem?_getD] at h ⊢
  cases hget : lexer.source[lexer.position + k]? with
  | none => simp [hget] at h
  | some c => rfl

theorem sliceOf_peeks (h : ∀ k < n, Lexer.peek lexer k ≠ '\x00') :
    sliceOf lexer.source lexer.position (lexer.position + n) = (List.range n).map lexer.peek := by
  induction n with
  | zero => simp [sliceOf]
  | succ n ih =>
    rw [sliceOf_split lexer.source (show lexer.position ≤ lexer.position + n by omega) (by omega),
      ih fun k hk => h k (by omega), List.range_succ, List.map_append]
    have hlast := peek_getElem (h n (Nat.lt_succ_self n))
    congr 1
    rw [sliceOf, show lexer.position + (n + 1) - (lexer.position + n) = 1 by omega, List.take_one,
      List.head?_drop, hlast]
    rfl

theorem sliceOf_text {lexer : Lexer} {text : String}
    (htext : text.toList = [lexer.peek 0, lexer.peek 1, lexer.peek 2].take text.length)
    (hnul : '\x00' ∉ text.toList) :
    sliceOf lexer.source lexer.position (lexer.position + text.length) = text.toList := by
  have hlen : text.toList.length ≤ 3 := by
    rw [htext]
    simp
  rw [String.length_toList] at hlen
  generalize hn : text.length = n at htext hlen ⊢
  have hpeek : ∀ k < n, lexer.peek k ∈ text.toList := by
    intro k hk
    rw [htext]
    interval_cases n <;> interval_cases k <;> simp
  rw [sliceOf_peeks, htext]
  · interval_cases n <;> rfl
  · intro k hk heq
    exact hnul (heq ▸ hpeek k hk)

-- Kept and lost

/-- The token keeps its text. -/
def Kept (tok : Token) (spelling : List Char) : Prop :=
  KeepsText tok spelling ∧ (tokenText tok).toList = spelling

/-- The token's value has fewer marks than its text; it is made of characters of the
source and of other bytes. -/
def Lost (source : List Char) (tok : Token) (spelling : List Char) : Prop :=
  ¬KeepsText tok spelling ∧ marks (tokenText tok).toList < marks spelling ∧
    ∀ c ∈ (tokenText tok).toList, c ∈ source ∨ c.toNat < 256

/-- What a handler does to the text it covers, when it reports no error. -/
def SpellsToken (lexer : Lexer) (r : Token × Lexer) : Prop :=
  r.2.errors = lexer.errors →
    Kept r.1 (spellingOf r.1 (sliceOf lexer.source lexer.position r.2.position)) ∨
      Lost lexer.source r.1 (spellingOf r.1 (sliceOf lexer.source lexer.position r.2.position))

def isPlainType (t : TokenType) : Bool :=
  t != .string && t != .charLiteral && !isDirectiveType t && !isWordType t

theorem keepsText_of_plain (h : isPlainType tok.type = true) (spelling : List Char) :
    KeepsText tok spelling := by
  simp only [isPlainType, Bool.and_eq_true, bne_iff_ne, ne_eq, Bool.not_eq_true'] at h
  obtain ⟨⟨⟨hstring, hchar⟩, hdirective⟩, hword⟩ := h
  refine ⟨hstring, hchar, hdirective, ?_⟩
  rw [hword]
  rintro ⟨⟩

def Reported (lexer stop : Lexer) : Prop := ∃ error, stop.errors = lexer.errors ++ [error]

theorem Reported.spells (h : Reported lexer stop) : SpellsToken lexer (tok, stop) := by
  intro herrors
  obtain ⟨error, h⟩ := h
  have hlen := congrArg List.length (h.symm.trans herrors)
  simp at hlen

theorem reported_reportError {lexer stop : Lexer} (h : stop.errors = lexer.errors) (message got : String) :
    Reported lexer (stop.reportError message got) :=
  ⟨(message, got), congrArg (· ++ [(message, got)]) h⟩

theorem emit_reported {lexer stop : Lexer} (h : stop.errors = lexer.errors) :
    SpellsToken lexer (emit (stop.reportError message got) type value start) :=
  (reported_reportError h message got).spells

theorem spellingOf_ne (h : tok.type ≠ .hash) (text : List Char) : spellingOf tok text = text :=
  if_neg h

theorem emit_kept (hplain : isPlainType type = true) (hhash : type ≠ .hash)
    (htext : value.toList = sliceOf lexer.source lexer.position stop.position) :
    SpellsToken lexer (emit stop type value start) := by
  intro _
  left
  rw [spellingOf_ne hhash]
  exact ⟨keepsText_of_plain hplain _, htext⟩

-- Operators, punctuation and numbers

theorem operatorToken_spelling (h : operatorToken c d e = some (type, text)) :
    text.toList = [c, d, e].take text.length ∧ '\x00' ∉ text.toList ∧ isPlainType type = true ∧
      type ≠ .hash := by
  unfold operatorToken at h
  split at h
  all_goals repeat' split at h
  all_goals cases h
  all_goals simp_all
  all_goals refine ⟨?_, rfl⟩
  all_goals rfl

theorem punctuationToken_spelling (h : punctuationToken c d e = some (type, text)) :
    text.toList = [c, d, e].take text.length ∧ '\x00' ∉ text.toList ∧ isPlainType type = true ∧
      type ≠ .hash := by
  unfold punctuationToken at h
  split at h
  all_goals repeat' split at h
  all_goals cases h
  all_goals simp_all
  all_goals refine ⟨?_, rfl⟩
  all_goals rfl

theorem sliceOf_cur {lexer : Lexer} (h : lexer.cur = c) (hc : c ≠ '\x00') :
    sliceOf lexer.source lexer.position (lexer.position + 1) = [c] := by
  have hpeek : ∀ k < 1, lexer.peek k ≠ '\x00' := by
    intro k hk
    obtain rfl : k = 0 := by omega
    rintro heq
    exact hc (h.symm.trans heq)
  rw [sliceOf_peeks hpeek]
  exact congrArg (fun c => [c]) h

theorem handleUnknownToken_spells (lexer : Lexer) : SpellsToken lexer (handleUnknownToken lexer) := by
  unfold handleUnknownToken
  dsimp only
  split
  · rename_i hcur
    split
    · exact emit_kept rfl (by decide) (sliceOf_cur hcur (by decide)).symm
    · exact emit_reported rfl
  · exact emit_reported rfl

theorem handleOperator_spells (lexer : Lexer) : SpellsToken lexer (handleOperator lexer) := by
  unfold handleOperator
  split
  · rename_i type text htoken
    obtain ⟨htext, hnul, hplain, hhash⟩ := operatorToken_spelling htoken
    exact emit_kept hplain hhash (sliceOf_text htext hnul).symm
  · exact handleUnknownToken_spells lexer

theorem punctuationToken_isSome
    (h : c ∈ ['?', ':', ';', ',', '(', ')', '\x7b', '\x7d', '[', ']', '.']) (d e : Char) :
    ∃ token, punctuationToken c d e = some token := by
  simp only [List.mem_cons, List.not_mem_nil, or_false] at h
  rcases h with rfl | rfl | rfl | rfl | rfl | rfl | rfl | rfl | rfl | rfl | rfl
  all_goals simp only [punctuationToken]
  all_goals first
    | exact ⟨_, rfl⟩
    | split <;> exact ⟨_, rfl⟩

theorem handlePunctuation_spells
    (h : lexer.cur ∈ ['?', ':', ';', ',', '(', ')', '\x7b', '\x7d', '[', ']', '.']) :
    SpellsToken lexer (handlePunctuation lexer) := by
  unfold handlePunctuation
  obtain ⟨⟨type, text⟩, htoken⟩ := punctuationToken_isSome h (lexer.peek 1) (lexer.peek 2)
  obtain ⟨htext, hnul, hplain, hhash⟩ := punctuationToken_spelling htoken
  rw [htoken]
  exact emit_kept hplain hhash (sliceOf_text htext hnul).symm

theorem sliceOf_pair {lexer : Lexer} (hcur : lexer.cur = c) (hpeek : lexer.peek 1 = d)
    (hc : c ≠ '\x00') (hd : d ≠ '\x00') :
    sliceOf lexer.source lexer.position (lexer.position + 2) = [c, d] := by
  have hpeeks : ∀ k < 2, lexer.peek k ≠ '\x00' := by
    intro k hk heq
    obtain rfl | rfl : k = 0 ∨ k = 1 := by omega
    · exact hc (hcur.symm.trans heq)
    · exact hd (hpeek.symm.trans heq)
  rw [sliceOf_peeks hpeeks]
  show [lexer.cur, lexer.peek 1] = [c, d]
  rw [hcur, hpeek]

theorem skipBlockComment_errors (text : List Char) (lexer : Lexer) :
    (skipBlockComment text lexer).1.errors = lexer.errors := by
  fun_induction skipBlockComment text lexer with
  | case1 | case2 => rfl
  | case3 | case4 => assumption

theorem handleComment_cases {lexer : Lexer} (hcur : lexer.cur = '/') :
    (∃ stop, (stop.source = lexer.source ∧ stop.errors = lexer.errors) ∧
        ∀ next, handleComment next lexer = next stop) ∨
      ∃ r, SpellsToken lexer r ∧ ∀ next, handleComment next lexer = r := by
  have hslash : SpellsToken lexer (emit (lexer.advance 1) .divide "/" lexer.mark) :=
    emit_kept rfl (by decide) (sliceOf_cur hcur (by decide)).symm
  have hassign : lexer.peek 1 = '=' →
      SpellsToken lexer (emit (lexer.advance 2) .divAssign "/=" lexer.mark) := fun heq =>
    emit_kept rfl (by decide) (sliceOf_pair hcur heq (by decide) (by decide)).symm
  unfold handleComment
  dsimp only
  split
  · exact .inr ⟨_, hslash, fun _ => rfl⟩
  split
  · rename_i heq
    exact .inr ⟨_, hassign heq, fun _ => rfl⟩
  split
  · refine .inl ⟨_, ?_, fun _ => rfl⟩
    exact ⟨rfl, rfl⟩
  · split
    · split
      · refine .inl ⟨_, ?_, fun _ => rfl⟩
        exact ⟨skipBlockComment_source _ _, skipBlockComment_errors _ _⟩
      · have herrors := skipBlockComment_errors (lexer.advance 2).rest (lexer.advance 2)
        exact .inr ⟨_, emit_reported herrors, fun _ => rfl⟩
    · exact .inr ⟨_, hslash, fun _ => rfl⟩

theorem handleComment_spells (hcur : lexer.cur = '/')
    (h : ∀ next, handleComment next lexer = r) : SpellsToken lexer r := by
  rcases handleComment_cases hcur with ⟨stop, -, hnext⟩ | ⟨r', hspells, hr'⟩
  · have hplain := (hnext _).symm.trans (h fun stop => (default, stop))
    have hreported := (hnext _).symm.trans (h fun stop => (default, stop.reportError "" ""))
    have hlen := congrArg (fun r => r.2.errors.length) (hplain.trans hreported.symm)
    simp [Lexer.reportError] at hlen
  · rw [← h fun stop => (default, stop), hr']
    exact hspells

structure ScansNumber (lexer : Lexer) (scan : NumberScan) : Prop where
  type : scan.type = .number ∨ scan.type = .floatLiteral
  source : scan.lexer.source = lexer.source
  errors : scan.lexer.errors = lexer.errors

theorem scanRadix_number (lexer : Lexer) : ScansNumber lexer (scanRadix lexer) := by
  unfold scanRadix
  split
  · exact ⟨.inl rfl, rfl, rfl⟩
  split
  all_goals exact ⟨.inl rfl, rfl, rfl⟩

theorem scanFraction_number (h : ScansNumber lexer scan) : ScansNumber lexer (scanFraction scan) := by
  unfold scanFraction
  split
  · exact ⟨.inr rfl, h.source, h.errors⟩
  · exact h

theorem scanExponent_number (h : ScansNumber lexer scan) : ScansNumber lexer (scanExponent scan).1 := by
  have hdigits : ∀ digits : Lexer, digits = (if (scan.lexer.advance 1).cur = '+' ∨
      (scan.lexer.advance 1).cur = '-' then (scan.lexer.advance 1).advance 1
      else scan.lexer.advance 1) → digits.source = lexer.source ∧ digits.errors = lexer.errors := by
    rintro _ rfl
    split
    all_goals exact ⟨h.source, h.errors⟩
  unfold scanExponent
  dsimp only
  generalize hif : (if (scan.lexer.advance 1).cur = '+' ∨ (scan.lexer.advance 1).cur = '-' then
    (scan.lexer.advance 1).advance 1 else scan.lexer.advance 1) = digits
  obtain ⟨hsource, herrors⟩ := hdigits digits hif.symm
  split
  · exact ⟨h.type, hsource, herrors⟩
  · exact ⟨.inr rfl, hsource, herrors⟩

theorem scanSuffix_number (h : ScansNumber lexer scan) : ScansNumber lexer (scanSuffix scan) := by
  refine ⟨?_, h.source, h.errors⟩
  unfold scanSuffix
  dsimp only
  split
  · exact .inr rfl
  · exact h.type

theorem rejectNumber_spells (h : stop.errors = lexer.errors) :
    SpellsToken lexer (rejectNumber stop message start) :=
  emit_reported h

theorem finishNumber_spells (h : ScansNumber lexer scan) :
    SpellsToken lexer (finishNumber scan lexer.mark) := by
  unfold finishNumber
  split
  · refine rejectNumber_spells ?_
    unfold numberErrorEnd
    dsimp only
    split
    all_goals exact h.errors
  · have htext : (scan.lexer.textFrom lexer.mark.position).toList =
        sliceOf lexer.source lexer.position scan.lexer.position := by
      rw [Lexer.textFrom, String.toList_ofList, h.source]
      rfl
    rcases h.type with htype | htype
    all_goals exact emit_kept (by rw [htype]; rfl) (by rw [htype]; decide) htext

theorem handleNumber_spells (lexer : Lexer) : SpellsToken lexer (handleNumber lexer) := by
  have hscan := scanFraction_number (scanRadix_number lexer)
  unfold handleNumber
  dsimp only
  split
  · have hexponent := scanExponent_number hscan
    split
    · exact finishNumber_spells (scanSuffix_number hexponent)
    · exact rejectNumber_spells hexponent.errors
  · exact finishNumber_spells (scanSuffix_number hscan)

-- Literals and directives

/-- A literal token whose value has fewer marks than the text it covers. -/
def LosesMarks (lexer : Lexer) (r : Token × Lexer) : Prop :=
  (r.1.type = .string ∨ r.1.type = .charLiteral) ∧
    ∃ text, r.1.value = some text ∧
      marks text.toList < marks (sliceOf lexer.source lexer.position r.2.position) ∧
      ∀ c ∈ text.toList, c ∈ lexer.source ∨ c.toNat < 256

theorem LosesMarks.spells (h : LosesMarks lexer (tok, stop)) : SpellsToken lexer (tok, stop) := by
  obtain ⟨htype, text, hvalue, hlt, hbytes⟩ := h
  intro _
  right
  have hhash : tok.type ≠ .hash := by
    rcases htype with h | h <;> rw [h] <;> decide
  rw [spellingOf_ne hhash]
  rw [Lost, tokenText, hvalue]
  refine ⟨?_, hlt, hbytes⟩
  rintro ⟨hstring, hchar, -, -⟩
  rcases htype with h | h
  · exact hstring h
  · exact hchar h

def IsTag (tag : String) : Prop := marks tag.toList = 0 ∧ tag.toList.all (·.toNat < 256) = true

instance (tag : String) : Decidable (IsTag tag) := inferInstanceAs (Decidable (_ ∧ _))

theorem LosesMarks.prepend (h : LosesMarks lexer r) (htag : IsTag tag) :
    LosesMarks lexer (prependLiteralPrefix r.1 tag, r.2) := by
  obtain ⟨htype, text, hvalue, hlt, hbytes⟩ := h
  refine ⟨htype, tag ++ text, ?_, ?_, ?_⟩
  · rw [prependLiteralPrefix, hvalue]
    rfl
  · rw [String.toList_append, marks_append, htag.1, Nat.zero_add]
    exact hlt
  · rw [String.toList_append]
    refine List.forall_mem_append.mpr ⟨?_, hbytes⟩
    intro c hc
    exact .inr (by simpa using List.all_eq_true.mp htag.2 c hc)

theorem mem_source_of_mem_sliceOf (h : c ∈ sliceOf source first last) : c ∈ source :=
  List.mem_of_mem_drop (List.mem_of_mem_take h)

theorem handleStringLiteral_marks (skip : Nat) (hquote : lexer.peek skip = '"') :
    Reported lexer (handleStringLiteral (lexer.advance skip)).2 ∨
      LosesMarks lexer (handleStringLiteral (lexer.advance skip)) := by
  have hget : lexer.source[lexer.position + skip]? = some '"' := by
    rw [← hquote]
    exact peek_getElem (by rw [hquote]; decide)
  unfold handleStringLiteral
  dsimp only
  split
  · refine .inr ⟨.inl rfl, _, rfl, ?_⟩
    rw [Lexer.textFrom, String.toList_ofList]
    refine ⟨marks_slice_lt hget rfl (Nat.le_add_right _ _) (Nat.lt_succ_self _)
      (Nat.le_add_right _ _) (Nat.le_succ _), ?_⟩
    intro c hc
    exact .inl (mem_source_of_mem_sliceOf hc)
  all_goals exact .inl (reported_reportError rfl _ _)

theorem not_isMark_of_isDigit (h : c.isDigit = true) : isMark c = false := by
  have hmark : ∀ d : Char, d.isDigit = false → c ≠ d := by
    rintro d hd rfl
    rw [h] at hd
    cases hd
  simp [isMark, hmark]

theorem isDigit_toString {n : Nat} (h : c ∈ (toString n).toList) : c.isDigit = true :=
  Nat.isDigit_of_mem_toDigits (by decide) (Nat.le_refl 10) (String.toList_ofList ▸ h)

theorem marks_toString (n : Nat) : marks (toString n).toList = 0 := by
  refine List.countP_eq_zero.mpr ?_
  intro c hc
  simp [not_isMark_of_isDigit (isDigit_toString hc)]

theorem handleCharLiteral_marks {lexer : Lexer} (skip : Nat) (hquote : lexer.peek skip = '\'') :
    Reported lexer (handleCharLiteral (lexer.advance skip)).2 ∨
      LosesMarks lexer (handleCharLiteral (lexer.advance skip)) := by
  have hget : lexer.source[lexer.position + skip]? = some '\'' := by
    rw [← hquote]
    exact peek_getElem (by rw [hquote]; decide)
  unfold handleCharLiteral
  dsimp only
  split
  · split
    · exact .inl (reported_reportError rfl _ _)
    · refine .inr ⟨.inr rfl, _, rfl, ?_, ?_⟩
      · rw [marks_toString]
        exact marks_pos (mem_sliceOf hget (Nat.le_add_right _ _) (Nat.le_add_right _ _)) rfl
      · intro c hc
        have hdigit := isDigit_toString hc
        simp only [Char.isDigit, Bool.and_eq_true, decide_eq_true_eq] at hdigit
        have h9 : c.toNat ≤ 57 := hdigit.2
        exact .inr (by omega)
  all_goals exact .inl (reported_reportError rfl _ _)

theorem literal_spells (h : Reported lexer r.2 ∨ LosesMarks lexer r) : SpellsToken lexer r := by
  rcases h with h | h
  all_goals exact h.spells

theorem prepend_spells (h : Reported lexer r.2 ∨ LosesMarks lexer r) (htag : IsTag tag) :
    SpellsToken lexer (prependLiteralPrefix r.1 tag, r.2) := by
  rcases h with h | h
  · exact h.spells
  · exact (h.prepend htag).spells

theorem markAmbiguous_spells (h : Reported lexer r.2 ∨ LosesMarks lexer r) :
    SpellsToken lexer (markAmbiguousNarrowStringLiteral r.1, r.2) := by
  unfold markAmbiguousNarrowStringLiteral
  split
  · exact prepend_spells h (by decide)
  · exact literal_spells h

theorem skipSpaces_forward (text : List Char) (lexer : Lexer) :
    lexer.position ≤ (skipSpaces text lexer).position ∧ (skipSpaces text lexer).source = lexer.source := by
  induction text generalizing lexer with
  | nil => exact ⟨Nat.le_refl _, rfl⟩
  | cons c text ih =>
    unfold skipSpaces
    split
    · exact ⟨Nat.le_refl _, rfl⟩
    split
    · obtain ⟨hpos, hsource⟩ := ih lexer.newline
      exact ⟨Nat.le_trans (Nat.le_succ _) hpos, hsource⟩
    · obtain ⟨hpos, hsource⟩ := ih (lexer.advance 1)
      exact ⟨Nat.le_trans (Nat.le_succ _) hpos, hsource⟩

/-- The types of directives, `pragma` with them. -/
def isHashType (t : TokenType) : Bool := t == .pragma || isDirectiveType t

theorem directiveTokenType_isHashType (directive : String) :
    isHashType (directiveTokenType directive) = true := by
  repeat refine iteInduction (motive := (isHashType · = true)) (fun _ => by decide) fun _ => ?_
  decide

theorem not_keepsText_directive (htype : isHashType tok.type = true) (hmem : '#' ∈ spelling) :
    ¬KeepsText tok spelling := by
  rintro ⟨-, -, hnot, hword⟩
  rw [isHashType, hnot, Bool.or_false, beq_iff_eq] at htype
  exact (hword (by rw [htype]; rfl)).2 hmem

theorem emit_hash (hget : lexer.source[lexer.position]? = some '#') (hstop : lexer.position < stop.position) :
    SpellsToken lexer (emit stop .hash "#" start) := by
  intro _
  left
  refine ⟨keepsText_of_plain rfl _, ?_⟩
  have htake : (sliceOf lexer.source lexer.position stop.position).take 1 = ['#'] := by
    rw [sliceOf, List.take_take, Nat.min_eq_left (by omega), List.take_one, List.head?_drop, hget]
    rfl
  have hvalue : "#".toList = ['#'] := by decide
  exact hvalue.trans htake.symm

theorem handlePreprocessorDirective_spells {lexer : Lexer} (hcur : lexer.cur = '#') :
    SpellsToken lexer (handlePreprocessorDirective lexer) := by
  have hget : lexer.source[lexer.position]? = some '#' := by
    rw [← hcur]
    exact peek_getElem (by rw [show lexer.peek 0 = '#' from hcur]; decide)
  obtain ⟨hpos, hsource⟩ := skipSpaces_forward (lexer.advance 1).rest (lexer.advance 1)
  unfold handlePreprocessorDirective
  dsimp only
  split
  · split
    · rename_i hnext
      exact emit_kept rfl (by decide) (sliceOf_pair hcur hnext (by decide) (by decide)).symm
    · exact emit_hash hget (Nat.lt_succ_self _)
  generalize skipSpaces (lexer.advance 1).rest (lexer.advance 1) = name at hpos hsource ⊢
  split
  · exact emit_hash hget hpos
  generalize hdirective : (name.skipWhile isWord).textFrom name.position = directive
  intro _
  right
  have htype := directiveTokenType_isHashType directive
  have hhash : directiveTokenType directive ≠ .hash := by
    intro heq
    rw [heq] at htype
    cases htype
  have hmem : '#' ∈ sliceOf lexer.source lexer.position (name.skipWhile isWord).position :=
    mem_sliceOf hget (Nat.le_refl _) (Nat.lt_of_lt_of_le hpos (Nat.le_add_right _ _))
  rw [spellingOf_ne hhash]
  refine ⟨not_keepsText_directive htype hmem, ?_⟩
  show marks directive.toList < _ ∧ ∀ c ∈ directive.toList, _
  rw [← hdirective, Lexer.textFrom, String.toList_ofList, Lexer.skipWhile_source, hsource]
  refine ⟨marks_slice_lt hget rfl (Nat.le_refl _) hpos (Nat.le_add_right _ _) (Nat.le_refl _), ?_⟩
  intro c hc
  exact .inl (mem_source_of_mem_sliceOf hc)

-- Words

def IsWordByte (c : Char) : Prop := isWord c = true ∨ 0x80 ≤ c.toNat

theorem IsWordByte.not_isMark (h : IsWordByte c) : isMark c = false := by
  have hne : ∀ d : Char, isWord d = false → d.toNat < 0x80 → c ≠ d := by
    rintro d hd hlt rfl
    rcases h with h | h
    · rw [h] at hd
      cases hd
    · omega
  simp [isMark, hne '"' (by decide) (by decide), hne '\'' (by decide) (by decide),
    hne '\\' (by decide) (by decide), hne '#' (by decide) (by decide), hne '%' (by decide) (by decide),
    hne ':' (by decide) (by decide)]

theorem IsWordByte.ne_backslash (h : IsWordByte c) : c ≠ '\\' := by
  rintro rfl
  have hmark := h.not_isMark
  cases hmark

theorem normalize_cons (h : c ≠ '\\') (rest : List Char) :
    lexerNormalizeIdentifierSpelling 0 (c :: rest) = c :: lexerNormalizeIdentifierSpelling 0 rest := by
  rw [lexerNormalizeIdentifierSpelling]
  · simp
  all_goals
    intro tail hc
    exact absurd hc h

theorem normalize_eq (h : '\\' ∉ text) : lexerNormalizeIdentifierSpelling 0 text = text := by
  induction text with
  | nil => rfl
  | cons c text ih =>
    rw [List.mem_cons, not_or] at h
    rw [normalize_cons (Ne.symm h.1), ih h.2]

theorem toNat_ofNat_byte (h : n < 256) : (Char.ofNat n).toNat < 256 := by
  rw [Utf8.toNat_ofNat (by omega)]
  exact h

theorem encodeUtf8_byte (codepoint : Nat) : ∀ c ∈ lexerEncodeUtf8 codepoint, c.toNat < 256 := by
  have hmask : ∀ n, 0x80 ||| n &&& 0x3F < 2 ^ 8 := fun n =>
    Nat.or_lt_two_pow (by decide) (Nat.and_lt_two_pow _ (by decide))
  unfold lexerEncodeUtf8
  simp only [Nat.shiftRight_eq_div_pow]
  split
  · simp only [List.forall_mem_cons]
    exact ⟨toNat_ofNat_byte (by omega), by simp⟩
  split
  · have hlead : 0xC0 ||| codepoint / 2 ^ 6 < 2 ^ 8 := Nat.or_lt_two_pow (by decide) (by omega)
    simp only [List.forall_mem_cons]
    exact ⟨toNat_ofNat_byte hlead, toNat_ofNat_byte (hmask _), by simp⟩
  split
  · have hlead : 0xE0 ||| codepoint / 2 ^ 12 < 2 ^ 8 := Nat.or_lt_two_pow (by decide) (by omega)
    simp only [List.forall_mem_cons]
    exact ⟨toNat_ofNat_byte hlead, toNat_ofNat_byte (hmask _), toNat_ofNat_byte (hmask _), by simp⟩
  · simp only [List.forall_mem_cons]
    exact ⟨toNat_ofNat_byte (Nat.mod_lt _ (by decide)), toNat_ofNat_byte (hmask _),
      toNat_ofNat_byte (hmask _), toNat_ofNat_byte (hmask _), by simp⟩

theorem mem_normalize (h : c ∈ lexerNormalizeIdentifierSpelling skip text) : c ∈ text ∨ c.toNat < 256 := by
  fun_induction lexerNormalizeIdentifierSpelling skip text with
  | case1 => exact .inl h
  | case2 skip d rest ih => exact (ih h).imp_left (List.mem_cons_of_mem d)
  | case3 =>
    rename_i codepoint hhex ih
    rcases List.mem_append.mp h with h | h
    · exact .inr (encodeUtf8_byte codepoint c h)
    · exact (ih h).imp_left (List.mem_cons_of_mem _)
  | case4 =>
    rename_i ih
    rcases List.mem_cons.mp h with rfl | h
    · exact .inl List.mem_cons_self
    · exact (ih h).imp_left (List.mem_cons_of_mem _)

theorem identifierLength_ge (skip : Nat) (text : List Char) :
    min skip text.length ≤ identifierLength skip text := by
  induction text generalizing skip with
  | nil => simp
  | cons c text ih =>
    cases skip with
    | zero => simp
    | succ skip =>
      rw [identifierLength, List.length_cons, Nat.succ_min_succ]
      exact Nat.succ_le_succ (ih skip)

theorem hexDigits_take (h : hexDigits digits value text = some codepoint) (hk : digits ≤ k) :
    hexDigits digits value (text.take k) = some codepoint := by
  induction digits generalizing value text k with
  | zero =>
    exact h
  | succ digits ih =>
    cases text with
    | nil => simp [hexDigits] at h
    | cons c text => ?_
    obtain ⟨k, rfl⟩ := Nat.exists_eq_add_one_of_ne_zero (Nat.ne_zero_of_lt hk)
    rw [hexDigits] at h
    rw [List.take_succ_cons, hexDigits]
    cases hc : lexerHexValue c with
    | none => simp [hc] at h
    | some x =>
      rw [hc] at h
      exact ih h (by omega)

theorem hexDigits_length (h : hexDigits digits value text = some codepoint) : digits ≤ text.length := by
  induction digits generalizing value text with
  | zero => exact Nat.zero_le _
  | succ digits ih =>
    cases text with
    | nil => simp [hexDigits] at h
    | cons c text => ?_
    rw [hexDigits] at h
    cases hc : lexerHexValue c with
    | none => simp [hc] at h
    | some x =>
      rw [hc] at h
      exact Nat.succ_le_succ (ih h)

theorem lexerIdentifierUcnLength_eq (rest : List Char) (hc : c = 'u' ∧ digits = 4 ∨ c = 'U' ∧ digits = 8) :
    lexerIdentifierUcnLength ('\\' :: c :: rest) =
      match hexDigits digits 0 rest with
      | some codepoint =>
        if 0x10FFFF < codepoint || (0xD800 ≤ codepoint && codepoint ≤ 0xDFFF) ||
            !lexerUcnIsSupportedIdentifierCharacter codepoint then 0
        else digits + 2
      | none => 0 := by
  rcases hc with ⟨rfl, rfl⟩ | ⟨rfl, rfl⟩ <;> rfl

theorem ucn_cases (h : 0 < lexerIdentifierUcnLength text) :
    ∃ c digits rest codepoint, text = '\\' :: c :: rest ∧
      (c = 'u' ∧ digits = 4 ∨ c = 'U' ∧ digits = 8) ∧ hexDigits digits 0 rest = some codepoint ∧
      lexerUcnIsSupportedIdentifierCharacter codepoint = true ∧
      lexerIdentifierUcnLength text = digits + 2 := by
  obtain ⟨c, digits, rest, rfl, hc⟩ : ∃ c digits rest, text = '\\' :: c :: rest ∧
      (c = 'u' ∧ digits = 4 ∨ c = 'U' ∧ digits = 8) := by
    unfold lexerIdentifierUcnLength at h
    split at h
    · rename_i c rest
      split at h
      · rename_i hc
        rcases hc with rfl | rfl
        · exact ⟨'u', 4, rest, rfl, .inl ⟨rfl, rfl⟩⟩
        · exact ⟨'U', 8, rest, rfl, .inr ⟨rfl, rfl⟩⟩
      · omega
    · omega
  have heq := lexerIdentifierUcnLength_eq rest hc
  cases hhex : hexDigits digits 0 rest with
  | none => simp [heq, hhex] at h
  | some codepoint => ?_
  simp only [hhex] at heq
  split at heq
  · omega
  rename_i hnot
  refine ⟨c, digits, rest, codepoint, rfl, hc, hhex, ?_, heq⟩
  by_contra hsupported
  exact hnot (by simp [hsupported])

theorem supported_range (h : lexerUcnIsSupportedIdentifierCharacter codepoint = true) :
    0x370 ≤ codepoint ∧ codepoint ≤ 0x3FF := by
  simp only [lexerUcnIsSupportedIdentifierCharacter, Bool.or_eq_true, Bool.and_eq_true,
    decide_eq_true_eq, beq_iff_eq] at h
  omega

theorem toNat_ofNat_or (hlead : 0x80 ≤ lead) (hlt : lead < 2 ^ 8) (hx : x < 2 ^ 8) :
    0x80 ≤ (Char.ofNat (lead ||| x)).toNat := by
  have hor : lead ||| x < 2 ^ 8 := Nat.or_lt_two_pow hlt hx
  rw [Utf8.toNat_ofNat (by omega)]
  exact Nat.le_trans hlead Nat.left_le_or

theorem encodeUtf8_high (h : 0x370 ≤ codepoint ∧ codepoint ≤ 0x3FF) :
    ∀ c ∈ lexerEncodeUtf8 codepoint, 0x80 ≤ c.toNat := by
  have hshift : codepoint >>> 6 < 2 ^ 8 := by
    omega
  have hmask : codepoint &&& 0x3F < 2 ^ 8 := Nat.and_lt_two_pow _ (by decide)
  rw [lexerEncodeUtf8, if_neg (by omega), if_pos (by omega)]
  simp only [List.forall_mem_cons]
  exact ⟨toNat_ofNat_or (by decide) (by decide) hshift,
    toNat_ofNat_or (by decide) (by decide) hmask, by simp⟩

theorem normalize_ucn (hc : c = 'u' ∧ digits = 4 ∨ c = 'U' ∧ digits = 8)
    (h : hexDigits digits 0 rest = some codepoint) :
    lexerNormalizeIdentifierSpelling 0 ('\\' :: c :: rest) =
      lexerEncodeUtf8 codepoint ++ lexerNormalizeIdentifierSpelling (digits + 1) (c :: rest) := by
  rcases hc with ⟨rfl, rfl⟩ | ⟨rfl, rfl⟩
  all_goals simp [lexerNormalizeIdentifierSpelling, h]

theorem utf8Continuation_high (h : utf8Continuation count value text = some codepoint) :
    ∀ c ∈ text.take count, 0x80 ≤ c.toNat := by
  induction count generalizing value text with
  | zero => simp
  | succ count ih =>
    cases text with
    | nil => simp
    | cons c text => ?_
    rw [utf8Continuation] at h
    split at h
    · simp at h
    have hhigh : 0x80 ≤ c.toNat := by
      have hle := Nat.and_le_left (n := c.toNat) (m := 0xC0)
      omega
    exact List.forall_mem_cons.mpr ⟨hhigh, ih h⟩

theorem decodeUtf8_cases (h : lexerDecodeUtf8 text = some (length, codepoint)) :
    ∃ c rest bits, text = c :: rest ∧ 0x80 ≤ c.toNat ∧
      utf8Continuation (length - 1) bits rest = some codepoint := by
  cases text with
  | nil => simp [lexerDecodeUtf8] at h
  | cons c rest => ?_
  simp only [lexerDecodeUtf8, Option.bind_eq_some_iff] at h
  obtain ⟨⟨lead, bits⟩, hlead, codepoint', hcont, hlast⟩ := h
  split at hlast
  · simp at hlast
  obtain ⟨rfl, rfl⟩ : lead = length ∧ codepoint' = codepoint := by simpa using hlast
  refine ⟨c, rest, bits, rfl, ?_, hcont⟩
  by_contra hlow
  rw [if_neg (by omega), if_neg (by omega), if_neg (by omega)] at hlead
  cases hlead

theorem utf8_cases (h : 0 < lexerIdentifierUtf8Length text) :
    ∃ c rest, text = c :: rest ∧ 0x80 ≤ c.toNat ∧
      ∀ d ∈ rest.take (lexerIdentifierUtf8Length text - 1), 0x80 ≤ d.toNat := by
  unfold lexerIdentifierUtf8Length at h ⊢
  cases hdecode : lexerDecodeUtf8 text with
  | none => simp [hdecode] at h
  | some r => ?_
  obtain ⟨length, codepoint⟩ := r
  obtain ⟨c, rest, bits, rfl, hc, hcont⟩ := decodeUtf8_cases hdecode
  simp only [hdecode] at h ⊢
  split at h
  · rename_i hsupported
    rw [if_pos hsupported]
    exact ⟨c, rest, rfl, hc, utf8Continuation_high hcont⟩
  · omega

/-- A word as it is kept. `skip` is what the scan still passes over: the rest of a name,
which is already rewritten, or of a character, which is copied. -/
theorem identifier_bytes (text : List Char) (skip : Nat) :
    (∀ c ∈ lexerNormalizeIdentifierSpelling skip (text.take (identifierLength skip text)), IsWordByte c) ∧
    ((∀ c ∈ text.take skip, 0x80 ≤ c.toNat) →
      ∀ c ∈ lexerNormalizeIdentifierSpelling 0 (text.take (identifierLength skip text)), IsWordByte c) := by
  induction text generalizing skip with
  | nil =>
    constructor
    · cases skip <;> simp [lexerNormalizeIdentifierSpelling]
    · simp [lexerNormalizeIdentifierSpelling]
  | cons c rest ih =>
    cases skip with
    | succ skip =>
      rw [identifierLength, List.take_succ_cons]
      constructor
      · exact (ih skip).1
      · intro hhigh
        obtain ⟨hc, hrest⟩ := List.forall_mem_cons.mp hhigh
        have hbyte : IsWordByte c := .inr hc
        rw [normalize_cons hbyte.ne_backslash]
        exact List.forall_mem_cons.mpr ⟨hbyte, (ih skip).2 hrest⟩
    | zero =>
      have hboth : ∀ c' ∈ lexerNormalizeIdentifierSpelling 0
          ((c :: rest).take (identifierLength 0 (c :: rest))), IsWordByte c' := by
        rw [identifierLength]
        split
        · rename_i hc
          have hbyte : IsWordByte c := .inl hc
          rw [List.take_succ_cons, normalize_cons hbyte.ne_backslash]
          exact List.forall_mem_cons.mpr ⟨hbyte, (ih 0).1⟩
        dsimp only
        split
        · rename_i hucn
          obtain ⟨letter, digits, text, codepoint, htext, hletter, hhex, hsupported, hlength⟩ :=
            ucn_cases hucn
          obtain ⟨rfl, rfl⟩ := List.cons.inj htext
          rw [hlength, show digits + 2 - 1 = digits + 1 by omega, List.take_succ_cons]
          have hge := identifierLength_ge (digits + 1) (letter :: text)
          have hlen := hexDigits_length hhex
          rw [List.length_cons] at hge
          obtain ⟨k, hk⟩ : ∃ k, identifierLength (digits + 1) (letter :: text) = k + 1 :=
            Nat.exists_eq_add_one_of_ne_zero (by omega)
          have hrest := (ih (digits + 1)).1
          rw [hk, List.take_succ_cons] at hrest ⊢
          rw [normalize_ucn hletter (hexDigits_take hhex (by omega))]
          refine List.forall_mem_append.mpr ⟨?_, hrest⟩
          intro d hd
          exact .inr (encodeUtf8_high (supported_range hsupported) d hd)
        split
        · rename_i hutf8
          obtain ⟨lead, text, htext, hlead, hcont⟩ := utf8_cases hutf8
          obtain ⟨rfl, rfl⟩ := List.cons.inj htext
          have hbyte : IsWordByte c := .inr hlead
          rw [List.take_succ_cons, normalize_cons hbyte.ne_backslash]
          exact List.forall_mem_cons.mpr ⟨hbyte, (ih _).2 hcont⟩
        · simp [lexerNormalizeIdentifierSpelling]
      exact ⟨hboth, fun _ => hboth⟩

theorem not_directive_of_word (h : isWordType t = true) : isDirectiveType t = false := by
  cases t <;> first
    | rfl
    | exact absurd h (by decide)

/-- A word keeps its text unless a universal character name was rewritten. -/
theorem emit_word (htype : isWordType type = true) (hmarks : marks value.toList = 0)
    (hsame : '\\' ∉ sliceOf lexer.source lexer.position stop.position →
      value.toList = sliceOf lexer.source lexer.position stop.position)
    (hbytes : ∀ c ∈ value.toList, c ∈ lexer.source ∨ c.toNat < 256) :
    SpellsToken lexer (emit stop type value start) := by
  have hnot : ∀ t, isWordType t = false → type ≠ t := by
    rintro t ht rfl
    rw [htype] at ht
    cases ht
  intro _
  rw [spellingOf_ne (hnot .hash rfl)]
  by_cases hback : '\\' ∈ sliceOf lexer.source lexer.position stop.position
  · right
    refine ⟨?_, ?_, hbytes⟩
    · rintro ⟨-, -, -, hword⟩
      exact (hword htype).1 hback
    · show marks value.toList < _
      rw [hmarks]
      exact marks_pos hback rfl
  · left
    refine ⟨⟨hnot .string rfl, hnot .charLiteral rfl, not_directive_of_word htype, ?_⟩, hsame hback⟩
    intro _
    refine ⟨hback, ?_⟩
    intro hhash
    have hpos : 0 < marks (sliceOf lexer.source lexer.position stop.position) := marks_pos hhash rfl
    rw [hsame hback] at hmarks
    omega

theorem handleIdentifierOrKeyword_spells (lexer : Lexer) :
    SpellsToken lexer (handleIdentifierOrKeyword lexer) := by
  have hbytes := (identifier_bytes lexer.rest 0).1
  have hslice : sliceOf lexer.source lexer.position
      (lexer.advance (identifierLength 0 lexer.rest)).position =
        lexer.rest.take (identifierLength 0 lexer.rest) :=
    congrArg (fun n => lexer.rest.take n) (Nat.add_sub_cancel_left lexer.position _)
  refine emit_word (identifierTokenType_isWordType _) ?_ ?_ ?_
  · rw [String.toList_ofList]
    exact List.countP_eq_zero.mpr fun c hc => by simp [(hbytes c hc).not_isMark]
  · rw [hslice, String.toList_ofList]
    exact normalize_eq
  · rw [String.toList_ofList]
    intro c hc
    refine (mem_normalize hc).imp_left fun hmem => ?_
    exact List.mem_of_mem_drop (List.mem_of_mem_take hmem)

-- Every token

theorem handleUnsupportedUcn_spells (lexer : Lexer) : SpellsToken lexer (handleUnsupportedUcn lexer) :=
  emit_reported rfl

theorem dispatchToken_spells (h : ∀ next, dispatchToken next lexer = r) :
    SpellsToken lexer r := by
  have either : ∀ {p : Prop} [Decidable p] {a b : (Lexer → Token × Lexer) → Token × Lexer},
      (p → (∀ next, a next = r) → SpellsToken lexer r) → (¬p → (∀ next, b next = r) → SpellsToken lexer r) →
      (∀ next, (if p then a next else b next) = r) → SpellsToken lexer r := by
    intro p _ a b ha hb hr
    by_cases hp : p
    · exact ha hp fun next => by simpa [hp] using hr next
    · exact hb hp fun next => by simpa [hp] using hr next
  have read : ∀ {a}, SpellsToken lexer a → (∀ _ : Lexer → Token × Lexer, a = r) → SpellsToken lexer r := by
    intro a ha hr
    rw [← hr fun stop => (default, stop)]
    exact ha
  unfold dispatchToken at h
  refine either (fun hc => read (prepend_spells (handleStringLiteral_marks 2 hc.2.2) (by decide)))
    (fun _ => ?_) h
  refine either (fun hc => read (prepend_spells (handleStringLiteral_marks 1 hc.2) (by decide))) fun _ => ?_
  refine either (fun hc => read (prepend_spells (handleCharLiteral_marks 1 hc.2) (by decide))) fun _ => ?_
  refine either (fun _ => either (fun _ => read (handleIdentifierOrKeyword_spells lexer))
    fun _ => read (handleUnsupportedUcn_spells lexer)) fun _ => ?_
  refine either (fun _ => read (handleIdentifierOrKeyword_spells lexer)) fun _ => ?_
  refine either (fun _ => read (handleNumber_spells lexer)) fun _ => ?_
  refine either (fun _ => read (handleNumber_spells lexer)) fun _ => ?_
  refine either (fun hc => read (markAmbiguous_spells (handleStringLiteral_marks 0 hc))) fun _ => ?_
  refine either (fun hc => read (literal_spells (handleCharLiteral_marks 0 hc))) fun _ => ?_
  refine either (fun hc => read (handlePreprocessorDirective_spells hc)) fun _ => ?_
  refine either (fun hc => handleComment_spells hc) fun _ => ?_
  refine either (fun _ => read (handleOperator_spells lexer)) fun _ => ?_
  exact either (fun hc => read (handlePunctuation_spells hc)) fun _ =>
    read (handleUnknownToken_spells lexer)

theorem translated_spelling (tok : Token) (cells : List (Char × List Char)) (first last : Nat) :
    translated (spellingOf tok (sliceOf cells first last)) =
      spellingOf tok (sliceOf (translated cells) first last) := by
  unfold translated spellingOf sliceOf
  split <;> simp [List.map_take, List.map_drop]

theorem mem_spelling (h : c ∈ spellingOf tok (sliceOf source first last)) : c ∈ source := by
  unfold spellingOf at h
  split at h
  · exact List.mem_of_mem_drop (List.mem_of_mem_take (List.mem_of_mem_take h))
  · exact List.mem_of_mem_drop (List.mem_of_mem_take h)

theorem lexedAs_kept_or_lost (h : LexedAs tok cells) :
    KeepsSpelling tok cells ∧ (tokenText tok).toList = writtenText cells ∨
      ¬KeepsSpelling tok cells ∧ marks (tokenText tok).toList < marks (writtenText cells) := by
  obtain ⟨start, stop, enableTrigraphs, source, hstart, -, -, hdispatch, herrors, rfl⟩ := h
  have hmem : ∀ cell ∈ spellingOf tok (sliceOf (writtenCells (spliced enableTrigraphs false source))
      start.position stop.position), cell.2 = [cell.1] ∨
        ∃ a b, digraphChar a b = some cell.1 ∧ cell.2 = [a, b] :=
    fun _ hcell => mem_writtenCells (mem_spelling hcell)
  have hcells := marks_written hmem
  generalize hspelling : spellingOf tok _ = cells at hcells ⊢
  have hread := dispatchToken_spells hdispatch herrors
  rw [hstart, ← writtenCells_chars enableTrigraphs false source, ← translated, ← translated_spelling,
    hspelling] at hread
  rcases hread with ⟨hkeeps, htext⟩ | ⟨hnot, hlt, -⟩
  · rcases hcells with ⟨hplain, hsame⟩ | ⟨hdigraph, hlt⟩
    · exact .inl ⟨⟨hkeeps, hplain⟩, htext.trans hsame.symm⟩
    · exact .inr ⟨fun h => hdigraph h.2, htext ▸ hlt⟩
  · refine .inr ⟨fun h => hnot h.1, ?_⟩
    rcases hcells with ⟨-, hsame⟩ | ⟨-, hless⟩
    · rwa [hsame]
    · exact hlt.trans hless

theorem lexedAs_bytes (h : LexedAs tok cells) : ∀ c ∈ (tokenText tok).toList, c.toNat < 256 := by
  obtain ⟨start, stop, -, -, -, hsource, -, hdispatch, herrors, -⟩ := h
  intro c hc
  rcases dispatchToken_spells hdispatch herrors with ⟨-, htext⟩ | ⟨-, -, hbytes⟩
  · exact (hsource c (mem_spelling (htext ▸ hc))).2
  · exact (hbytes c hc).elim (fun hmem => (hsource c hmem).2) id

end Fisics
