import Fisics.Lexer.IdentifierSpelling
import Fisics.Syntax.ConstEvalCorrect
import Fisics.Syntax.LiteralTyping

/-!
# Constants before and after preprocessing

The number of a constant is read twice: in `#if` from the text of its token, and in the
program from its literal. A token of the lexer is a literal of some radix, or the
decimal number of a character constant, which a prefix marks as wide.
-/

namespace Fisics

open Char (isDigit)

-- The tokens of numbers

def IntegerToken (tok : Token) : Prop :=
  ∃ c : IntegerLiteral, tok.value = some (String.ofList c.spelling)

theorem hexValue_of_isDigit (h : c.isDigit = true) :
    lexerHexValue c = some (c.toNat - 48) ∧ c.toNat - 48 < 10 := by
  have hrange := h
  simp only [isDigit, Bool.and_eq_true, decide_eq_true_eq, UInt32.le_iff_toNat_le] at hrange
  have hhigh : c.toNat ≤ 57 := hrange.2
  refine ⟨?_, by omega⟩
  unfold lexerHexValue
  rw [if_pos h]
  rfl

theorem hexValue_of_isxdigit (h : isxdigit c = true) : ∃ d, lexerHexValue c = some d ∧ d < 16 := by
  have hsome : (lexerHexValue c).isSome = true := by
    unfold lexerHexValue
    split
    · rfl
    rename_i hdigit
    simp only [isxdigit, hdigit, Bool.false_or, Bool.or_eq_true, Bool.and_eq_true, decide_eq_true_eq] at h
    split
    · rfl
    rename_i hlower
    rw [if_pos (h.resolve_left hlower)]
    rfl
  obtain ⟨d, hd⟩ := Option.isSome_iff_exists.mp hsome
  exact ⟨d, hd, lexerHexValue_lt hd⟩

theorem suffixLength_ok (h : (suffixLength seenU lCount text).2 = false) (hcount : lCount ≤ 2) :
    let suffix := text.take (suffixLength seenU lCount text).1
    (∀ c ∈ suffix, c ∈ ['u', 'U', 'l', 'L']) ∧
      suffix.countP isU + (if seenU then 1 else 0) ≤ 1 ∧ suffix.countP isL + lCount ≤ 2 := by
  induction text generalizing seenU lCount with
  | nil => cases seenU <;> simp [suffixLength, hcount]
  | cons c text ih =>
    rw [suffixLength] at h ⊢
    by_cases hu : c = 'u' ∨ c = 'U'
    · rw [if_pos hu] at h ⊢
      have hisU : isU c = true := by simpa [isU] using hu
      have hisL : isL c = false := by rcases hu with rfl | rfl <;> rfl
      have hletter : c ∈ ['u', 'U', 'l', 'L'] := by rcases hu with rfl | rfl <;> decide
      cases seenU with
      | true => simp [hcount]
      | false =>
        obtain ⟨hletters, hus, hls⟩ := ih h hcount
        refine ⟨List.forall_mem_cons.mpr ⟨hletter, hletters⟩, ?_, ?_⟩
        · simpa [List.countP_cons, hisU] using hus
        · simpa [List.countP_cons, hisL] using hls
    · rw [if_neg hu] at h ⊢
      have hisU : isU c = false := by simpa [isU] using hu
      by_cases hl : c = 'l' ∨ c = 'L'
      · rw [if_pos hl] at h ⊢
        have hisL : isL c = true := by simpa [isL] using hl
        have hletter : c ∈ ['u', 'U', 'l', 'L'] := by rcases hl with rfl | rfl <;> decide
        by_cases htwo : 2 ≤ lCount
        · rw [if_pos htwo]
          cases seenU <;> simp [hcount]
        rw [if_neg htwo] at h ⊢
        obtain ⟨hletters, hus, hls⟩ := ih h (by omega)
        rw [List.take_succ_cons]
        refine ⟨List.forall_mem_cons.mpr ⟨hletter, hletters⟩, ?_, ?_⟩
        · simpa [List.countP_cons, hisU] using hus
        · rw [List.countP_cons, if_pos hisL]
          omega
      · rw [if_neg hl] at h ⊢
        split at h
        · cases h
        rename_i hother
        rw [if_neg hother]
        cases seenU <;> simp [hcount]

theorem finishNumber_number (h : (finishNumber scan start).1.type = .number) :
    numberError scan = none ∧ scan.type = .number ∧
      (finishNumber scan start).1.value = some (scan.lexer.textFrom start.position) := by
  unfold finishNumber at h ⊢
  cases herror : numberError scan with
  | some message =>
    rw [herror] at h
    cases h
  | none =>
    rw [herror] at h
    exact ⟨rfl, h, rfl⟩

def ScannedDigits (lexer : Lexer) (scan : NumberScan) : Prop :=
  ∃ (radix : LiteralRadix) (mark digits : List Char), mark ∈ radix.marks ∧
    (∀ c ∈ digits, ∃ d, lexerHexValue c = some d ∧ d < radix.base) ∧
    radix.startOk digits.head? = true ∧ scan.lexer = lexer.advance (mark ++ digits).length ∧
    lexer.rest.take (mark ++ digits).length = mark ++ digits

structure DigitsAccepted (scan : NumberScan) : Prop where
  hex : scan.isHex = true → scan.radixDigits ≠ 0
  binary : scan.isBinary = true → scan.radixDigits ≠ 0 ∧ scan.invalidBinaryDigit = false
  octal : scan.isHex = false → scan.isBinary = false → scan.invalidOctalDigit = false

theorem digitsAccepted (h : numberError scan = none) (htype : scan.type = .number)
    (hfraction : scan.sawFraction = false) (hexp : scan.sawExp = false) : DigitsAccepted scan := by
  have hnext : ∀ {p : Prop} [Decidable p] {message : String} {rest : Option String},
      (if p then some message else rest) = none → ¬p ∧ rest = none := by
    intro p _ message rest hnone
    split at hnone
    · cases hnone
    · exact ⟨‹_›, hnone⟩
  obtain ⟨-, h⟩ := hnext h
  obtain ⟨hinvalid, h⟩ := hnext h
  obtain ⟨hempty, h⟩ := hnext h
  obtain ⟨hoctal, h⟩ := hnext h
  obtain ⟨hhex, -⟩ := hnext h
  simp only [hfraction, hexp, htype, Bool.not_false, Bool.and_true, beq_self_eq_true] at hoctal hhex
  refine ⟨?_, ?_, ?_⟩
  · intro hx hzero
    simp [hx, hzero] at hhex
  · intro hb
    simp only [hb, Bool.true_and, Bool.not_eq_true, beq_eq_false_iff_ne] at hinvalid hempty
    exact ⟨hempty, hinvalid⟩
  · intro hx hb
    simpa [hx, hb] using hoctal

theorem takeWhile_take (p : Char → Bool) (text : List Char) :
    text.take (text.takeWhile p).length = text.takeWhile p :=
  (List.prefix_iff_eq_take.mp (List.takeWhile_prefix p)).symm

theorem forall_mem_takeWhile {text : List Char} (h : c ∈ text.takeWhile p) : p c = true :=
  List.all_eq_true.mp List.all_takeWhile c h

theorem rest_of_peek {lexer : Lexer} (hcur : lexer.cur = '0') (hpeek : lexer.peek 1 = x)
    (hx : x ≠ '\x00') : lexer.rest = '0' :: x :: lexer.rest.drop 2 := by
  have hsecond : (lexer.advance 1).cur = x := hpeek
  have hnext := rest_of_cur hsecond hx
  rw [rest_advance, List.drop_drop] at hnext
  rw [rest_of_cur hcur (by decide), hnext]
  rfl

theorem scannedDigits_mark (radix : LiteralRadix) (hmark : ['0', x] ∈ radix.marks)
    (hstart : ∀ c, radix.startOk (some c) = true)
    (hdigits : ∀ c, p c = true → ∃ d, lexerHexValue c = some d ∧ d < radix.base)
    (hrest : lexer.rest = '0' :: x :: lexer.rest.drop 2)
    (hne : (lexer.rest.drop 2).takeWhile p ≠ [])
    (hlexer : scan.lexer = (lexer.advance 2).skipWhile p) : ScannedDigits lexer scan := by
  refine ⟨radix, ['0', x], (lexer.rest.drop 2).takeWhile p, hmark,
    fun c hc => hdigits c (forall_mem_takeWhile hc), ?_, ?_, ?_⟩
  · obtain ⟨c, rest, hc⟩ := List.exists_cons_of_ne_nil hne
    rw [hc]
    exact hstart c
  · rw [hlexer, Lexer.skipWhile, rest_advance, List.length_append, Nat.add_comm]
    simp only [Lexer.advance, List.length_cons, List.length_nil]
    congr 1
    omega
  · rw [List.cons_append, List.cons_append, List.nil_append, List.length_cons, List.length_cons, hrest,
      List.take_succ_cons, List.take_succ_cons]
    exact congrArg (fun text => '0' :: x :: text) (takeWhile_take p _)

theorem binaryDigit (h : (c == '0' || c == '1') = true) : ∃ d, lexerHexValue c = some d ∧ d < 2 := by
  simp only [Bool.or_eq_true, beq_iff_eq] at h
  rcases h with rfl | rfl
  · exact ⟨0, by decide, by decide⟩
  · exact ⟨1, by decide, by decide⟩

theorem scannedDigits_plain (hdigit : Lexer.cur lexer = d) (h : d.isDigit = true)
    (hoctal : (d == '0' && (lexer.rest.takeWhile isDigit).any (fun c => c == '8' || c == '9')) = false)
    (hlexer : scan.lexer = lexer.skipWhile isDigit) : ScannedDigits lexer scan := by
  have hd : d ≠ '\x00' := by
    rintro rfl
    cases h
  have hrest := rest_of_cur hdigit hd
  have hdigits : lexer.rest.takeWhile isDigit =
      d :: (lexer.rest.drop 1).takeWhile isDigit := by
    rw [hrest, List.takeWhile_cons_of_pos h]
    rfl
  by_cases hzero : d = '0'
  · subst hzero
    refine ⟨.octal, ['0'], (lexer.rest.drop 1).takeWhile isDigit, by decide, ?_, rfl, ?_, ?_⟩
    · intro c hc
      obtain ⟨hvalue, hlt⟩ := hexValue_of_isDigit (forall_mem_takeWhile hc)
      rw [hdigits, beq_self_eq_true, Bool.true_and, List.any_cons, Bool.or_eq_false_iff] at hoctal
      have hlow := List.any_eq_false.mp hoctal.2 c hc
      simp only [Bool.or_eq_true, beq_iff_eq, not_or] at hlow
      have height : c.toNat ≠ 56 := fun heq => hlow.1 (by rw [← Char.ofNat_toNat c, heq])
      have hnine : c.toNat ≠ 57 := fun heq => hlow.2 (by rw [← Char.ofNat_toNat c, heq])
      exact ⟨_, hvalue, by show c.toNat - 48 < 8; omega⟩
    · rw [hlexer, Lexer.skipWhile, hdigits]
      rfl
    · rw [List.singleton_append, ← hdigits]
      exact takeWhile_take isDigit lexer.rest
  · refine ⟨.decimal, [], lexer.rest.takeWhile isDigit, by decide, ?_, ?_, hlexer, ?_⟩
    · intro c hc
      obtain ⟨hvalue, hlt⟩ := hexValue_of_isDigit (forall_mem_takeWhile hc)
      exact ⟨_, hvalue, hlt⟩
    · rw [hdigits]
      simpa [LiteralRadix.startOk] using hzero
    · exact takeWhile_take isDigit lexer.rest

theorem scanRadix_digits (hdigit : lexer.cur.isDigit = true) (h : DigitsAccepted (scanRadix lexer)) :
    ScannedDigits lexer (scanRadix lexer) := by
  have hcount : ∀ p : Char → Bool,
      ((lexer.advance 2).skipWhile p).position - (lexer.advance 2).position ≠ 0 →
      (lexer.rest.drop 2).takeWhile p ≠ [] := by
    intro p hne hnil
    refine hne ?_
    rw [Lexer.skipWhile, rest_advance, hnil]
    exact Nat.sub_self _
  unfold scanRadix at h ⊢
  split at h
  · rename_i hx
    rw [if_pos hx]
    have hmark : ∀ x, lexer.peek 1 = x → x = 'x' ∨ x = 'X' →
        lexer.rest = '0' :: x :: lexer.rest.drop 2 ∧ ['0', x] ∈ LiteralRadix.hexadecimal.marks := by
      rintro x hpeek (rfl | rfl)
      all_goals exact ⟨rest_of_peek hx.1 hpeek (by decide), by decide⟩
    obtain ⟨hrest, hmem⟩ := hmark _ rfl hx.2
    exact scannedDigits_mark .hexadecimal hmem (fun c => rfl) (fun c hc => hexValue_of_isxdigit hc) hrest
      (hcount isxdigit (h.hex rfl)) rfl
  · rename_i hx
    rw [if_neg hx]
    split at h
    · rename_i hb
      rw [if_pos hb]
      have hmark : ∀ x, lexer.peek 1 = x → x = 'b' ∨ x = 'B' →
          lexer.rest = '0' :: x :: lexer.rest.drop 2 ∧ ['0', x] ∈ LiteralRadix.binary.marks := by
        rintro x hpeek (rfl | rfl)
        all_goals exact ⟨rest_of_peek hb.1 hpeek (by decide), by decide⟩
      obtain ⟨hrest, hmem⟩ := hmark _ rfl hb.2
      obtain ⟨hne, hvalid⟩ := h.binary rfl
      have hstop : ∀ stop : Lexer, (stop.position != (stop.skipWhile isDigit).position) = false →
          stop.skipWhile isDigit = stop := by
        intro stop hposition
        have hzero : (stop.rest.takeWhile isDigit).length = 0 := by
          simpa [Lexer.skipWhile, Lexer.advance] using hposition
        rw [Lexer.skipWhile, hzero]
        rfl
      exact scannedDigits_mark .binary hmem (fun c => rfl) (fun c hc => binaryDigit hc) hrest
        (hcount _ hne) (hstop _ hvalid)
    · rename_i hb
      rw [if_neg hb]
      have hoctal := h.octal rfl rfl
      have htake : (lexer.source.drop lexer.position).take
          ((lexer.skipWhile isDigit).position - lexer.position) =
            lexer.rest.takeWhile isDigit := by
        rw [Lexer.skipWhile, Lexer.advance, Nat.add_sub_cancel_left]
        exact takeWhile_take isDigit lexer.rest
      dsimp only at hoctal
      rw [htake] at hoctal
      exact scannedDigits_plain rfl hdigit hoctal rfl

theorem scanRadix_plain (lexer : Lexer) :
    (scanRadix lexer).type = .number ∧ (scanRadix lexer).sawFraction = false ∧
      (scanRadix lexer).sawExp = false := by
  unfold scanRadix
  split
  · exact ⟨rfl, rfl, rfl⟩
  · split <;> exact ⟨rfl, rfl, rfl⟩

theorem scanFraction_integer (h : (scanFraction scan).type = .number) :
    scan.lexer.cur ≠ '.' ∧ scanFraction scan = scan := by
  unfold scanFraction at h ⊢
  split at h
  · cases h
  rename_i hdot
  exact ⟨hdot, if_neg hdot⟩

theorem scanExponent_float (h : (scanExponent scan).2 = true) :
    (scanExponent scan).1.type = .floatLiteral := by
  unfold scanExponent at h ⊢
  dsimp only at h ⊢
  generalize (if (scan.lexer.advance 1).cur = '+' ∨ (scan.lexer.advance 1).cur = '-'
    then (scan.lexer.advance 1).advance 1 else scan.lexer.advance 1) = digits at h ⊢
  by_cases hdigits : (digits.skipWhile isDigit).position = digits.position
  · rw [if_pos hdigits] at h
    cases h
  · rw [if_neg hdigits]

theorem scanSuffix_integer (h : (scanSuffix scan).type = .number) :
    (suffixLength false 0 scan.lexer.rest).2 = false ∧ scan.type = .number := by
  simp only [scanSuffix] at h
  split at h
  · cases h
  rename_i hsuffix
  exact ⟨by simpa using hsuffix, h⟩

theorem scanRadix_dot (hdot : lexer.cur = '.') : (scanRadix lexer).lexer.cur = '.' := by
  have hzero : ¬lexer.cur = '0' := by
    rw [hdot]
    decide
  have hrest := rest_of_cur hdot (by decide)
  have hnone : lexer.rest.takeWhile isDigit = [] := by
    rw [hrest]
    rfl
  unfold scanRadix
  rw [if_neg fun h => hzero h.1, if_neg fun h => hzero h.1, Lexer.skipWhile, hnone]
  exact hdot

theorem handleNumber_integer (hstart : lexer.cur.isDigit = true ∨ lexer.cur = '.')
    (h : (handleNumber lexer).1.type = .number) : IntegerToken (handleNumber lexer).1 := by
  obtain ⟨hnumber, hnofraction, hnoexp⟩ := scanRadix_plain lexer
  unfold handleNumber at h ⊢
  dsimp only at h ⊢
  split at h
  · -- an exponent makes it a floating literal, or is rejected
    split at h
    · rename_i hexponent
      obtain ⟨-, htype, -⟩ := finishNumber_number h
      have hfloat := (scanSuffix_integer htype).2
      rw [scanExponent_float hexponent] at hfloat
      cases hfloat
    · cases h
  · rename_i hexp
    rw [if_neg hexp]
    obtain ⟨hnone, htype, hvalue⟩ := finishNumber_number h
    obtain ⟨hsuffix, hplain⟩ := scanSuffix_integer htype
    obtain ⟨hdot, hfraction⟩ := scanFraction_integer hplain
    rw [hfraction] at hnone htype hvalue hsuffix ⊢
    have hdigit : lexer.cur.isDigit = true :=
      hstart.resolve_right fun hcur => hdot (scanRadix_dot hcur)
    have haccepted := digitsAccepted hnone htype hnofraction hnoexp
    obtain ⟨radix, mark, digits, hmark, hdigits, hfirst, hlexer, hrest⟩ :=
      scanRadix_digits hdigit ⟨haccepted.hex, haccepted.binary, haccepted.octal⟩
    obtain ⟨hletters, hus, hls⟩ := suffixLength_ok hsuffix (Nat.zero_le 2)
    have hstop : ∀ k n : Nat, (lexer.advance k).advance n = lexer.advance (k + n) := fun k n =>
      congrArg (fun position => { lexer with position }) (Nat.add_assoc ..)
    refine ⟨⟨radix, mark, digits, _, hmark, hdigits, hfirst,
      hletters, by simpa using hus, by simpa using hls⟩, ?_⟩
    calc _ = some ((scanSuffix (scanRadix lexer)).lexer.textFrom lexer.position) := hvalue
      _ = _ := by
        simp only [scanSuffix, hlexer, IntegerLiteral.spelling]
        rw [hstop, textFrom_advance, List.take_add, hrest, rest_advance]

-- The tokens of character constants

def characterText (wide : Bool) (n : Nat) : String := (if wide then "W|" else "") ++ toString n

def CharacterToken (tok : Token) : Prop :=
  ∃ wide n, n < 2 ^ 64 ∧ tok.value = some (characterText wide n)

theorem CharValue.push_accum (v : CharValue) (value : Int) : (v.push value).accum < 2 ^ 64 := by
  unfold CharValue.push
  dsimp only
  split
  · omega
  · exact Nat.mod_lt _ (by decide)

theorem charScan_accum (h : v.accum < 2 ^ 64) (skip : Nat) (text : List Char) :
    (charScan skip v text).2.2.accum < 2 ^ 64 := by
  fun_induction charScan skip v text with
  | case1 | case3 | case4 | case5 => exact h
  | case2 =>
    rename_i ih
    exact ih h
  | case6 | case7 =>
    rename_i ih
    exact ih (CharValue.push_accum _ _)

theorem handleCharLiteral_character (lexer : Lexer) :
    (handleCharLiteral lexer).1.type = .charLiteral →
      ∃ n, n < 2 ^ 64 ∧ (handleCharLiteral lexer).1.value = some (toString n) := by
  have haccum := charScan_accum (v := ⟨0, 0, 0⟩) (by decide) 0 (lexer.advance 1).rest
  have hfinal : (charScan 0 ⟨0, 0, 0⟩ (lexer.advance 1).rest).2.2.final < 2 ^ 64 := by
    unfold CharValue.final
    split
    · omega
    · exact haccum
  unfold handleCharLiteral
  dsimp only
  split
  · split
    · rintro ⟨⟩
    · exact fun _ => ⟨_, hfinal, rfl⟩
  all_goals rintro ⟨⟩

-- The tokens of the lexer

def ConstantToken (tok : Token) : Prop :=
  (tok.type = .number → IntegerToken tok) ∧ (tok.type = .charLiteral → CharacterToken tok)

theorem constantToken_of_ne (hn : tok.type ≠ .number) (hc : tok.type ≠ .charLiteral) :
    ConstantToken tok := ⟨fun h => absurd h hn, fun h => absurd h hc⟩

theorem punctuationToken_type (h : punctuationToken c d e = some (type, text)) :
    type ≠ .number ∧ type ≠ .charLiteral := by
  unfold punctuationToken at h
  split at h
  all_goals repeat' split at h
  all_goals cases h
  all_goals decide

theorem handlePunctuation_constant (lexer : Lexer) : ConstantToken (handlePunctuation lexer).1 := by
  unfold handlePunctuation
  split
  · rename_i h
    exact constantToken_of_ne (punctuationToken_type h).1 (punctuationToken_type h).2
  · exact constantToken_of_ne (by rintro ⟨⟩) (by rintro ⟨⟩)

theorem constant_rule : TokenRule ConstantToken where
  word _ := constantToken_of_ne (identifierTokenType_not _ rfl) (identifierTokenType_not _ rfl)
  ucn _ := constantToken_of_ne (by rintro ⟨⟩) (by rintro ⟨⟩)
  number lexer hstart :=
    ⟨handleNumber_integer hstart, fun h => absurd h (ne_of_types (handleNumber_type lexer) (by decide))⟩
  string lexer tag := by
    rcases handleStringLiteral_type lexer with h | h <;>
      exact constantToken_of_ne (by simp [prependLiteralPrefix, h]) (by simp [prependLiteralPrefix, h])
  narrow lexer := by
    have htype := markAmbiguousNarrowStringLiteral_type (handleStringLiteral lexer).1
    rcases handleStringLiteral_type lexer with h | h <;>
      exact constantToken_of_ne (by simp [htype, h]) (by simp [htype, h])
  character lexer := by
    refine ⟨?_, fun htype => ?_⟩
    · rcases handleCharLiteral_type lexer with h | h <;> simp [h]
    · obtain ⟨n, hn, hvalue⟩ := handleCharLiteral_character lexer htype
      exact ⟨false, n, hn, by rw [hvalue, characterText]; simp⟩
  wide lexer := by
    refine ⟨?_, fun htype => ?_⟩
    · rcases handleCharLiteral_type lexer with h | h <;> simp [prependLiteralPrefix, h]
    · obtain ⟨n, hn, hvalue⟩ := handleCharLiteral_character lexer htype
      exact ⟨true, n, hn, by rw [prependLiteralPrefix, hvalue, characterText]; rfl⟩
  directive lexer :=
    constantToken_of_ne (ne_of_types (handlePreprocessorDirective_type lexer) (by decide))
      (ne_of_types (handlePreprocessorDirective_type lexer) (by decide))
  operator lexer :=
    constantToken_of_ne (fun h => handleOperator_type lexer (h ▸ by decide))
      (fun h => handleOperator_type lexer (h ▸ by decide))
  punctuation := handlePunctuation_constant
  unknown lexer :=
    constantToken_of_ne (by rw [handleUnknownToken_type]; rintro ⟨⟩)
      (by rw [handleUnknownToken_type]; rintro ⟨⟩)
  other _ _ _ _ htype :=
    constantToken_of_ne (ne_of_types htype (by decide)) (ne_of_types htype (by decide))

end Fisics
