import Fisics.Syntax.ConstantTokens

/-!
# One number for `#if` and for the program

`#if` reads a constant from its token, without an eye for prefixes: `0b` and the mark of a
wide character stop it. The evaluator of the program reads the literal, and cuts a
character constant to the width of its type.
-/

namespace Fisics

open Word (read)
open BitVec (ofInt_natCast ofNat)
open CInteger (DataModel IntType)

-- The evaluator at a literal

inductive LiteralEncoding
  | narrow
  | wide
  | utf8
  deriving DecidableEq

@[grind] def astLiteralEncoding : List Char → LiteralEncoding × List Char
  | 'N' :: '|' :: payload => (.narrow, payload)
  | 'W' :: '|' :: payload => (.wide, payload)
  | 'U' :: '8' :: '|' :: payload => (.utf8, payload)
  | text => (.narrow, text)

section
variable (tl : TargetLayout)

def constEvalNumber (text : List Char) : Option ConstEvalResult :=
  (parseIntegerLiteralInfo text tl).map fun info =>
    makeConstTyped info.value info.bits info.isUnsigned

/-- `constEvalInternal` at a character constant. `wchar` is what `lookupWCharType` finds in the scope,
if there is one; what is not a number stands for its first character. -/
def constEvalCharacter (wchar : Option TypeInfo) (text : List Char) : Option ConstEvalResult :=
  let (enc, payload) := astLiteralEncoding text
  let (chVal, bits) := match parseIntegerLiteralInfo payload tl with
    | some info => (info.value, info.bits)
    | none => (BitVec.ofNat 64 (payload.headD '\x00').toNat, defaultIntBits tl)
  let intType := makeIntegerType (defaultIntBits tl) true
  let litType := if enc = .wide then wchar.getD intType else intType
  if enc = .wide ∧ 0x10FFFF < chVal.toNat then none
  else
    let bits := if litType.bitWidth = 0 then bits else litType.bitWidth
    if bits < 63 ∧ (chVal.toInt < 0 ∨ 2 ^ bits - 1 < chVal.toNat) then none
    else some (makeConstTyped chVal bits (!litType.isSigned))

def constEvalToken (wchar : Option TypeInfo) (tok : Token) : Option ConstEvalResult :=
  tok.value.bind fun text =>
    if tok.type = .charLiteral then constEvalCharacter tl wchar text.toList
    else constEvalNumber tl text.toList

end

-- Agreement

def PPValue.amount (v : PPValue) : Int := read v.isUnsigned v.bits

def ConstEvalResult.amount (r : ConstEvalResult) : Int := read r.isUnsigned r.value

/-- `#if` accepts the token and gives it the number that the program gives it. -/
def SameConstant (tl : TargetLayout) (wchar : Option TypeInfo) (tok : Token) : Prop :=
  ∃ v, parseIntegerToken tok = some v ∧
    (tok.type = .number → ∃ text info, tok.value = some text ∧
      parseIntegerLiteralInfo text.toList tl = some info ∧ v.amount = info.value.toNat) ∧
    ∃ r, constEvalToken tl wchar tok = some r ∧ v.amount = r.amount

-- Numbers

theorem LiteralRadix.exists_radix {radix : LiteralRadix} (h : radix ≠ .binary) :
    ∃ r : Radix, r.base = radix.base ∧ r.marks = radix.marks ∧ r.startOk = radix.startOk := by
  cases radix with
  | decimal => exact ⟨.decimal, rfl, rfl, by funext first; rfl⟩
  | octal => exact ⟨.octal, rfl, rfl, by funext first; rfl⟩
  | hexadecimal => exact ⟨.hexadecimal, rfl, rfl, by funext first; rfl⟩
  | binary => exact absurd rfl h

theorem unsigned_amount (h : n < 2 ^ 64) (u : Bool) :
    PPValue.amount ⟨ofNat 64 n, u || decide (2 ^ 63 ≤ n)⟩ = n := by
  refine Word.read_ofNat h fun hs => ?_
  simp only [Bool.or_eq_false_iff, decide_eq_false_iff_not] at hs
  exact Nat.lt_of_not_le hs.2

theorem makeConstTyped_amount (hpos : 0 < bits) (hle : bits ≤ 64) (hn : n < 2 ^ bits)
    (hs : u = false → n < 2 ^ (bits - 1)) :
    (makeConstTyped (ofNat 64 n) bits u).amount = n := by
  have hwide : n < 2 ^ 64 := Nat.lt_of_lt_of_le hn (Nat.pow_le_pow_right (by decide) hle)
  have hlow : (ofNat 64 n).setWidth bits = ofNat bits n := by
    rw [← ofInt_natCast, Word.setWidth_ofInt hle, ofInt_natCast]
  have hvalue : truncateToWidth (ofNat 64 n) bits u = ofNat 64 n := by
    rw [truncateToWidth_eq hpos hle, hlow, Word.read_ofNat hn hs, ofInt_natCast]
  rw [ConstEvalResult.amount, makeConstTyped, hvalue]
  refine Word.read_ofNat hwide fun hu => ?_
  exact Nat.lt_of_lt_of_le (hs hu) (Nat.pow_le_pow_right (by decide) (by omega))

namespace IntegerLiteral

theorem parseIntegerToken_amount (c : IntegerLiteral) (hradix : c.radix ≠ .binary)
    (hfits : c.value < 2 ^ 64) (hv : tok.value = some (String.ofList c.spelling)) :
    ∃ v, parseIntegerToken tok = some v ∧ v.amount = c.value := by
  obtain ⟨r, hbase, hmarks, hstart⟩ := LiteralRadix.exists_radix hradix
  have hdigits := c.digits_ok
  have hfits' := hfits
  rw [← hbase] at hdigits
  rw [value, ← hbase] at hfits'
  have hmark : c.mark ∈ r.marks := by
    rw [hmarks]
    exact c.mark_ok
  have hfirst : r.startOk c.digits.head? = true := by
    rw [hstart]
    exact c.start_ok
  refine ⟨_, parseIntegerToken_integer hmark hdigits hfirst c.suffix_ok.letters hfits' hv, ?_⟩
  rw [unsigned_amount hfits', hbase]
  rfl

theorem parseIntegerToken_mark (hx : x ∈ ['b', 'B']) (hd : d.isAlpha = false)
    (hv : tok.value = some (String.ofList ('0' :: x :: d :: rest))) : parseIntegerToken tok = none := by
  have hread : strtoull ('0' :: x :: d :: rest) = (0, x :: d :: rest, false) := by
    have hzero : lexerHexValue '0' = some 0 := by decide
    simp only [List.mem_cons, List.not_mem_nil, or_false] at hx
    rcases hx with rfl | rfl
    · have hb : lexerHexValue 'b' = some 11 := by decide
      simp [strtoull, isspace, strtoullSign, strtoullBase, strtoullDigits, hzero, hb]
    · have hb : lexerHexValue 'B' = some 11 := by decide
      simp [strtoull, isspace, strtoullSign, strtoullBase, strtoullDigits, hzero, hb]
  have hrest : ((x :: d :: rest).dropWhile Char.isAlpha).isEmpty = false := by
    simp only [List.mem_cons, List.not_mem_nil, or_false] at hx
    rcases hx with rfl | rfl <;> simp [hd]
  simp only [parseIntegerToken, hv, String.toList_ofList, hread, hrest]
  rfl

theorem not_isAlpha_of_hexValue (h : lexerHexValue c = some d) (hd : d < 10) : c.isAlpha = false := by
  have hdigit : c.isDigit = true := by
    unfold lexerHexValue at h
    split at h
    · assumption
    iterate 2
      split at h
      · have := Option.some.inj h
        omega
    · cases h
  simp only [Char.isDigit, Bool.and_eq_true, decide_eq_true_eq, UInt32.le_iff_toNat_le] at hdigit
  have hhigh : c.val.toNat ≤ 57 := hdigit.2
  simp only [isAlpha_eq, Bool.or_eq_false_iff, Bool.and_eq_false_iff,
    decide_eq_false_iff_not, UInt32.le_iff_toNat_le]
  have hupper : 'A'.val.toNat = 65 := rfl
  have hlower : 'a'.val.toNat = 97 := rfl
  omega

/-- The reader of `#if` stops at the mark of a binary literal. -/
theorem parseIntegerToken_binary (c : IntegerLiteral) (hradix : c.radix = .binary)
    (hv : tok.value = some (String.ofList c.spelling)) : parseIntegerToken tok = none := by
  obtain ⟨radix, mark, digits, suffix, hmark, hdigits, hstart, hsuffix⟩ := c
  obtain rfl : radix = .binary := hradix
  cases digits with
  | nil => simp [LiteralRadix.startOk] at hstart
  | cons d digits =>
    obtain ⟨k, hvalue, hk⟩ := hdigits d List.mem_cons_self
    have halpha := not_isAlpha_of_hexValue hvalue (Nat.lt_trans hk (by decide))
    have hmark' : mark = ['0', 'b'] ∨ mark = ['0', 'B'] := by simpa [LiteralRadix.marks] using hmark
    rcases hmark' with rfl | rfl
    · exact parseIntegerToken_mark (x := 'b') (by decide) halpha hv
    · exact parseIntegerToken_mark (x := 'B') (by decide) halpha hv

theorem constEvalNumber_cut (c : IntegerLiteral) (m : DataModel) :
    ∃ info, parseIntegerLiteralInfo c.spelling (dataLayout m) = some info ∧
      info.value = ofNat 64 (min c.value (2 ^ 64 - 1)) ∧
      (makeConstTyped info.value info.bits info.isUnsigned).amount = (min c.value (2 ^ 64 - 1) : Nat) := by
  obtain ⟨overflow, hparse⟩ := c.parse_cut (dataLayout m)
  have hn : min c.value (2 ^ 64 - 1) < 2 ^ 64 := by omega
  generalize min c.value (2 ^ 64 - 1) = n at hn hparse ⊢
  have hwidths : WidthsOk (dataLayout m) := by
    cases m
    all_goals exact widthsOk_of_le (by decide) (by decide) (by decide)
  have hwidest : LiteralFits (dataLayout m) n .ullong := by
    cases m <;> exact hn
  have hfit : LiteralFits (dataLayout m) n ((firstFit (dataLayout m) n c.tried).getD .ullong) := by
    cases hfirst : firstFit (dataLayout m) n c.tried with
    | none => exact hwidest
    | some t => exact (fits_of_firstFit hfirst).2
  have hchoose := hwidths.chooseCandidate_eq hn c.tried.dropLast .ullong
  rw [← c.tried_ends] at hchoose
  rw [c.candidates, hchoose] at hparse
  refine ⟨_, hparse, ?_, ?_⟩
  · simp only [infoAt, literalShape, literalMasked_of_lt hfit.lt_pow]
  · generalize (firstFit (dataLayout m) n c.tried).getD .ullong = t at hfit
    simp only [infoAt, literalShape, literalMasked_of_lt hfit.lt_pow]
    refine makeConstTyped_amount (literalBits_pos _ t) (hwidths t) hfit.lt_pow fun hu => ?_
    rw [LiteralFits, hu] at hfit
    exact hfit

theorem constEvalNumber_amount (c : IntegerLiteral) (m : DataModel) (hfits : c.value < 2 ^ 64) :
    ∃ info, parseIntegerLiteralInfo c.spelling (dataLayout m) = some info ∧
      info.value = ofNat 64 c.value ∧
      (makeConstTyped info.value info.bits info.isUnsigned).amount = c.value := by
  have hcut := c.constEvalNumber_cut m
  rwa [Nat.min_eq_left (by omega)] at hcut

end IntegerLiteral

-- Characters

theorem digitOf_digitChar (h : d < 10) : lexerHexValue d.digitChar = some d := by
  revert h d
  decide

theorem toDigits_head (n : Nat) (hpos : 0 < n) : (Nat.toDigits 10 n).head? ≠ some '0' := by
  induction n using Nat.strong_induction_on with
  | _ n ih =>
    by_cases hsmall : n < 10
    · rw [Nat.toDigits_of_lt_base hsmall]
      intro hzero
      have hvalue := digitOf_digitChar hsmall
      rw [Option.some.inj hzero] at hvalue
      have hn : 0 = n := Option.some.inj hvalue
      omega
    · rw [Nat.toDigits_of_base_le (by decide) (by omega)]
      have hhead := ih (n / 10) (by omega) (by omega)
      cases hdigits : Nat.toDigits 10 (n / 10) with
      | nil => exact absurd hdigits Nat.toDigits_ne_nil
      | cons d rest =>
        rw [hdigits] at hhead
        exact hhead

theorem digitsValue_toDigits (n : Nat) : digitsValue 10 (Nat.toDigits 10 n) = n := by
  induction n using Nat.strong_induction_on with
  | _ n ih =>
    have hvalue : ∀ d, d < 10 → digitOf d.digitChar = d := fun d hd => by
      rw [digitOf, digitOf_digitChar hd]
      rfl
    by_cases hsmall : n < 10
    · rw [Nat.toDigits_of_lt_base hsmall, digitsValue, List.foldl_cons, List.foldl_nil, hvalue n hsmall]
      omega
    have hrest := ih (n / 10) (by omega)
    rw [digitsValue] at hrest
    rw [Nat.toDigits_of_base_le (by decide) (by omega), digitsValue, List.foldl_append, hrest,
      List.foldl_cons, List.foldl_nil, hvalue _ (Nat.mod_lt _ (by decide))]
    omega

theorem exists_decimal (n : Nat) : ∃ c : IntegerLiteral, c.spelling = (toString n).toList ∧
    c.value = n ∧ c.radix ≠ .binary := by
  have htext : (toString n).toList = Nat.toDigits 10 n := String.toList_ofList
  by_cases hzero : n = 0
  · subst hzero
    exact ⟨⟨.octal, ['0'], [], [], by decide, List.forall_mem_nil _, rfl,
      List.forall_mem_nil _, by decide, by decide⟩, rfl, rfl, by decide⟩
  refine ⟨⟨.decimal, [], Nat.toDigits 10 n, [], by decide, ?_, ?_, List.forall_mem_nil _,
    by decide, by decide⟩, ?_, digitsValue_toDigits n, fun h => by cases h⟩
  · intro c hc
    obtain ⟨hvalue, hlt⟩ := hexValue_of_isDigit
      (Nat.isDigit_of_mem_toDigits (by decide) (Nat.le_refl 10) hc)
    exact ⟨_, hvalue, hlt⟩
  · have hhead := toDigits_head n (Nat.pos_of_ne_zero hzero)
    cases hdigits : Nat.toDigits 10 n with
    | nil => exact absurd hdigits Nat.toDigits_ne_nil
    | cons d rest =>
      rw [hdigits] at hhead
      simpa [LiteralRadix.startOk] using hhead
  · rw [htext]
    exact List.append_nil _

theorem astLiteralEncoding_digits (h : ∀ c ∈ text, Char.isDigit c = true) :
    astLiteralEncoding text = (.narrow, text) := by
  have hne : ∀ c ∈ text, c ≠ 'N' ∧ c ≠ 'W' ∧ c ≠ 'U' := by
    intro c hc
    refine ⟨?_, ?_, ?_⟩ <;>
    · rintro rfl
      exact absurd (h _ hc) (by decide)
  unfold astLiteralEncoding
  split
  · exact absurd rfl (hne _ List.mem_cons_self).1
  · exact absurd rfl (hne _ List.mem_cons_self).2.1
  · exact absurd rfl (hne _ List.mem_cons_self).2.2
  · rfl

/-- A character constant without a prefix has 32 bits: a larger number is refused, and one
from 2^31 on is negative. -/
theorem constEvalCharacter_narrow (m : DataModel) (wchar : Option TypeInfo) (hn : n < 2 ^ 64) :
    constEvalCharacter (dataLayout m) wchar (toString n).toList =
      if n < 2 ^ 32 then some (makeConstTyped (ofNat 64 n) 32 false) else none := by
  obtain ⟨c, hspelling, hvalue, -⟩ := exists_decimal n
  obtain ⟨info, hparse, hinfo, -⟩ := c.constEvalNumber_amount m (by rw [hvalue]; exact hn)
  rw [hspelling] at hparse
  rw [hvalue] at hinfo
  have henc := astLiteralEncoding_digits fun c hc => isDigit_toString (n := n) hc
  have hnat : (ofNat 64 n).toNat = n := by rw [BitVec.toNat_ofNat, Nat.mod_eq_of_lt hn]
  have hnarrow : ¬(LiteralEncoding.narrow = .wide) := by decide
  have h32 : ¬(32 = 0) := by decide
  simp only [constEvalCharacter, henc, hparse, hinfo, hnat, defaultIntBits_dataLayout, makeIntegerType,
    if_neg hnarrow, if_neg h32]
  rw [if_neg fun h => hnarrow h.1]
  by_cases hsmall : n < 2 ^ 32
  · have hint : (ofNat 64 n).toInt = n := Word.read_ofNat (u := false) hn fun _ => by omega
    rw [if_pos hsmall, if_neg (by omega)]
    rfl
  · rw [if_neg hsmall, if_pos (by omega)]

/-- The reader of `#if` does not read the mark of a wide character. -/
theorem parseIntegerToken_wide (hv : tok.value = some (characterText true n)) :
    parseIntegerToken tok = none := by
  have htext : (characterText true n).toList = 'W' :: '|' :: (toString n).toList := by
    rw [characterText, if_pos rfl, String.toList_append]
    rfl
  have hvalue : lexerHexValue 'W' = none := by decide
  simp only [parseIntegerToken, hv, htext]
  simp [strtoull, isspace, strtoullSign, strtoullBase, strtoullDigits, hvalue]

-- The tokens of the lexer

theorem sameConstant_integer (c : IntegerLiteral) (m : DataModel) (wchar : Option TypeInfo)
    (htype : tok.type = .number) (hv : tok.value = some (String.ofList c.spelling))
    (hfits : c.value < 2 ^ 64) :
    SameConstant (dataLayout m) wchar tok ↔ c.radix ≠ .binary := by
  constructor
  · rintro ⟨v, hparse, -⟩ hbinary
    rw [c.parseIntegerToken_binary hbinary hv] at hparse
    cases hparse
  · intro hradix
    obtain ⟨v, hparse, hamount⟩ := c.parseIntegerToken_amount hradix hfits hv
    obtain ⟨info, hinfo, hvalue, hconst⟩ := c.constEvalNumber_amount m hfits
    refine ⟨v, hparse, fun _ => ⟨_, info, hv, ?_, ?_⟩, _, ?_, hamount.trans hconst.symm⟩
    · rw [String.toList_ofList]
      exact hinfo
    · rw [hamount, hvalue, BitVec.toNat_ofNat, Nat.mod_eq_of_lt hfits]
    · have hnot : tok.type ≠ .charLiteral := by
        rw [htype]
        decide
      simp only [constEvalToken, hv, Option.bind_some, if_neg hnot, String.toList_ofList,
        constEvalNumber, hinfo, Option.map_some]

theorem makeConstTyped_int_lt (n : Nat) :
    (makeConstTyped (ofNat 64 n) 32 false).amount < 2 ^ 31 := by
  have hvalue := truncate_ofInt .lp64 .int n
  have hholds := IntType.int.wrap_holds .lp64 n
  have hread : (makeConstTyped (ofNat 64 n) 32 false).amount =
      Word.wrap (IntType.int.bits .lp64) IntType.int.isUnsigned n := by
    rw [← read_ofInt hholds, ← hvalue]
    rfl
  rw [hread]
  exact hholds.2

theorem sameConstant_character (m : DataModel) (wchar : Option TypeInfo) (wide : Bool)
    (htype : tok.type = .charLiteral) (hn : n < 2 ^ 64)
    (hv : tok.value = some (characterText wide n)) :
    SameConstant (dataLayout m) wchar tok ↔ wide = false ∧ n < 2 ^ 31 := by
  cases wide with
  | true =>
    refine iff_of_false ?_ fun h => Bool.false_ne_true h.1.symm
    rintro ⟨v, hparse, -⟩
    rw [parseIntegerToken_wide hv] at hparse
    cases hparse
  | false =>
    have htext : characterText false n = toString n := by simp [characterText]
    obtain ⟨c, hspelling, hvalue, hradix⟩ := exists_decimal n
    have hv' : tok.value = some (String.ofList c.spelling) := by
      rw [hspelling, String.ofList_toList, hv, htext]
    obtain ⟨v, hparse, hamount⟩ := c.parseIntegerToken_amount hradix (by rw [hvalue]; exact hn) hv'
    have heval : constEvalToken (dataLayout m) wchar tok =
        if n < 2 ^ 32 then some (makeConstTyped (ofNat 64 n) 32 false) else none := by
      simp only [constEvalToken, hv, htext, Option.bind_some, if_pos htype]
      exact constEvalCharacter_narrow m wchar hn
    rw [hvalue] at hamount
    constructor
    · rintro ⟨v', hparse', -, r, hr, hsame⟩
      obtain rfl := Option.some.inj (hparse.symm.trans hparse')
      refine ⟨rfl, ?_⟩
      rw [heval] at hr
      split at hr
      · cases hr
        have hlow := makeConstTyped_int_lt n
        rw [← hsame, hamount] at hlow
        exact_mod_cast hlow
      · cases hr
    · rintro ⟨-, hsmall⟩
      refine ⟨v, hparse, fun h => ?_, _, heval.trans (if_pos (by omega)), ?_⟩
      · rw [htype] at h
        cases h
      · rw [hamount, makeConstTyped_amount (by decide) (by decide) (by omega) fun _ => hsmall]

/-- A constant of the lexer whose number fits 64 bits has one number for `#if` and for the program,
unless it is binary, marked as wide or a character constant that is no `int`. -/
theorem parseIntegerToken_agrees_iff (m : DataModel) (wchar : Option TypeInfo) (lexer : Lexer) :
    ((getNextToken lexer).1.type = .number → ∃ c : IntegerLiteral,
      (getNextToken lexer).1.value = some (String.ofList c.spelling) ∧
      (c.value < 2 ^ 64 → (SameConstant (dataLayout m) wchar (getNextToken lexer).1 ↔ c.radix ≠ .binary))) ∧
    ((getNextToken lexer).1.type = .charLiteral → ∃ wide n, n < 2 ^ 64 ∧
      (getNextToken lexer).1.value = some (characterText wide n) ∧
      (SameConstant (dataLayout m) wchar (getNextToken lexer).1 ↔ wide = false ∧ n < 2 ^ 31)) := by
  obtain ⟨hnumber, hcharacter⟩ := constant_rule.getNextToken lexer
  constructor
  · intro htype
    obtain ⟨c, hvalue⟩ := hnumber htype
    exact ⟨c, hvalue, fun hfits => sameConstant_integer c m wchar htype hvalue hfits⟩
  · intro htype
    obtain ⟨wide, n, hn, hvalue⟩ := hcharacter htype
    exact ⟨wide, n, hn, hvalue, sameConstant_character m wchar wide htype hn hvalue⟩

/-- `#if` does not take the binary literal, which is the number 1. -/
theorem binaryOne_refused :
    (getNextToken (initLexer "0b1".toList none false)).1.type = .number ∧
      ¬SameConstant (dataLayout .lp64) none (getNextToken (initLexer "0b1".toList none false)).1 := by
  have hvalue : (getNextToken (initLexer "0b1".toList none false)).1.value = some "0b1" := by decide
  refine ⟨by decide, ?_⟩
  rintro ⟨v, hparse, -⟩
  cases hparse

end Fisics
