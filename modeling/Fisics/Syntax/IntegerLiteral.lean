import Fisics.Preprocessor.ExprParse
import Fisics.Library.CInteger
import Fisics.Syntax.TargetLayout

/-!
# Integer literals

`parse_integer_literal_info` reads the digits, counts the suffix letters and takes
the first type of a list that has room for the value. The lists are those of C
but for one: a hexadecimal or octal constant with the suffix `l` is not tried as an
`unsigned long`.
-/

namespace Fisics

open CInteger (DataModel IntType)

structure IntegerLiteralInfo where
  overflow : Bool
  bits : Nat
  isUnsigned : Bool
  value : BitVec 64
  deriving DecidableEq, Inhabited

def maxUnsignedForBits (bits : Nat) : Nat :=
  if bits = 0 ∨ 64 ≤ bits then 2 ^ 64 - 1 else 2 ^ bits - 1

def maxSignedForBits (bits : Nat) : Nat :=
  if bits = 0 ∨ 64 ≤ bits then 2 ^ 63 - 1 else 2 ^ (bits - 1) - 1

def fitsInBits (value bits : Nat) (isUnsigned : Bool) : Bool :=
  if isUnsigned then value ≤ maxUnsignedForBits bits else value ≤ maxSignedForBits bits

def literalBase : List Char → Nat × List Char
  | '0' :: 'x' :: rest => (16, rest)
  | '0' :: 'X' :: rest => (16, rest)
  | '0' :: 'b' :: rest => (2, rest)
  | '0' :: 'B' :: rest => (2, rest)
  | '0' :: rest => (8, '0' :: rest)
  | text => (10, text)

/-- `strtoull` in the base 16 takes a second `0x`. -/
def skipHexMark (base : Nat) : List Char → List Char
  | '0' :: x :: d :: rest =>
    if base = 16 ∧ (x = 'x' ∨ x = 'X') ∧ isxdigit d then d :: rest else '0' :: x :: d :: rest
  | text => text

/-- `strtoull(text, &end, base)` as `strtoull`; no digits is `none`. -/
def strtoullIn (base : Nat) (text : List Char) : Option (Nat × List Char × Bool) :=
  let (negative, unsigned) := strtoullSign (text.dropWhile isspace)
  let digits := skipHexMark base unsigned
  let (value, rest) := strtoullDigits base 0 digits
  if rest.length = digits.length then none
  else if 2 ^ 64 ≤ value then some (2 ^ 64 - 1, rest, true)
  else some (if negative then (2 ^ 64 - value) % 2 ^ 64 else value, rest, false)

/-- The letters behind the digits: whether there is a `u`, and how many `l`. -/
def literalSuffix (hasU : Bool) (lCount : Nat) : List Char → Option (Bool × Nat)
  | [] => some (hasU, min lCount 2)
  | c :: rest =>
    if c = 'u' ∨ c = 'U' then if hasU then none else literalSuffix true lCount rest
    else if c = 'l' ∨ c = 'L' then literalSuffix hasU (lCount + 1) rest
    else none

def literalCandidates (tl : TargetLayout) (base : Nat) (hasU : Bool) (lCount : Nat) :
    List (Nat × Bool) :=
  let intBits := if tl.intBits = 0 then 32 else tl.intBits
  let longBits := if tl.longBits = 0 then 64 else tl.longBits
  let longLongBits := if tl.longLongBits = 0 then 64 else tl.longLongBits
  if hasU then
    if 2 ≤ lCount then [(longLongBits, true)]
    else if lCount = 1 then [(longBits, true), (longLongBits, true)]
    else [(intBits, true), (longBits, true), (longLongBits, true)]
  else if 2 ≤ lCount then [(longLongBits, false), (longLongBits, true)]
  else if lCount = 1 then [(longBits, false), (longLongBits, false), (longLongBits, true)]
  else if base = 10 then
    [(intBits, false), (longBits, false), (longLongBits, false), (longLongBits, true)]
  else
    [(intBits, false), (intBits, true), (longBits, false), (longBits, true),
      (longLongBits, false), (longLongBits, true)]

def chooseCandidate (raw : Nat) : List (Nat × Bool) → Nat × Bool
  | [] => (0, false)
  | [candidate] => candidate
  | candidate :: rest =>
    if fitsInBits raw candidate.1 candidate.2 then candidate else chooseCandidate raw rest

def literalMasked (raw bits : Nat) (isUnsigned negative : Bool) : Nat :=
  if 0 < bits ∧ bits < 64 then
    let masked := raw % 2 ^ bits
    if !isUnsigned && negative then (2 ^ bits - masked) % 2 ^ bits else masked
  else if negative then (2 ^ 64 - raw) % 2 ^ 64
  else raw

def parseIntegerLiteralInfo (text : List Char) (tl : TargetLayout) : Option IntegerLiteralInfo :=
  let (negative, text) := strtoullSign text
  let (base, digits) := literalBase text
  (strtoullIn base digits).bind fun (raw, rest, range) =>
    (literalSuffix false 0 rest).map fun (hasU, lCount) =>
      let (bits, isUnsigned) := chooseCandidate raw (literalCandidates tl base hasU lCount)
      ⟨range || !fitsInBits raw bits isUnsigned, bits, isUnsigned,
        BitVec.ofNat 64 (literalMasked raw bits isUnsigned negative)⟩

-- Literals

inductive LiteralRadix
  | decimal
  | octal
  | hexadecimal
  | binary
  deriving DecidableEq

def LiteralRadix.base : LiteralRadix → Nat
  | .decimal => 10
  | .octal => 8
  | .hexadecimal => 16
  | .binary => 2

def LiteralRadix.marks : LiteralRadix → List (List Char)
  | .decimal => [[]]
  | .octal => [['0']]
  | .hexadecimal => [['0', 'x'], ['0', 'X']]
  | .binary => [['0', 'b'], ['0', 'B']]

def LiteralRadix.startOk : LiteralRadix → Option Char → Bool
  | .decimal, first => first.isSome && first != some '0'
  | .octal, _ => true
  | .hexadecimal, first => first.isSome
  | .binary, first => first.isSome

def isU (c : Char) : Bool := c == 'u' || c == 'U'

def isL (c : Char) : Bool := c == 'l' || c == 'L'

/-- At most one `u` and two `l`, in any order. -/
structure SuffixOk (suffix : List Char) : Prop where
  letters : ∀ c ∈ suffix, c ∈ ['u', 'U', 'l', 'L']
  oneU : suffix.countP isU ≤ 1
  twoL : suffix.countP isL ≤ 2

structure IntegerLiteral where
  radix : LiteralRadix
  mark : List Char
  digits : List Char
  suffix : List Char
  mark_ok : mark ∈ radix.marks
  digits_ok : ∀ c ∈ digits, ∃ d, lexerHexValue c = some d ∧ d < radix.base
  start_ok : radix.startOk digits.head? = true
  suffix_ok : SuffixOk suffix

namespace IntegerLiteral

def value (c : IntegerLiteral) : Nat := digitsValue c.radix.base c.digits

def spelling (c : IntegerLiteral) : List Char := c.mark ++ c.digits ++ c.suffix

def hasU (c : IntegerLiteral) : Bool := c.suffix.any isU

def lCount (c : IntegerLiteral) : Nat := c.suffix.countP isL

end IntegerLiteral

-- The constants of C

/-- The tables of the source that a data model stands for. -/
def dataLayout : DataModel → TargetLayout
  | .lp64 => layoutLp64
  | .llp64 => layoutLlp64

def IntConstant.hasU (c : IntConstant) : Bool := c.suffix.any fun x => x == 'u' || x == 'U'

def IntConstant.lCount (c : IntConstant) : Nat := c.suffix.countP fun x => x == 'l' || x == 'L'

def IntConstant.types (c : IntConstant) : List IntType :=
  let decimal := c.radix = .decimal
  match c.hasU, c.lCount with
  | false, 0 =>
    if decimal then [.int, .long, .llong] else [.int, .uint, .long, .ulong, .llong, .ullong]
  | true, 0 => [.uint, .ulong, .ullong]
  | false, 1 => if decimal then [.long, .llong] else [.long, .ulong, .llong, .ullong]
  | true, 1 => [.ulong, .ullong]
  | false, _ => if decimal then [.llong] else [.llong, .ullong]
  | true, _ => [.ullong]

def IntConstant.type? (m : DataModel) (c : IntConstant) : Option IntType :=
  c.types.find? fun t => t.Holds m c.value

/-- A constant that C gives the type `unsigned long` of 32 bits and that the source
does not try there. -/
def IntConstant.missesUnsignedLong (m : DataModel) (c : IntConstant) : Bool :=
  m = .llp64 && c.radix ≠ .decimal && !c.hasU && c.lCount = 1 && 2 ^ 31 ≤ c.value && c.value < 2 ^ 32

-- Reading a constant

theorem IntConstant.literalSuffix_eq (c : IntConstant) :
    literalSuffix false 0 c.suffix = some (c.hasU, c.lCount) := by
  have h : ∀ suffix ∈ integerSuffixes, literalSuffix false 0 suffix =
      some (suffix.any fun x => x == 'u' || x == 'U', suffix.countP fun x => x == 'l' || x == 'L') := by
    decide
  exact h c.suffix c.suffix_ok

theorem IntConstant.lCount_le (c : IntConstant) : c.lCount ≤ 2 := by
  have h : ∀ suffix ∈ integerSuffixes, suffix.countP (fun x => x == 'l' || x == 'L') ≤ 2 := by decide
  exact h c.suffix c.suffix_ok

theorem skipHexMark_digits (base : Nat) (hd : ∀ c ∈ digits, ∃ d, lexerHexValue c = some d)
    (hs : ∀ c ∈ suffix, c ∈ ['u', 'U', 'l', 'L']) :
    skipHexMark base (digits ++ suffix) = digits ++ suffix := by
  have hne : ∀ x ∈ digits ++ suffix, x ≠ 'x' ∧ x ≠ 'X' := by
    intro x hx
    obtain hx | hx := List.mem_append.mp hx
    · obtain ⟨d, hx⟩ := hd x hx
      exact ⟨(digit_not_mark hx).2.2.2.1, (digit_not_mark hx).2.2.2.2⟩
    · obtain ⟨-, -, h⟩ := suffixLetter_not_digit (hs x hx)
      exact h
  unfold skipHexMark
  split
  · rename_i x d rest h
    obtain ⟨hx, hX⟩ := hne x (by rw [h]; simp)
    rw [if_neg, h]
    rintro ⟨-, hmark | hmark, -⟩
    · exact hx hmark
    · exact hX hmark
  · rfl

/-- A value that is too large is cut off. -/
theorem strtoullIn_reads (base : Nat) (hd : ∀ x ∈ c :: digits, ∃ d, lexerHexValue x = some d ∧ d < base)
    (hs : ∀ x ∈ suffix, x ∈ ['u', 'U', 'l', 'L']) :
    strtoullIn base (c :: digits ++ suffix) =
      some (if 2 ^ 64 ≤ digitsValue base (c :: digits) then (2 ^ 64 - 1, suffix, true)
        else (digitsValue base (c :: digits), suffix, false)) := by
  obtain ⟨d, hc, -⟩ := hd c List.mem_cons_self
  obtain ⟨hspace, hminus, hplus, -, -⟩ := digit_not_mark hc
  have hmark := skipHexMark_digits base (fun x hx => (hd x hx).imp fun _ h => h.1) hs
  have hread : strtoullDigits base 0 (c :: digits ++ suffix) =
      (digitsValue base (c :: digits), suffix) :=
    strtoullDigits_append base (c :: digits) suffix 0 hd fun x hx =>
      (suffixLetter_not_digit (hs x (List.mem_of_mem_head? hx))).1
  have hsign : strtoullSign (c :: digits ++ suffix) = (false, c :: digits ++ suffix) := by
    unfold strtoullSign
    split
    · simp_all
    · simp_all
    · rfl
  have hdrop : (c :: digits ++ suffix).dropWhile isspace = c :: digits ++ suffix := by
    simp [hspace]
  have hlen : suffix.length ≠ (c :: digits ++ suffix).length := by
    simp only [List.length_append, List.length_cons]
    omega
  unfold strtoullIn
  rw [hdrop, hsign]
  dsimp only
  rw [hmark, hread]
  rw [if_neg hlen]
  split <;> rfl

theorem literalBase_octal (h : ∀ x ∈ text.head?, x ∉ ['x', 'X', 'b', 'B']) :
    literalBase ('0' :: text) = (8, '0' :: text) := by
  cases text with
  | nil => rfl
  | cons x text =>
    have hx := h x rfl
    simp only [List.mem_cons, List.not_mem_nil, or_false, not_or] at hx
    simp [literalBase, hx]

theorem octalDigit_not_mark (h : lexerHexValue x = some d) (hd : d < 8) : x ∉ ['x', 'X', 'b', 'B'] := by
  intro hx
  have hle : 8 ≤ d := by
    simp only [List.mem_cons, List.not_mem_nil, or_false] at hx
    obtain rfl | rfl | rfl | rfl := hx <;> revert d <;> decide
  exact Nat.not_lt_of_le hle hd

theorem isU_of_mem (h : c ∈ ['u', 'U', 'l', 'L']) : isU c = !isL c := by
  simp only [List.mem_cons, List.not_mem_nil, or_false] at h
  obtain rfl | rfl | rfl | rfl := h <;> rfl

theorem literalSuffix_letters (hletters : ∀ c ∈ suffix, c ∈ ['u', 'U', 'l', 'L'])
    (hu : suffix.countP isU + (if seen then 1 else 0) ≤ 1) (count : Nat) :
    literalSuffix seen count suffix = some (seen || suffix.any isU, min (count + suffix.countP isL) 2) := by
  induction suffix generalizing seen count with
  | nil => simp [literalSuffix]
  | cons c rest ih =>
    have hrest : ∀ c ∈ rest, c ∈ ['u', 'U', 'l', 'L'] := fun x hx => hletters x (List.mem_cons_of_mem c hx)
    have hc := isU_of_mem (hletters c List.mem_cons_self)
    rw [literalSuffix]
    cases hisU : isU c with
    | true =>
      have hisL : isL c = false := by simpa [hisU] using hc.symm
      have hseen : seen = false := by
        cases seen with
        | true => simp [hisU] at hu
        | false => rfl
      have hword : c = 'u' ∨ c = 'U' := by simpa [isU] using hisU
      subst hseen
      rw [if_pos hword, if_neg Bool.false_ne_true, ih hrest (by simpa [hisU] using hu)]
      simp [hisU, hisL]
    | false =>
      have hisL : isL c = true := by simpa [hisU] using hc.symm
      have hword : ¬(c = 'u' ∨ c = 'U') := by simpa [isU] using hisU
      have hletter : c = 'l' ∨ c = 'L' := by simpa [isL] using hisL
      rw [if_neg hword, if_pos hletter, ih hrest (by simpa [hisU] using hu)]
      simp [hisU, hisL, Nat.add_comm, Nat.add_left_comm]

theorem SuffixOk.literalSuffix_eq (h : SuffixOk suffix) :
    literalSuffix false 0 suffix = some (suffix.any isU, suffix.countP isL) := by
  rw [literalSuffix_letters h.letters (by simpa using h.oneU), Nat.zero_add, Nat.min_eq_left h.twoL,
    Bool.false_or]

namespace IntegerLiteral

theorem reads_cut (c : IntegerLiteral) :
    strtoullSign c.spelling = (false, c.spelling) ∧
      (literalBase c.spelling).1 = c.radix.base ∧
      strtoullIn c.radix.base (literalBase c.spelling).2 =
        some (if 2 ^ 64 ≤ c.value then (2 ^ 64 - 1, c.suffix, true) else (c.value, c.suffix, false)) := by
  obtain ⟨radix, mark, digits, suffix, hmark, hdigits, hstart, hsuffix⟩ := c
  have hletters := hsuffix.letters
  simp only [spelling, value]
  cases radix with
  | decimal =>
    obtain rfl : mark = [] := by simpa [LiteralRadix.marks] using hmark
    cases digits with
    | nil => simp [LiteralRadix.startOk] at hstart
    | cons x rest => ?_
    have hx0 : x ≠ '0' := by simpa [LiteralRadix.startOk] using hstart
    obtain ⟨d, hx, -⟩ := hdigits x List.mem_cons_self
    obtain ⟨-, hminus, hplus, -, -⟩ := digit_not_mark hx
    have hbase : literalBase (x :: rest ++ suffix) = (10, x :: rest ++ suffix) := by
      unfold literalBase
      split <;> simp_all
    rw [List.nil_append, hbase]
    refine ⟨?_, rfl, strtoullIn_reads 10 hdigits hletters⟩
    unfold strtoullSign
    split <;> simp_all
  | octal =>
    obtain rfl : mark = ['0'] := by simpa [LiteralRadix.marks] using hmark
    have hzero : ∃ d, lexerHexValue '0' = some d ∧ d < 8 := ⟨0, by decide, by decide⟩
    have hvalue : digitsValue 8 ('0' :: digits) = digitsValue 8 digits := by
      simp [digitsValue, digitOf, show lexerHexValue '0' = some 0 by decide]
    have hnext : ∀ x ∈ (digits ++ suffix).head?, x ∉ ['x', 'X', 'b', 'B'] := by
      intro x hx
      obtain hx | hx := List.mem_append.mp (List.mem_of_mem_head? hx)
      · obtain ⟨d, hx, hd⟩ := hdigits x hx
        exact octalDigit_not_mark hx hd
      · have hletter := hletters x hx
        simp only [List.mem_cons, List.not_mem_nil, or_false] at hletter
        obtain rfl | rfl | rfl | rfl := hletter <;> decide
    rw [List.append_assoc, List.singleton_append, literalBase_octal hnext]
    have hread := strtoullIn_reads 8 (by simpa using ⟨hzero, hdigits⟩) hletters
    exact ⟨rfl, rfl, hread⟩
  | hexadecimal =>
    cases digits with
    | nil => simp [LiteralRadix.startOk] at hstart
    | cons x rest =>
      have hmark' : mark = ['0', 'x'] ∨ mark = ['0', 'X'] := by simpa [LiteralRadix.marks] using hmark
      rcases hmark' with rfl | rfl
      all_goals exact ⟨rfl, rfl, strtoullIn_reads 16 hdigits hletters⟩
  | binary =>
    cases digits with
    | nil => simp [LiteralRadix.startOk] at hstart
    | cons x rest =>
      have hmark' : mark = ['0', 'b'] ∨ mark = ['0', 'B'] := by simpa [LiteralRadix.marks] using hmark
      rcases hmark' with rfl | rfl
      all_goals exact ⟨rfl, rfl, strtoullIn_reads 2 hdigits hletters⟩

theorem reads (c : IntegerLiteral) (hfits : c.value < 2 ^ 64) :
    strtoullSign c.spelling = (false, c.spelling) ∧
      (literalBase c.spelling).1 = c.radix.base ∧
      strtoullIn c.radix.base (literalBase c.spelling).2 = some (c.value, c.suffix, false) := by
  have hreads := c.reads_cut
  rwa [if_neg (Nat.not_le_of_lt hfits)] at hreads

end IntegerLiteral

def IntConstant.literalRadix (c : IntConstant) : LiteralRadix :=
  match c.radix with
  | .decimal => .decimal
  | .octal => .octal
  | .hexadecimal => .hexadecimal

theorem IntConstant.literalRadix_base (c : IntConstant) : c.literalRadix.base = c.radix.base := by
  unfold IntConstant.literalRadix
  cases c.radix <;> rfl

theorem suffixOk_of_integerSuffix (h : suffix ∈ integerSuffixes) : SuffixOk suffix := by
  have hcounts : ∀ suffix ∈ integerSuffixes, suffix.countP isU ≤ 1 ∧ suffix.countP isL ≤ 2 := by decide
  exact ⟨integerSuffix_letters h, (hcounts suffix h).1, (hcounts suffix h).2⟩

def IntConstant.literal (c : IntConstant) : IntegerLiteral where
  radix := c.literalRadix
  mark := c.mark
  digits := c.digits
  suffix := c.suffix
  mark_ok := by
    have hmark := c.mark_ok
    unfold IntConstant.literalRadix
    generalize c.radix = radix at hmark ⊢
    cases radix <;> exact hmark
  digits_ok := by
    rw [c.literalRadix_base]
    exact c.digits_ok
  start_ok := by
    have hstart := c.start_ok
    unfold IntConstant.literalRadix
    generalize c.radix = radix at hstart ⊢
    cases radix <;> exact hstart
  suffix_ok := suffixOk_of_integerSuffix c.suffix_ok

theorem IntConstant.literal_value (c : IntConstant) : c.literal.value = c.value :=
  congrArg (digitsValue · c.digits) c.literalRadix_base

theorem IntConstant.literal_spelling (c : IntConstant) : c.literal.spelling = c.spelling.toList :=
  String.toList_ofList.symm

theorem IntConstant.reads (c : IntConstant) :
    strtoullSign c.spelling.toList = (false, c.spelling.toList) ∧
      (literalBase c.spelling.toList).1 = c.radix.base ∧
      strtoullIn c.radix.base (literalBase c.spelling.toList).2 = some (c.value, c.suffix, false) := by
  have hreads := c.literal.reads (by rw [c.literal_value]; exact c.fits)
  have hbase : c.literal.radix.base = c.radix.base := c.literalRadix_base
  rwa [c.literal_spelling, c.literal_value, hbase] at hreads

theorem IntConstant.parse (c : IntConstant) (tl : TargetLayout) :
    ∃ range, parseIntegerLiteralInfo c.spelling.toList tl =
      (let (bits, isUnsigned) :=
        chooseCandidate c.value (literalCandidates tl c.radix.base c.hasU c.lCount)
      some ⟨range, bits, isUnsigned, BitVec.ofNat 64 (literalMasked c.value bits isUnsigned false)⟩) := by
  obtain ⟨hsign, hbase, hin⟩ := c.reads
  unfold parseIntegerLiteralInfo
  rw [hsign]
  dsimp only
  rw [← Prod.eta (literalBase _), hbase]
  rw [hin]
  simp only [Option.bind_some, c.literalSuffix_eq, Option.map_some]
  exact ⟨_, rfl⟩

-- The type of a constant

theorem IntConstant.type?_holds {c : IntConstant} (h : c.type? m = some t) : t.Holds m c.value := by
  have hfound := List.find?_some h
  exact of_decide_eq_true hfound

theorem holds_natCast (m : DataModel) (t : IntType) (n : Nat) :
    t.Holds m n ↔ n < 2 ^ (if t.isUnsigned then t.bits m else t.bits m - 1) := by
  have hleast : t.least m ≤ (n : Int) := by
    refine Int.le_trans ?_ (Int.natCast_nonneg n)
    unfold IntType.least
    split
    · exact Int.le_refl 0
    · exact Int.neg_nonpos_of_nonneg (by positivity)
  simp only [IntType.Holds, hleast, true_and, IntType.limit]
  split <;> exact_mod_cast Iff.rfl

theorem fitsInBits_eq (m : DataModel) (t : IntType) (h : n < 2 ^ 64) :
    fitsInBits n (t.bits m) t.isUnsigned = decide (t.Holds m n) := by
  have hholds : decide (t.Holds m n) =
      decide (n < 2 ^ (if t.isUnsigned then t.bits m else t.bits m - 1)) :=
    decide_eq_decide.mpr (holds_natCast m t n)
  rw [hholds]
  cases m <;> cases t <;>
    simp only [fitsInBits, maxUnsignedForBits, maxSignedForBits, IntType.bits, IntType.isUnsigned,
      ↓reduceIte, Bool.false_eq_true] <;>
    norm_num <;> omega

theorem find_holds_cons (m : DataModel) (z : Int) (t : IntType) (ts : List IntType) :
    (t :: ts).find? (fun t => t.Holds m z) =
      if t.Holds m z then some t else ts.find? (fun t => t.Holds m z) := by
  rw [List.find?_cons]
  by_cases h : t.Holds m z
  · rw [if_pos h, decide_eq_true h]
  · rw [if_neg h, decide_eq_false h]

theorem chooseCandidate_find {n : Nat} {ts : List IntType} (hn : n < 2 ^ 64)
    (h : ts.find? (fun t => t.Holds m n) = some t) (rest : List (Nat × Bool)) :
    chooseCandidate n (ts.map (IntType.shape m) ++ rest) = t.shape m := by
  induction ts with
  | nil => cases h
  | cons s ts ih =>
    rw [List.find?_cons] at h
    have hfits := fitsInBits_eq m s hn
    cases hs : decide (s.Holds m n) with
    | true =>
      rw [hs] at h hfits
      cases h
      unfold chooseCandidate
      split
      · rename_i heq
        exact absurd heq (List.cons_ne_nil _ _)
      · rename_i heq
        exact (List.cons.inj heq).1.symm
      rename_i heq
      obtain ⟨rfl, -⟩ := List.cons.inj heq
      exact if_pos hfits
    | false =>
      rw [hs] at h hfits
      have ih := ih h
      cases ts with
      | nil => cases h
      | cons s' ts => ?_
      rw [List.map_cons, List.map_cons, List.cons_append, List.cons_append, chooseCandidate]
      · rw [if_neg (by rw [IntType.shape, hfits]; exact Bool.false_ne_true)]
        exact ih
      · simp

/-- The candidates are the types that C tries, but for `unsigned long` behind a
hexadecimal or octal constant with the suffix `l`. -/
theorem IntConstant.candidates (c : IntConstant) (m : DataModel)
    (h : c.radix = .decimal ∨ c.hasU = true ∨ c.lCount ≠ 1) :
    ∃ rest, literalCandidates (dataLayout m) c.radix.base c.hasU c.lCount =
      c.types.map (IntType.shape m) ++ rest := by
  have hl := c.lCount_le
  unfold IntConstant.types literalCandidates
  generalize c.lCount = lCount at h hl
  generalize c.hasU = hasU at h
  generalize c.radix = radix at h
  interval_cases lCount <;> cases hasU <;> cases radix <;> cases m <;> simp at h <;>
    exact ⟨_, rfl⟩

theorem IntConstant.type?_long (c : IntConstant) (m : DataModel) (hradix : c.radix ≠ .decimal)
    (hu : c.hasU = false) (hl : c.lCount = 1) :
    c.type? m = some (if IntType.long.Holds m c.value then .long
      else if IntType.ulong.Holds m c.value then .ulong
      else if IntType.llong.Holds m c.value then .llong else .ullong) := by
  have hfits : IntType.ullong.Holds m c.value := by
    rw [holds_natCast]
    exact c.fits
  have htypes : c.types = [.long, .ulong, .llong, .ullong] := by
    simp only [IntConstant.types, hradix, hu, hl, ↓reduceIte]
  rw [IntConstant.type?, htypes, find_holds_cons, find_holds_cons, find_holds_cons, find_holds_cons,
    if_pos hfits]
  split
  · rfl
  split
  · rfl
  split <;> rfl

theorem IntConstant.types_not_narrow (c : IntConstant) : ∀ t ∈ c.types, t.isNarrow = false := by
  unfold IntConstant.types
  dsimp only
  repeat' split
  all_goals decide

theorem IntConstant.choose (c : IntConstant) (h : c.type? m = some t) :
    chooseCandidate c.value (literalCandidates (dataLayout m) c.radix.base c.hasU c.lCount) =
      if c.missesUnsignedLong m then (64, false) else t.shape m := by
  by_cases hlist : c.radix = .decimal ∨ c.hasU = true ∨ c.lCount ≠ 1
  · have hmiss : c.missesUnsignedLong m = false := by
      rcases hlist with hlist | hlist | hlist <;> simp [IntConstant.missesUnsignedLong, hlist]
    obtain ⟨rest, hrest⟩ := c.candidates m hlist
    have hn : c.value < 2 ^ 64 := c.fits
    rw [hrest, chooseCandidate_find hn h, hmiss]
    rfl
  · simp only [not_or, Bool.not_eq_true, not_not] at hlist
    obtain ⟨hradix, hu, hl⟩ := hlist
    rw [c.type?_long m hradix hu hl] at h
    cases h
    have hn : c.value < 2 ^ 64 := c.fits
    have hmiss : c.missesUnsignedLong m = (m = .llp64 && 2 ^ 31 ≤ c.value && c.value < 2 ^ 32) := by
      simp [IntConstant.missesUnsignedLong, hradix, hu, hl]
    rw [hmiss, hu, hl, literalCandidates]
    simp only [holds_natCast]
    have hlong : maxSignedForBits 64 = 2 ^ 63 - 1 := rfl
    have hlong' : maxSignedForBits 32 = 2 ^ 31 - 1 := rfl
    cases m <;>
      simp only [chooseCandidate, fitsInBits, dataLayout, layoutLp64, layoutLlp64, IntType.bits,
        IntType.isUnsigned, IntType.shape, hlong, hlong', reduceCtorEq, decide_false, decide_true,
        Bool.false_and, Bool.true_and, Bool.false_eq_true, decide_eq_true_eq, Bool.and_eq_true,
        OfNat.ofNat_ne_zero, Nat.reduceLeDiff, Nat.reduceSub, ↓reduceIte] <;>
      norm_num <;> split_ifs <;> first | rfl | omega

theorem IntConstant.ulong_of_misses (c : IntConstant) (h : c.type? m = some t)
    (hmiss : c.missesUnsignedLong m = true) : m = .llp64 ∧ t = .ulong := by
  simp only [IntConstant.missesUnsignedLong, Bool.and_eq_true, decide_eq_true_eq,
    Bool.not_eq_true'] at hmiss
  obtain ⟨⟨⟨⟨⟨rfl, hradix⟩, hu⟩, hl⟩, hlow⟩, hhigh⟩ := hmiss
  rw [c.type?_long .llp64 hradix hu hl] at h
  obtain rfl := Option.some.inj h
  refine ⟨rfl, ?_⟩
  have hlong : ¬IntType.long.Holds .llp64 c.value := by
    rw [holds_natCast]
    exact Nat.not_lt_of_le hlow
  have hulong : IntType.ulong.Holds .llp64 c.value := by
    rw [holds_natCast]
    exact hhigh
  rw [if_neg hlong, if_pos hulong]

end Fisics
