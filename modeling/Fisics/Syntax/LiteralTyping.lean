import Fisics.Syntax.IntegerLiteral
import Mathlib.Data.BitVec

/-!
# The type of an integer literal

A literal of any radix, with the suffixes that the lexer lets through, on any target.
The source tries the types that C99 lists, and an `unsigned long long` behind those of
a decimal literal; what no type holds is cut to the width of the last one. Behind
`l` it does not try an `unsigned long`, which shows where that type and `long long`
have different widths.
-/

namespace Fisics

open CInteger (IntType)

-- Types

/-- C99 6.4.4.1. -/
def literalTypes (decimal hasU : Bool) (lCount : Nat) : List IntType :=
  match hasU, lCount with
  | false, 0 =>
    if decimal then [.int, .long, .llong] else [.int, .uint, .long, .ulong, .llong, .ullong]
  | true, 0 => [.uint, .ulong, .ullong]
  | false, 1 => if decimal then [.long, .llong] else [.long, .ulong, .llong, .ullong]
  | true, 1 => [.ulong, .ullong]
  | false, _ => if decimal then [.llong] else [.llong, .ullong]
  | true, _ => [.ullong]

/-- The width of a type from `int` on; a target without one has the usual width. -/
def literalBits (tl : TargetLayout) : IntType → Nat
  | .long | .ulong => if tl.longBits = 0 then 64 else tl.longBits
  | .llong | .ullong => if tl.longLongBits = 0 then 64 else tl.longLongBits
  | _ => if tl.intBits = 0 then 32 else tl.intBits

def literalShape (tl : TargetLayout) (t : IntType) : Nat × Bool := (literalBits tl t, t.isUnsigned)

def LiteralFits (tl : TargetLayout) (n : Nat) (t : IntType) : Prop :=
  n < 2 ^ (if t.isUnsigned then literalBits tl t else literalBits tl t - 1)

instance : Decidable (LiteralFits tl n t) := inferInstanceAs (Decidable (_ < _))

namespace IntegerLiteral

def isDecimal (c : IntegerLiteral) : Bool := c.radix = .decimal

def cTypes (c : IntegerLiteral) : List IntType := literalTypes c.isDecimal c.hasU c.lCount

/-- A decimal literal that C gives no type is an `unsigned long long`. -/
def types (c : IntegerLiteral) : List IntType :=
  c.cTypes ++ if c.isDecimal && !c.hasU then [.ullong] else []

/-- C gives the literal the type `unsigned long`, which the source does not try, and
`long long` has another width. -/
def missesUnsignedLong (tl : TargetLayout) (c : IntegerLiteral) : Prop :=
  c.isDecimal = false ∧ c.hasU = false ∧ c.lCount = 1 ∧
    literalBits tl .long ≠ literalBits tl .llong ∧
    ¬LiteralFits tl c.value .long ∧ LiteralFits tl c.value .ulong

end IntegerLiteral

-- Reading a literal

namespace IntegerLiteral

def infoAt (n : Nat) (candidate : Nat × Bool) : IntegerLiteralInfo :=
  ⟨!fitsInBits n candidate.1 candidate.2, candidate.1, candidate.2,
    BitVec.ofNat 64 (literalMasked n candidate.1 candidate.2 false)⟩

theorem parse_cut (c : IntegerLiteral) (tl : TargetLayout) :
    ∃ overflow, parseIntegerLiteralInfo c.spelling tl =
      some { infoAt (min c.value (2 ^ 64 - 1)) (chooseCandidate (min c.value (2 ^ 64 - 1))
        (literalCandidates tl c.radix.base c.hasU c.lCount)) with overflow := overflow } := by
  obtain ⟨hsign, hbase, hin⟩ := c.reads_cut
  unfold parseIntegerLiteralInfo
  rw [hsign]
  dsimp only
  rw [← Prod.eta (literalBase _), hbase]
  rw [hin]
  split
  · have hcut : min c.value (2 ^ 64 - 1) = 2 ^ 64 - 1 := by omega
    simp only [Option.bind_some, c.suffix_ok.literalSuffix_eq, Option.map_some, hcut]
    exact ⟨_, rfl⟩
  · have hcut : min c.value (2 ^ 64 - 1) = c.value := by omega
    simp only [Option.bind_some, c.suffix_ok.literalSuffix_eq, Option.map_some, hcut]
    exact ⟨_, rfl⟩

theorem parse (c : IntegerLiteral) (hfits : c.value < 2 ^ 64) (tl : TargetLayout) :
    parseIntegerLiteralInfo c.spelling tl =
      some (infoAt c.value
        (chooseCandidate c.value (literalCandidates tl c.radix.base c.hasU c.lCount))) := by
  obtain ⟨hsign, hbase, hin⟩ := c.reads hfits
  unfold parseIntegerLiteralInfo
  rw [hsign]
  dsimp only
  rw [← Prod.eta (literalBase _), hbase]
  rw [hin]
  simp only [Option.bind_some, c.suffix_ok.literalSuffix_eq, Option.map_some]
  rfl

end IntegerLiteral

-- The candidates

theorem literalBits_pos (tl : TargetLayout) (t : IntType) : 0 < literalBits tl t := by
  cases t <;> simp only [literalBits] <;> split <;> omega

theorem fitsInBits_of_le (hn : n < 2 ^ 64) (hpos : 0 < bits) (hle : bits ≤ 64) (u : Bool) :
    fitsInBits n bits u = decide (n < 2 ^ (if u then bits else bits - 1)) := by
  have hpow : ∀ k, n ≤ 2 ^ k - 1 ↔ n < 2 ^ k := fun k => Nat.le_sub_one_iff_lt (Nat.two_pow_pos k)
  have hbits : bits ≠ 0 := Nat.ne_of_gt hpos
  obtain rfl | hlt := Nat.eq_or_lt_of_le hle
  · cases u with
    | true => simpa [fitsInBits, maxUnsignedForBits] using iff_of_true (Nat.le_sub_one_of_lt hn) hn
    | false => simpa [fitsInBits, maxSignedForBits] using hpow 63
  · have hnot : ¬64 ≤ bits := Nat.not_le_of_lt hlt
    cases u with
    | true => simp [fitsInBits, maxUnsignedForBits, hbits, hnot, hpow]
    | false => simp [fitsInBits, maxSignedForBits, hbits, hnot, hpow]

def WidthsOk (tl : TargetLayout) : Prop := ∀ t, literalBits tl t ≤ 64

theorem WidthsOk.fitsInBits (h : WidthsOk tl) (hn : n < 2 ^ 64) (t : IntType) :
    fitsInBits n (literalBits tl t) t.isUnsigned = decide (LiteralFits tl n t) :=
  fitsInBits_of_le hn (literalBits_pos tl t) (h t) t.isUnsigned

def firstFit (tl : TargetLayout) (n : Nat) (ts : List IntType) : Option IntType :=
  ts.find? fun t => LiteralFits tl n t

theorem WidthsOk.chooseCandidate_eq (h : WidthsOk tl) (hn : n < 2 ^ 64) (ts : List IntType)
    (last : IntType) :
    chooseCandidate n ((ts ++ [last]).map (literalShape tl)) =
      literalShape tl ((firstFit tl n (ts ++ [last])).getD last) := by
  induction ts with
  | nil => simp only [List.nil_append, List.map_cons, List.map_nil, chooseCandidate, firstFit,
      List.find?_cons, List.find?_nil]; split <;> rfl
  | cons t ts ih =>
    obtain ⟨u, us, hrest⟩ := List.exists_cons_of_ne_nil (List.append_ne_nil_of_right_ne_nil ts
      (List.cons_ne_nil last []))
    rw [List.cons_append, List.map_cons, firstFit, List.find?_cons]
    rw [hrest] at ih ⊢
    rw [chooseCandidate]
    · rw [literalShape, h.fitsInBits hn]
      cases decide (LiteralFits tl n t) with
      | true => rfl
      | false => exact ih
    · simp

namespace IntegerLiteral

def tried (c : IntegerLiteral) : List IntType :=
  if c.isDecimal = false ∧ c.hasU = false ∧ c.lCount = 1 then [.long, .llong, .ullong] else c.types

theorem isDecimal_iff (c : IntegerLiteral) : c.isDecimal = true ↔ c.radix.base = 10 := by
  unfold isDecimal
  cases c.radix <;> decide

theorem candidates (c : IntegerLiteral) (tl : TargetLayout) :
    literalCandidates tl c.radix.base c.hasU c.lCount = c.tried.map (literalShape tl) := by
  have htwo := c.suffix_ok.twoL
  have hbase := c.isDecimal_iff
  unfold tried types cTypes literalTypes literalCandidates
  change c.lCount ≤ 2 at htwo
  generalize c.lCount = l at htwo ⊢
  generalize c.isDecimal = d at hbase ⊢
  interval_cases l <;> cases c.hasU <;> cases d <;> simp_all [literalShape, literalBits, IntType.isUnsigned]

theorem types_ends (c : IntegerLiteral) : c.types = c.types.dropLast ++ [.ullong] := by
  have htwo := c.suffix_ok.twoL
  unfold types cTypes literalTypes
  change c.lCount ≤ 2 at htwo
  generalize c.lCount = l at htwo
  generalize c.isDecimal = d
  interval_cases l <;> cases c.hasU <;> cases d <;> rfl

theorem tried_ends (c : IntegerLiteral) : c.tried = c.tried.dropLast ++ [.ullong] := by
  unfold tried
  split
  · rfl
  · exact c.types_ends

theorem types_of_long {c : IntegerLiteral} (h : c.isDecimal = false ∧ c.hasU = false ∧ c.lCount = 1) :
    c.types = [.long, .ulong, .llong, .ullong] := by
  obtain ⟨hdecimal, hu, hl⟩ := h
  simp [types, cTypes, literalTypes, hdecimal, hu, hl]

end IntegerLiteral

-- The type, the value and the overflow

/-- What is stored: the magnitude, cut to the width of `unsigned long long` where no
type has it. -/
structure MagnitudeStored (tl : TargetLayout) (c : IntegerLiteral) (info : IntegerLiteralInfo) :
    Prop where
  exact : ∀ t ∈ c.types, LiteralFits tl c.value t → info.value.toNat = c.value
  overflow : info.overflow = true ↔ ∀ t ∈ c.types, ¬LiteralFits tl c.value t
  truncated : (∀ t ∈ c.types, ¬LiteralFits tl c.value t) →
    (info.bits, info.isUnsigned) = literalShape tl .ullong ∧
      info.value.toNat = c.value % 2 ^ literalBits tl .llong

structure LiteralTyped (tl : TargetLayout) (c : IntegerLiteral) (info : IntegerLiteralInfo) : Prop where
  type : ¬c.missesUnsignedLong tl → ∀ t, firstFit tl c.value c.types = some t →
    (info.bits, info.isUnsigned) = literalShape tl t
  magnitude : 0 < tl.longBits ∨ ¬c.missesUnsignedLong tl → MagnitudeStored tl c info

theorem firstFit_eq_none : firstFit tl n ts = none ↔ ∀ t ∈ ts, ¬LiteralFits tl n t := by
  simp [firstFit]

theorem fits_of_firstFit (h : firstFit tl n ts = some t) : t ∈ ts ∧ LiteralFits tl n t := by
  exact ⟨List.mem_of_find?_eq_some h, by simpa using List.find?_some h⟩

theorem LiteralFits.widen (h : LiteralFits tl n .ulong) (hle : literalBits tl .long ≤ literalBits tl .llong) :
    LiteralFits tl n .ullong :=
  Nat.lt_of_lt_of_le h (Nat.pow_le_pow_right (by decide) hle)

theorem literalMasked_of_lt (h : n < 2 ^ bits) : literalMasked n bits u false = n := by
  unfold literalMasked
  split
  · simpa using Nat.mod_eq_of_lt h
  · rfl

theorem literalMasked_toNat (hn : n < 2 ^ 64) (hpos : 0 < bits) (hle : bits ≤ 64) (u : Bool) :
    (BitVec.ofNat 64 (literalMasked n bits u false)).toNat = n % 2 ^ bits := by
  obtain rfl | hlt := Nat.eq_or_lt_of_le hle
  · simp [literalMasked]
  · have hmod : n % 2 ^ bits < 2 ^ 64 := Nat.lt_of_le_of_lt (Nat.mod_le _ _) hn
    have hmasked : literalMasked n bits u false = n % 2 ^ bits := by simp [literalMasked, hpos, hlt]
    rw [hmasked, BitVec.toNat_ofNat, Nat.mod_eq_of_lt hmod]

theorem LiteralFits.lt_pow (h : LiteralFits tl n t) : n < 2 ^ literalBits tl t := by
  refine Nat.lt_of_lt_of_le h (Nat.pow_le_pow_right (by decide) ?_)
  split
  · exact Nat.le_refl _
  · exact Nat.sub_le _ _

namespace IntegerLiteral

/-- Behind `l` the first type tried has the shape of the first one listed, but where
`unsigned long` is missed. -/
theorem firstFit_tried (c : IntegerLiteral) (hmiss : ¬c.missesUnsignedLong tl)
    (h : firstFit tl c.value c.types = some t) :
    literalShape tl ((firstFit tl c.value c.tried).getD .ullong) = literalShape tl t := by
  unfold tried
  split
  · rename_i hspecial
    rw [types_of_long hspecial] at h
    by_cases hlong : LiteralFits tl c.value .long
    · simp only [firstFit, List.find?_cons, hlong, decide_true] at h ⊢
      cases h
      rfl
    by_cases hulong : LiteralFits tl c.value .ulong
    · have hbits : literalBits tl .long = literalBits tl .llong := by
        by_contra hne
        exact hmiss ⟨hspecial.1, hspecial.2.1, hspecial.2.2, hne, hlong, hulong⟩
      have hllong : ¬LiteralFits tl c.value .llong := by
        unfold LiteralFits at hlong ⊢
        rwa [hbits] at hlong
      have hullong : LiteralFits tl c.value .ullong := hulong.widen (Nat.le_of_eq hbits)
      simp only [firstFit, List.find?_cons, hlong, hulong, hllong, hullong, decide_true,
        decide_false, Option.getD_some] at h ⊢
      cases h
      exact congrArg (·, true) hbits.symm
    · simp only [firstFit, List.find?_cons, hlong, hulong, decide_false] at h ⊢
      rw [h]
      rfl
  · rw [h]
    rfl

/-- A type tried has the magnitude exactly when a type listed has it. -/
theorem firstFit_tried_isSome (c : IntegerLiteral)
    (hlong : c.missesUnsignedLong tl → literalBits tl .long ≤ literalBits tl .llong) :
    (firstFit tl c.value c.tried).isSome = (firstFit tl c.value c.types).isSome := by
  unfold tried
  split
  · rename_i hspecial
    rw [types_of_long hspecial]
    by_cases hfits : LiteralFits tl c.value .long
    · simp [firstFit, hfits]
    by_cases hulong : LiteralFits tl c.value .ulong
    · have hle : literalBits tl .long ≤ literalBits tl .llong := by
        by_cases hne : literalBits tl .long = literalBits tl .llong
        · exact Nat.le_of_eq hne
        · exact hlong ⟨hspecial.1, hspecial.2.1, hspecial.2.2, hne, hfits, hulong⟩
      have hwide := hulong.widen hle
      rw [Bool.eq_iff_iff, firstFit, firstFit, List.find?_isSome, List.find?_isSome]
      exact iff_of_true ⟨.ullong, by simp, by simpa using hwide⟩ ⟨.ulong, by simp, by simpa using hulong⟩
    · simp [firstFit, List.find?_cons, hfits, hulong]
  · rfl

theorem parse_tried (c : IntegerLiteral) (hfits : c.value < 2 ^ 64) (hwidths : WidthsOk tl) :
    parseIntegerLiteralInfo c.spelling tl =
      some (infoAt c.value (literalShape tl ((firstFit tl c.value c.tried).getD .ullong))) := by
  rw [c.parse hfits, c.candidates]
  have hchoose := hwidths.chooseCandidate_eq hfits c.tried.dropLast .ullong
  rw [← c.tried_ends] at hchoose
  rw [hchoose]

theorem magnitudeStored (c : IntegerLiteral) (hfits : c.value < 2 ^ 64) (hwidths : WidthsOk tl)
    (hlong : c.missesUnsignedLong tl → literalBits tl .long ≤ literalBits tl .llong) :
    MagnitudeStored tl c
      (infoAt c.value (literalShape tl ((firstFit tl c.value c.tried).getD .ullong))) := by
  have hsame := c.firstFit_tried_isSome hlong
  cases htypes : firstFit tl c.value c.types with
  | none =>
    have hnone : firstFit tl c.value c.tried = none := by simpa [htypes] using hsame
    have hunfit := firstFit_eq_none.mp htypes
    have hullong : ¬LiteralFits tl c.value .ullong := by
      refine hunfit .ullong ?_
      rw [c.types_ends]
      exact List.mem_append_right _ List.mem_cons_self
    rw [hnone, Option.getD_none]
    refine ⟨fun t ht h => absurd h (hunfit t ht), iff_of_true ?_ hunfit, fun _ => ⟨rfl, ?_⟩⟩
    · simp [infoAt, literalShape, hwidths.fitsInBits hfits, hullong]
    · exact literalMasked_toNat hfits (literalBits_pos tl .ullong) (hwidths .ullong) true
  | some t =>
    obtain ⟨s, hs⟩ := Option.isSome_iff_exists.mp (hsame.trans (by rw [htypes]; rfl))
    obtain ⟨hmem, hfit⟩ := fits_of_firstFit htypes
    obtain ⟨-, hsfit⟩ := fits_of_firstFit hs
    have hsome : ¬∀ t ∈ c.types, ¬LiteralFits tl c.value t := fun h => h t hmem hfit
    rw [hs, Option.getD_some]
    refine ⟨fun _ _ _ => ?_, iff_of_false ?_ hsome, fun h => absurd h hsome⟩
    · simp only [infoAt, literalShape, literalMasked_of_lt hsfit.lt_pow, BitVec.toNat_ofNat]
      exact Nat.mod_eq_of_lt hfits
    · simp [infoAt, literalShape, hwidths.fitsInBits hfits, hsfit]

end IntegerLiteral

theorem widthsOk_of_le (hint : tl.intBits ≤ tl.longBits) (hlong : tl.longBits ≤ tl.longLongBits)
    (hllong : tl.longLongBits ≤ 64) : WidthsOk tl := by
  intro t
  cases t <;> simp only [literalBits] <;> split <;> omega

/-- A literal below 2^64 gets the first listed type that has its magnitude, the
magnitude is stored, and an overflow is reported when no listed type has it. -/
theorem parseIntegerLiteralInfo_typed (c : IntegerLiteral) (tl : TargetLayout)
    (hfits : c.value < 2 ^ 64) (hint : tl.intBits ≤ tl.longBits)
    (hlong : tl.longBits ≤ tl.longLongBits) (hllong : tl.longLongBits ≤ 64) :
    ∃ info, parseIntegerLiteralInfo c.spelling tl = some info ∧ LiteralTyped tl c info := by
  have hwidths := widthsOk_of_le hint hlong hllong
  refine ⟨_, c.parse_tried hfits hwidths, fun hmiss t h => c.firstFit_tried hmiss h, fun hproper => ?_⟩
  refine c.magnitudeStored hfits hwidths fun hmiss => ?_
  have hpos : tl.longBits ≠ 0 := Nat.ne_of_gt (hproper.resolve_right (not_not_intro hmiss))
  have hpos' : tl.longLongBits ≠ 0 := by omega
  simpa [literalBits, hpos, hpos'] using hlong

theorem digitsOk_of_all {digits : List Char} (h : (digits.all fun c => (lexerHexValue c).any (· < base)) =
    true) :
    ∀ c ∈ digits, ∃ d, lexerHexValue c = some d ∧ d < base := by
  intro c hc
  have hdigit := List.all_eq_true.mp h c hc
  cases hd : lexerHexValue c with
  | none => simp [hd] at hdigit
  | some d => exact ⟨d, rfl, by simpa [hd] using hdigit⟩

/-- The literal `9223372036854775808`. -/
def twoPow63 : IntegerLiteral where
  radix := .decimal
  mark := []
  digits := "9223372036854775808".toList
  suffix := []
  mark_ok := by decide
  digits_ok := digitsOk_of_all (by decide)
  start_ok := by decide
  suffix_ok := ⟨List.forall_mem_nil _, by decide, by decide⟩

theorem parseIntegerLiteralInfo_typed_twoPow63 :
    ∃ info, parseIntegerLiteralInfo twoPow63.spelling layoutLp64 = some info ∧
      LiteralTyped layoutLp64 twoPow63 info :=
  parseIntegerLiteralInfo_typed twoPow63 layoutLp64 (by decide) (by decide) (by decide) (by decide)

/-- C lists no type that has 2^63, and no overflow is reported. -/
theorem twoPow63_unsigned :
    parseIntegerLiteralInfo twoPow63.spelling layoutLp64 = some ⟨false, 64, true, 2 ^ 63⟩ ∧
      ∀ t ∈ twoPow63.cTypes, ¬LiteralFits layoutLp64 twoPow63.value t := by
  decide +kernel

end Fisics
