import Fisics.Parser.DeclaratorCorrect
import Fisics.Syntax.ConstantAgreement

/-!
# Array bounds

The parser of a declarator stores a size for a bound that is a number, as `atoll` reads
it. Declarations replace it by what the evaluator of constants gives; type names keep it,
and so do the members that no analysis reaches. `atoll` knows decimal digits only.
-/

namespace Fisics.Bounds

open Declarators (ArrayInfo TypeDerivation Environment Options parserParseDeclarator parseArraySize
  scanArrayKeywords KeptBySteps spine spine_array spine_function spine_finishType)
open CInteger (DataModel)

-- Reading a bound

/-- A number by its text, any other expression by what the evaluator makes of it. -/
inductive SizeExpr
  | number (text : List Char)
  | other (value : Option (BitVec 64))

/-- The hosts cut off what does not fit. -/
def atoll (text : List Char) : Int :=
  let (negative, unsigned) := strtoullSign (text.dropWhile isspace)
  let magnitude : Int := (strtoullDigits 10 0 unsigned).1
  max (-2 ^ 63) (min (if negative then -magnitude else magnitude) (2 ^ 63 - 1))

def numberLiteral : SizeExpr → Option Int
  | .number text => some (atoll text)
  | .other _ => none

def sizeEnvironment (env : Environment SizeExpr P) : Environment SizeExpr P :=
  { env with numberLiteral := numberLiteral }

section
variable (tl : TargetLayout)

def constEvalInteger : SizeExpr → Option Int
  | .number text => (constEvalNumber tl text).map (·.value.toInt)
  | .other value => value.map (·.toInt)

def tryEvaluateArrayLength (sizeExpr : SizeExpr) : Option Nat :=
  (constEvalInteger tl sizeExpr).bind fun value => if value < 0 then none else some value.toNat

/-- One round of the loops over the arrays of a type. A flexible array has no size
expression, so passing over it is the same. -/
def evaluateArray (info : ArrayInfo SizeExpr) : ArrayInfo SizeExpr :=
  match info.sizeExpr with
  | none => info
  | some sizeExpr =>
    match tryEvaluateArrayLength tl sizeExpr with
    | some len => { info with constantSize := some len, isVLA := false }
    | none => { info with isVLA := true }

def evaluateDerivation : TypeDerivation SizeExpr P → TypeDerivation SizeExpr P
  | .array info => .array (evaluateArray tl info)
  | .pointer layer => .pointer layer
  | .function signature => .function signature

def evaluateArrayDerivations (l : List (TypeDerivation SizeExpr P)) : List (TypeDerivation SizeExpr P) :=
  l.map (evaluateDerivation tl)

def parsedTypeIsDirectArray (l : List (TypeDerivation SizeExpr P)) : Bool :=
  l.head?.any TypeDerivation.isArray

def arrayLength (info : ArrayInfo SizeExpr) : Option Int :=
  if info.isVLA then none
  else
    (match info.constantSize, info.sizeExpr with
      | some size, _ => some size
      | none, some sizeExpr => constEvalInteger tl sizeExpr
      | none, none => some (-1)).filter (0 ≤ ·)

/-- The size wraps as a `size_t`. -/
def sizeAlignOfArray (info : ArrayInfo SizeExpr) (element : Option (Nat × Nat)) : Option (Nat × Nat) :=
  (arrayLength tl info).bind fun len =>
    element.map fun (size, align) => (size * len.toNat % 2 ^ 64, align)

inductive Route
  | typeName
  | member (analyzed : Bool)
  | declaration

def Route.recomputes : Route → List (TypeDerivation SizeExpr P) → Bool
  | .typeName, _ => false
  | .member analyzed, l => analyzed && parsedTypeIsDirectArray l
  | .declaration, _ => true

def Route.derivations (route : Route) (l : List (TypeDerivation SizeExpr P)) :
    List (TypeDerivation SizeExpr P) :=
  if route.recomputes l then evaluateArrayDerivations tl l else l

/-- The count is the value of the literal, and a value of a `long long` is counted. -/
structure BoundMeans (c : IntegerLiteral) (info : ArrayInfo SizeExpr) : Prop where
  count : ∀ n, arrayLength tl info = some n → n = c.value
  counted : c.value < 2 ^ 63 → arrayLength tl info = some (c.value : Int) ∧
    constEvalInteger tl (.number c.spelling) = some (c.value : Int)

def BoundsMean (l : List (TypeDerivation SizeExpr P)) : Prop :=
  ∀ info, .array info ∈ l → ∀ c : IntegerLiteral, info.sizeExpr = some (.number c.spelling) →
    BoundMeans tl c info

end

/-- The digits mean the same to `atoll`. -/
def ReadsDecimal (c : IntegerLiteral) : Prop :=
  match c.radix with
  | .decimal => c.value < 2 ^ 63
  -- `atoll` stops at the largest number, which an octal literal can write
  | .octal => c.value < 8 ∨ c.value = 2 ^ 63 - 1
  | .hexadecimal => c.value = 0
  | .binary => c.value = 0

theorem BoundMeans.size (h : BoundMeans tl c info) (hsmall : c.value < 2 ^ 63) (size align : Nat) :
    sizeAlignOfArray tl info (some (size, align)) = some (size * c.value % 2 ^ 64, align) := by
  simp [sizeAlignOfArray, (h.counted hsmall).1]

-- What the readers give

theorem digits_grow (base : Nat) (hbase : 0 < base) (ds : List Char) (n : Nat) :
    n ≤ ds.foldl (fun value c => value * base + digitOf c) n := by
  induction ds generalizing n with
  | nil => exact Nat.le_refl n
  | cons d ds ih =>
    have hstep : n ≤ n * base + digitOf d :=
      Nat.le_trans (Nat.le_mul_of_pos_right n hbase) (Nat.le_add_right _ _)
    exact Nat.le_trans hstep (ih _)

theorem octal_lt_decimal (ds : List Char) (h : n < k) :
    ds.foldl (fun value c => value * 8 + digitOf c) n <
      ds.foldl (fun value c => value * 10 + digitOf c) k := by
  induction ds generalizing n k with
  | nil => exact h
  | cons d ds ih =>
    have hstep : n * 8 + digitOf d < k * 10 + digitOf d := by omega
    exact ih hstep

/-- Octal digits make a larger decimal number, but for a single one. -/
theorem octal_cases (ds : List Char) (hds : ∀ c ∈ ds, digitOf c < 8) (hn : n < 8) :
    let octal := ds.foldl (fun value c => value * 8 + digitOf c) n
    let decimal := ds.foldl (fun value c => value * 10 + digitOf c) n
    octal < 8 ∧ decimal = octal ∨ 8 ≤ octal ∧ octal < decimal := by
  induction ds generalizing n with
  | nil => exact .inl ⟨hn, rfl⟩
  | cons d ds ih =>
    have hd := hds d List.mem_cons_self
    obtain rfl | hpos := Nat.eq_zero_or_pos n
    · simpa using ih (fun c hc => hds c (List.mem_cons_of_mem d hc)) hd
    · have hstep : n * 8 + digitOf d < n * 10 + digitOf d := by omega
      have hlarge : 8 ≤ n * 8 + digitOf d := by omega
      exact .inr ⟨Nat.le_trans hlarge (digits_grow 8 (by decide) ds _), octal_lt_decimal ds hstep⟩

theorem atoll_nat (htext : text = c :: rest) (hspace : isspace c = false) (hsign : c ≠ '-' ∧ c ≠ '+')
    (hread : (strtoullDigits 10 0 text).1 = n) : atoll text = min (n : Int) (2 ^ 63 - 1) := by
  subst htext
  have hunsigned : strtoullSign (c :: rest) = (false, c :: rest) := by
    unfold strtoullSign
    split <;> simp_all
  simp only [atoll, List.dropWhile_cons, hspace, Bool.false_eq_true, if_false, hunsigned, hread]
  omega

/-- What the decimal digits at the start of a literal amount to. -/
def decimalReading (c : IntegerLiteral) : Nat :=
  match c.radix with
  | .decimal => c.value
  | .octal => digitsValue 10 c.digits
  | .hexadecimal => 0
  | .binary => 0

theorem atoll_literal (c : IntegerLiteral) :
    atoll c.spelling = min (decimalReading c : Int) (2 ^ 63 - 1) := by
  obtain ⟨radix, mark, digits, suffix, hmark, hdigits, hstart, hsuffix⟩ := c
  have hstop : ∀ x ∈ suffix.head?, lexerHexValue x = none := fun x hx =>
    (suffixLetter_not_digit (hsuffix.letters x (List.mem_of_mem_head? hx))).1
  cases radix with
  | decimal =>
    obtain rfl : mark = [] := by simpa [LiteralRadix.marks] using hmark
    cases digits with
    | nil => simp [LiteralRadix.startOk] at hstart
    | cons d digits => ?_
    obtain ⟨_, hd, -⟩ := hdigits d List.mem_cons_self
    obtain ⟨hspace, hminus, hplus, -, -⟩ := digit_not_mark hd
    have hread := strtoullDigits_append 10 (d :: digits) suffix 0 hdigits hstop
    exact atoll_nat rfl hspace ⟨hminus, hplus⟩ (congrArg Prod.fst hread)
  | octal =>
    obtain rfl : mark = ['0'] := by simpa [LiteralRadix.marks] using hmark
    have hdecimal : ∀ x ∈ '0' :: digits, ∃ d, lexerHexValue x = some d ∧ d < 10 := by
      intro x hx
      obtain rfl | hx := List.mem_cons.mp hx
      · exact ⟨0, by decide, by decide⟩
      · exact (hdigits x hx).imp fun d h => ⟨h.1, Nat.lt_trans h.2 (by decide)⟩
    have hread := strtoullDigits_append 10 ('0' :: digits) suffix 0 hdecimal hstop
    have hzero : digitOf '0' = 0 := by decide
    exact atoll_nat rfl (by decide) (by decide) (congrArg Prod.fst hread)
  | hexadecimal =>
    have hmark' : mark = ['0', 'x'] ∨ mark = ['0', 'X'] := by simpa [LiteralRadix.marks] using hmark
    rcases hmark' with rfl | rfl <;> rfl
  | binary =>
    have hmark' : mark = ['0', 'b'] ∨ mark = ['0', 'B'] := by simpa [LiteralRadix.marks] using hmark
    rcases hmark' with rfl | rfl <;> rfl

theorem atoll_eq_iff (c : IntegerLiteral) : atoll c.spelling = (c.value : Int) ↔ ReadsDecimal c := by
  rw [atoll_literal]
  obtain ⟨radix, mark, digits, suffix, hmark, hdigits, hstart, hsuffix⟩ := c
  simp only [decimalReading, ReadsDecimal, IntegerLiteral.value]
  cases radix with
  | decimal | hexadecimal | binary => simp only; omega
  | octal => ?_
  have hsmall : ∀ x ∈ digits, digitOf x < 8 := by
    intro x hx
    obtain ⟨d, hd, hlt⟩ := hdigits x hx
    rw [digitOf, hd]
    exact hlt
  have hcases : digitsValue 8 digits < 8 ∧ digitsValue 10 digits = digitsValue 8 digits ∨
      8 ≤ digitsValue 8 digits ∧ digitsValue 8 digits < digitsValue 10 digits :=
    octal_cases digits hsmall (by decide)
  simp only [LiteralRadix.base]
  omega

theorem constEvalInteger_literal (c : IntegerLiteral) (m : DataModel) :
    ∃ n, constEvalInteger (dataLayout m) (.number c.spelling) = some n ∧
      (if c.value < 2 ^ 63 then n = c.value else n < 0) := by
  obtain ⟨info, hparse, -, hamount⟩ := c.constEvalNumber_cut m
  have heval : constEvalInteger (dataLayout m) (.number c.spelling) =
      some (makeConstTyped info.value info.bits info.isUnsigned).value.toInt := by
    simp [constEvalInteger, constEvalNumber, hparse]
  refine ⟨_, heval, ?_⟩
  generalize makeConstTyped info.value info.bits info.isUnsigned = r at hamount
  have hint : r.value.toInt = if r.value.toNat < 2 ^ 63 then
      (r.value.toNat : Int) else r.value.toNat - 2 ^ 64 := by
    rw [BitVec.toInt_eq_toNat_cond]
    split <;> split <;> omega
  unfold ConstEvalResult.amount Word.read at hamount
  split at hamount <;> split <;> split at hint <;> omega

-- Bounds that are kept and bounds that are recomputed

theorem evaluateArray_means (m : DataModel) (c : IntegerLiteral)
    (hsize : info.sizeExpr = some (.number c.spelling)) :
    BoundMeans (dataLayout m) c (evaluateArray (dataLayout m) info) := by
  obtain ⟨n, heval, hn⟩ := constEvalInteger_literal c m
  by_cases hsmall : c.value < 2 ^ 63
  · rw [if_pos hsmall] at hn
    subst hn
    have hlen : tryEvaluateArrayLength (dataLayout m) (.number c.spelling) = some c.value := by
      rw [tryEvaluateArrayLength, heval, Option.bind_some, if_neg (by omega)]
      rfl
    have hlength : arrayLength (dataLayout m) (evaluateArray (dataLayout m) info) = some (c.value : Int) := by
      simp [evaluateArray, hsize, hlen, arrayLength]
    exact ⟨fun n h => by simpa [hlength] using h.symm, fun _ => ⟨hlength, heval⟩⟩
  · rw [if_neg hsmall] at hn
    have hlength : arrayLength (dataLayout m) (evaluateArray (dataLayout m) info) = none := by
      simp [evaluateArray, hsize, tryEvaluateArrayLength, heval, arrayLength, hn]
    exact ⟨fun n h => by simp [hlength] at h, fun h => absurd h hsmall⟩

def Stored (info : ArrayInfo SizeExpr) : Prop :=
  info.constantSize = info.sizeExpr.bind numberLiteral ∧ (info.sizeExpr.isSome = true → info.isVLA = false)

theorem Stored.means_iff (h : Stored info) (m : DataModel) (c : IntegerLiteral)
    (hsize : info.sizeExpr = some (.number c.spelling)) :
    BoundMeans (dataLayout m) c info ↔ ReadsDecimal c := by
  have hnonneg : 0 ≤ atoll c.spelling := by
    rw [atoll_literal]
    omega
  have hlength : arrayLength (dataLayout m) info = some (atoll c.spelling) := by
    simp [arrayLength, h.1, h.2 (by rw [hsize]; rfl), hsize, numberLiteral, hnonneg]
  rw [← atoll_eq_iff]
  constructor
  · exact fun hmeans => hmeans.count _ hlength
  · intro hatoll
    refine ⟨fun n hn => ?_, fun hsmall => ?_⟩
    · exact (Option.some.inj (hn.symm.trans hlength)).trans hatoll
    · obtain ⟨n, heval, hn⟩ := constEvalInteger_literal c m
      rw [if_pos hsmall] at hn
      exact ⟨hlength.trans (congrArg some hatoll), heval.trans (congrArg some hn)⟩

-- Declared types

theorem scanArrayKeywords_kept (info : ArrayInfo SizeExpr) (tokens : List Token) :
    (scanArrayKeywords info tokens).1.sizeExpr = info.sizeExpr ∧
      (scanArrayKeywords info tokens).1.constantSize = info.constantSize ∧
      (scanArrayKeywords info tokens).1.isVLA = info.isVLA := by
  fun_induction scanArrayKeywords info tokens <;> simp_all

theorem parseArraySize_stored (env : Environment SizeExpr P) (tokens : List Token) :
    Stored (parseArraySize (sizeEnvironment env) tokens).1 := by
  obtain ⟨hexpr, hsize, hvla⟩ :=
    scanArrayKeywords_kept ⟨none, false, none, false, false, false, false⟩ tokens
  unfold parseArraySize
  generalize scanArrayKeywords ⟨none, false, none, false, false, false, false⟩ tokens = scanned
    at hexpr hsize hvla ⊢
  obtain ⟨info, tokens⟩ := scanned
  dsimp only at hexpr hsize hvla ⊢
  have hinfo : Stored info := ⟨by simp [hsize, hexpr], by simp [hexpr]⟩
  split
  · split
    · exact hinfo
    · split
      · exact hinfo
      · exact ⟨hinfo.1, by simp [hexpr]⟩
  · split
    · split <;> exact hinfo
    · split
      · exact hinfo
      · split
        · exact hinfo
        · exact ⟨rfl, fun _ => hvla⟩

def AllStored (t : Declarators.DeclaredType SizeExpr P) : Prop :=
  ∀ info, .array info ∈ spine t → Stored info

theorem allStored_kept (env : Environment SizeExpr P) : KeptBySteps (sizeEnvironment env) AllStored where
  array t tokens h := by
    intro info hinfo
    rw [spine_array] at hinfo
    rcases List.mem_append.mp hinfo with hinfo | hinfo
    · exact h info hinfo
    · obtain rfl := TypeDerivation.array.inj (List.mem_singleton.mp hinfo)
      exact parseArraySize_stored env tokens
  function grouped t signature _ h := by
    intro info hinfo
    rw [spine_function] at hinfo
    exact h info (by simpa using hinfo)
  finish chain grouped sawArray t h := by
    intro info hinfo
    rw [spine_finishType] at hinfo
    exact h info hinfo

theorem parse_stored {s : Declarators.DeclaratorState SizeExpr P}
    (h : parserParseDeclarator (sizeEnvironment env) opts .base tokens = .ok s)
    (hinfo : .array info ∈ s.type.derivations) : Stored info := by
  have hbase : AllStored (P := P) .base := by
    intro info hinfo
    simp [spine, Declarators.DeclaredType.base] at hinfo
  have hall := (allStored_kept env).parse h hbase
  exact hall info (by simpa [spine] using hinfo)

theorem mem_evaluateArrayDerivations {l : List (TypeDerivation SizeExpr P)}
    (h : .array info ∈ evaluateArrayDerivations tl l) :
    ∃ before, .array before ∈ l ∧ evaluateArray tl before = info := by
  obtain ⟨_ | _ | _, hmem, hd⟩ := List.mem_map.mp h
  · cases hd
  · exact ⟨_, hmem, TypeDerivation.array.inj hd⟩
  · cases hd

theorem evaluateArray_sizeExpr (info : ArrayInfo SizeExpr) :
    (evaluateArray tl info).sizeExpr = info.sizeExpr := by
  unfold evaluateArray
  split
  · rfl
  · split <;> rfl

theorem boundsMean_iff (m : DataModel) (env : Environment SizeExpr P) (opts : Options)
    (tokens : List Token) (s : Declarators.DeclaratorState SizeExpr P) (route : Route)
    (hparse : parserParseDeclarator (sizeEnvironment env) opts .base tokens = .ok s) :
    BoundsMean (dataLayout m) (route.derivations (dataLayout m) s.type.derivations) ↔
      route.recomputes s.type.derivations = true ∨
        ∀ info, .array info ∈ s.type.derivations → ∀ c : IntegerLiteral,
          info.sizeExpr = some (.number c.spelling) → ReadsDecimal c := by
  unfold Route.derivations
  split
  · rename_i hrecomputes
    refine iff_of_true (fun info hinfo c hsize => ?_) (.inl hrecomputes)
    obtain ⟨before, -, rfl⟩ := mem_evaluateArrayDerivations hinfo
    rw [evaluateArray_sizeExpr] at hsize
    exact evaluateArray_means m c hsize
  · rename_i hkept
    rw [or_iff_right hkept]
    refine forall₂_congr fun info hinfo => forall₂_congr fun c hsize => ?_
    exact (parse_stored hparse hinfo).means_iff m c hsize

theorem noSuffix_ok : SuffixOk [] := ⟨List.forall_mem_nil _, by decide, by decide⟩

/-- The literal `010`. -/
def octalEight : IntegerLiteral where
  radix := .octal
  mark := ['0']
  digits := ['1', '0']
  suffix := []
  mark_ok := by decide
  digits_ok := digitsOk_of_all (by decide)
  start_ok := rfl
  suffix_ok := noSuffix_ok

/-- Sizes are number tokens. -/
def literalEnvironment : Environment SizeExpr Unit where
  blockPointers := false
  captureFunctionParams := false
  parseAssignmentExpression
    | [] => (none, [])
    | tok :: rest => (tok.value.map fun text => .number text.toList, rest)
  numberLiteral := numberLiteral
  parseParameterList tokens := some (⟨false, false, []⟩, tokens)
  parseFunctionTypeParameterList tokens := some (⟨false, false, []⟩, tokens)

/-- `[010]` -/
def octalBound : List Token :=
  [(Declarators.tokenOf .lbracket none).1, (Declarators.tokenOf .number (some "010")).1,
    (Declarators.tokenOf .rbracket none).1]

def octalInfo : ArrayInfo SizeExpr :=
  ⟨some (.number octalEight.spelling), false, some 10, false, false, false, false⟩

theorem parse_octalBound :
    parserParseDeclarator (sizeEnvironment literalEnvironment) ⟨false, false⟩ .base octalBound =
      .ok ⟨[], ⟨[.array octalInfo], 0, false, [], false, false, false⟩, none, none, false⟩ := rfl

theorem boundsMean_declared : BoundsMean (dataLayout .lp64)
    (Route.derivations (P := Unit) (dataLayout .lp64) .declaration [.array octalInfo]) :=
  (boundsMean_iff .lp64 literalEnvironment _ _ _ .declaration parse_octalBound).mpr (.inl rfl)

/-- `sizeof(int[010])` counts ten elements, the evaluator eight. -/
theorem octal_bound_misread :
    ∃ s, parserParseDeclarator (sizeEnvironment literalEnvironment) ⟨false, false⟩ .base octalBound = .ok s ∧
      constEvalInteger (dataLayout .lp64) (.number octalEight.spelling) = some octalEight.value ∧
      ¬BoundsMean (dataLayout .lp64) (Route.typeName.derivations (dataLayout .lp64) s.type.derivations) := by
  refine ⟨_, parse_octalBound, by decide, fun h => ?_⟩
  have hcount := (h octalInfo (List.mem_singleton_self _) octalEight rfl).count 10 (by decide)
  exact absurd hcount (by decide)

end Fisics.Bounds
