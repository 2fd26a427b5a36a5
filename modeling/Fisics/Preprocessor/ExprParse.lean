import Fisics.Lexer.Laws
import Fisics.Preprocessor.ExprLaws
import Fisics.Preprocessor.ExprGrammar
import Mathlib.Data.List.TakeWhile
import Mathlib.Tactic.IntervalCases

/-!
# The parser follows the grammar

`CondExpr.outcome` computes over the tree what the parser computes over the
tokens. The parser gives it on every spelling of the tree, by induction on the
derivation. A level with a loop is left in the middle of that loop, since what
follows the tokens may be a further operator of the level.
-/

namespace Fisics

-- The levels

def levelRules : Nat → BinaryLevel
  | 2 => multiplicative
  | 3 => additive
  | 4 => shift
  | 5 => relational
  | 6 => equality
  | 7 => bitwiseAnd
  | 8 => bitwiseXor
  | 9 => bitwiseOr
  | 10 => logicalAnd
  | 11 => logicalOr
  | _ => ⟨[], evalBoth, fun _ value _ => some (value, false)⟩

def parseLevel (table : MacroTable) : Nat → PPExprParse
  | 0 => parsePrimary table (parseConditional table)
  | 1 => parseUnary table (parseConditional table)
  | l + 2 =>
    if l < 10 then binaryLevel (levelRules (l + 2)) (parseLevel table (l + 1))
    else parseConditional table

theorem parseLevel_eleven (table : MacroTable) :
    parseLevel table 11 = parseLogicalOr table (parseConditional table) := by
  simp only [parseLevel, parseLogicalOr, parseLogicalAnd, parseBitwiseOr, parseBitwiseXor,
    parseBitwiseAnd, parseEquality, parseRelational, parseShift, parseAdditive,
    parseMultiplicative, levelRules, Nat.reduceLT, ↓reduceIte]

theorem parseLevel_twelve (table : MacroTable) : parseLevel table 12 = parseConditional table := by
  rw [parseLevel, if_neg (by decide)]

-- What the code computes over a tree

def IntConstant.ppValue (c : IntConstant) : PPValue := ⟨BitVec.ofNat 64 c.value, c.isUnsigned⟩

def UnaryOp.apply : UnaryOp → PPValue → PPValue
  | .plus => id
  | .minus => ppValueNegate
  | .logicalNot => fun operand => ppValueBool (!ppValueTruthy operand)
  | .bitwiseNot => ppValueComplement

def BinaryOp.rules (op : BinaryOp) : BinaryLevel := levelRules op.level

/-- Whether the token of a word can be the operand of `defined`. -/
def isMacroWord (name : String) : Bool :=
  identifierTokenType name == .identifier || (identifierTokenType name).isKeyword

def CondExpr.outcome (table : MacroTable) : CondExpr → Bool → Option (PPValue × Bool)
  | .const c, eval => some (if eval then c.ppValue else ppValueSigned 0, false)
  | .ident name _, _ =>
    if identifierTokenType name = .identifier then some (ppValueSigned 0, false) else none
  | .defined name, eval =>
    if isMacroWord name then
      some (if eval then ppValueBool (macroTableLookup table name).isSome else ppValueSigned 0, false)
    else none
  | .unary op e, eval =>
    (e.outcome table eval).map fun (v, t) => (if eval then op.apply v else ppValueSigned 0, t)
  | .binary op l r, eval =>
    (l.outcome table eval).bind fun (v, t) =>
      (r.outcome table (op.rules.evalRight eval v)).bind fun (w, t') =>
        if eval then (op.rules.apply op.token v w).map fun (x, t'') => (x, t || t' || t'')
        else some (ppValueSigned 0, t || t')
  | .cond c a b, eval =>
    (c.outcome table eval).bind fun (v, t) =>
      (a.outcome table (eval && ppValueTruthy v)).bind fun (x, ta) =>
        (b.outcome table (eval && !ppValueTruthy v)).map fun (y, tb) =>
          (if !eval then ppValueSigned 0 else if ppValueTruthy v then x else y, t || ta || tb)

theorem evalRight_false (op : BinaryOp) (v : PPValue) : op.rules.evalRight false v = false := by
  cases op <;> rfl

theorem outcome_unevaluated (e : CondExpr) (h : e.outcome table false = some (v, t)) :
    v = ppValueSigned 0 ∧ t = false := by
  induction e generalizing v t with
  | const c =>
    cases h
    exact ⟨rfl, rfl⟩
  | ident name hn | defined name =>
    simp only [CondExpr.outcome] at h
    split at h <;> cases h
    exact ⟨rfl, rfl⟩
  | unary op e ih =>
    simp only [CondExpr.outcome, Option.map_eq_some_iff, Prod.exists, Prod.mk.injEq] at h
    obtain ⟨v', t', he, rfl, rfl⟩ := h
    exact ⟨rfl, (ih he).2⟩
  | binary op l r ihl ihr =>
    simp only [CondExpr.outcome, Option.bind_eq_some_iff, Prod.exists, evalRight_false] at h
    obtain ⟨v₁, t₁, hl, v₂, t₂, hr, h⟩ := h
    cases h
    exact ⟨rfl, by simp [(ihl hl).2, (ihr hr).2]⟩
  | cond c a b ihc iha ihb =>
    simp only [CondExpr.outcome, Option.bind_eq_some_iff, Option.map_eq_some_iff, Prod.exists,
      Bool.false_and] at h
    obtain ⟨v₁, t₁, hc, v₂, t₂, ha, v₃, t₃, hb, h⟩ := h
    cases h
    exact ⟨rfl, by simp [(ihc hc).2, (iha ha).2, (ihb hb).2]⟩

-- Where a level stops

def Ends (l : Nat) (rest : List Token) : Prop :=
  ∀ tok ∈ rest.head?, (∀ m ≤ l, tok.type ∉ (levelRules m).ops) ∧ (12 ≤ l → tok.type ≠ .question)

theorem Ends.mono (h : Ends l rest) (hm : m ≤ l) : Ends m rest := fun tok ht =>
  ⟨fun k hk => (h tok ht).1 k (Nat.le_trans hk hm), fun h12 => (h tok ht).2 (Nat.le_trans h12 hm)⟩

theorem ends_nil (l : Nat) : Ends l [] := fun _ h => by cases h

theorem levelRules_ops (m : Nat) (ht : t ∈ (levelRules m).ops) :
    t ∉ [.rparen, .colon, .question, .eof] := by
  unfold levelRules at ht
  split at ht <;>
    simp only [multiplicative, additive, shift, relational, equality, bitwiseAnd, bitwiseXor,
      bitwiseOr, logicalAnd, logicalOr, List.mem_cons, List.not_mem_nil, or_false] at ht <;>
    rcases ht with rfl | rfl | rfl | rfl <;> simp_all

theorem ends_closing (ht : tok.type = .rparen ∨ tok.type = .colon) : Ends l (tok :: rest) := by
  rintro t ⟨⟩
  refine ⟨fun m _ hm => ?_, fun _ => ?_⟩
  · have := levelRules_ops m hm
    rcases ht with ht | ht <;> simp [ht] at this
  · rcases ht with ht | ht <;> simp [ht]

theorem ends_question (ht : tok.type = .question) (hl : l < 12) : Ends l (tok :: rest) := by
  rintro t ⟨⟩
  refine ⟨fun m _ hm => ?_, fun h => absurd h (by omega)⟩
  have := levelRules_ops m hm
  simp [ht] at this

theorem BinaryOp.token_mem (op : BinaryOp) : op.token ∈ op.rules.ops := by
  cases op <;> decide

theorem BinaryOp.level_range (op : BinaryOp) : 2 ≤ op.level ∧ op.level ≤ 11 := by
  cases op <;> decide

theorem BinaryOp.token_tighter (op : BinaryOp) (hm : m < op.level) : op.token ∉ (levelRules m).ops := by
  cases op <;> simp only [BinaryOp.level] at hm <;> interval_cases m <;> decide

theorem ends_operator (op : BinaryOp) (ht : tok.type = op.token) (hl : l < op.level) :
    Ends l (tok :: rest) := by
  rintro t ⟨⟩
  refine ⟨fun m hm => ?_, fun h => absurd h (by have := op.level_range; omega)⟩
  rw [ht]
  exact op.token_tighter (by omega)

-- Reading a derivation

def Yields (outcome : Option (PPValue × Bool)) (rest : List Token) (trapped : Bool)
    (r : PPValue × PPExprParser) : Prop :=
  match outcome with
  | some (v, t) => r = (v, ⟨rest, false, trapped || t⟩)
  | none => r.2.error = true

section
variable (table : MacroTable)

def Reads (l : Nat) (e : CondExpr) (ts : List Token) : Prop :=
  ∀ rest trapped eval, Ends l rest →
    Yields (e.outcome table eval) rest trapped (parseLevel table l ⟨ts ++ rest, false, trapped⟩ eval)

def Resumes (l : Nat) (eval : Bool) (outcome : Option (PPValue × Bool)) (rest : List Token)
    (trapped : Bool) (r : PPValue × PPExprParser) : Prop :=
  match outcome with
  | some (v, t) => ∃ rounds, rest.length ≤ rounds ∧
      let s := binaryLoop (levelRules (l + 1)) (parseLevel table l) eval rounds v
        ⟨rest, false, trapped || t⟩
      r = (if eval then s.1 else ppValueSigned 0, s.2)
  | none => r.2.error = true

/-- What reading the left operand of level `l + 1` leaves. -/
def Chains (l : Nat) (e : CondExpr) (ts : List Token) : Prop :=
  ∀ rest trapped eval, Ends l rest →
    Resumes table l eval (e.outcome table eval) rest trapped
      (parseLevel table (l + 1) ⟨ts ++ rest, false, trapped⟩ eval)

end

theorem parserMatch_hit (ht : tok.type = type) (heof : type ≠ .eof) :
    parserMatch ⟨tok :: rest, error, trapped⟩ type = (true, ⟨rest, error, trapped⟩) := by
  simp [parserMatch, parserPeek, parserAdvance, ht, heof]

section
variable {table : MacroTable}

theorem binaryLoop_ends (hp : Ends (l + 1) rest) (eval : Bool) (rounds : Nat) (v : PPValue)
    (trapped : Bool) (operand : PPExprParse) :
    binaryLoop (levelRules (l + 1)) operand eval rounds v ⟨rest, false, trapped⟩ =
      (v, ⟨rest, false, trapped⟩) := by
  cases rounds with
  | zero => rfl
  | succ rounds => ?_
  cases rest with
  | nil => rfl
  | cons tok rest =>
    have := (hp tok rfl).1 (l + 1) (Nat.le_refl _)
    simp [binaryLoop, parserPeek, this]

theorem Chains.reads (h : Chains table l e ts) : Reads table (l + 1) e ts := by
  intro rest trapped eval hend
  have hr := h rest trapped eval (hend.mono (Nat.le_succ l))
  unfold Resumes at hr
  unfold Yields
  cases ho : e.outcome table eval with
  | none => simpa [ho] using hr
  | some o => ?_
  obtain ⟨v, t⟩ := o
  simp only [ho] at hr ⊢
  obtain ⟨rounds, -, hr⟩ := hr
  rw [hr, binaryLoop_ends hend]
  cases eval with
  | true => rfl
  | false => rw [(outcome_unevaluated e ho).1]; rfl

theorem parseLevel_binary (h1 : 1 ≤ l) (h11 : l < 11) :
    parseLevel table (l + 1) = binaryLevel (levelRules (l + 1)) (parseLevel table l) := by
  obtain ⟨k, rfl⟩ := Nat.exists_eq_add_of_le' h1
  rw [parseLevel, if_pos (by omega)]

theorem Reads.chains (h : Reads table l e ts) (h1 : 1 ≤ l) (h11 : l < 11) : Chains table l e ts := by
  intro rest trapped eval hend
  have hr := h rest trapped eval hend
  rw [parseLevel_binary h1 h11]
  unfold Yields at hr
  cases ho : e.outcome table eval with
  | none =>
    simp only [ho] at hr
    exact binaryLoop_error eval _ _ _ hr
  | some o => ?_
  obtain ⟨v, t⟩ := o
  simp only [ho] at hr
  refine ⟨rest.length, Nat.le_refl _, ?_⟩
  simp only [binaryLevel, hr]

theorem Chains.binary (hop : op.level = l + 1) (h₁ : Chains table l e₁ ts₁)
    (ht : tok.type = op.token) (h₂ : Reads table l e₂ ts₂) :
    Chains table l (.binary op e₁ e₂) (ts₁ ++ tok :: ts₂) := by
  intro rest trapped eval hend
  have hr := h₁ (tok :: (ts₂ ++ rest)) trapped eval (ends_operator op ht (by omega))
  rw [List.append_assoc, List.cons_append]
  generalize parseLevel table (l + 1) ⟨ts₁ ++ tok :: (ts₂ ++ rest), false, trapped⟩ eval = r at hr ⊢
  have hrules : levelRules (l + 1) = op.rules := by rw [BinaryOp.rules, hop]
  unfold Resumes at hr ⊢
  rw [hrules] at hr ⊢
  cases ho : e₁.outcome table eval with
  | none =>
    simp only [ho] at hr
    simp only [CondExpr.outcome, ho, Option.bind_none]
    exact hr
  | some o => ?_
  obtain ⟨v, t⟩ := o
  simp only [ho] at hr
  obtain ⟨rounds, hrounds, rfl⟩ := hr
  obtain ⟨rounds, rfl⟩ : ∃ n, rounds = n + 1 := ⟨rounds - 1, by simp at hrounds; omega⟩
  have hmem : tok.type ∈ op.rules.ops := by rw [ht]; exact op.token_mem
  have heof : tok.type ≠ .eof := by
    intro h
    have := levelRules_ops op.level hmem
    simp [h] at this
  have hright := h₂ rest (trapped || t) (op.rules.evalRight eval v) hend
  simp only [List.length_cons, List.length_append] at hrounds
  simp only [CondExpr.outcome, ho, Option.bind_some]
  -- one round: the operator, then the right operand
  rw [binaryLoop]
  simp only [Bool.false_eq_true, ↓reduceIte, parserPeek, List.head?_cons, hmem, parserAdvance, heof]
  unfold Yields at hright
  cases ho₂ : e₂.outcome table (op.rules.evalRight eval v) with
  | none =>
    simp only [ho₂] at hright
    simp only [Option.bind_none]
    cases eval with
    | true => ?_
    | false => exact binaryLoop_error false _ _ _ hright
    simp only [↓reduceIte]
    split
    · exact binaryLoop_error true _ _ _ rfl
    · exact binaryLoop_error true _ _ _ hright
  | some o₂ =>
    obtain ⟨w, t₂⟩ := o₂
    simp only [ho₂] at hright
    simp only [Option.bind_some, hright]
    cases eval with
    | true => ?_
    | false =>
      refine ⟨rounds, by omega, ?_⟩
      rw [(outcome_unevaluated e₁ ho).1]
      simp [Bool.or_assoc]
    simp only [↓reduceIte, ht]
    cases op.rules.apply op.token v w with
    | none => exact binaryLoop_error true _ _ _ rfl
    | some x =>
      obtain ⟨x, t₃⟩ := x
      refine ⟨rounds, by omega, ?_⟩
      simp [Bool.or_assoc]

end

-- Integer constants

theorem strtoullDigits_append (base : Nat) (digits rest : List Char) (value : Nat)
    (hd : ∀ c ∈ digits, ∃ d, lexerHexValue c = some d ∧ d < base)
    (hr : ∀ c ∈ rest.head?, lexerHexValue c = none) :
    strtoullDigits base value (digits ++ rest) =
      (digits.foldl (fun value c => value * base + digitOf c) value, rest) := by
  induction digits generalizing value with
  | nil =>
    cases rest with
    | nil => rfl
    | cons c rest => simp [strtoullDigits, hr c rfl]
  | cons c digits ih =>
    obtain ⟨d, hc, hlt⟩ := hd c List.mem_cons_self
    have hrest := ih (value * base + d) (fun x hx => hd x (List.mem_cons_of_mem c hx))
    simp [strtoullDigits, hc, hlt, hrest, digitOf]

theorem integerSuffix_letters (h : suffix ∈ integerSuffixes) : ∀ c ∈ suffix, c ∈ ['u', 'U', 'l', 'L'] := by
  have hall : ∀ s ∈ integerSuffixes, s.all (· ∈ ['u', 'U', 'l', 'L']) = true := by decide
  intro c hc
  simpa using List.all_eq_true.mp (hall suffix h) c hc

theorem suffixLetter_not_digit (h : c ∈ ['u', 'U', 'l', 'L']) :
    lexerHexValue c = none ∧ c.isAlpha = true ∧ c ≠ 'x' ∧ c ≠ 'X' := by
  simp only [List.mem_cons, List.not_mem_nil, or_false] at h
  obtain rfl | rfl | rfl | rfl := h <;> decide

theorem digit_not_u (h : lexerHexValue c = some d) : (c == 'u' || c == 'U') = false := by
  have hu : c ≠ 'u' := by
    rintro rfl
    exact absurd h (by rw [show lexerHexValue 'u' = none by decide]; simp)
  have hU : c ≠ 'U' := by
    rintro rfl
    exact absurd h (by rw [show lexerHexValue 'U' = none by decide]; simp)
  simp [hu, hU]

theorem digit_not_mark (h : lexerHexValue c = some d) :
    isspace c = false ∧ c ≠ '-' ∧ c ≠ '+' ∧ c ≠ 'x' ∧ c ≠ 'X' := by
  have hne : ∀ x, lexerHexValue x = none → c ≠ x := by
    rintro x hx rfl
    simp [h] at hx
  refine ⟨?_, hne _ (by decide), hne _ (by decide), hne _ (by decide), hne _ (by decide)⟩
  simp [isspace, hne ' ' (by decide), hne '\t' (by decide), hne '\n' (by decide),
    hne '\x0b' (by decide), hne '\x0c' (by decide), hne '\r' (by decide)]

theorem strtoull_of_base (base : Nat) (digits : List Char) (hc : lexerHexValue c = some d)
    (hb : strtoullBase (c :: text) = (base, digits))
    (hd : strtoullDigits base 0 digits = (value, rest)) (hr : rest.length < digits.length)
    (hv : value < 2 ^ 64) : strtoull (c :: text) = (value, rest, false) := by
  obtain ⟨hspace, hminus, hplus, -, -⟩ := digit_not_mark hc
  unfold strtoull
  simp only [List.dropWhile_cons, hspace, Bool.false_eq_true, ↓reduceIte]
  have hsign : strtoullSign (c :: text) = (false, c :: text) := by
    unfold strtoullSign
    split <;> simp_all
  simp only [hsign, hb, hd]
  rw [if_neg (by omega), if_neg (by omega)]
  rfl

theorem strtoullBase_octal (h : ∀ x ∈ text.head?, x ≠ 'x' ∧ x ≠ 'X') :
    strtoullBase ('0' :: text) = (8, '0' :: text) := by
  match text with
  | [] => rfl
  | [x] => rfl
  | x :: d :: rest =>
    obtain ⟨h1, h2⟩ := h x rfl
    simp [strtoullBase, h1, h2]

theorem isxdigit_of_digit (h : lexerHexValue c = some d) : isxdigit c = true := by
  unfold lexerHexValue at h
  unfold isxdigit
  iterate 3
    split at h
    · simp_all
  · cases h

section
variable {radix : Radix} {mark digits suffix : List Char}

section
variable (hmark : mark ∈ radix.marks) (hdigits : ∀ c ∈ digits, ∃ d, lexerHexValue c = some d ∧ d < radix.base)

include hmark hdigits

theorem strtoull_integer (hstart : radix.startOk digits.head? = true)
    (hsuffix : ∀ c ∈ suffix, c ∈ ['u', 'U', 'l', 'L'])
    (hfits : digitsValue radix.base digits < 2 ^ 64) :
    strtoull (mark ++ digits ++ suffix) = (digitsValue radix.base digits, suffix, false) := by
  have hletters := fun x hx => suffixLetter_not_digit (hsuffix x hx)
  have hstop : ∀ x ∈ suffix.head?, lexerHexValue x = none := fun x hx =>
    (hletters x (List.mem_of_mem_head? hx)).1
  cases radix with
  | decimal =>
    obtain rfl : mark = [] := by simpa [Radix.marks] using hmark
    cases digits with
    | nil => simp [Radix.startOk] at hstart
    | cons x rest => ?_
    have hx0 : x ≠ '0' := by simpa [Radix.startOk] using hstart
    obtain ⟨d, hx, hd⟩ := hdigits x List.mem_cons_self
    have hread := strtoullDigits_append 10 (x :: rest) suffix 0 hdigits hstop
    refine strtoull_of_base 10 (x :: rest ++ suffix) hx ?_ hread ?_ hfits
    · unfold strtoullBase
      split <;> simp_all
    · rw [List.length_append, List.length_cons]
      omega
  | octal =>
    obtain rfl : mark = ['0'] := by simpa [Radix.marks] using hmark
    have hzero : ∃ d, lexerHexValue '0' = some d ∧ d < 8 := ⟨0, by decide, by decide⟩
    have hread := strtoullDigits_append 8 ('0' :: digits) suffix 0 (by simpa using ⟨hzero, hdigits⟩) hstop
    refine strtoull_of_base 8 ('0' :: digits ++ suffix) (d := 0) (by decide) ?_ hread ?_ ?_
    · refine strtoullBase_octal fun x hx => ?_
      cases digits with
      | nil => exact (hletters x (List.mem_of_mem_head? (by simpa using hx))).2.2
      | cons y digits =>
        obtain ⟨d, hy, -⟩ := hdigits y List.mem_cons_self
        obtain rfl : y = x := by simpa using hx
        exact (digit_not_mark hy).2.2.2
    · rw [List.length_append, List.length_cons]
      omega
    · simpa [digitsValue, digitOf, show lexerHexValue '0' = some 0 by decide] using hfits
  | hexadecimal =>
    cases digits with
    | nil => simp [Radix.startOk] at hstart
    | cons x rest => ?_
    obtain ⟨d, hx, hd⟩ := hdigits x List.mem_cons_self
    have hread := strtoullDigits_append 16 (x :: rest) suffix 0 hdigits hstop
    have hmark' : mark = ['0', 'x'] ∨ mark = ['0', 'X'] := by simpa [Radix.marks] using hmark
    have hlen : suffix.length < (x :: rest ++ suffix).length := by
      rw [List.length_append, List.length_cons]
      omega
    rcases hmark' with rfl | rfl
    all_goals
      refine strtoull_of_base 16 _ (d := 0) (by decide) ?_ hread hlen hfits
      simp [strtoullBase, isxdigit_of_digit hx]

theorem unsignedLetter_suffix :
    (mark ++ digits ++ suffix).any (fun x => x == 'u' || x == 'U') =
      suffix.any (fun x => x == 'u' || x == 'U') := by
  have hm : mark.any (fun x => x == 'u' || x == 'U') = false := by
    cases radix <;> revert mark <;> decide
  have hd : digits.any (fun x => x == 'u' || x == 'U') = false := by
    rw [List.any_eq_false]
    intro x hx
    obtain ⟨d, hd, -⟩ := hdigits x hx
    simp [digit_not_u hd]
  rw [List.any_append, List.any_append, hm, hd, Bool.false_or, Bool.false_or]

theorem parseIntegerToken_integer (hstart : radix.startOk digits.head? = true)
    (hletters : ∀ c ∈ suffix, c ∈ ['u', 'U', 'l', 'L'])
    (hfits : digitsValue radix.base digits < 2 ^ 64)
    (hv : tok.value = some (String.ofList (mark ++ digits ++ suffix))) :
    parseIntegerToken tok = some ⟨BitVec.ofNat 64 (digitsValue radix.base digits),
      suffix.any (fun x => x == 'u' || x == 'U') ||
        decide (2 ^ 63 ≤ digitsValue radix.base digits)⟩ := by
  have hsuffix : (suffix.dropWhile Char.isAlpha).isEmpty = true := by
    rw [List.isEmpty_iff, List.dropWhile_eq_nil_iff]
    exact fun x hx => (suffixLetter_not_digit (hletters x hx)).2.1
  simp only [parseIntegerToken, hv, String.toList_ofList,
    strtoull_integer hmark hdigits hstart hletters hfits, unsignedLetter_suffix hmark hdigits, hsuffix,
    Bool.not_true, Bool.or_self, Bool.false_eq_true, ↓reduceIte, ppValueUnsigned, ppValueSigned]
  generalize digitsValue radix.base digits = value
  by_cases hu : suffix.any (fun x => x == 'u' || x == 'U') = true
  · simp [hu]
  simp only [hu, Bool.false_or, decide_eq_true_eq]
  by_cases hbig : 2 ^ 63 ≤ value
  · rw [if_pos (by omega), decide_eq_true hbig]
  · rw [if_neg (by omega), decide_eq_false hbig]

end

end

theorem IntConstant.parse_spelling (c : IntConstant) (hv : tok.value = some c.spelling) :
    parseIntegerToken tok = some c.ppValue :=
  parseIntegerToken_integer c.mark_ok c.digits_ok c.start_ok (integerSuffix_letters c.suffix_ok) c.fits hv

-- Primary and unary expressions

section
variable {table : MacroTable}

theorem reads_const (ht : tok.type = .number) (hv : tok.value = some c.spelling) :
    Reads table 0 (.const c) [tok] := by
  intro rest trapped eval hend
  cases eval with
  | true =>
    simp [Yields, CondExpr.outcome, parseLevel, parsePrimary, parserPeek, parserAdvance, ht,
      c.parse_spelling hv]
  | false => simp [Yields, CondExpr.outcome, parseLevel, parsePrimary, parserPeek, parserAdvance, ht]

theorem reads_ident (hw : IsWord name tok) : Reads table 0 (.ident name hn) [tok] := by
  intro rest trapped eval hend
  obtain ⟨ht, hv⟩ := hw
  have hdef : ¬ (tok.type = .identifier ∧ tok.value = some "defined") := by
    rintro ⟨-, h⟩
    exact hn (by simpa [hv] using h)
  simp only [Yields, CondExpr.outcome, parseLevel, parsePrimary, parserPeek, List.singleton_append,
    List.head?_cons, hdef, ↓reduceIte, parserAdvance]
  by_cases hid : identifierTokenType name = .identifier
  · simp [hid, ht]
  simp only [hid, ↓reduceIte, ht]
  split
  iterate 2
    · rename_i h
      exact absurd h (identifierTokenType_not name (by decide))
  · rename_i h
    exact absurd h hid
  · rename_i h
    exact absurd h (identifierTokenType_not name (by decide))
  · rfl

theorem isMacroWord_token (hw : IsWord name tok) : tokenIsMacroIdentifier tok = isMacroWord name := by
  simp [tokenIsMacroIdentifier, isMacroWord, hw.1, hw.2]

theorem parseDefined_word (hw : IsWord name tok) (rest : List Token) (trapped eval : Bool) :
    Yields ((CondExpr.defined name).outcome table eval) rest trapped
      (parseDefined table ⟨tok :: rest, false, trapped⟩ eval) := by
  have hlp : tok.type ≠ .lparen := by
    rw [hw.1]
    exact identifierTokenType_not name (by decide)
  have heof : tok.type ≠ .eof := by
    rw [hw.1]
    exact identifierTokenType_not name (by decide)
  simp only [Yields, CondExpr.outcome, parseDefined, parserMatch, parserPeek, List.head?_cons, hlp,
    ↓reduceIte, isMacroWord_token hw]
  by_cases hm : isMacroWord name = true
  · cases eval <;> simp [hm, parserAdvance, heof, tokenText, hw.2]
  · simp [hm]

theorem parseDefined_paren (hl : lpar.type = .lparen) (hw : IsWord name tok) (hr : rpar.type = .rparen)
    (rest : List Token) (trapped eval : Bool) :
    Yields ((CondExpr.defined name).outcome table eval) rest trapped
      (parseDefined table ⟨lpar :: tok :: rpar :: rest, false, trapped⟩ eval) := by
  have heof : tok.type ≠ .eof := by
    rw [hw.1]
    exact identifierTokenType_not name (by decide)
  have hmac := isMacroWord_token hw
  simp only [Yields, CondExpr.outcome, parseDefined, parserMatch_hit hl (by decide)]
  by_cases hm : isMacroWord name = true
  · cases eval <;>
      simp [parserPeek, parserAdvance, heof, hmac, hm, parserMatch_hit hr (by decide), tokenText, hw.2]
  · simp [parserPeek, hmac, hm]

theorem parsePrimary_defined (hd : IsWord "defined" w) (f : PPExprParse) (rest : List Token)
    (trapped eval : Bool) :
    parsePrimary table f ⟨w :: rest, false, trapped⟩ eval =
      parseDefined table ⟨rest, false, trapped⟩ eval := by
  have ht : w.type = .identifier := hd.1.trans (by decide)
  simp [parsePrimary, parserPeek, parserAdvance, ht, hd.2]

theorem Reads.paren (hl : lpar.type = .lparen) (h : Reads table 12 e ts) (hr : rpar.type = .rparen) :
    Reads table 0 e (lpar :: (ts ++ [rpar])) := by
  intro rest trapped eval hend
  have he := h (rpar :: rest) trapped eval (ends_closing (.inl hr))
  rw [parseLevel_twelve] at he
  simp only [List.cons_append, List.append_assoc, List.nil_append, parseLevel, parsePrimary,
    parserPeek, List.head?_cons, hl, parserAdvance, reduceCtorEq, ↓reduceIte, false_and]
  unfold Yields at he ⊢
  cases ho : e.outcome table eval with
  | none =>
    simp only [ho] at he
    dsimp only
    split
    · simpa using he
    · rfl
  | some o =>
    obtain ⟨v, t⟩ := o
    simp only [ho] at he
    simp only [he, parserMatch_hit hr (by decide), ↓reduceIte]
    cases eval with
    | true => rfl
    | false => simp [(outcome_unevaluated e ho).1]

theorem UnaryOp.unaryOperator_token (op : UnaryOp) : unaryOperator op.token = some op.apply := by
  cases op <;> rfl

theorem Reads.unary (ht : tok.type = op.token) (h : Reads table 1 e ts) :
    Reads table 1 (.unary op e) (tok :: ts) := by
  intro rest trapped eval hend
  have he := h rest trapped eval hend
  simp only [parseLevel, parseUnary] at he ⊢
  rw [List.cons_append, parseUnaryTokens]
  simp only [ht, UnaryOp.unaryOperator_token, CondExpr.outcome]
  unfold Yields at he ⊢
  cases ho : e.outcome table eval with
  | none => simpa [ho] using he
  | some o =>
    obtain ⟨v, t⟩ := o
    simp only [ho] at he
    simp [he]

theorem unaryOperator_word (hw : IsWord name tok) : unaryOperator tok.type = none := by
  rw [hw.1]
  unfold unaryOperator
  split
  case h_5 => rfl
  all_goals exact absurd ‹_› (identifierTokenType_not name (by decide))

theorem Derives.head_primary (h : Derives l e ts) (hl : l = 0) :
    ∃ tok rest, ts = tok :: rest ∧ unaryOperator tok.type = none := by
  cases h with
  | const ht hv => exact ⟨_, _, rfl, by simp [ht, unaryOperator]⟩
  | ident hw => exact ⟨_, _, rfl, unaryOperator_word hw⟩
  | defined hd hw | definedParen hd hl hw hr => exact ⟨_, _, rfl, unaryOperator_word hd⟩
  | paren hlp he hr => exact ⟨_, _, rfl, by simp [hlp, unaryOperator]⟩
  | unary | lift | binary | cond => omega

theorem Reads.unary_of_primary (h : Reads table 0 e ts) (hts : ts = tok :: rest')
    (hop : unaryOperator tok.type = none) : Reads table 1 e ts := by
  intro rest trapped eval hend
  have he := h rest trapped eval (hend.mono (by omega))
  subst hts
  simp only [parseLevel, parseUnary] at he ⊢
  rw [List.cons_append] at he ⊢
  rw [parseUnaryTokens, hop]
  exact he

theorem Reads.conditional (h : Reads table 11 e ts) : Reads table 12 e ts := by
  intro rest trapped eval hend
  have he := h rest trapped eval (hend.mono (by omega))
  rw [parseLevel_eleven] at he
  rw [parseLevel_twelve, parseConditional_eq, conditionalLevel]
  have hsticky := parseConditional_sticky table
  generalize parseConditional table = f at he hsticky ⊢
  generalize parseLogicalOr table f ⟨ts ++ rest, false, trapped⟩ eval = r at he ⊢
  unfold Yields at he ⊢
  cases ho : e.outcome table eval with
  | none =>
    simp only [ho] at he
    exact conditionalRest_error hsticky eval r.1 r.2 he
  | some o => ?_
  obtain ⟨v, t⟩ := o
  simp only [ho] at he
  have hq : parserMatch ⟨rest, false, trapped || t⟩ .question =
      (false, ⟨rest, false, trapped || t⟩) := by
    cases rest with
    | nil => rfl
    | cons tok rest =>
      have := (hend tok rfl).2 (Nat.le_refl _)
      simp [parserMatch, parserPeek, this]
  simp only [he, conditionalRest, hq]
  cases eval with
  | true => rfl
  | false => simp [(outcome_unevaluated e ho).1]

theorem Reads.cond (h₁ : Reads table 11 c ts₁) (hq : q.type = .question) (h₂ : Reads table 12 a ts₂)
    (hc : co.type = .colon) (h₃ : Reads table 12 b ts₃) :
    Reads table 12 (.cond c a b) (ts₁ ++ q :: (ts₂ ++ co :: ts₃)) := by
  intro rest trapped eval hend
  have hsticky := parseConditional_sticky table
  have hcond := h₁ (q :: (ts₂ ++ co :: ts₃ ++ rest)) trapped eval (ends_question hq (by omega))
  unfold Reads at h₂ h₃
  rw [parseLevel_eleven] at hcond
  simp only [parseLevel_twelve] at h₂ h₃ ⊢
  rw [parseConditional_eq, conditionalLevel]
  simp only [List.append_assoc, List.cons_append] at hcond ⊢
  generalize parseConditional table = f at hcond hsticky h₂ h₃ ⊢
  generalize parseLogicalOr table f ⟨ts₁ ++ q :: (ts₂ ++ co :: (ts₃ ++ rest)), false, trapped⟩ eval =
    r at hcond ⊢
  unfold Yields at hcond
  cases hoc : c.outcome table eval with
  | none =>
    simp only [hoc] at hcond
    simp only [Yields, CondExpr.outcome, hoc, Option.bind_none]
    exact conditionalRest_error hsticky eval r.1 r.2 hcond
  | some o => ?_
  obtain ⟨v, t⟩ := o
  simp only [hoc] at hcond
  have hyes := h₂ (co :: (ts₃ ++ rest)) (trapped || t) (eval && ppValueTruthy v) (ends_closing (.inr hc))
  simp only [hcond, conditionalRest, parserMatch_hit hq (by decide), ↓reduceIte]
  unfold Yields at hyes
  cases hoa : a.outcome table (eval && ppValueTruthy v) with
  | none =>
    simp only [hoa] at hyes
    simp only [Yields, CondExpr.outcome, hoc, hoa, Option.bind_some, Option.bind_none]
    split
    · exact hsticky _ _ (by simpa using hyes)
    · rfl
  | some o =>
    obtain ⟨x, ta⟩ := o
    simp only [hoa] at hyes
    have hno := h₃ rest (trapped || t || ta) (eval && !ppValueTruthy v) hend
    simp only [hyes, parserMatch_hit hc (by decide), ↓reduceIte]
    unfold Yields at hno ⊢
    cases hob : b.outcome table (eval && !ppValueTruthy v) with
    | none =>
      simpa only [CondExpr.outcome, hoc, hoa, hob, Option.bind_some, Option.map_none] using hno
    | some o => ?_
    obtain ⟨y, tb⟩ := o
    simp only [hob] at hno
    simp only [hno]
    simp [CondExpr.outcome, hoc, hoa, hob, Bool.or_assoc]

/-- Every derivation is read as its tree, and at a level with a loop it leaves
the loop ready to go on. -/
theorem Derives.reads (table : MacroTable) (h : Derives l e ts) :
    Reads table l e ts ∧ ∀ k, l = k + 1 → 1 ≤ k → k < 11 → Chains table k e ts := by
  induction h with
  | const ht hv => exact ⟨reads_const ht hv, by omega⟩
  | ident hw => exact ⟨reads_ident hw, by omega⟩
  | defined hd hw =>
    refine ⟨fun rest trapped eval _ => ?_, by omega⟩
    rw [parseLevel, List.cons_append, parsePrimary_defined hd]
    exact parseDefined_word hw rest trapped eval
  | definedParen hd hl hw hr =>
    refine ⟨fun rest trapped eval _ => ?_, by omega⟩
    rw [parseLevel, List.cons_append, parsePrimary_defined hd]
    exact parseDefined_paren hl hw hr rest trapped eval
  | paren hl he hr ih => exact ⟨ih.1.paren hl hr, by omega⟩
  | unary ht he ih => exact ⟨ih.1.unary ht, by omega⟩
  | @lift l e ts he hl ih =>
    rcases Nat.eq_zero_or_pos l with rfl | hpos
    · obtain ⟨tok, rest, hts, hop⟩ := he.head_primary rfl
      exact ⟨ih.1.unary_of_primary hts hop, by omega⟩
    · rcases Nat.lt_or_ge l 11 with h11 | h11
      · have hchain := ih.1.chains hpos h11
        refine ⟨hchain.reads, fun k hk _ _ => ?_⟩
        obtain rfl : l = k := by omega
        exact hchain
      · obtain rfl : l = 11 := by omega
        exact ⟨ih.1.conditional, by omega⟩
  | @binary l e₁ ts₁ e₂ ts₂ op tok hop h₁ ht h₂ ih₁ ih₂ =>
    have hrange := op.level_range
    have hchain := (ih₁.2 l rfl (by omega) (by omega)).binary hop ht ih₂.1
    refine ⟨hchain.reads, fun k hk _ _ => ?_⟩
    obtain rfl : l = k := by omega
    exact hchain
  | cond h₁ hq h₂ hc h₃ ih₁ ih₂ ih₃ => exact ⟨ih₁.1.cond hq ih₂.1 hc ih₃.1, by omega⟩

theorem parseConditional_spelling (table : MacroTable) (h : Spells e ts) (eval : Bool) :
    Yields (e.outcome table eval) [] false (parseConditional table ⟨ts, false, false⟩ eval) := by
  have := (Derives.reads table h).1 [] false eval (ends_nil 12)
  rwa [parseLevel_twelve, List.append_nil] at this

end

end Fisics
