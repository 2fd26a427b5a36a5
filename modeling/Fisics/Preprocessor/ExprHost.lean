import Fisics.Library.HostArith
import Fisics.Preprocessor.ExprGrammar
import Fisics.Preprocessor.ExprLaws

/-!
# Host arithmetic in `#if` expressions

The evaluator computes with the 64-bit integers of its host: an operand with the
unsigned type makes an operation wrap, two signed operands are handed to the host's
signed operation, and only a zero divisor is refused before. The operations that an
evaluation carries out are followed through the precedence levels, next to the parsing
functions; where the parser records a trap, one of them is a division that traps.
-/

namespace Fisics

open CInteger (ArithOp)
open List (any_append forall_mem_cons forall_mem_singleton mem_append)
open HostArith (HostOp InRange ArithDefined exact)

-- Operations

inductive PPOperation
  | unary (op : TokenType) (operand : PPValue)
  | binary (op : TokenType) (value rhs : PPValue)
  deriving DecidableEq

def arithOp : TokenType → Option ArithOp
  | .asterisk => some .mul
  | .divide => some .div
  | .modulo => some .mod
  | .plus => some .add
  | .minus => some .sub
  | _ => none

def shiftAmount (rhs : PPValue) : Nat := (rhs.bits &&& 63).toNat

/-- `/` or `%` by zero, which is an error. -/
def dividesByZero (op : TokenType) (rhs : PPValue) : Bool :=
  (op == .divide || op == .modulo) && !ppValueTruthy rhs

def levelOf (op : TokenType) : Option BinaryLevel :=
  [multiplicative, additive, shift, relational, equality, bitwiseAnd, bitwiseXor, bitwiseOr, logicalAnd,
    logicalOr].find? fun level => level.ops.contains op

namespace PPOperation

def hostOps : PPOperation → List (HostOp 64)
  | unary .minus operand => if operand.isUnsigned then [] else [.neg operand.bits]
  | unary _ _ => []
  | binary .leftShift value rhs => [.shl value.isUnsigned value.bits (shiftAmount rhs)]
  | binary .rightShift value rhs => [.shr value.isUnsigned value.bits (shiftAmount rhs)]
  | binary op value rhs =>
    if dividesByZero op rhs then []
    else (arithOp op).toList.map fun f => .arith f (ppValueUseUnsigned value rhs) value.bits rhs.bits

/-- The value, or `none` for an operator that fails. -/
def result : PPOperation → Option PPValue
  | unary op operand => (unaryOperator op).map (· operand)
  | binary op value rhs => (levelOf op).bind fun level => (level.apply op value rhs).map Prod.fst

/-- The result on signed words is no signed word of 64 bits, or there is none. -/
def Overflows : PPOperation → Prop
  | unary .minus operand => ¬InRange 64 (-operand.bits.toInt)
  | unary _ _ => False
  | binary .leftShift value rhs =>
    ¬(0 ≤ value.bits.toInt ∧ InRange 64 (value.bits.toInt * 2 ^ shiftAmount rhs))
  | binary .rightShift _ _ => False
  | binary op value rhs =>
    dividesByZero op rhs ∨ ∃ f ∈ arithOp op, ¬InRange 64 (exact value.bits.toInt rhs.bits.toInt f)

def Guarded : PPOperation → Prop
  | unary .minus operand => operand.isUnsigned ∨ operand.bits.toInt ≠ -2 ^ 63
  | unary _ _ => True
  | binary .leftShift value rhs =>
    value.isUnsigned ∨ 0 ≤ value.bits.toInt ∧ value.bits.toInt * 2 ^ shiftAmount rhs < 2 ^ 63
  | binary .rightShift _ _ => True
  | binary op value rhs =>
    dividesByZero op rhs ∨
      ∀ f ∈ arithOp op, ArithDefined 64 f (ppValueUseUnsigned value rhs) value.bits.toInt rhs.bits.toInt

def traps : PPOperation → Bool
  | binary op value rhs =>
    (op == .divide || op == .modulo) && !ppValueUseUnsigned value rhs &&
      value.bits == BitVec.intMin 64 && rhs.bits == -1
  | unary _ _ => false

end PPOperation

-- The operations of an evaluation

abbrev PPExprTrace := PPExprParser → Bool → List PPOperation

section
variable (table : MacroTable) (conditional : PPExprParse) (operations : PPExprTrace)

def primaryOperations : PPExprTrace := fun parser eval =>
  match parserPeek parser with
  | none => []
  | some tok =>
    if tok.type = .identifier ∧ tok.value = some "defined" then []
    else if tok.type = .lparen then operations (parserAdvance parser) eval
    else []

def unaryTokenOperations (error trapped eval : Bool) : List Token → List PPOperation
  | [] => primaryOperations operations ⟨[], error, trapped⟩ eval
  | tok :: rest =>
    match unaryOperator tok.type with
    | some _ =>
      let operand := (parseUnaryTokens table conditional error trapped eval rest).1
      unaryTokenOperations error trapped eval rest ++
        if eval then [.unary tok.type operand] else []
    | none => primaryOperations operations ⟨tok :: rest, error, trapped⟩ eval

def unaryOperations : PPExprTrace := fun parser eval =>
  unaryTokenOperations table conditional operations parser.error parser.trapped eval parser.tokens

end

section
variable (level : BinaryLevel) (operand : PPExprParse) (operations : PPExprTrace)

def loopOperations (eval : Bool) : (rounds : Nat) → PPValue → PPExprParser → List PPOperation
  | 0, _, _ => []
  | rounds + 1, value, parser =>
    if parser.error then []
    else
      match parserPeek parser with
      | none => []
      | some tok =>
        if tok.type ∈ level.ops then
          let evalRight := level.evalRight eval value
          let (rhs, next) := operand (parserAdvance parser) evalRight
          operations (parserAdvance parser) evalRight ++
            if eval then
              .binary tok.type value rhs :: match level.apply tok.type value rhs with
                | none => loopOperations eval rounds (ppValueSigned 0) (parserFail next)
                | some (result, traps) =>
                  loopOperations eval rounds result { next with trapped := next.trapped || traps }
            else loopOperations eval rounds value next
        else []

def levelOperations : PPExprTrace := fun parser eval =>
  let (value, next) := operand parser eval
  operations parser eval ++ loopOperations level operand operations eval next.tokens.length value next

end

section
variable (table : MacroTable) (conditional : PPExprParse) (operations : PPExprTrace)

def multiplicativeOperations :=
  levelOperations multiplicative (parseUnary table conditional)
    (unaryOperations table conditional operations)
def additiveOperations :=
  levelOperations additive (parseMultiplicative table conditional)
    (multiplicativeOperations table conditional operations)
def shiftOperations :=
  levelOperations shift (parseAdditive table conditional) (additiveOperations table conditional operations)
def relationalOperations :=
  levelOperations relational (parseShift table conditional) (shiftOperations table conditional operations)
def equalityOperations :=
  levelOperations equality (parseRelational table conditional)
    (relationalOperations table conditional operations)
def bitwiseAndOperations :=
  levelOperations bitwiseAnd (parseEquality table conditional)
    (equalityOperations table conditional operations)
def bitwiseXorOperations :=
  levelOperations bitwiseXor (parseBitwiseAnd table conditional)
    (bitwiseAndOperations table conditional operations)
def bitwiseOrOperations :=
  levelOperations bitwiseOr (parseBitwiseXor table conditional)
    (bitwiseXorOperations table conditional operations)
def logicalAndOperations :=
  levelOperations logicalAnd (parseBitwiseOr table conditional)
    (bitwiseOrOperations table conditional operations)
def logicalOrOperations :=
  levelOperations logicalOr (parseLogicalAnd table conditional)
    (logicalAndOperations table conditional operations)

def conditionalRestOperations (eval : Bool) (condition : PPValue) (parser : PPExprParser) :
    List PPOperation :=
  let (question, parser) := parserMatch parser .question
  if question then
    let evalTrue := eval && ppValueTruthy condition
    let (colon, next) := parserMatch (conditional parser evalTrue).2 .colon
    operations parser evalTrue ++
      if colon then operations next (eval && !ppValueTruthy condition) else []
  else []

def conditionalLevelOperations : PPExprTrace := fun parser eval =>
  let (condition, next) := parseLogicalOr table conditional parser eval
  logicalOrOperations table conditional operations parser eval ++
    conditionalRestOperations conditional operations eval condition next

end

def conditionalOperationsFuel (table : MacroTable) : Nat → PPExprTrace
  | 0 => fun _ _ => []
  | fuel + 1 =>
    conditionalLevelOperations table (parseConditionalFuel table fuel)
      (conditionalOperationsFuel table fuel)

/-- The operations that `pp_expr_eval_tokens` carries out. -/
def evaluationOperations (table : MacroTable) (tokens : List Token) : List PPOperation :=
  conditionalOperationsFuel table (tokens.length + 1) ⟨tokens, false, false⟩ true

-- One operation

theorem shiftAmount_lt (rhs : PPValue) : shiftAmount rhs < 64 := by
  unfold shiftAmount
  exact Nat.lt_of_le_of_lt Nat.and_le_right (by decide)

namespace PPOperation

theorem guarded_iff (a : PPOperation) : a.Guarded ↔ ∀ o ∈ a.hostOps, o.Defined := by
  fun_cases PPOperation.hostOps a with
  | case1 operand hu => simp [Guarded, hu]
  | case2 operand hu =>
    rw [forall_mem_singleton, HostArith.neg_defined_iff, Guarded]
    simp [hu]
  | case3 op operand hop => simp [Guarded]
  | case4 value rhs =>
    have hcount : (0 : Int) ≤ shiftAmount rhs ∧ (shiftAmount rhs : Int) < (64 : Nat) :=
      ⟨Int.natCast_nonneg _, Int.ofNat_lt.mpr (shiftAmount_lt rhs)⟩
    rw [forall_mem_singleton, HostOp.Defined, and_iff_right hcount, Guarded, Int.toNat_natCast]
    cases value.isUnsigned with
    | true => simp
    | false =>
      simp only [Bool.false_eq_true, false_or, true_imp_iff]
      exact and_congr_right fun hx => (HostArith.inRange_shl_iff (w := 64) hx (shiftAmount rhs)).symm
  | case5 value rhs =>
    have hcount : (0 : Int) ≤ shiftAmount rhs ∧ (shiftAmount rhs : Int) < (64 : Nat) :=
      ⟨Int.natCast_nonneg _, Int.ofNat_lt.mpr (shiftAmount_lt rhs)⟩
    rw [forall_mem_singleton]
    exact iff_of_true trivial hcount
  | case6 op value rhs hleft hright hzero => simp [Guarded, hzero]
  | case7 op value rhs hleft hright hzero =>
    simp only [Guarded, hzero, Bool.false_eq_true, false_or, List.mem_map, Option.mem_toList, Option.mem_def,
      forall_exists_index, and_imp, forall_apply_eq_imp_iff₂, HostArith.arith_defined_iff]

theorem result_of_dividesByZero (h : dividesByZero op rhs = true) :
    (binary op value rhs).result = none := by
  simp only [dividesByZero, Bool.and_eq_true, Bool.or_eq_true, beq_iff_eq, Bool.not_eq_true'] at h
  obtain ⟨rfl | rfl, hzero⟩ := h
  · change (applyMultiplicative .divide value rhs).map Prod.fst = none
    simp [applyMultiplicative, hzero]
  · change (applyMultiplicative .modulo value rhs).map Prod.fst = none
    simp [applyMultiplicative, hzero]

theorem result_isUnsigned (hop : f ∈ arithOp op) (hzero : dividesByZero op rhs = false)
    (hu : ppValueUseUnsigned value rhs = true) :
    ∃ v ∈ (binary op value rhs).result, v.isUnsigned = true := by
  unfold arithOp at hop
  split at hop
  · exact ⟨⟨value.bits * rhs.bits, true⟩, by
      change (applyMultiplicative .asterisk value rhs).map Prod.fst = _
      simp [applyMultiplicative, hu], rfl⟩
  · have hrhs : ppValueTruthy rhs = true := by simpa [dividesByZero] using hzero
    exact ⟨ppValueUnsigned (value.bits / rhs.bits), by
      change (applyMultiplicative .divide value rhs).map Prod.fst = _
      simp [applyMultiplicative, hu, hrhs], rfl⟩
  · have hrhs : ppValueTruthy rhs = true := by simpa [dividesByZero] using hzero
    exact ⟨ppValueUnsigned (value.bits % rhs.bits), by
      change (applyMultiplicative .modulo value rhs).map Prod.fst = _
      simp [applyMultiplicative, hu, hrhs], rfl⟩
  · exact ⟨⟨value.bits + rhs.bits, true⟩, by
      change (applyAdditive .plus value rhs).map Prod.fst = _
      simp [applyAdditive, hu], rfl⟩
  · exact ⟨⟨value.bits - rhs.bits, true⟩, by
      change (applyAdditive .minus value rhs).map Prod.fst = _
      simp [applyAdditive, hu], rfl⟩
  · cases hop

theorem Guarded.overflow {a : PPOperation} (h : a.Guarded) (hover : a.Overflows) :
    a.result = none ∨ ∃ v ∈ a.result, v.isUnsigned = true := by
  fun_cases PPOperation.Overflows a with
  | case1 operand => 
    have hmin := not_not.mp (mt (HostArith.inRange_neg_iff (HostArith.inRange_toInt _)).mpr hover)
    have hu : operand.isUnsigned = true := h.resolve_right (not_not_intro hmin)
    exact .inr ⟨ppValueUnsigned (0 - operand.bits), by simp [result, unaryOperator, ppValueNegate, hu], rfl⟩
  | case2 op operand hop => simp [Overflows] at hover
  | case3 value rhs =>
    have hu : value.isUnsigned = true := by
      refine h.resolve_right fun hfits => hover ⟨hfits.1, ?_⟩
      exact (HostArith.inRange_shl_iff (w := 64) hfits.1 _).mpr hfits.2
    refine .inr ⟨⟨value.bits <<< shiftAmount rhs, true⟩, ?_, rfl⟩
    change (applyShift .leftShift value rhs).map Prod.fst = _
    simp [applyShift, shiftAmount, hu]
  | case4 value rhs => exact absurd hover id
  | case5 op value rhs hleft hright =>
    simp only [Guarded] at h
    simp only [Overflows] at hover
    cases hzero : dividesByZero op rhs with
    | true => exact .inl (result_of_dividesByZero hzero)
    | false => ?_
    obtain ⟨f, hf, hrange⟩ := hover.resolve_left (by simp [hzero])
    have hdefined := h.resolve_left (by simp [hzero]) f hf
    refine .inr (result_isUnsigned hf hzero (Bool.not_eq_false _ |>.mp fun hsigned => hrange ?_))
    rw [← HostArith.arith_defined_iff] at hdefined
    exact hdefined.2 hsigned

end PPOperation

-- The operations are those of the parser

/-- The trap that the parser records and the errors of the operators are those of the
operations. -/
structure Traced (parse : PPExprParse) (operations : PPExprTrace) : Prop where
  sticky : Sticky parse
  trapped : ∀ parser eval, (parse parser eval).2.trapped =
    (parser.trapped || (operations parser eval).any PPOperation.traps)
  failed : ∀ parser eval, (∃ a ∈ operations parser eval, a.result = none) →
    (parse parser eval).2.error = true

@[simp] theorem parserFail_trapped (p : PPExprParser) : (parserFail p).trapped = p.trapped := rfl

@[simp] theorem parserAdvance_trapped (p : PPExprParser) : (parserAdvance p).trapped = p.trapped := by
  unfold parserAdvance
  split <;> rfl

@[simp] theorem parserMatch_trapped (p : PPExprParser) (type : TokenType) :
    (parserMatch p type).2.trapped = p.trapped := by
  unfold parserMatch
  split
  · split <;> simp
  · rfl

theorem parseDefined_trapped (table : MacroTable) (p : PPExprParser) (eval : Bool) :
    (parseDefined table p eval).2.trapped = p.trapped := by
  have ha := parserAdvance_trapped (parserMatch p .lparen).2
  have hr := parserMatch_trapped (parserAdvance (parserMatch p .lparen).2) .rparen
  have hl := parserMatch_trapped p .lparen
  unfold parseDefined
  grind [parserFail_trapped]

section
variable {table : MacroTable} {f : PPExprParse} {operations : PPExprTrace}

/-- What a primary expression leaves, as far as traps and errors go. -/
theorem parsePrimary_cases (table : MacroTable) (f : PPExprParse) (operations : PPExprTrace)
    (p : PPExprParser) (eval : Bool) :
    (primaryOperations operations p eval = [] ∧
        (parsePrimary table f p eval).2.trapped = p.trapped) ∨
      (primaryOperations operations p eval = operations (parserAdvance p) eval ∧
        (parsePrimary table f p eval).2.trapped = (f (parserAdvance p) eval).2.trapped ∧
        ((f (parserAdvance p) eval).2.error = true → (parsePrimary table f p eval).2.error = true)) := by
  unfold parsePrimary primaryOperations
  cases parserPeek p with
  | none => exact .inl ⟨rfl, rfl⟩
  | some tok => ?_
  by_cases hdefined : tok.type = .identifier ∧ tok.value = some "defined"
  · simp [hdefined, parseDefined_trapped]
  by_cases hparen : tok.type = .lparen
  · right
    simp only [hparen, reduceCtorEq, false_and, ↓reduceIte]
    refine ⟨trivial, ?_, fun herror => ?_⟩
    · split <;> simp
    · split <;> simp [herror]
  · left
    simp only [hdefined, hparen, ↓reduceIte, true_and]
    split
    iterate 2
      · cases eval with
        | false => simp
        | true =>
          simp only [↓reduceIte]
          split <;> simp
    · simp
    · rename_i h
      exact absurd h hparen
    · simp

theorem parsePrimary_traced (h : Traced f operations) :
    Traced (parsePrimary table f) (primaryOperations operations) := by
  refine ⟨parsePrimary_sticky h.sticky, fun p eval => ?_, fun p eval => ?_⟩
  · obtain ⟨hops, htrapped⟩ | ⟨hops, htrapped, -⟩ := parsePrimary_cases table f operations p eval
    · simp [hops, htrapped]
    · rw [hops, htrapped, h.trapped, parserAdvance_trapped]
  · obtain ⟨hops, -⟩ | ⟨hops, -, herror⟩ := parsePrimary_cases table f operations p eval
    · simp [hops]
    · rw [hops]
      exact fun hfail => herror (h.failed _ _ hfail)

theorem parseUnary_traced (h : Traced f operations) :
    Traced (parseUnary table f) (unaryOperations table f operations) := by
  refine ⟨parseUnary_sticky h.sticky, ?_, ?_⟩
  · rintro ⟨tokens, error, trapped⟩ eval
    show (parseUnaryTokens table f error trapped eval tokens).2.trapped =
      (trapped || (unaryTokenOperations table f operations error trapped eval tokens).any _)
    induction tokens with
    | nil => exact (parsePrimary_traced h).trapped ⟨[], error, trapped⟩ eval
    | cons tok rest ih =>
      unfold parseUnaryTokens unaryTokenOperations
      cases unaryOperator tok.type with
      | some op =>
        rw [any_append, ← Bool.or_assoc, ← ih]
        cases eval <;> simp [PPOperation.traps]
      | none => exact (parsePrimary_traced h).trapped ⟨tok :: rest, error, trapped⟩ eval
  · rintro ⟨tokens, error, trapped⟩ eval
    show (∃ a ∈ unaryTokenOperations table f operations error trapped eval tokens, a.result = none) →
      (parseUnaryTokens table f error trapped eval tokens).2.error = true
    induction tokens with
    | nil => exact (parsePrimary_traced h).failed ⟨[], error, trapped⟩ eval
    | cons tok rest ih =>
      unfold parseUnaryTokens unaryTokenOperations
      cases hop : unaryOperator tok.type with
      | some op => ?_
      | none => exact (parsePrimary_traced h).failed ⟨tok :: rest, error, trapped⟩ eval
      rintro ⟨a, ha, hresult⟩
      obtain ha | ha := mem_append.mp ha
      · exact ih ⟨a, ha, hresult⟩
      · cases eval with
        | false => cases ha
        | true =>
          obtain rfl := List.mem_singleton.mp ha
          simp [PPOperation.result, hop] at hresult

end

-- Levels

structure LevelTraced (level : BinaryLevel) : Prop where
  found : ∀ op ∈ level.ops, levelOf op = some level
  traps : ∀ op ∈ level.ops, ∀ value rhs,
    (PPOperation.binary op value rhs).traps = (level.apply op value rhs).any Prod.snd

section
variable {level : BinaryLevel} {f : PPExprParse} {operations : PPExprTrace}

section
variable (hl : LevelTraced level) (h : Traced f operations)

include hl h

theorem binaryLoop_trapped (eval : Bool)
    (rounds : Nat) (value : PPValue) (p : PPExprParser) :
    (binaryLoop level f eval rounds value p).2.trapped =
      (p.trapped || (loopOperations level f operations eval rounds value p).any PPOperation.traps) := by
  induction rounds generalizing value p with
  | zero => simp [binaryLoop, loopOperations]
  | succ rounds ih =>
    have ho := h.trapped (parserAdvance p) (level.evalRight eval value)
    unfold binaryLoop loopOperations
    cases parserPeek p with
    | none => simp
    | some tok => ?_
    by_cases herror : p.error = true
    · simp [herror]
    by_cases hop : tok.type ∈ level.ops
    · have htraps := hl.traps tok.type hop value (f (parserAdvance p) (level.evalRight eval value)).1
      simp only [herror, hop, Bool.false_eq_true, ↓reduceIte]
      rw [any_append, ← Bool.or_assoc, ← parserAdvance_trapped p, ← ho]
      cases eval with
      | false => exact ih _ _
      | true => ?_
      simp only [↓reduceIte, List.any_cons, htraps]
      cases level.apply tok.type value (f (parserAdvance p) (level.evalRight true value)).1 with
      | none => simp [ih]
      | some r => simp [ih, Bool.or_assoc]
    · simp [herror, hop]

theorem binaryLoop_failed (eval : Bool)
    (rounds : Nat) (value : PPValue) (p : PPExprParser)
    (hfail : ∃ a ∈ loopOperations level f operations eval rounds value p, a.result = none) :
    (binaryLoop level f eval rounds value p).2.error = true := by
  induction rounds generalizing value p with
  | zero =>
    obtain ⟨a, ha, -⟩ := hfail
    cases ha
  | succ rounds ih =>
    have hsticky : ∀ v q, q.error = true → (binaryLoop level f eval rounds v q).2.error = true :=
      binaryLoop_error eval rounds
    have ho := h.failed (parserAdvance p) (level.evalRight eval value)
    revert hfail
    unfold binaryLoop loopOperations
    cases parserPeek p with
    | none => simp
    | some tok => ?_
    by_cases herror : p.error = true
    · simp [herror]
    by_cases hop : tok.type ∈ level.ops
    · simp only [herror, hop, Bool.false_eq_true, ↓reduceIte]
      generalize f (parserAdvance p) (level.evalRight eval value) = r at ho ⊢
      obtain ⟨rhs, next⟩ := r
      rintro ⟨a, ha, hresult⟩
      obtain ha | ha := mem_append.mp ha
      · -- the operand has failed, and an error stays
        have hnext := ho ⟨a, ha, hresult⟩
        cases eval with
        | false => exact hsticky _ _ hnext
        | true =>
          cases level.apply tok.type value rhs with
          | none => exact hsticky _ _ rfl
          | some r => exact hsticky _ _ hnext
      · cases eval with
        | false => exact ih _ _ ⟨a, ha, hresult⟩
        | true => ?_
        cases happly : level.apply tok.type value rhs with
        | none => exact hsticky _ _ rfl
        | some r => ?_
        simp only [↓reduceIte, happly] at ha
        obtain rfl | ha := List.mem_cons.mp ha
        · simp [PPOperation.result, hl.found tok.type hop, happly] at hresult
        · exact ih _ _ ⟨a, ha, hresult⟩
    · simp [herror, hop]

theorem binaryLevel_traced :
    Traced (binaryLevel level f) (levelOperations level f operations) := by
  refine ⟨binaryLevel_sticky h.sticky, fun p eval => ?_, fun p eval => ?_⟩
  · unfold binaryLevel levelOperations
    rw [binaryLoop_trapped hl h, h.trapped, any_append, Bool.or_assoc]
  · rintro ⟨a, ha, hresult⟩
    obtain ha | ha := mem_append.mp ha
    · exact binaryLoop_error eval _ _ _ (h.failed p eval ⟨a, ha, hresult⟩)
    · exact binaryLoop_failed hl h eval _ _ _ ⟨a, ha, hresult⟩

end

end

theorem multiplicative_traced : LevelTraced multiplicative := by
  constructor
  · exact forall_mem_cons.mpr ⟨rfl, forall_mem_cons.mpr ⟨rfl, forall_mem_singleton.mpr rfl⟩⟩
  · intro op hop value rhs
    cases hzero : ppValueTruthy rhs with
    | false =>
      have hbits : rhs.bits = 0 := by simpa [ppValueTruthy] using hzero
      simp only [multiplicative, List.mem_cons, List.not_mem_nil, or_false] at hop
      obtain rfl | rfl | rfl := hop <;>
        simp [multiplicative, PPOperation.traps, applyMultiplicative, hzero, hbits]
    | true =>
      simp only [multiplicative, List.mem_cons, List.not_mem_nil, or_false] at hop
      obtain rfl | rfl | rfl := hop <;>
        cases hu : ppValueUseUnsigned value rhs <;>
        simp [multiplicative, PPOperation.traps, applyMultiplicative, hzero, hu]

/-- A level without divisions never traps. -/
theorem levelTraced_of_total (hfound : ∀ op ∈ level.ops, levelOf op = some level)
    (hops : .divide ∉ level.ops ∧ .modulo ∉ level.ops)
    (htotal : ∀ op value rhs, (level.apply op value rhs).any Prod.snd = false) : LevelTraced level := by
  refine ⟨hfound, fun op hop value rhs => ?_⟩
  have hdivide : (op == .divide) = false := beq_false_of_ne fun h => hops.1 (h ▸ hop)
  have hmodulo : (op == .modulo) = false := beq_false_of_ne fun h => hops.2 (h ▸ hop)
  simp [PPOperation.traps, hdivide, hmodulo, htotal]

theorem additive_traced : LevelTraced additive :=
  levelTraced_of_total (forall_mem_cons.mpr ⟨rfl, forall_mem_singleton.mpr rfl⟩) (by decide)
    fun _ _ _ => rfl

theorem shift_traced : LevelTraced shift :=
  levelTraced_of_total (forall_mem_cons.mpr ⟨rfl, forall_mem_singleton.mpr rfl⟩) (by decide)
    fun _ _ _ => rfl

theorem relational_traced : LevelTraced relational := by
  refine levelTraced_of_total ?_ (by decide) fun _ _ _ => rfl
  exact forall_mem_cons.mpr ⟨rfl, forall_mem_cons.mpr ⟨rfl,
    forall_mem_cons.mpr ⟨rfl, forall_mem_singleton.mpr rfl⟩⟩⟩

theorem equality_traced : LevelTraced equality :=
  levelTraced_of_total (forall_mem_cons.mpr ⟨rfl, forall_mem_singleton.mpr rfl⟩) (by decide)
    fun _ _ _ => rfl

theorem bitwiseAnd_traced : LevelTraced bitwiseAnd :=
  levelTraced_of_total (forall_mem_singleton.mpr rfl) (by decide) fun _ _ _ => rfl

theorem bitwiseXor_traced : LevelTraced bitwiseXor :=
  levelTraced_of_total (forall_mem_singleton.mpr rfl) (by decide) fun _ _ _ => rfl

theorem bitwiseOr_traced : LevelTraced bitwiseOr :=
  levelTraced_of_total (forall_mem_singleton.mpr rfl) (by decide) fun _ _ _ => rfl

theorem logicalAnd_traced : LevelTraced logicalAnd :=
  levelTraced_of_total (forall_mem_singleton.mpr rfl) (by decide) fun _ _ _ => rfl

theorem logicalOr_traced : LevelTraced logicalOr :=
  levelTraced_of_total (forall_mem_singleton.mpr rfl) (by decide) fun _ _ _ => rfl

-- Whole expressions

section
variable {table : MacroTable} {f : PPExprParse} {operations : PPExprTrace}

theorem parseLogicalOr_traced (h : Traced f operations) :
    Traced (parseLogicalOr table f) (logicalOrOperations table f operations) :=
  binaryLevel_traced logicalOr_traced <| binaryLevel_traced logicalAnd_traced <|
    binaryLevel_traced bitwiseOr_traced <| binaryLevel_traced bitwiseXor_traced <|
    binaryLevel_traced bitwiseAnd_traced <| binaryLevel_traced equality_traced <|
    binaryLevel_traced relational_traced <| binaryLevel_traced shift_traced <|
    binaryLevel_traced additive_traced <| binaryLevel_traced multiplicative_traced <|
    parseUnary_traced h

theorem conditionalRest_trapped (h : Traced f operations) (eval : Bool) (condition : PPValue)
    (p : PPExprParser) :
    (conditionalRest f eval condition p).2.trapped =
      (p.trapped || (conditionalRestOperations f operations eval condition p).any PPOperation.traps) := by
  have hq := parserMatch_trapped p .question
  unfold conditionalRest conditionalRestOperations
  dsimp only
  cases (parserMatch p .question).1 with
  | false => simp
  | true => ?_
  have hyes := h.trapped (parserMatch p .question).2 (eval && ppValueTruthy condition)
  have hc := parserMatch_trapped (f (parserMatch p .question).2 (eval && ppValueTruthy condition)).2 .colon
  simp only [↓reduceIte]
  rw [any_append, ← Bool.or_assoc, ← hq, ← hyes, ← hc]
  split
  · exact h.trapped _ _
  · simp

theorem conditionalRest_failed (h : Traced f operations) (eval : Bool) (condition : PPValue)
    (p : PPExprParser)
    (hfail : ∃ a ∈ conditionalRestOperations f operations eval condition p, a.result = none) :
    (conditionalRest f eval condition p).2.error = true := by
  revert hfail
  unfold conditionalRest conditionalRestOperations
  dsimp only
  cases (parserMatch p .question).1 with
  | false => simp
  | true => ?_
  have hyes := h.failed (parserMatch p .question).2 (eval && ppValueTruthy condition)
  have hc := parserMatch_error (f (parserMatch p .question).2 (eval && ppValueTruthy condition)).2 .colon
  simp only [↓reduceIte]
  rintro ⟨a, ha, hresult⟩
  obtain ha | ha := mem_append.mp ha
  · have herror := hc.trans (hyes ⟨a, ha, hresult⟩)
    split
    · exact h.sticky _ _ herror
    · rfl
  · split at ha
    · rename_i hcolon
      rw [if_pos hcolon]
      exact h.failed _ _ ⟨a, ha, hresult⟩
    · cases ha

theorem conditionalLevel_traced (h : Traced f operations) :
    Traced (conditionalLevel table f) (conditionalLevelOperations table f operations) := by
  have hor : Traced (parseLogicalOr table f) (logicalOrOperations table f operations) :=
    parseLogicalOr_traced h
  refine ⟨conditionalLevel_sticky h.sticky, fun p eval => ?_, fun p eval => ?_⟩
  · have htrapped := hor.trapped p eval
    unfold conditionalLevel conditionalLevelOperations
    rw [conditionalRest_trapped h, htrapped, any_append, Bool.or_assoc]
  · have hfailed := hor.failed p eval
    unfold conditionalLevel conditionalLevelOperations
    generalize parseLogicalOr table f p eval = r at hfailed ⊢
    rintro ⟨a, ha, hresult⟩
    obtain ha | ha := mem_append.mp ha
    · exact conditionalRest_error h.sticky eval _ _ (hfailed ⟨a, ha, hresult⟩)
    · exact conditionalRest_failed h eval _ _ ⟨a, ha, hresult⟩

end

theorem parseConditionalFuel_traced (table : MacroTable) (fuel : Nat) :
    Traced (parseConditionalFuel table fuel) (conditionalOperationsFuel table fuel) := by
  induction fuel with
  | zero => exact ⟨parseConditionalFuel_sticky table 0, fun _ _ => by
      simp [parseConditionalFuel, conditionalOperationsFuel], fun _ _ => by
      simp [conditionalOperationsFuel]⟩
  | succ fuel ih => exact conditionalLevel_traced ih

theorem evaluation_trapped (table : MacroTable) (tokens : List Token) :
    (parseConditional table ⟨tokens, false, false⟩ true).2.trapped =
      (evaluationOperations table tokens).any PPOperation.traps := by
  unfold parseConditional evaluationOperations
  rw [(parseConditionalFuel_traced table (tokens.length + 1)).trapped ⟨tokens, false, false⟩ true,
    Bool.false_or]

theorem evaluation_failed
    (h : ∃ a ∈ evaluationOperations table tokens, a.result = none) :
    (parseConditional table ⟨tokens, false, false⟩ true).2.error = true := by
  unfold evaluationOperations at h
  unfold parseConditional
  generalize tokens.length + 1 = fuel at h ⊢
  exact (parseConditionalFuel_traced table fuel).failed ⟨tokens, false, false⟩ true h

/-- The host stops the process exactly where an operation is a division that traps. -/
theorem trap_iff (table : MacroTable) (tokens : List Token) :
    ppExprEvalTokens table tokens = .trap ↔
      tokens ≠ [] ∧ ∃ a ∈ evaluationOperations table tokens, a.traps = true := by
  have htrapped := evaluation_trapped table tokens
  unfold ppExprEvalTokens
  generalize parseConditional table ⟨tokens, false, false⟩ true = r at htrapped ⊢
  rw [← List.any_eq_true, ← htrapped]
  cases tokens with
  | nil => simp
  | cons tok rest => ?_
  simp only [List.isEmpty_cons, Bool.false_eq_true, ↓reduceIte, ne_eq, reduceCtorEq, not_false_eq_true,
    true_and]
  cases r.2.trapped with
  | true => simp
  | false =>
    simp only [Bool.false_eq_true, ↓reduceIte, iff_false]
    split <;> exact fun h => by cases h

theorem PPOperation.traps_of_guarded {a : PPOperation} (h : a.Guarded) : a.traps = false := by
  cases a with
  | unary op operand => rfl
  | binary op value rhs => ?_
  by_contra htraps
  simp only [traps, Bool.not_eq_false, Bool.and_eq_true, Bool.or_eq_true, beq_iff_eq,
    Bool.not_eq_true'] at htraps
  obtain ⟨⟨⟨hop, hu⟩, hmin⟩, hminus⟩ := htraps
  have hint : value.bits.toInt = -2 ^ (64 - 1) ∧ rhs.bits.toInt = -1 := by
    rw [hmin, hminus]
    decide
  have hzero : dividesByZero op rhs = false := by
    have htruthy : ppValueTruthy rhs = true := by
      rw [ppValueTruthy, hminus]
      decide
    simp [dividesByZero, htruthy]
  obtain rfl | rfl := hop
  · have hdefined := h.resolve_left (by simp [hzero]) .div rfl
    exact hdefined.2 hu hint
  · have hdefined := h.resolve_left (by simp [hzero]) .mod rfl
    exact hdefined.2 hu hint

/-- The evaluation stays within what the host defines: an operation whose signed result is
no word of 64 bits wraps as unsigned, or is an error. -/
structure EvaluatedOnHost (table : MacroTable) (tokens : List Token) : Prop where
  host : ∀ a ∈ evaluationOperations table tokens, ∀ o ∈ a.hostOps, o.Defined
  wraps : ∀ a ∈ evaluationOperations table tokens, a.Overflows →
    (∃ v ∈ a.result, v.isUnsigned = true) ∨
      (parseConditional table ⟨tokens, false, false⟩ true).2.error = true
  noTrap : ppExprEvalTokens table tokens ≠ .trap

/-- Evaluating a list of tokens stays within what the host defines exactly when every
operation that is carried out has guarded operands. -/
theorem ppExprEvalTokens_onHost_iff (table : MacroTable) (tokens : List Token) :
    EvaluatedOnHost table tokens ↔ ∀ a ∈ evaluationOperations table tokens, a.Guarded := by
  constructor
  · rintro ⟨hhost, -, -⟩ a ha
    exact a.guarded_iff.mpr (hhost a ha)
  · intro h
    refine ⟨fun a ha => a.guarded_iff.mp (h a ha), fun a ha hover => ?_, fun htrap => ?_⟩
    · obtain hresult | hresult := (h a ha).overflow hover
      · exact .inr (evaluation_failed ⟨a, ha, hresult⟩)
      · exact .inl hresult
    · obtain ⟨-, a, ha, htraps⟩ := (trap_iff table tokens).mp htrap
      rw [PPOperation.traps_of_guarded (h a ha)] at htraps
      cases htraps

/-- The tokens of `9223372036854775807 + 1`. -/
def greatestPlusOneTokens : List Token :=
  [{ punctuator .number with value := some "9223372036854775807" }, punctuator .plus,
    { punctuator .number with value := some "1" }]

theorem greatestPlusOneTokens_overflow :
    ppExprEvalTokens macroTableCreate greatestPlusOneTokens = .value 0 ∧
      ¬EvaluatedOnHost macroTableCreate greatestPlusOneTokens := by
  have hoperations : evaluationOperations macroTableCreate greatestPlusOneTokens =
      [.binary .plus ⟨BitVec.intMax 64, false⟩ ⟨1, false⟩] := by
    decide
  refine ⟨by decide, fun h => ?_⟩
  have hhost := h.host _ (hoperations ▸ List.mem_singleton_self _) _ (List.mem_singleton_self _)
  exact absurd hhost (by decide)

end Fisics
