import Fisics.Preprocessor.Expr

/-!
# Laws of the expression parser

What every parsing function keeps: it never adds tokens, and it never clears
the error flag. From the first it follows that the fuel of `parseConditional`
does not show: it satisfies the recursive equation of the source.
-/

namespace Fisics

def Shrinks (parse : PPExprParse) : Prop :=
  ∀ parser eval, (parse parser eval).2.tokens.length ≤ parser.tokens.length

def Sticky (parse : PPExprParse) : Prop :=
  ∀ parser eval, parser.error = true → (parse parser eval).2.error = true

/-- The functions agree on parsers with fewer than `k` tokens left, and the
first never adds any. -/
structure AgreeBelow (k : Nat) (f g : PPExprParse) : Prop where
  shrinks : Shrinks f
  eq : ∀ parser eval, parser.tokens.length < k → f parser eval = g parser eval

-- Parser primitives

@[simp] theorem parserFail_tokens (p : PPExprParser) : (parserFail p).tokens = p.tokens := rfl
@[simp] theorem parserFail_error (p : PPExprParser) : (parserFail p).error = true := rfl

@[simp] theorem parserAdvance_error (p : PPExprParser) : (parserAdvance p).error = p.error := by
  unfold parserAdvance
  split <;> rfl

theorem parserAdvance_lt (h : parserPeek p = some tok) :
    (parserAdvance p).tokens.length < p.tokens.length := by
  obtain ⟨tokens, error, trapped⟩ := p
  cases tokens with
  | nil => simp [parserPeek] at h
  | cons t rest =>
    simp only [parserAdvance, List.length_cons]
    split <;> simp

theorem parserAdvance_le (p : PPExprParser) : (parserAdvance p).tokens.length ≤ p.tokens.length := by
  cases h : parserPeek p with
  | some tok => exact Nat.le_of_lt (parserAdvance_lt h)
  | none =>
    have : p.tokens = [] := by simpa [parserPeek] using h
    simp [parserAdvance, this]

@[simp] theorem parserMatch_error (p : PPExprParser) (type : TokenType) :
    (parserMatch p type).2.error = p.error := by
  unfold parserMatch
  split
  · split <;> simp
  · rfl

theorem parserMatch_le (p : PPExprParser) (type : TokenType) :
    (parserMatch p type).2.tokens.length ≤ p.tokens.length := by
  unfold parserMatch
  split
  · split
    · exact parserAdvance_le p
    · exact Nat.le_refl _
  · exact Nat.le_refl _

theorem parserMatch_lt (p : PPExprParser) (type : TokenType) (h : (parserMatch p type).1 = true) :
    (parserMatch p type).2.tokens.length < p.tokens.length := by
  unfold parserMatch at h ⊢
  cases hp : parserPeek p with
  | none => simp [hp] at h
  | some tok => ?_
  simp only [hp] at h ⊢
  split
  · exact parserAdvance_lt hp
  · simp_all

-- Primary and unary expressions

theorem parseDefined_le (table : MacroTable) (p : PPExprParser) (eval : Bool) :
    (parseDefined table p eval).2.tokens.length ≤ p.tokens.length := by
  have hm := parserMatch_le p .lparen
  have ha := parserAdvance_le (parserMatch p .lparen).2
  have hr := parserMatch_le (parserAdvance (parserMatch p .lparen).2) .rparen
  unfold parseDefined
  grind [parserFail_tokens]

theorem parseDefined_error (table : MacroTable) (p : PPExprParser) (eval : Bool)
    (h : p.error = true) : (parseDefined table p eval).2.error = true := by
  have hm := parserMatch_error p .lparen
  have ha := parserAdvance_error (parserMatch p .lparen).2
  have hr := parserMatch_error (parserAdvance (parserMatch p .lparen).2) .rparen
  unfold parseDefined
  grind [parserFail_error]

section
variable {table : MacroTable} {f g : PPExprParse}

theorem parsePrimary_shrinks (hf : Shrinks f) : Shrinks (parsePrimary table f) := by
  intro p eval
  have ha := parserAdvance_le p
  have hd := parseDefined_le table (parserAdvance p) eval
  have hc := hf (parserAdvance p) eval
  have hm := parserMatch_le (f (parserAdvance p) eval).2 .rparen
  unfold parsePrimary
  grind [parserFail_tokens]

theorem parsePrimary_sticky (hf : Sticky f) : Sticky (parsePrimary table f) := by
  intro p eval h
  have ha : (parserAdvance p).error = true := by simpa using h
  have hd := parseDefined_error table (parserAdvance p) eval ha
  have hc := hf (parserAdvance p) eval ha
  have hm := parserMatch_error (f (parserAdvance p) eval).2 .rparen
  unfold parsePrimary
  grind [parserFail_error]

theorem parsePrimary_agree (h : AgreeBelow k f g) :
    AgreeBelow (k + 1) (parsePrimary table f) (parsePrimary table g) := by
  refine ⟨parsePrimary_shrinks h.shrinks, fun p eval hp => ?_⟩
  unfold parsePrimary
  cases ht : parserPeek p with
  | none => rfl
  | some tok =>
    have hlt := parserAdvance_lt ht
    simp only [h.eq (parserAdvance p) eval (by omega)]

theorem parseUnary_shrinks (hf : Shrinks f) : Shrinks (parseUnary table f) := by
  rintro ⟨tokens, error, trapped⟩ eval
  show (parseUnaryTokens table f error trapped eval tokens).2.tokens.length ≤ tokens.length
  induction tokens with
  | nil => exact parsePrimary_shrinks hf ⟨[], error, trapped⟩ eval
  | cons tok rest ih =>
    unfold parseUnaryTokens
    cases unaryOperator tok.type with
    | some op => exact Nat.le_succ_of_le ih
    | none => exact parsePrimary_shrinks hf ⟨tok :: rest, error, trapped⟩ eval

theorem parseUnary_sticky (hf : Sticky f) : Sticky (parseUnary table f) := by
  rintro ⟨tokens, error, trapped⟩ eval h
  show (parseUnaryTokens table f error trapped eval tokens).2.error = true
  induction tokens with
  | nil => exact parsePrimary_sticky hf ⟨[], error, trapped⟩ eval h
  | cons tok rest ih =>
    unfold parseUnaryTokens
    cases unaryOperator tok.type with
    | some op => exact ih h
    | none => exact parsePrimary_sticky hf ⟨tok :: rest, error, trapped⟩ eval h

theorem parseUnary_agree (h : AgreeBelow k f g) :
    AgreeBelow (k + 1) (parseUnary table f) (parseUnary table g) := by
  refine ⟨parseUnary_shrinks h.shrinks, ?_⟩
  rintro ⟨tokens, error, trapped⟩ eval hp
  show parseUnaryTokens table f error trapped eval tokens =
    parseUnaryTokens table g error trapped eval tokens
  induction tokens with
  | nil => exact (parsePrimary_agree h).eq ⟨[], error, trapped⟩ eval hp
  | cons tok rest ih =>
    unfold parseUnaryTokens
    cases unaryOperator tok.type with
    | some op =>
      simp only [List.length_cons] at hp ih
      rw [ih (by omega)]
    | none => exact (parsePrimary_agree h).eq ⟨tok :: rest, error, trapped⟩ eval hp

end

-- Binary levels

section
variable {level : BinaryLevel} {f g : PPExprParse}

theorem binaryLoop_le (level : BinaryLevel) (hf : Shrinks f) (eval : Bool) (rounds : Nat)
    (v : PPValue) (p : PPExprParser) :
    (binaryLoop level f eval rounds v p).2.tokens.length ≤ p.tokens.length := by
  induction rounds generalizing v p with
  | zero => exact Nat.le_refl _
  | succ rounds ih =>
    have ha := parserAdvance_le p
    have ho := hf (parserAdvance p) (level.evalRight eval v)
    unfold binaryLoop
    grind [parserFail_tokens]

theorem binaryLoop_error (eval : Bool) (rounds : Nat) (v : PPValue) (p : PPExprParser)
    (h : p.error = true) :
    (binaryLoop level f eval rounds v p).2.error = true := by
  cases rounds with
  | zero => exact h
  | succ rounds => simp [binaryLoop, h]

theorem binaryLoop_agree (h : AgreeBelow k f g) (eval : Bool) (rounds : Nat)
    (v : PPValue) (p : PPExprParser) (hp : p.tokens.length < k) :
    binaryLoop level f eval rounds v p = binaryLoop level g eval rounds v p := by
  induction rounds generalizing v p with
  | zero => rfl
  | succ rounds ih =>
    have ha := parserAdvance_le p
    have ho := h.shrinks (parserAdvance p) (level.evalRight eval v)
    have hfg := h.eq (parserAdvance p) (level.evalRight eval v) (by omega)
    unfold binaryLoop
    grind [parserFail_tokens]

theorem binaryLevel_shrinks (hf : Shrinks f) : Shrinks (binaryLevel level f) := by
  intro p eval
  have hl := binaryLoop_le level hf eval (f p eval).2.tokens.length (f p eval).1 (f p eval).2
  exact Nat.le_trans hl (hf p eval)

theorem binaryLevel_sticky (hf : Sticky f) : Sticky (binaryLevel level f) := by
  intro p eval h
  exact binaryLoop_error eval _ _ _ (hf p eval h)

theorem binaryLevel_agree (h : AgreeBelow k f g) :
    AgreeBelow k (binaryLevel level f) (binaryLevel level g) := by
  refine ⟨binaryLevel_shrinks h.shrinks, fun p eval hp => ?_⟩
  have hle := h.shrinks p eval
  unfold binaryLevel
  rw [← h.eq p eval hp]
  simp only [binaryLoop_agree h eval _ _ _ (Nat.lt_of_le_of_lt hle hp)]

end

-- The conditional level and the recursion

section
variable {table : MacroTable} {f g : PPExprParse}

theorem parseLogicalOr_shrinks (table : MacroTable) (hf : Shrinks f) :
    Shrinks (parseLogicalOr table f) := by
  iterate 10 apply binaryLevel_shrinks
  exact parseUnary_shrinks hf

theorem parseLogicalOr_sticky (table : MacroTable) (hf : Sticky f) : Sticky (parseLogicalOr table f) := by
  iterate 10 apply binaryLevel_sticky
  exact parseUnary_sticky hf

theorem parseLogicalOr_agree (table : MacroTable) (h : AgreeBelow k f g) :
    AgreeBelow (k + 1) (parseLogicalOr table f) (parseLogicalOr table g) := by
  iterate 10 apply binaryLevel_agree
  exact parseUnary_agree h

theorem conditionalRest_le (hf : Shrinks f) (eval : Bool) (c : PPValue) (p : PPExprParser) :
    (conditionalRest f eval c p).2.tokens.length ≤ p.tokens.length := by
  unfold conditionalRest
  grind [parserMatch_le, parserFail_tokens, Shrinks]

theorem conditionalRest_error (hf : Sticky f) (eval : Bool) (c : PPValue) (p : PPExprParser)
    (h : p.error = true) : (conditionalRest f eval c p).2.error = true := by
  unfold conditionalRest
  grind [parserMatch_error, parserFail_error, Sticky]

theorem conditionalRest_agree (h : AgreeBelow k f g) (eval : Bool) (c : PPValue)
    (p : PPExprParser) (hp : p.tokens.length < k + 1) :
    conditionalRest f eval c p = conditionalRest g eval c p := by
  have hlt := parserMatch_lt p .question
  unfold conditionalRest
  dsimp only
  cases hq : (parserMatch p .question).1 with
  | false => rfl
  | true => ?_
  have hq' := hlt hq
  rw [← h.eq (parserMatch p .question).2 _ (by omega)]
  have hs := h.shrinks (parserMatch p .question).2 (eval && ppValueTruthy c)
  have hm := parserMatch_le (f (parserMatch p .question).2 (eval && ppValueTruthy c)).2 .colon
  simp only [h.eq (parserMatch (f (parserMatch p .question).2 (eval && ppValueTruthy c)).2 .colon).2
    _ (by omega)]

theorem conditionalLevel_shrinks (hf : Shrinks f) : Shrinks (conditionalLevel table f) := by
  intro p eval
  have hor := parseLogicalOr_shrinks table hf p eval
  unfold conditionalLevel
  generalize parseLogicalOr table f p eval = r at hor ⊢
  exact Nat.le_trans (conditionalRest_le hf eval r.1 r.2) hor

theorem conditionalLevel_sticky (hf : Sticky f) : Sticky (conditionalLevel table f) := by
  intro p eval h
  have hor := parseLogicalOr_sticky table hf p eval h
  unfold conditionalLevel
  generalize parseLogicalOr table f p eval = r at hor ⊢
  exact conditionalRest_error hf eval r.1 r.2 hor

theorem conditionalLevel_agree (table : MacroTable) (h : AgreeBelow k f g) :
    AgreeBelow (k + 1) (conditionalLevel table f) (conditionalLevel table g) := by
  refine ⟨conditionalLevel_shrinks h.shrinks, fun p eval hp => ?_⟩
  have hor := parseLogicalOr_agree table h
  have hle := hor.shrinks p eval
  unfold conditionalLevel
  rw [← hor.eq p eval hp]
  generalize parseLogicalOr table f p eval = r at hle ⊢
  exact conditionalRest_agree h eval r.1 r.2 (by omega)

theorem parseConditionalFuel_shrinks (table : MacroTable) (fuel : Nat) :
    Shrinks (parseConditionalFuel table fuel) := by
  induction fuel with
  | zero => intro p eval; exact Nat.le_refl _
  | succ fuel ih => exact conditionalLevel_shrinks ih

theorem parseConditionalFuel_sticky (table : MacroTable) (fuel : Nat) :
    Sticky (parseConditionalFuel table fuel) := by
  induction fuel with
  | zero => intro p eval _; rfl
  | succ fuel ih => exact conditionalLevel_sticky ih

theorem parseConditionalFuel_agree (table : MacroTable) (fuel extra : Nat) :
    AgreeBelow fuel (parseConditionalFuel table fuel) (parseConditionalFuel table (fuel + extra)) := by
  induction fuel with
  | zero => exact ⟨parseConditionalFuel_shrinks table 0, fun p eval hp => absurd hp (by omega)⟩
  | succ fuel ih =>
    rw [show fuel + 1 + extra = (fuel + extra) + 1 by omega]
    exact conditionalLevel_agree table ih

theorem parseConditionalFuel_eq (h : p.tokens.length < fuel) :
    parseConditionalFuel table fuel p eval = parseConditional table p eval := by
  have hagree := (parseConditionalFuel_agree table (p.tokens.length + 1)
    (fuel - (p.tokens.length + 1))).eq p eval (by omega)
  rw [Nat.add_sub_cancel' h] at hagree
  rw [parseConditional, hagree]

/-- The recursive equation of the source, without fuel. -/
theorem parseConditional_eq (table : MacroTable) :
    parseConditional table = conditionalLevel table (parseConditional table) := by
  funext p eval
  have hbelow : AgreeBelow p.tokens.length (parseConditionalFuel table p.tokens.length)
      (parseConditional table) :=
    ⟨parseConditionalFuel_shrinks table _, fun q eval hq => parseConditionalFuel_eq hq⟩
  have h := (conditionalLevel_agree table hbelow).eq p eval (by omega)
  exact h

theorem parseConditional_sticky (table : MacroTable) : Sticky (parseConditional table) := by
  intro p eval h
  rw [parseConditional]
  exact parseConditionalFuel_sticky table (p.tokens.length + 1) p eval h

end

end Fisics
