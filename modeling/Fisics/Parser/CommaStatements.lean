import Fisics.Lexer.Token
import Mathlib.Data.List.Basic

/-!
# Comma expressions as statements

`parseExpressionPratt` reads a comma expression as one flat list of operands. A return
statement makes a block of returns of it and an expression statement a block of its
operands. Both are compared with the comma expression itself: the effects are kept, but
the return takes the first operand, and a statement expression that ends in the block has
no value.
-/

namespace Fisics.Commas

open Option (bind_congr bind_eq_some_iff)

-- Nodes

/-- `operand` is an expression other than a comma expression. -/
inductive Expr (E : Type)
  | operand (e : E)
  | comma (expressions : List (Expr E))

inductive Stmt (E : Type)
  | expr (e : Expr E)
  | block (statements : List (Stmt E))
  | returnStmt (returnValue : Option (Expr E))

-- The expression parser

@[grind] def getTokenPrecedence : TokenType → Int
  | .comma => 0
  | .logicalOr => 1
  | .logicalAnd => 2
  | .bitwiseOr => 3
  | .bitwiseXor => 4
  | .bitwiseAnd => 5
  | .equal | .notEqual => 6
  | .less | .lessEqual | .greater | .greaterEqual => 7
  | .leftShift | .rightShift => 8
  | .plus | .minus => 9
  | .asterisk | .divide | .modulo => 10
  | .lparen | .lbracket | .dot | .arrow => 14
  | .increment | .decrement => 15
  | .assign | .plusAssign | .minusAssign | .multAssign | .divAssign | .modAssign
  | .leftShiftAssign | .rightShiftAssign | .bitwiseAndAssign | .bitwiseOrAssign
  | .bitwiseXorAssign | .question => 1
  | _ => -1

@[grind] def isValidExpressionStart : TokenType → Bool
  | .identifier | .lparen | .number | .floatLiteral | .string | .charLiteral | .minus | .plus
  | .logicalNot | .bitwiseNot | .increment | .decrement | .asterisk | .bitwiseAnd | .kwSizeof
  | .kwAlignof => true
  | _ => false

/-- `led` at a comma. -/
def appendComma (left right : Expr E) : Expr E :=
  match left with
  | .comma expressions => .comma (expressions ++ [right])
  | .operand e => .comma [.operand e, right]

section
-- `nud`, and `led` for the operators other than the comma
variable (nud : Token → List Token → Option (Expr E × List Token))
variable (ledOther : Expr E → Token → List Token → Option (Expr E × List Token))

mutual

@[grind] def parseExpressionPratt : Nat → Int → List Token → Option (Expr E × List Token)
  | 0, _, _ => none
  | _ + 1, _, [] => none
  | fuel + 1, minPrecedence, token :: tokens =>
    if isValidExpressionStart token.type then
      (nud token tokens).bind fun (left, tokens) => prattLoop fuel minPrecedence left tokens
    else none

def prattLoop : Nat → Int → Expr E → List Token → Option (Expr E × List Token)
  | 0, _, _, _ => none
  | _ + 1, _, left, [] => some (left, [])
  | fuel + 1, minPrecedence, left, op :: tokens =>
    if getTokenPrecedence op.type ≤ minPrecedence then some (left, op :: tokens)
    else (led fuel left op tokens).bind fun (left, tokens) => prattLoop fuel minPrecedence left tokens

def led : Nat → Expr E → Token → List Token → Option (Expr E × List Token)
  | 0, _, _, _ => none
  | fuel + 1, left, op, tokens =>
    if op.type = .comma then
      -- the right binding power of the comma is its precedence
      (parseExpressionPratt fuel (getTokenPrecedence .comma) tokens).map fun (right, tokens) =>
        (appendComma left right, tokens)
    else ledOther left op tokens

end

-- The statement parsers

def consumeSemicolon : List Token → Option (List Token)
  | [] => none
  | token :: tokens => if token.type = .semicolon then some tokens else none

def parseReturnStatement (fuel : Nat) : List Token → Option (Stmt E × List Token)
  | [] => none
  | token :: tokens =>
    if token.type ≠ .kwReturn then none
    else if (tokens.head?.map Token.type) = some .semicolon then some (.returnStmt none, tokens.tail)
    else
      (parseExpressionPratt nud ledOther fuel (-1) tokens).bind fun (expr, tokens) =>
        (consumeSemicolon tokens).map fun tokens =>
          match expr with
          -- a comma expression becomes several returns
          | .comma expressions => (.block (expressions.map fun e => .returnStmt (some e)), tokens)
          | .operand e => (.returnStmt (some (.operand e)), tokens)

def handleExpressionOrAssignment (fuel : Nat) (tokens : List Token) : Option (Stmt E × List Token) :=
  (parseExpressionPratt nud ledOther fuel (-1) tokens).bind fun (expr, tokens) =>
    (consumeSemicolon tokens).map fun tokens =>
      match expr with
      -- so does one that is a statement
      | .comma expressions => (.block (expressions.map .expr), tokens)
      | .operand e => (.expr (.operand e), tokens)

end

-- Running the nodes

inductive Flow (V : Type)
  | next (value : Option V)
  | returned (value : Option V)
  deriving DecidableEq

section
-- what an operand gives, if it finishes; what a return makes of a value; and whether
-- the node of the operand is one that `cg_node_is_expression_type` lists
variable (eval : E → σ → Option (Option V × σ)) (convert : V → V) (listed : E → Bool)

mutual

def evalExpr : Expr E → σ → Option (Option V × σ)
  | .operand e, s => eval e s
  | .comma expressions, s => evalAll expressions s

/-- The operands in order; the value is that of the last. -/
@[grind] def evalAll : List (Expr E) → σ → Option (Option V × σ)
  | [], s => some (none, s)
  | [e], s => evalExpr e s
  | e :: e' :: rest, s => (evalExpr e s).bind fun (_, s) => evalAll (e' :: rest) s

end

def returns (result : Option V × σ) : Flow V × σ := (.returned (result.1.map convert), result.2)

def goesOn (result : Option V × σ) : Flow V × σ := (.next none, result.2)

def yields (result : Option V × σ) : Flow V × σ := (.next result.1, result.2)

mutual

@[grind] def exec : Stmt E → σ → Option (Flow V × σ)
  | .expr e, s => (evalExpr eval e s).map goesOn
  | .block statements, s => execAll statements s
  | .returnStmt none, s => some (.returned none, s)
  | .returnStmt (some e), s => (evalExpr eval e s).map (returns convert)

/-- What follows a return is not emitted. -/
@[grind] def execAll : List (Stmt E) → σ → Option (Flow V × σ)
  | [], s => some (.next none, s)
  | statement :: rest, s =>
    (exec statement s).bind fun
      | (.next _, s) => execAll rest s
      | (.returned value, s) => some (.returned value, s)

end

def cgNodeIsExpressionType : Stmt E → Bool
  | .expr (.operand e) => listed e
  | .expr (.comma _) => true
  | .block _ | .returnStmt _ => false

/-- `codegenStatementExpression` for the statements of the block. -/
@[grind] def codegenStatementExpression : List (Stmt E) → σ → Option (Flow V × σ)
  | [], s => some (.next none, s)
  | [last], s =>
    match last with
    | .expr e =>
      (evalExpr eval e s).map (if cgNodeIsExpressionType listed (.expr e) then yields else goesOn)
    | .block _ | .returnStmt _ => exec eval convert last s
  | statement :: statement' :: rest, s =>
    (exec eval convert statement s).bind fun
      | (.next _, s) => codegenStatementExpression (statement' :: rest) s
      | (.returned value, s) => some (.returned value, s)

end

-- More fuel

section
variable {nud : Token → List Token → Option (Expr E × List Token)}
variable {ledOther : Expr E → Token → List Token → Option (Expr E × List Token)}

theorem more_fuel (fuel : Nat) :
    (∀ minPrecedence tokens result, parseExpressionPratt nud ledOther fuel minPrecedence tokens = some result →
      parseExpressionPratt nud ledOther (fuel + 1) minPrecedence tokens = some result) ∧
    (∀ minPrecedence left tokens result,
      prattLoop nud ledOther fuel minPrecedence left tokens = some result →
      prattLoop nud ledOther (fuel + 1) minPrecedence left tokens = some result) ∧
    ∀ left op tokens result, led nud ledOther fuel left op tokens = some result →
      led nud ledOther (fuel + 1) left op tokens = some result := by
  induction fuel with
  | zero => exact ⟨by rintro _ _ _ ⟨⟩, by rintro _ _ _ _ ⟨⟩, by rintro _ _ _ _ ⟨⟩⟩
  | succ fuel ih =>
    obtain ⟨hparse, hloop, hled⟩ := ih
    refine ⟨fun minPrecedence tokens result h => ?_, fun minPrecedence left tokens result h => ?_,
      fun left op tokens result h => ?_⟩
    · cases tokens with
      | nil => cases h
      | cons token tokens => ?_
      rw [parseExpressionPratt] at h ⊢
      split at h
      next hstart =>
        rw [if_pos hstart]
        obtain ⟨⟨left, tokens'⟩, hnud, h⟩ := bind_eq_some_iff.mp h
        exact bind_eq_some_iff.mpr ⟨_, hnud, hloop _ _ _ _ h⟩
      next => cases h
    · cases tokens with
      | nil => exact h
      | cons op tokens => ?_
      rw [prattLoop] at h ⊢
      split at h
      next hstop =>
        rw [if_pos hstop]
        exact h
      next hgo =>
        rw [if_neg hgo]
        obtain ⟨⟨left', tokens'⟩, hop, h⟩ := bind_eq_some_iff.mp h
        exact bind_eq_some_iff.mpr ⟨_, hled _ _ _ _ hop, hloop _ _ _ _ h⟩
    · rw [led] at h ⊢
      split at h
      next hcomma =>
        rw [if_pos hcomma]
        obtain ⟨⟨right, tokens'⟩, hright, h⟩ := Option.map_eq_some_iff.mp h
        exact Option.map_eq_some_iff.mpr ⟨_, hparse _ _ _ hright, h⟩
      next hother =>
        rw [if_neg hother]
        exact h

theorem prattLoop_mono (hfuel : fuel ≤ fuel')
    (h : prattLoop nud ledOther fuel minPrecedence left tokens = some result) :
    prattLoop nud ledOther fuel' minPrecedence left tokens = some result := by
  induction hfuel with
  | refl => exact h
  | step _ ih => exact (more_fuel _).2.1 _ _ _ _ ih

theorem parseExpressionPratt_mono (hfuel : fuel ≤ fuel')
    (h : parseExpressionPratt nud ledOther fuel minPrecedence tokens = some result) :
    parseExpressionPratt nud ledOther fuel' minPrecedence tokens = some result := by
  induction hfuel with
  | refl => exact h
  | step _ ih => exact (more_fuel _).1 _ _ _ ih

theorem led_mono (hfuel : fuel ≤ fuel') (h : led nud ledOther fuel left op tokens = some result) :
    led nud ledOther fuel' left op tokens = some result := by
  induction hfuel with
  | refl => exact h
  | step _ ih => exact (more_fuel _).2.2 _ _ _ _ ih

-- Reading a comma expression

variable (nud ledOther)

def Parses (minPrecedence : Int) (tokens : List Token) (result : Expr E × List Token) : Prop :=
  ∃ fuel, parseExpressionPratt nud ledOther fuel minPrecedence tokens = some result

def Loops (minPrecedence : Int) (left : Expr E) (tokens : List Token) (result : Expr E × List Token) :
    Prop :=
  ∃ fuel, prattLoop nud ledOther fuel minPrecedence left tokens = some result

def Reads (text : List Token) (node : Expr E) : Prop :=
  ∀ stop rest, stop.type = .comma ∨ stop.type = .semicolon →
    Parses nud ledOther 0 (text ++ stop :: rest) (node, stop :: rest)

inductive CommaText : List Token → List (Expr E) → Prop
  | one (h : Reads nud ledOther text node) : CommaText text [node]
  | more (h : Reads nud ledOther text node) (hc : c.type = .comma) (hrest : CommaText rest nodes) :
    CommaText (text ++ c :: rest) (node :: nodes)

variable {nud ledOther}

theorem Loops.stop (h : getTokenPrecedence op.type ≤ minPrecedence) :
    Loops nud ledOther minPrecedence left (op :: tokens) (left, op :: tokens) :=
  ⟨1, by rw [prattLoop, if_pos h]⟩

theorem Loops.step (h : minPrecedence < getTokenPrecedence op.type)
    (hled : led nud ledOther fuel left op tokens = some (left', tokens'))
    (hrest : Loops nud ledOther minPrecedence left' tokens' result) :
    Loops nud ledOther minPrecedence left (op :: tokens) result := by
  obtain ⟨fuel', hrest⟩ := hrest
  refine ⟨max fuel fuel' + 1, ?_⟩
  rw [prattLoop, if_neg (Int.not_le.mpr h)]
  exact bind_eq_some_iff.mpr
    ⟨_, led_mono (Nat.le_max_left _ _) hled, prattLoop_mono (Nat.le_max_right _ _) hrest⟩

/-- The loop for a whole expression goes through that for an operand. -/
theorem Loops.lower (h : prattLoop nud ledOther fuel 0 left tokens = some (left', tokens'))
    (hrest : Loops nud ledOther (-1) left' tokens' result) :
    Loops nud ledOther (-1) left tokens result := by
  induction fuel generalizing left tokens with
  | zero => cases h
  | succ fuel ih =>
    cases tokens with
    | nil =>
      cases h
      exact hrest
    | cons op tokens => ?_
    rw [prattLoop] at h
    split at h
    next =>
      cases h
      exact hrest
    next hgo =>
      obtain ⟨⟨left'', tokens''⟩, hop, h⟩ := bind_eq_some_iff.mp h
      exact Loops.step (by omega) hop (ih h)

theorem Parses.lower (h : Parses nud ledOther 0 tokens (left, tokens'))
    (hrest : Loops nud ledOther (-1) left tokens' result) : Parses nud ledOther (-1) tokens result := by
  obtain ⟨_ | fuel, h⟩ := h
  · cases h
  · cases tokens with
    | nil => cases h
    | cons token tokens => ?_
    rw [parseExpressionPratt] at h
    split at h
    next hstart =>
      obtain ⟨⟨left', tokens''⟩, hnud, h⟩ := bind_eq_some_iff.mp h
      obtain ⟨fuel', hloop⟩ := Loops.lower h hrest
      refine ⟨fuel' + 1, ?_⟩
      rw [parseExpressionPratt, if_pos hstart]
      exact bind_eq_some_iff.mpr ⟨_, hnud, hloop⟩
    next => cases h

theorem Loops.comma (hc : c.type = .comma) (hright : Parses nud ledOther 0 tokens (right, tokens'))
    (hrest : Loops nud ledOther (-1) (appendComma left right) tokens' result) :
    Loops nud ledOther (-1) left (c :: tokens) result := by
  obtain ⟨fuel, hright⟩ := hright
  have hled : led nud ledOther (fuel + 1) left c tokens = some (appendComma left right, tokens') := by
    rw [led, if_pos hc]
    exact Option.map_eq_some_iff.mpr ⟨_, hright, rfl⟩
  exact Loops.step (by rw [hc]; decide) hled hrest

theorem Loops.semicolon (he : e.type = .semicolon) :
    Loops nud ledOther (-1) left (e :: tokens) (left, e :: tokens) :=
  Loops.stop (by rw [he]; decide)

theorem CommaText.loops (h : CommaText nud ledOther tokens nodes) (hc : c.type = .comma)
    (he : e.type = .semicolon) (left : Expr E) :
    Loops nud ledOther (-1) left (c :: (tokens ++ e :: rest)) (nodes.foldl appendComma left, e :: rest) := by
  induction h generalizing c left with
  | one h => exact .comma hc (h e rest (.inr he)) (.semicolon he)
  | more h hc' _ ih =>
    rw [List.append_assoc]
    exact .comma hc (h _ _ (.inl hc')) (ih hc' _)

theorem CommaText.parses (h : CommaText nud ledOther tokens (node :: nodes)) (he : e.type = .semicolon) :
    Parses nud ledOther (-1) (tokens ++ e :: rest) (nodes.foldl appendComma node, e :: rest) := by
  cases h with
  | one h => exact (h e rest (.inr he)).lower (.semicolon he)
  | more h hc hrest =>
    rw [List.append_assoc]
    exact (h _ _ (.inl hc)).lower (hrest.loops hc he node)

def commaItems : List (Expr E) → List (Expr E)
  | .comma expressions :: rest => expressions ++ rest
  | nodes => nodes

theorem foldl_appendComma (expressions more : List (Expr E)) :
    more.foldl appendComma (.comma expressions) = .comma (expressions ++ more) := by
  induction more generalizing expressions with
  | nil => simp
  | cons e more ih => simp [appendComma, ih]

theorem foldl_appendComma_cons (node node' : Expr E) (more : List (Expr E)) :
    (node' :: more).foldl appendComma node = .comma (commaItems (node :: node' :: more)) := by
  cases node with
  | operand e => exact foldl_appendComma _ _
  | comma expressions =>
    rw [List.foldl_cons, appendComma, foldl_appendComma]
    simp [commaItems]

end

-- Running the blocks

section
variable {eval : E → σ → Option (Option V × σ)} {convert : V → V} {listed : E → Bool}

theorem evalAll_append (expressions : List (Expr E)) (node : Expr E) (more : List (Expr E)) (s : σ) :
    evalAll eval (expressions ++ node :: more) s =
      (evalAll eval expressions s).bind fun (_, s) => evalAll eval (node :: more) s := by
  induction expressions generalizing s with
  | nil => rfl
  | cons e expressions ih =>
    cases expressions with
    | nil => rfl
    | cons e' expressions =>
      simp only [List.cons_append, evalAll, Option.bind_assoc] at ih ⊢
      exact bind_congr fun result _ => ih result.2

theorem evalAll_commaItems (node node' : Expr E) (more : List (Expr E)) (s : σ) :
    evalAll eval (commaItems (node :: node' :: more)) s = evalAll eval (node :: node' :: more) s := by
  cases node with
  | operand e => rfl
  | comma expressions =>
    rw [commaItems, evalAll_append]
    rfl

theorem execAll_exprs (expressions : List (Expr E)) (s : σ) :
    execAll eval convert (expressions.map .expr) s = (evalAll eval expressions s).map goesOn := by
  induction expressions generalizing s with
  | nil => rfl
  | cons e expressions ih =>
    rw [List.map_cons, execAll, exec]
    cases expressions with
    | nil => cases h : evalExpr eval e s <;> simp [evalAll, execAll, goesOn, h]
    | cons e' expressions =>
      rw [evalAll, Option.bind_map, Option.map_bind]
      exact bind_congr fun result _ => ih result.2

theorem execAll_returns (e : Expr E) (more : List (Expr E)) (s : σ) :
    execAll eval convert ((e :: more).map fun e => .returnStmt (some e)) s =
      (evalExpr eval e s).map (returns convert) := by
  rw [List.map_cons, execAll, exec, Option.bind_map]
  cases evalExpr eval e s <;> rfl

theorem codegenStatementExpression_append (before : List (Stmt E)) (last : Stmt E) (s : σ) :
    codegenStatementExpression eval convert listed (before ++ [last]) s =
      (execAll eval convert before s).bind fun
        | (.next _, s) => codegenStatementExpression eval convert listed [last] s
        | (.returned value, s) => some (.returned value, s) := by
  induction before generalizing s with
  | nil => rfl
  | cons statement before ih =>
    have hstep : codegenStatementExpression eval convert listed (statement :: before ++ [last]) s =
        (exec eval convert statement s).bind fun
          | (.next _, s) => codegenStatementExpression eval convert listed (before ++ [last]) s
          | (.returned value, s) => some (.returned value, s) := by
      cases before <;> rfl
    rw [hstep, execAll, Option.bind_assoc]
    refine bind_congr fun result _ => ?_
    rcases result with ⟨value | value, s⟩
    · exact ih s
    · rfl

end

-- What is kept

section
variable (nud : Token → List Token → Option (Expr E × List Token))
variable (ledOther : Expr E → Token → List Token → Option (Expr E × List Token))
variable (eval : E → σ → Option (Option V × σ)) (convert : V → V) (listed : E → Bool)

/-- The statements read from a comma expression do what it does. -/
structure CommasKept (tokens : List Token) (nodes : List (Expr E)) : Prop where
  /-- `return e1, …, en;` evaluates all operands and returns the value of the last. -/
  returned : ∀ r e rest, r.type = .kwReturn → e.type = .semicolon →
    ∃ fuel statement,
      parseReturnStatement nud ledOther fuel (r :: (tokens ++ e :: rest)) = some (statement, rest) ∧
      ∀ s, exec eval convert statement s = (evalAll eval nodes s).map (returns convert)
  /-- `e1, …, en;` evaluates every operand once in order. -/
  effects : ∀ e rest, e.type = .semicolon →
    ∃ fuel statement,
      handleExpressionOrAssignment nud ledOther fuel (tokens ++ e :: rest) = some (statement, rest) ∧
      ∀ s, exec eval convert statement s = (evalAll eval nodes s).map goesOn
  /-- As the last statement of a statement expression it yields the value of the last. -/
  value : ∀ e rest, e.type = .semicolon →
    ∃ fuel statement,
      handleExpressionOrAssignment nud ledOther fuel (tokens ++ e :: rest) = some (statement, rest) ∧
      ∀ before s, codegenStatementExpression eval convert listed (before ++ [statement]) s =
        (execAll eval convert before s).bind fun
          | (.next _, s) => (evalAll eval nodes s).map yields
          | (.returned value, s) => some (.returned value, s)

def token (type : TokenType) : Token := { (default : Token) with type := type }

def FirstSuffices (nodes : List (Expr E)) : Prop :=
  ∀ first, (commaItems nodes).head? = some first → ∀ s,
    (evalExpr eval first s).map (returns convert) = (evalAll eval nodes s).map (returns convert)

def Valueless (nodes : List (Expr E)) : Prop :=
  ∀ s result, evalAll eval nodes s = some result → result.1 = none

end

section
variable {nud : Token → List Token → Option (Expr E × List Token)}
variable {ledOther : Expr E → Token → List Token → Option (Expr E × List Token)}
variable {eval : E → σ → Option (Option V × σ)} {convert : V → V} {listed : E → Bool}

theorem Parses.unique (h : Parses nud ledOther minPrecedence tokens result)
    (h' : parseExpressionPratt nud ledOther fuel minPrecedence tokens = some result') :
    result = result' := by
  obtain ⟨fuel', h⟩ := h
  have hmono := parseExpressionPratt_mono (Nat.le_max_left fuel fuel') h'
  rw [parseExpressionPratt_mono (Nat.le_max_right fuel fuel') h] at hmono
  exact Option.some.inj hmono

theorem Parses.start (h : Parses nud ledOther minPrecedence tokens result) :
    tokens.head?.map Token.type ≠ some .semicolon := by
  obtain ⟨_ | fuel, h⟩ := h
  · cases h
  · cases tokens with
    | nil => cases h
    | cons token tokens => ?_
    intro htype
    have hno : isValidExpressionStart token.type = false := by
      rw [Option.some.inj htype]
      rfl
    simp [parseExpressionPratt, hno] at h

theorem Parses.gives_iff {parse : Nat → Option β} (h : Parses nud ledOther minPrecedence tokens parsed)
    (hparse : ∀ fuel, parse fuel =
      (parseExpressionPratt nud ledOther fuel minPrecedence tokens).bind fun _ => some given) :
    (∃ fuel, parse fuel = some result) ↔ result = given := by
  simp only [hparse, bind_eq_some_iff]
  constructor
  · rintro ⟨fuel, _, -, heq⟩
    exact (Option.some.inj heq).symm
  · rintro rfl
    obtain ⟨fuel, hfuel⟩ := h
    exact ⟨fuel, _, hfuel, rfl⟩

theorem parseReturnStatement_iff (h : Parses nud ledOther (-1) tokens (.comma expressions, e :: rest))
    (hr : r.type = .kwReturn) (he : e.type = .semicolon) :
    (∃ fuel, parseReturnStatement nud ledOther fuel (r :: tokens) = some result) ↔
      result = (.block (expressions.map fun e => .returnStmt (some e)), rest) := by
  refine h.gives_iff fun fuel => ?_
  rw [parseReturnStatement, if_neg (not_not_intro hr), if_neg h.start]
  refine bind_congr fun parsed hparsed => ?_
  obtain rfl := h.unique hparsed
  simp only [consumeSemicolon, he, if_true, Option.map_some]

theorem handleExpressionOrAssignment_iff
    (h : Parses nud ledOther (-1) tokens (.comma expressions, e :: rest)) (he : e.type = .semicolon) :
    (∃ fuel, handleExpressionOrAssignment nud ledOther fuel tokens = some result) ↔
      result = (.block (expressions.map .expr), rest) := by
  refine h.gives_iff fun fuel => ?_
  refine bind_congr fun parsed hparsed => ?_
  obtain rfl := h.unique hparsed
  simp only [consumeSemicolon, he, if_true, Option.map_some]

theorem exists_statement {parse : Nat → Option (Stmt E × List Token)} {P : Stmt E → Prop}
    (h : ∀ result, (∃ fuel, parse fuel = some result) ↔ result = (statement, rest)) :
    (∃ fuel statement', parse fuel = some (statement', rest) ∧ P statement') ↔ P statement := by
  constructor
  · rintro ⟨fuel, statement', hparse, hP⟩
    obtain ⟨rfl, -⟩ := Prod.mk.inj ((h _).mp ⟨fuel, hparse⟩)
    exact hP
  · intro hP
    obtain ⟨fuel, hparse⟩ := (h _).mpr rfl
    exact ⟨fuel, statement, hparse, hP⟩

/-- A comma expression keeps its meaning when a return may stop at its first operand and
no value is asked of the last. -/
theorem commasKept_iff (h : CommaText nud ledOther tokens nodes) (hcount : 2 ≤ nodes.length) :
    CommasKept nud ledOther eval convert listed tokens nodes ↔
      FirstSuffices eval convert nodes ∧ Valueless eval nodes := by
  obtain _ | ⟨node, _ | ⟨node', more⟩⟩ := nodes
  · cases hcount
  · simp at hcount
  have hparses : ∀ e rest, e.type = .semicolon →
      Parses nud ledOther (-1) (tokens ++ e :: rest)
        (.comma (commaItems (node :: node' :: more)), e :: rest) := by
    intro e rest he
    rw [← foldl_appendComma_cons]
    exact h.parses he
  obtain ⟨first, others, hitems⟩ : ∃ first others, commaItems (node :: node' :: more) = first :: others := by
    cases node with
    | operand e => exact ⟨_, _, rfl⟩
    | comma expressions => cases expressions <;> exact ⟨_, _, rfl⟩
  constructor
  · rintro ⟨hreturned, -, hvalue⟩
    refine ⟨fun first' hfirst s => ?_, fun s result hresult => ?_⟩
    · rw [hitems, List.head?_cons, Option.some.injEq] at hfirst
      subst hfirst
      have hrun := (exists_statement fun _ => parseReturnStatement_iff (hparses (token .semicolon) [] rfl)
        (r := token .kwReturn) rfl rfl).mp (hreturned (token .kwReturn) (token .semicolon) [] rfl rfl) s
      rwa [hitems, exec, execAll_returns] at hrun
    · have hrun := (exists_statement fun _ => handleExpressionOrAssignment_iff
        (hparses (token .semicolon) [] rfl) rfl).mp (hvalue (token .semicolon) [] rfl) [] s
      have hflow : (evalAll eval (commaItems (node :: node' :: more)) s).map goesOn =
          (evalAll eval (node :: node' :: more) s).map (yields (V := V)) := by
        have hblock : execAll eval convert ((commaItems (node :: node' :: more)).map .expr) s =
            (evalAll eval (commaItems (node :: node' :: more)) s).map goesOn := execAll_exprs _ s
        exact hblock.symm.trans hrun
      rw [evalAll_commaItems, hresult, Option.map_some, Option.map_some, Option.some.injEq] at hflow
      simpa [goesOn, yields] using hflow.symm
  · rintro ⟨hfirst, hvalueless⟩
    refine ⟨fun r e rest hr he => ?_, fun e rest he => ?_, fun e rest he => ?_⟩
    · rw [exists_statement fun _ => parseReturnStatement_iff (hparses e rest he) hr he]
      intro s
      rw [exec, hitems, execAll_returns]
      exact hfirst first (by rw [hitems]; rfl) s
    · rw [exists_statement fun _ => handleExpressionOrAssignment_iff (hparses e rest he) he]
      intro s
      rw [exec, execAll_exprs, evalAll_commaItems]
    · rw [exists_statement fun _ => handleExpressionOrAssignment_iff (hparses e rest he) he]
      intro before s
      rw [codegenStatementExpression_append]
      refine Option.bind_congr fun result _ => ?_
      rcases result with ⟨value | value, s⟩
      · simp only [codegenStatementExpression, exec, execAll_exprs, evalAll_commaItems]
        refine Option.map_congr fun result hresult => ?_
        rw [goesOn, yields, hvalueless s result hresult]
      · rfl

end

-- the operands are single tokens and evaluate to their text; `abort` does not finish
def wordNud (token : Token) (tokens : List Token) : Option (Expr String × List Token) :=
  some (.operand (token.value.getD ""), tokens)

def noInfix (_ : Expr String) (_ : Token) (_ : List Token) : Option (Expr String × List Token) := none

def evalWord (word : String) (s : Unit) : Option (Option String × Unit) :=
  if word = "abort" then none else some (some word, s)

def word (text : String) : Token := { (default : Token) with type := .number, value := some text }

theorem reads_word (text : String) : Reads wordNud noInfix [word text] (.operand text) := by
  rintro stop rest (hstop | hstop)
  all_goals
    exact ⟨2, by simp [parseExpressionPratt, prattLoop, word, isValidExpressionStart, wordNud, hstop,
      getTokenPrecedence]⟩

theorem commas_kept_abort :
    CommasKept wordNud noInfix evalWord id (fun _ => true) ([word "abort"] ++ token .comma :: [word "2"])
      [.operand "abort", .operand "2"] :=
  (commasKept_iff (.more (reads_word "abort") rfl (.one (reads_word "2"))) (Nat.le_refl 2)).mpr
    ⟨by rintro _ ⟨⟩ s; rfl, by rintro s result ⟨⟩⟩

/-- `return 1, 2;` returns 1. -/
theorem commas_lost :
    ¬ CommasKept wordNud noInfix evalWord id (fun _ => true) ([word "1"] ++ token .comma :: [word "2"])
      [.operand "1", .operand "2"] := by
  rintro ⟨hreturned, -, -⟩
  obtain ⟨fuel, statement, hparse, hrun⟩ := hreturned (token .kwReturn) (token .semicolon) [] rfl rfl
  have hparses : Parses wordNud noInfix (-1)
      ([word "1"] ++ token .comma :: [word "2"] ++ token .semicolon :: [])
      (.comma [.operand "1", .operand "2"], [token .semicolon]) := ⟨6, rfl⟩
  obtain ⟨rfl, -⟩ := Prod.mk.inj ((parseReturnStatement_iff hparses rfl rfl).mp ⟨fuel, hparse⟩)
  have hvalue : some (Flow.returned (some "1"), ()) = some (Flow.returned (some "2"), ()) := hrun ()
  simp at hvalue

end Fisics.Commas
