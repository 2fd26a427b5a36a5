import Fisics.Preprocessor.PrepareExpr
import Fisics.Preprocessor.Expr
import Mathlib.Data.BitVec

/-!
# Conditional directives

The handlers of `#if`, `#ifdef`, `#ifndef`, `#elif`, `#else` and `#endif` on the
stack of conditional frames, which is kept innermost first. How a condition is
evaluated is a parameter of the handlers, `EvalCondition`; `evalCondition` is
what the source does. Its value has 64 bits and reaches the handlers through an
`int32_t`: the last theorem says when this loses nothing.
-/

namespace Fisics

structure PPConditionalFrame where
  parentActive : Bool
  selfActive : Bool
  branchTaken : Bool
  sawElse : Bool
  deriving DecidableEq, Inhabited

def conditionalStackIsActive : List PPConditionalFrame → Bool
  | [] => true
  | frame :: _ => frame.selfActive

-- Conditions

inductive PPCondition
  | value (value : BitVec 32)
  /-- The tokens could not be prepared. -/
  | unprepared
  | invalid
  deriving DecidableEq

/-- The evaluation of a condition; `none` when it does not return. -/
abbrev EvalCondition := Preprocessor → List Token → Option (PPCondition × Preprocessor)

def evalCondition (host : Host) : EvalCondition := fun pp tokens =>
  match ppPrepareExprTokens host pp tokens with
  | none => none
  | some (false, _, pp) => some (.unprepared, pp)
  | some (true, prepared, pp) =>
    match ppExprEvalTokens pp.table (if prepared.isEmpty then tokens else prepared) with
    | .value value => some (.value value, pp)
    | .invalid => some (.invalid, pp)
    | .trap => none

/-- The condition of a directive line: its truth, or `none` and what was
reported. -/
def evalDirective (eval : EvalCondition) (pp : Preprocessor) (tok : Token) (line : List Token)
    (message : String) : Option (Option Bool × Preprocessor) :=
  (eval pp line).map fun (condition, pp) =>
    match condition with
    | .value value => (some (value != 0), pp)
    | .unprepared => (none, pp)
    | .invalid => (none, ppReportDiag pp (some tok) .error message)

-- The handlers

/-- What a handler returns; `taken` tokens after the directive are consumed. -/
structure CondResult where
  ok : Bool
  pp : Preprocessor
  stack : List PPConditionalFrame
  taken : Nat

def openFrame (parentActive condition : Bool) : PPConditionalFrame :=
  ⟨parentActive, parentActive && condition, parentActive && condition, false⟩

def processIf (eval : EvalCondition) (pp : Preprocessor) (stack : List PPConditionalFrame)
    (tok : Token) (rest : List Token) : Option CondResult :=
  let line := directiveLine tok rest
  if conditionalStackIsActive stack then
    (evalDirective eval pp tok line "invalid #if expression").map fun (condition, pp) =>
      match condition with
      | some condition => ⟨true, pp, openFrame true condition :: stack, line.length⟩
      | none => ⟨false, pp, stack, 0⟩
  else some ⟨true, pp, openFrame false false :: stack, line.length⟩

/-- The operands are checked before the stack is looked at. -/
def processIfdeflike (pp : Preprocessor) (stack : List PPConditionalFrame) (tok : Token)
    (rest : List Token) (negate : Bool) : CondResult :=
  let directive := if negate then "ifndef" else "ifdef"
  let expected : CondResult :=
    ⟨false, ppReportDiag pp rest.head? .error s!"expected identifier after #{directive}", stack, 0⟩
  match rest with
  | [] => expected
  | nameTok :: after =>
    if nameTok.line = tok.line ∧ tokenIsMacroIdentifier nameTok then
      if (lineTokens tok.line after).isEmpty then
        let parentActive := conditionalStackIsActive stack
        let isDefined := parentActive && (macroTableLookup pp.table (tokenText nameTok)).isSome
        ⟨true, pp, openFrame parentActive (if negate then !isDefined else isDefined) :: stack, 1⟩
      else
        ⟨false, ppReportDiag pp after.head? .error s!"unexpected tokens after #{directive} directive",
          stack, 0⟩
    else expected

/-- Without an open group, and after `#else`, the cursor stays on the directive:
where missing includes are forgiven the walk goes on with the rest of the line. -/
def processElif (eval : EvalCondition) (pp : Preprocessor) (stack : List PPConditionalFrame)
    (tok : Token) (rest : List Token) : Option CondResult :=
  let line := directiveLine tok rest
  let misplaced (message : String) : Option CondResult :=
    some ⟨pp.lenientMissingIncludes, ppReportDiag pp (some tok) .error message, stack, 0⟩
  match stack with
  | [] => misplaced "#elif without matching #if"
  | frame :: below =>
    if frame.sawElse then misplaced "#elif after #else"
    else if frame.parentActive && !frame.branchTaken then
      (evalDirective eval pp tok line "invalid #elif expression").map fun (condition, pp) =>
        match condition with
        | some condition =>
          ⟨true, pp, { frame with selfActive := condition, branchTaken := condition } :: below, line.length⟩
        | none => ⟨false, pp, stack, 0⟩
    else some ⟨true, pp, { frame with selfActive := false } :: below, line.length⟩

def processElse (pp : Preprocessor) (stack : List PPConditionalFrame) (tok : Token) :
    Bool × Preprocessor × List PPConditionalFrame :=
  match stack with
  | [] =>
    (pp.lenientMissingIncludes, ppReportDiag pp (some tok) .error "#else without matching #if", stack)
  | frame :: below =>
    if frame.sawElse then
      (pp.lenientMissingIncludes, ppReportDiag pp (some tok) .error "duplicate #else", stack)
    else
      let newActive := frame.parentActive && !frame.branchTaken
      (true, pp,
        { frame with
          selfActive := newActive
          branchTaken := frame.branchTaken || newActive
          sawElse := true } :: below)

def processEndif (pp : Preprocessor) (stack : List PPConditionalFrame) (tok : Token) :
    Bool × Preprocessor × List PPConditionalFrame :=
  match stack with
  | [] =>
    (pp.lenientMissingIncludes, ppReportDiag pp (some tok) .error "#endif without matching #if", stack)
  | _ :: below => (true, pp, below)

-- The value of a condition

/-- The 64-bit value that `parse_conditional` computes for the prepared tokens
of a condition, with the state after the preparation. -/
structure ConditionValue (host : Host) (pp : Preprocessor) (line : List Token) (value : PPValue)
    (pp' : Preprocessor) (evaluated : List Token) : Prop where
  prepares : ∃ prepared, ppPrepareExprTokens host pp line = some (true, prepared, pp') ∧
    evaluated = if prepared.isEmpty then line else prepared
  nonempty : evaluated ≠ []
  parses : ∃ parser, parseConditional pp'.table ⟨evaluated, false, false⟩ true = (value, parser) ∧
    parser.trapped = false ∧ parser.error = false ∧ parserIsDone parser = true

/-- The handler opens its group exactly when the value is not zero. -/
def ActivatesExactly (r : Option CondResult) (value : PPValue) : Prop :=
  ∃ result, r = some result ∧ result.ok = true ∧
    (conditionalStackIsActive result.stack = true ↔ value.bits ≠ 0)

theorem ConditionValue.eval (h : ConditionValue host pp line value pp' evaluated) :
    ppExprEvalTokens pp'.table evaluated = .value (value.bits.truncate 32) := by
  obtain ⟨parser, hparse, htrap, herror, hdone⟩ := h.parses
  have hne : evaluated.isEmpty = false := by
    simpa using h.nonempty
  unfold ppExprEvalTokens
  simp [hne, hparse, htrap, herror, hdone]

theorem ConditionValue.evalCondition (h : ConditionValue host pp line value pp' evaluated) :
    evalCondition host pp line = some (.value (value.bits.truncate 32), pp') := by
  obtain ⟨prepared, hprepare, rfl⟩ := h.prepares
  have heval := h.eval
  unfold Fisics.evalCondition
  simp only [hprepare, heval]

theorem ConditionValue.processIf (h : ConditionValue host pp (directiveLine tok rest) value pp' ev)
    (hactive : conditionalStackIsActive stack = true) :
    processIf (Fisics.evalCondition host) pp stack tok rest =
      some ⟨true, pp', openFrame true (value.bits.truncate 32 != 0) :: stack,
        (directiveLine tok rest).length⟩ := by
  simp [Fisics.processIf, hactive, evalDirective, h.evalCondition]

theorem ConditionValue.processElif (below : List PPConditionalFrame)
    (h : ConditionValue host pp (directiveLine tok rest) value pp' ev)
    (hopen : frame.sawElse = false) (hparent : frame.parentActive = true)
    (htaken : frame.branchTaken = false) :
    processElif (Fisics.evalCondition host) pp (frame :: below) tok rest =
      some ⟨true, pp',
        { frame with
          selfActive := value.bits.truncate 32 != 0
          branchTaken := value.bits.truncate 32 != 0 } :: below,
        (directiveLine tok rest).length⟩ := by
  simp [Fisics.processElif, hopen, hparent, htaken, evalDirective, h.evalCondition]

/-- Cutting a value to 32 bits keeps whether it is zero unless it is a non-zero
multiple of `2 ^ 32`. -/
theorem truncate_ne_zero_iff (bits : BitVec 64) :
    ((bits.truncate 32 ≠ 0) ↔ bits ≠ 0) ↔ (bits = 0 ∨ bits.truncate 32 ≠ 0) := by
  constructor
  · intro h
    by_cases hbits : bits = 0
    · exact .inl hbits
    · exact .inr (h.mpr hbits)
  · rintro (rfl | h)
    · simp
    · refine ⟨fun _ hbits => h ?_, fun _ => h⟩
      rw [hbits]
      rfl

/-- `#if` and `#elif` open their group exactly for the non-zero values, and the
evaluator's 32-bit result is non-zero exactly for them, if and only if the value
is zero or not a multiple of `2 ^ 32`. -/
theorem condition_activates_iff (host : Host) (pp pp' : Preprocessor) (tok : Token)
    (rest evaluated : List Token) (value : PPValue) (stack below : List PPConditionalFrame)
    (frame : PPConditionalFrame)
    (hvalue : ConditionValue host pp (directiveLine tok rest) value pp' evaluated)
    (hactive : conditionalStackIsActive stack = true)
    (hframe : frame.sawElse = false ∧ frame.parentActive = true ∧ frame.branchTaken = false) :
    (ActivatesExactly (processIf (evalCondition host) pp stack tok rest) value ∧
      ActivatesExactly (processElif (evalCondition host) pp (frame :: below) tok rest) value ∧
      (∀ outValue, ppExprEvalTokens pp'.table evaluated = .value outValue →
        (outValue ≠ 0 ↔ value.bits ≠ 0))) ↔
    (value.bits = 0 ∨ value.bits.toNat % 2 ^ 32 ≠ 0) := by
  obtain ⟨hopen, hparent, htaken⟩ := hframe
  have hif := hvalue.processIf hactive
  have helif := hvalue.processElif below hopen hparent htaken
  have heval := hvalue.eval
  have hmod : value.bits.toNat % 2 ^ 32 ≠ 0 ↔ value.bits.truncate 32 ≠ 0 := by
    rw [not_iff_not, ← BitVec.toNat_inj]
    simp
  rw [hmod, ← truncate_ne_zero_iff]
  constructor
  · rintro ⟨-, -, h⟩
    exact h _ heval
  · intro h
    refine ⟨⟨_, hif, rfl, ?_⟩, ⟨_, helif, rfl, ?_⟩, ?_⟩
    · simpa [conditionalStackIsActive, openFrame] using h
    · simpa [conditionalStackIsActive] using h
    · intro outValue hout
      rw [heval] at hout
      cases hout
      exact h

/-- The directive of `#if 1 << 32` and the tokens after it. -/
def ifShift : Token := makeSimpleToken .ppIf "if" (fileLine "a.c" 1 1)

def shiftExpr : List Token :=
  [makeSimpleToken .number "1" (fileLine "a.c" 1 5), makeSimpleToken .leftShift "<<" (fileLine "a.c" 1 7),
    makeSimpleToken .number "32" (fileLine "a.c" 1 10)]

theorem shiftExpr_value :
    ConditionValue noFiles (preprocessorInit false false false .internal)
      (directiveLine ifShift shiftExpr) (ppValueSigned (2 ^ 32))
      (preprocessorInit false false false .internal) shiftExpr where
  prepares := ⟨shiftExpr, by decide, rfl⟩
  nonempty := by decide
  parses := ⟨⟨[], false, false⟩, by decide, rfl, rfl, rfl⟩

theorem condition_activates_iff_shift :
    ConditionValue noFiles (preprocessorInit false false false .internal)
        (directiveLine ifShift shiftExpr) (ppValueSigned (2 ^ 32))
        (preprocessorInit false false false .internal) shiftExpr ∧
      ((ActivatesExactly (processIf (evalCondition noFiles)
            (preprocessorInit false false false .internal) [] ifShift shiftExpr)
            (ppValueSigned (2 ^ 32)) ∧
          ActivatesExactly (processElif (evalCondition noFiles)
            (preprocessorInit false false false .internal) [⟨true, false, false, false⟩] ifShift
            shiftExpr) (ppValueSigned (2 ^ 32)) ∧
          (∀ outValue, ppExprEvalTokens (preprocessorInit false false false .internal).table
              shiftExpr = .value outValue → (outValue ≠ 0 ↔ (ppValueSigned (2 ^ 32)).bits ≠ 0))) ↔
        ((ppValueSigned (2 ^ 32)).bits = 0 ∨ (ppValueSigned (2 ^ 32)).bits.toNat % 2 ^ 32 ≠ 0)) :=
  ⟨shiftExpr_value, condition_activates_iff noFiles (preprocessorInit false false false .internal)
    (preprocessorInit false false false .internal) ifShift shiftExpr shiftExpr
    (ppValueSigned (2 ^ 32)) [] [] ⟨true, false, false, false⟩ shiftExpr_value rfl ⟨rfl, rfl, rfl⟩⟩

/-- `#if 1 << 32` has a non-zero value and does not open its group. -/
theorem shiftExpr_not_activates :
    ConditionValue noFiles (preprocessorInit false false false .internal)
        (directiveLine ifShift shiftExpr) (ppValueSigned (2 ^ 32))
        (preprocessorInit false false false .internal) shiftExpr ∧
      ¬ActivatesExactly (processIf (evalCondition noFiles)
        (preprocessorInit false false false .internal) [] ifShift shiftExpr)
        (ppValueSigned (2 ^ 32)) := by
  refine ⟨shiftExpr_value, ?_⟩
  rintro ⟨result, hresult, -, hactive⟩
  cases hresult
  exact absurd (hactive.mpr (by decide)) (by decide)

end Fisics
