import Fisics.Preprocessor.ExpanderLaws

/-!
# The recursion of the expander

`macro_expander_expand` calls itself on the arguments of a call, on the result of
a substitution, and on both again from the two helpers for a call that runs over
the end of an expansion. `expandMeasured` is that recursion with every call cut
off that does not bring down the pair of the macros not on the stack and the
tokens left where the call is made. No call is cut off: the recursion has a
result for every table and input, it satisfies the equation of the source, and
the counts of `macroExpanderExpand` compute it.
-/

namespace Fisics

-- The measured recursion

/-- The macros not on the expansion stack, and the tokens left. -/
def expandMeasure (e : MacroExpander) (input : List Token) : Nat × Nat :=
  (unexpanded e.table, input.length)

def Lower (a b : Nat × Nat) : Prop := a.1 < b.1 ∨ a.1 = b.1 ∧ a.2 < b.2

instance (a b : Nat × Nat) : Decidable (Lower a b) :=
  inferInstanceAs (Decidable (a.1 < b.1 ∨ a.1 = b.1 ∧ a.2 < b.2))

theorem Lower.lex (h : Lower a b) : Prod.Lex (· < ·) (· < ·) a b := by
  obtain ⟨a₁, a₂⟩ := a
  obtain ⟨b₁, b₂⟩ := b
  obtain h | ⟨rfl, h⟩ := h
  · exact .left _ _ h
  · exact .right _ h

def cutOff (bound : Nat × Nat) (expand : Expand) : Expand := fun e input =>
  if Lower (expandMeasure e input) bound then expand e input else none

/-- The loop of the source; the calls made for a token are bounded by the tokens
left there. -/
def measuredLoop (expand : Expand) : (skip : Nat) → (before out : List Token) → MacroExpander →
    List Token → ExpandResult
  | _, _, out, expander, [] => some (true, out, expander)
  | skip + 1, before, out, expander, tok :: rest =>
    measuredLoop expand skip (tok :: before) out expander rest
  | 0, before, out, expander, tok :: rest =>
    let nested := cutOff (expandMeasure expander (tok :: rest)) expand
    (expandToken nested nested before out expander tok rest).bind
      fun (ok, out, taken, expander) =>
        if ok then measuredLoop expand taken (tok :: before) out expander rest
        else some (false, out, expander)

def expandMeasured (expander : MacroExpander) (input : List Token) : ExpandResult :=
  measuredLoop
    (fun expander' input' =>
      if Lower (expandMeasure expander' input') (expandMeasure expander input) then
        expandMeasured expander' input'
      else none)
    0 [] [] (macroExpanderClearError expander) input
termination_by expandMeasure expander input
decreasing_by exact Lower.lex ‹_›

-- No call is cut off

theorem measuredLoop_returns
    (hexpand : ∀ e input, Lower (expandMeasure e input) (k, n) → Returns e (expand e input))
    (skip : Nat) (before out : List Token) (e : MacroExpander) (input : List Token)
    (hk : unexpanded e.table = k) (hn : input.length ≤ n) :
    Returns e (measuredLoop expand skip before out e input) := by
  induction input generalizing skip before out e with
  | nil => exact ⟨true, out, e, by cases skip <;> rfl, .refl e⟩
  | cons tok rest ih =>
    have hrest : rest.length ≤ n := Nat.le_of_succ_le hn
    cases skip with
    | succ skip => exact ih skip (tok :: before) out e hk hrest
    | zero => ?_
    have hcut : ∀ e' input', Lower (expandMeasure e' input') (k, rest.length + 1) →
        Returns e' (cutOff (expandMeasure e (tok :: rest)) expand e' input') := by
      intro e' input' hlower
      have hbound : expandMeasure e (tok :: rest) = (k, rest.length + 1) := by
        simp [expandMeasure, hk]
      unfold cutOff
      rw [hbound, if_pos hlower]
      refine hexpand e' input' (hlower.imp_right fun h => ⟨h.1, ?_⟩)
      exact Nat.lt_of_lt_of_le h.2 hn
    have hargument : ∀ e' input', unexpanded e'.table ≤ k → input'.length < rest.length →
        Returns e' (cutOff (expandMeasure e (tok :: rest)) expand e' input') := by
      intro e' input' hle hlt
      refine hcut e' input' ((Nat.lt_or_eq_of_le hle).imp_right fun h => ⟨h, ?_⟩)
      exact Nat.lt_succ_of_lt hlt
    have hnested : ∀ e' input', unexpanded e'.table < k →
        Returns e' (cutOff (expandMeasure e (tok :: rest)) expand e' input') :=
      fun e' input' hlt => hcut e' input' (.inl hlt)
    obtain ⟨ok, out₁, taken, e₁, h, hf⟩ := expandToken_returns hargument hnested before out e tok
      rest (Nat.le_of_eq hk) (Nat.le_refl _)
    unfold measuredLoop
    simp only [h, Option.bind_some]
    cases ok with
    | false => exact ⟨_, _, _, rfl, hf⟩
    | true =>
      obtain ⟨ok, out₂, e₂, h₂, hf₂⟩ := ih taken (tok :: before) out₁ e₁ (hf.unexpanded.trans hk) hrest
      exact ⟨ok, out₂, e₂, h₂, hf.trans hf₂⟩

theorem expandMeasured_returns (e : MacroExpander) (input : List Token) :
    Returns e (expandMeasured e input) := by
  unfold expandMeasured
  have hclear := sameFrame_lastError e noExpandError
  have hexpand : ∀ e' input', Lower (expandMeasure e' input') (expandMeasure e input) →
      Returns e' (if Lower (expandMeasure e' input') (expandMeasure e input) then
        expandMeasured e' input' else none) := by
    intro e' input' hlower
    rw [if_pos hlower]
    exact expandMeasured_returns e' input'
  obtain ⟨ok, out, e', h, hf⟩ := measuredLoop_returns hexpand 0 [] [] (macroExpanderClearError e)
    input hclear.unexpanded (Nat.le_refl _)
  exact ⟨ok, out, e', h, hclear.trans hf⟩
termination_by expandMeasure e input
decreasing_by exact Lower.lex ‹_›

-- More calls answered

/-- `y` has the result of `x` where `x` has one. -/
def Extends (x y : Option α) : Prop := ∀ a, x = some a → y = some a

theorem Extends.refl (x : Option α) : Extends x x := fun _ h => h

theorem Extends.bind (h : Extends x y) (hfg : ∀ a, Extends (f a) (g a)) :
    Extends (x.bind f) (y.bind g) := by
  intro b hb
  obtain ⟨a, ha, hfa⟩ := Option.bind_eq_some_iff.mp hb
  rw [h a ha]
  exact hfg a b hfa

theorem Extends.map (f : α → β) (h : Extends x y) : Extends (x.map f) (y.map f) := by
  intro b hb
  obtain ⟨a, ha, rfl⟩ := Option.map_eq_some_iff.mp hb
  rw [h a ha]
  rfl

theorem Extends.ite [Decidable p] (h : Extends x y)
    (h' : Extends x' y') : Extends (if p then x else x') (if p then y else y') := by
  split
  · exact h
  · exact h'

section
variable {f g f' g' : Expand} (h : ∀ e input, Extends (f e input) (g e input))
  (h' : ∀ e input, Extends (f' e input) (g' e input))

include h in
theorem expandArguments_extends (args : List MacroArg) (e : MacroExpander) :
    Extends (expandArguments f e args) (expandArguments g e args) := by
  induction args generalizing e with
  | nil => exact .refl _
  | cons arg args ih =>
    refine Extends.bind (.ite (.refl _) (h e arg.raw)) fun a => .ite ?_ (.refl _)
    exact (ih _).map _

include h in
theorem expandMacroArguments_extends (e : MacroExpander) (pack : MacroArgPack) :
    Extends (expandMacroArguments f e pack) (expandMacroArguments g e pack) :=
  (expandArguments_extends h _ e).map _

include h in
theorem expandReplacement_extends (e : MacroExpander) (d : MacroDefinition)
    (args : Option MacroArgPack) (callRange : SourceRange) :
    Extends (expandReplacement f e d args callRange) (expandReplacement g e d args callRange) := by
  unfold expandReplacement
  split
  · exact .refl _
  · exact h _ _

include h h' in
theorem boundary_extends (e : MacroExpander) (expanded after : List Token) :
    Extends (tryExpandFunctionLikeAliasBoundary f f' e expanded after)
      (tryExpandFunctionLikeAliasBoundary g g' e expanded after) := by
  unfold tryExpandFunctionLikeAliasBoundary
  cases boundaryCallee e.table expanded after with
  | none => exact .refl _
  | some found => ?_
  dsimp only
  cases parseMacroArgumentTokens after.tail found.2 with
  | none => exact .refl _
  | some parsed => ?_
  dsimp only
  cases buildMacroArgPack found.2 parsed.1 with
  | error counts => exact .refl _
  | ok pack =>
    refine (expandMacroArguments_extends h e pack).bind fun a => .ite (.ite ?_ (.refl _)) (.refl _)
    exact (expandReplacement_extends h' _ _ _ _).map _

include h h' in
theorem accumulatedBoundaryLoop_extends (rounds : Nat) (out : List Token) (consumed : Nat)
    (e : MacroExpander) (after : List Token) :
    Extends (accumulatedBoundaryLoop f f' rounds out consumed e after)
      (accumulatedBoundaryLoop g g' rounds out consumed e after) := by
  induction rounds generalizing out consumed e after with
  | zero => exact .refl _
  | succ rounds ih =>
    refine .ite ?_ (.refl _)
    cases out.getLast? with
    | none => exact .refl _
    | some last =>
      exact (boundary_extends h h' e [last] after).bind fun r => .ite (ih _ _ _ _) (.refl _)

section
variable (out : List Token) (e : MacroExpander) (d : MacroDefinition)

include h h' in
theorem expandObjectLike_extends (callRange : SourceRange) (rest : List Token) :
    Extends (expandObjectLike f f' out e d callRange rest)
      (expandObjectLike g g' out e d callRange rest) := by
  refine .ite ((expandReplacement_extends h' _ _ _ _).bind fun a => .ite ?_ (.refl _)) (.refl _)
  exact (boundary_extends h h' _ _ _).map _

include h h' in
theorem expandCall_extends (pack : MacroArgPack) (callRange : SourceRange) (after : List Token) :
    Extends (expandCall f f' out e d pack callRange after)
      (expandCall g g' out e d pack callRange after) := by
  refine (expandReplacement_extends h' _ _ _ _).bind fun a => .ite ?_ (.refl _)
  refine (boundary_extends h h' _ _ _).bind fun r => .ite (.ite ?_ (.refl _)) (.refl _)
  exact accumulatedBoundaryLoop_extends h h' _ _ _ _ _

include h h' in
theorem expandFunctionLike_extends (tok : Token) (rest : List Token) :
    Extends (expandFunctionLike f f' out e d tok rest) (expandFunctionLike g g' out e d tok rest) := by
  refine .ite ?_ (.refl _)
  cases parseMacroArgumentTokens rest.tail d with
  | none => exact .refl _
  | some parsed => ?_
  dsimp only
  cases buildMacroArgPack d parsed.1 with
  | error counts => exact .refl _
  | ok pack =>
    refine (expandMacroArguments_extends h e pack).bind fun a => .ite (.ite ?_ (.refl _)) (.refl _)
    exact (expandCall_extends h h' _ _ _ _ _ _).map _

end

include h h' in
theorem expandToken_extends (before out : List Token) (e : MacroExpander) (tok : Token)
    (rest : List Token) :
    Extends (expandToken f f' before out e tok rest) (expandToken g g' before out e tok rest) := by
  refine .ite (.refl _) ?_
  cases handleBuiltinIdentifier e tok with
  | some literal => exact .refl _
  | none => ?_
  refine .ite (.refl _) ?_
  cases tok.value.bind (macroTableLookup e.table) with
  | none => exact .refl _
  | some d => ?_
  refine .ite (.refl _) ?_
  cases d.kind with
  | object => exact expandObjectLike_extends h h' _ _ _ _ _
  | function => exact expandFunctionLike_extends h h' _ _ _ _ _

include h h' in
theorem expandLoop_extends (skip : Nat) (before out : List Token) (e : MacroExpander) (input : List Token) :
    Extends (expandLoop f f' skip before out e input) (expandLoop g g' skip before out e input) := by
  induction input generalizing skip before out e with
  | nil => cases skip <;> exact .refl _
  | cons tok rest ih =>
    cases skip with
    | succ skip => exact ih _ _ _ _
    | zero =>
      exact (expandToken_extends h h' before out e tok rest).bind fun a => .ite (ih _ _ _ _) (.refl _)

end

theorem cutOff_extends (bound : Nat × Nat) (expand : Expand) (e : MacroExpander)
    (input : List Token) : Extends (cutOff bound expand e input) (expand e input) := by
  intro r hr
  unfold cutOff at hr
  split at hr
  · exact hr
  · cases hr

theorem measuredLoop_extends (h : ∀ e input, Extends (f e input) (g e input))
    (skip : Nat) (before out : List Token) (e : MacroExpander) (input : List Token) :
    Extends (measuredLoop f skip before out e input) (expandLoop g g skip before out e input) := by
  have hcut : ∀ bound e input, Extends (cutOff bound f e input) (g e input) :=
    fun bound e input r hr => h e input r (cutOff_extends bound f e input r hr)
  induction input generalizing skip before out e with
  | nil => cases skip <;> exact .refl _
  | cons tok rest ih =>
    cases skip with
    | succ skip => exact ih _ _ _ _
    | zero =>
      refine (expandToken_extends (hcut _) (hcut _) before out e tok rest).bind fun a => ?_
      exact .ite (ih _ _ _ _) (.refl _)

-- The recursion of the source

/-- The equation of the source: every nested call is a call of the same function. -/
theorem expandMeasured_eq (e : MacroExpander) (input : List Token) :
    expandMeasured e input =
      expandLoop expandMeasured expandMeasured 0 [] [] (macroExpanderClearError e) input := by
  obtain ⟨ok, out, e', h, -⟩ := expandMeasured_returns e input
  rw [h]
  unfold expandMeasured at h
  refine (measuredLoop_extends (fun e' input' r hr => ?_) _ _ _ _ _ _ h).symm
  split at hr
  · exact hr
  · cases hr

theorem expandInput_extends
    (hnested : ∀ e input, Extends (nested e input) (expandMeasured e input)) (size : Nat)
    (e : MacroExpander) (input : List Token) :
    Extends (expandInput nested size e input) (expandMeasured e input) := by
  induction size generalizing e input with
  | zero => exact fun r hr => by cases hr
  | succ size ih =>
    rw [expandMeasured_eq]
    exact expandLoop_extends ih hnested _ _ _ _ _

theorem expandBudget_extends (budget : Nat) (e : MacroExpander) (input : List Token) :
    Extends (expandBudget budget e input) (expandMeasured e input) := by
  induction budget generalizing e input with
  | zero => exact expandInput_extends (fun e input r hr => by cases hr) _ e input
  | succ budget ih => exact expandInput_extends ih _ e input

-- The loops inside a call

theorem boundary_consumed
    (h : tryExpandFunctionLikeAliasBoundary f f' e expanded after = some r) (hr : r.handled = true) :
    0 < r.consumed := by
  unfold tryExpandFunctionLikeAliasBoundary at h
  cases hcallee : boundaryCallee e.table expanded after with
  | none =>
    rw [hcallee] at h
    cases h
    cases hr
  | some found => ?_
  simp only [hcallee] at h
  cases hparse : parseMacroArgumentTokens after.tail found.2 with
  | none =>
    simp only [hparse] at h
    cases h
    cases hr
  | some parsed => ?_
  simp only [hparse] at h
  cases hbuild : buildMacroArgPack found.2 parsed.1 with
  | error counts =>
    simp only [hbuild] at h
    cases h
    cases hr
  | ok pack => ?_
  simp only [hbuild] at h
  obtain ⟨a, -, h⟩ := Option.bind_eq_some_iff.mp h
  split at h
  · split at h
    · obtain ⟨b, -, rfl⟩ := Option.map_eq_some_iff.mp h
      exact Nat.succ_pos _
    · cases h
      cases hr
  · cases h
    cases hr

/-- The loop over further calls stops by itself: each round takes a token. -/
theorem accumulatedBoundaryLoop_rounds (f f' : Expand) (rounds : Nat) (out : List Token)
    (consumed : Nat) (e : MacroExpander) (after : List Token) (h : after.length ≤ rounds) :
    accumulatedBoundaryLoop f f' rounds out consumed e after =
      accumulatedBoundaryLoop f f' (rounds + 1) out consumed e after := by
  induction rounds generalizing out consumed e after with
  | zero =>
    obtain rfl := List.length_eq_zero_iff.mp (Nat.le_zero.mp h)
    rfl
  | succ rounds ih =>
    unfold accumulatedBoundaryLoop
    split
    · cases out.getLast? with
      | none => rfl
      | some last => ?_
      dsimp only
      cases hr : tryExpandFunctionLikeAliasBoundary f f' e [last] after with
      | none => rfl
      | some r => ?_
      simp only [Option.bind_some]
      split
      · rename_i hhandled
        have hpos := boundary_consumed hr hhandled.2
        refine ih _ _ _ _ ?_
        rw [List.length_drop]
        omega
      · rfl
    · rfl

theorem matchingParen_length (h : matchingParen depth tokens = some inside) :
    inside.length < tokens.length := by
  induction tokens generalizing depth inside with
  | nil => cases h
  | cons tok rest ih =>
    unfold matchingParen at h
    split at h
    · cases h
      exact Nat.succ_pos _
    · obtain ⟨inner, hinner, rfl⟩ := Option.map_eq_some_iff.mp h
      exact Nat.succ_lt_succ (ih hinner)

theorem vaOptContents_length (h : vaOptContents d tok rest = some inside) :
    inside.length < rest.length := by
  unfold vaOptContents at h
  split at h
  · split at h
    · split at h
      · exact Nat.lt_succ_of_lt (matchingParen_length (Option.filter_eq_some_iff.mp h).1)
      · cases h
    · cases h
  · cases h

theorem substituteLoop_congr
    (body : List Token) (h : ∀ inside, inside.length < body.length → vaOpt inside = vaOpt' inside)
    (args : Option MacroArgPack) (skip : Nat) (before working : List Token) :
    substituteLoop d callSite vaOpt args skip before working body =
      substituteLoop d callSite vaOpt' args skip before working body := by
  induction body generalizing skip before working with
  | nil => cases skip <;> rfl
  | cons tok rest ih =>
    have ih := ih fun inside hlt => h inside (Nat.lt_succ_of_lt hlt)
    cases skip with
    | succ skip => exact ih _ _ _
    | zero => ?_
    unfold substituteLoop
    simp only [ih]
    cases d.kind with
    | object => rfl
    | function => ?_
    cases args with
    | none => rfl
    | some pack => ?_
    dsimp only
    split
    · rfl
    split
    · split
      · rename_i inside hinside
        rw [h inside (Nat.lt_succ_of_lt (vaOptContents_length hinside))]
      · rfl
    · rfl

/-- The nesting of `__VA_OPT__` never uses up the depth. -/
theorem substituteBody_depth (args : Option MacroArgPack) (depth : Nat) (body : List Token)
    (h : body.length < depth) :
    substituteBody d callSite args depth body = substituteBody d callSite args (depth + 1) body := by
  induction depth generalizing body with
  | zero => exact absurd h (Nat.not_lt_zero _)
  | succ depth ih =>
    unfold substituteBody
    rw [substituteLoop_congr body fun inside hlt => ih inside (by omega)]

/-- The expander returns for every table and input. Cutting off every nested call
that does not bring the measure down changes nothing, and neither do the counts
of the model, of the rounds and of the nesting of `__VA_OPT__`. -/
theorem macroExpanderExpand_terminates (e : MacroExpander) (input : List Token) :
    (∃ ok out e', expandMeasured e input = some (ok, out, e')) ∧
      expandMeasured e input =
        expandLoop expandMeasured expandMeasured 0 [] [] (macroExpanderClearError e) input ∧
      macroExpanderExpand e input = expandMeasured e input ∧
      (∀ rounds out consumed e' after, after.length ≤ rounds →
        accumulatedBoundaryLoop expandMeasured expandMeasured rounds out consumed e' after =
          accumulatedBoundaryLoop expandMeasured expandMeasured (rounds + 1) out consumed e' after) ∧
      ∀ d callSite args depth body, body.length < depth →
        substituteBody d callSite args depth body = substituteBody d callSite args (depth + 1) body := by
  obtain ⟨ok, out, e', h, -⟩ := expandMeasured_returns e input
  obtain ⟨ok', out', e'', h', -⟩ := macroExpanderExpand_returns e input
  refine ⟨⟨ok, out, e', h⟩, expandMeasured_eq e input, ?_, ?_, ?_⟩
  · rw [h', expandBudget_extends _ e input _ h']
  · exact accumulatedBoundaryLoop_rounds expandMeasured expandMeasured
  · exact fun d callSite args => substituteBody_depth args

end Fisics
