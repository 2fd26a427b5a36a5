import Fisics.Lexer.Laws
import Fisics.Preprocessor.GuardLaws

/-!
# Text without directives

A source without `#` has no directives, and the walk over its tokens is one
expansion of all of them: unless the word `pragma` is among them, which the lexer
gives the type of the directive, so that the walk takes it and the rest of its
line away.
-/

namespace Fisics

open List (mem_cons mem_cons_of_mem mem_cons_self)

-- What text should give

/-- The tokens without `_Pragma` operators and the end of the file. -/
def textTokens : (skip : Nat) → List Token → List Token
  | _, [] => []
  | skip + 1, _ :: rest => textTokens skip rest
  | 0, tok :: rest =>
    if tok.type = .eof then textTokens 0 rest
    else
      match ppSkipPragmaOperator (tok :: rest) with
      | some taken => textTokens taken rest
      | none => tok :: textTokens 0 rest

/-- The macro expansion of the tokens, without unknown tokens and `_Pragma`
operators, behind the output. -/
def textResult (pp : Preprocessor) (tokens output : List Token) (appendEOF : Bool) :
    Bool × Preprocessor × List Token :=
  match macroExpanderExpand pp.expander tokens with
  | some (true, expanded, expander) =>
    let pp := pp.withExpander expander
    let written := (dropPragmaOperators 0 expanded).map (ppTokenCloneRemap pp)
    (true, pp, output ++ written ++ if appendEOF then [eofToken] else [])
  | some (false, _, expander) =>
    (false, reportExpandError (pp.withExpander expander) expander.lastError, output)
  | none => (false, pp, output)

def PassesThrough (handler : IncludeHandler) (eval : EvalCondition) (pp : Preprocessor)
    (tokens output : List Token) (appendEOF : Bool) : Prop :=
  preprocessTokens handler eval pp tokens output appendEOF =
    some (textResult (ppEnterBuffer pp tokens) (textTokens 0 tokens) output appendEOF)

-- The walk over text

def IsText (tok : Token) : Prop := isDirectiveType tok.type = false ∧ tok.type ≠ .pragma

theorem activeStep_text (handler : IncludeHandler) (first : Bool) (s : TextState) (rest : List Token)
    (h : IsText tok) :
    activeStep handler first s tok rest =
      some (if tok.type = .eof then .next 0 s else walkText s tok rest) := by
  obtain ⟨hdirective, hpragma⟩ := h
  unfold activeStep
  split <;> simp_all [isDirectiveType]

theorem isText_not_conditional (h : IsText tok) : isConditionalType tok.type = false := by
  obtain ⟨hdirective, -⟩ := h
  unfold isConditionalType
  split <;> simp_all [isDirectiveType]

section
variable {handler : IncludeHandler} {eval : EvalCondition}

theorem walkStep_text (first : Bool) (s : TextState) (rest : List Token) (h : IsText tok) :
    walkStep handler eval first ⟨s, []⟩ tok rest =
      some ((if tok.type = .eof then .next 0 s else walkText s tok rest).map (⟨·, []⟩)) := by
  rw [walkStep_content handler eval first ⟨s, []⟩ rest (isText_not_conditional h)]
  simp only [WalkState.active, conditionalStackIsActive, contentStep, ↓reduceIte,
    activeStep_text handler first s rest h, Option.map_some]

theorem walkLoop_text (tokens : List Token) (h : ∀ tok ∈ tokens, IsText tok) (first : Bool)
    (skip : Nat) (s : TextState) :
    walkLoop handler eval first skip ⟨s, []⟩ tokens =
      some (.ok ⟨{ s with chunk := s.chunk ++ textTokens skip tokens }, []⟩) := by
  induction tokens generalizing first skip s with
  | nil => cases skip <;> simp [walkLoop, textTokens]
  | cons tok rest ih =>
    have hrest := ih fun t ht => h t (mem_cons_of_mem tok ht)
    cases skip with
    | succ skip => exact hrest false skip s
    | zero => ?_
    rw [walkLoop, walkStep_text first s rest (h tok mem_cons_self), textTokens]
    by_cases heof : tok.type = .eof
    · rw [if_pos heof, if_pos heof]
      exact hrest false 0 s
    rw [if_neg heof, if_neg heof, walkText]
    cases hpragma : ppSkipPragmaOperator (tok :: rest) with
    | some taken => exact hrest false taken s
    | none =>
      simp only [Option.bind_some, WalkStep.map]
      rw [hrest false 0, List.append_assoc]
      rfl

theorem walkEnd_text (pp : Preprocessor) (chunk output : List Token) (appendEOF : Bool) :
    walkEnd appendEOF ⟨⟨pp, chunk, output⟩, []⟩ = textResult pp chunk output appendEOF := by
  unfold walkEnd textResult ppFlushChunk
  cases chunk with
  | nil =>
    rw [macroExpanderExpand_inert pp.expander [] (by simp)]
    cases appendEOF <;> simp [dropPragmaOperators] <;> rfl
  | cons tok rest => ?_
  obtain _ | ⟨_ | _, expanded, expander⟩ := macroExpanderExpand pp.expander (tok :: rest)
  · rfl
  · rfl
  · cases appendEOF <;> simp [ppTokenBufferAppendCloneRemapSpan]

theorem text_passesThrough (h : ∀ tok ∈ tokens, IsText tok) (pp : Preprocessor)
    (output : List Token) (appendEOF : Bool) :
    PassesThrough handler eval pp tokens output appendEOF := by
  unfold PassesThrough preprocessTokens
  rw [walkLoop_text tokens h]
  exact congrArg some (walkEnd_text _ _ output appendEOF)

end

-- Where the word `pragma` should go

theorem ppSkipPragmaOperator_types (h : ppSkipPragmaOperator (tok :: rest) = some taken) :
    ∀ t ∈ rest.take taken, t.type = .lparen ∨ t.type = .string ∨ t.type = .rparen := by
  have hclose : ∀ ts : List Token, ∀ t ∈ ts.take (headIs .rparen ts).toNat, t.type = .rparen := by
    intro ts t ht
    cases ts with
    | nil => simp at ht
    | cons a ts => ?_
    cases hhead : headIs .rparen (a :: ts) with
    | false => simp [hhead] at ht
    | true =>
      rw [hhead] at ht
      obtain rfl : t = a := by simpa using ht
      simpa [headIs] using hhead
  rw [ppSkipPragmaOperator] at h
  split at h
  · split at h
    · rename_i hopen
      obtain ⟨a, ts, rfl, ha⟩ := headIs_cons hopen
      dsimp only [List.tail_cons] at h
      cases hstring : headIs .string ts with
      | false =>
        simp only [hstring, Bool.false_eq_true, ↓reduceIte, Bool.toNat_false, Nat.add_zero,
          Option.some.injEq] at h
        subst h
        rw [Nat.add_comm, List.take_succ_cons]
        intro t ht
        obtain rfl | ht := mem_cons.mp ht
        · exact .inl ha
        · exact .inr (.inr (hclose ts t ht))
      | true =>
        obtain ⟨b, ts, rfl, hb⟩ := headIs_cons hstring
        simp only [hstring, ↓reduceIte, Bool.toNat_true, List.tail_cons, Option.some.injEq] at h
        subst h
        rw [show 1 + 1 + (headIs TokenType.rparen ts).toNat =
          (headIs TokenType.rparen ts).toNat + 1 + 1 by omega, List.take_succ_cons,
          List.take_succ_cons]
        intro t ht
        obtain rfl | ht := mem_cons.mp ht
        · exact .inl ha
        · obtain rfl | ht := mem_cons.mp ht
          · exact .inr (.inl hb)
          · exact .inr (.inr (hclose ts t ht))
    · cases h
      simp
  · cases h

/-- A `_Pragma` operator takes no word away. -/
theorem pragma_behind (h : ppSkipPragmaOperator (tok :: rest) = some taken) (ht : t ∈ rest)
    (htype : t.type = .pragma) : t ∈ rest.drop taken := by
  rw [← List.take_append_drop taken rest] at ht
  obtain ht | ht := List.mem_append.mp ht
  · have := ppSkipPragmaOperator_types h t ht
    simp [htype] at this
  · exact ht

theorem pragma_not_operator (htype : tok.type = .pragma) (rest : List Token) :
    ppSkipPragmaOperator (tok :: rest) = none := by
  simp [ppSkipPragmaOperator, htype]

theorem mem_textTokens (tokens : List Token) (skip : Nat) (ht : t ∈ tokens.drop skip)
    (htype : t.type = .pragma) : t ∈ textTokens skip tokens := by
  induction tokens generalizing skip with
  | nil => simp at ht
  | cons tok rest ih =>
    cases skip with
    | succ skip => exact ih skip ht
    | zero => ?_
    rw [textTokens]
    obtain rfl | ht := mem_cons.mp ht
    · simp [htype, pragma_not_operator htype rest]
    · split
      · exact ih 0 ht
      · split
        · rename_i taken hskip
          exact ih taken (pragma_behind hskip ht htype)
        · exact mem_cons_of_mem tok (ih 0 ht)

theorem mem_dropPragmaOperators (tokens : List Token) (skip : Nat) (ht : t ∈ tokens.drop skip)
    (htype : t.type = .pragma) : t ∈ dropPragmaOperators skip tokens := by
  induction tokens generalizing skip with
  | nil => simp at ht
  | cons tok rest ih =>
    cases skip with
    | succ skip => exact ih skip ht
    | zero => ?_
    rw [dropPragmaOperators]
    obtain rfl | ht := mem_cons.mp ht
    · simp [htype, pragma_not_operator htype rest]
    · split
      · rename_i taken hskip
        exact ih taken (pragma_behind hskip ht htype)
      · split
        · exact ih 0 ht
        · exact mem_cons_of_mem tok (ih 0 ht)

-- Expansion without macros

/-- A token and what it becomes where there are no macros: itself, or the literal
of a builtin. -/
structure Unchanged (tok written : Token) : Prop where
  same : tok.type ≠ .identifier → written = tok
  type : written.type = tok.type ∨ written.type = .string ∨ written.type = .number

theorem handleBuiltinIdentifier_literal (h : handleBuiltinIdentifier e tok = some (literal, e')) :
    e'.table = e.table ∧ tok.type = .identifier ∧ (literal.type = .string ∨ literal.type = .number) := by
  unfold handleBuiltinIdentifier at h
  split at h
  · cases h
  rename_i hid
  have hid : tok.type = .identifier := by simpa using hid
  repeat' split at h
  all_goals cases h
  all_goals first
    | exact ⟨rfl, hid, .inl rfl⟩
    | exact ⟨rfl, hid, .inr rfl⟩

theorem expandToken_noMacros (argument nested : Expand) (before out : List Token) (tok : Token)
    (rest : List Token) (h : e.table.macros = []) :
    ∃ written e', expandToken argument nested before out e tok rest =
        some (true, out ++ [written], 0, e') ∧ e'.table = e.table ∧ Unchanged tok written := by
  have hlookup : tok.value.bind (macroTableLookup e.table) = none := by
    cases tok.value with
    | none => rfl
    | some name => simp [macroTableLookup, h]
  unfold expandToken
  split
  · exact ⟨tok, e, rfl, rfl, fun _ => rfl, .inl rfl⟩
  cases hbuiltin : handleBuiltinIdentifier e tok with
  | some r =>
    obtain ⟨literal, e'⟩ := r
    obtain ⟨htable, hid, htype⟩ := handleBuiltinIdentifier_literal hbuiltin
    exact ⟨literal, e', rfl, htable, fun hne => absurd hid hne, .inr htype⟩
  | none =>
    refine ⟨tok, e, ?_, rfl, fun _ => rfl, .inl rfl⟩
    simp only [hlookup]
    split <;> rfl

theorem expandLoop_noMacros (argument nested : Expand) (before out input : List Token)
    (h : e.table.macros = []) :
    ∃ written e', expandLoop argument nested 0 before out e input = some (true, out ++ written, e') ∧
      e'.table = e.table ∧ List.Forall₂ Unchanged input written := by
  induction input generalizing before out e with
  | nil => exact ⟨[], e, by simp [expandLoop], rfl, .nil⟩
  | cons tok rest ih =>
    obtain ⟨t, e₁, hstep, htable₁, ht⟩ := expandToken_noMacros argument nested before out tok rest h
    obtain ⟨written, e', hrest, htable', hwritten⟩ := ih (tok :: before) (out ++ [t])
      (by rw [htable₁]; exact h)
    refine ⟨t :: written, e', ?_, htable'.trans htable₁, .cons ht hwritten⟩
    rw [expandLoop, hstep]
    simp only [Option.bind_some, ↓reduceIte, hrest, List.append_assoc, List.singleton_append]

theorem macroExpanderExpand_noMacros (input : List Token) (h : e.table.macros = []) :
    ∃ written e', macroExpanderExpand e input = some (true, written, e') ∧ e'.table = e.table ∧
      List.Forall₂ Unchanged input written := by
  unfold macroExpanderExpand
  rw [h]
  obtain ⟨written, e', hloop, htable, hwritten⟩ :=
    expandLoop_noMacros (e := macroExpanderClearError e)
      (expandInput (fun _ _ => none) input.length) (fun _ _ => none) [] [] input h
  exact ⟨written, e', hloop, htable, hwritten⟩

theorem unchanged_mem (h : List.Forall₂ Unchanged input written) (ht : t ∈ input)
    (htype : t.type ≠ .identifier) : t ∈ written := by
  induction h with
  | nil => cases ht
  | cons hhead _ ih =>
    obtain rfl | ht := mem_cons.mp ht
    · rw [hhead.same htype]
      exact mem_cons_self
    · exact mem_cons_of_mem _ (ih ht)

theorem unchanged_noPragma (h : List.Forall₂ Unchanged input written)
    (hinput : ∀ t ∈ input, t.type ≠ .pragma) : ∀ t ∈ written, t.type ≠ .pragma := by
  induction h with
  | nil => simp
  | cons hhead _ ih =>
    intro t ht
    obtain rfl | ht := mem_cons.mp ht
    · obtain hsame | hsame | hsame := hhead.type <;> rw [hsame]
      · exact hinput _ mem_cons_self
      · decide
      · decide
    · exact ih (fun u hu => hinput u (mem_cons_of_mem _ hu)) t ht

theorem ppTokenCloneRemap_type (pp : Preprocessor) (tok : Token) :
    (ppTokenCloneRemap pp tok).type = tok.type := by
  unfold ppTokenCloneRemap
  split <;> rfl

theorem dropPragmaOperators_mem (tokens : List Token) (skip : Nat)
    (h : t ∈ dropPragmaOperators skip tokens) : t ∈ tokens := by
  induction tokens generalizing skip with
  | nil => cases skip <;> cases h
  | cons tok rest ih =>
    cases skip with
    | succ skip => exact mem_cons_of_mem tok (ih skip h)
    | zero => ?_
    rw [dropPragmaOperators] at h
    split at h
    · exact mem_cons_of_mem tok (ih _ h)
    split at h
    · exact mem_cons_of_mem tok (ih 0 h)
    obtain rfl | h := mem_cons.mp h
    · exact mem_cons_self
    · exact mem_cons_of_mem tok (ih 0 h)

-- The walk takes the word `pragma` away

/-- Without macros, no token of this type gets into the output. -/
structure NoPragma (s : TextState) : Prop where
  macros : s.pp.table.macros = []
  preserve : s.pp.preserveDirectives = false
  chunk : ∀ t ∈ s.chunk, t.type ≠ .pragma
  output : ∀ t ∈ s.output, t.type ≠ .pragma

theorem ppFlushChunk_noPragma (h : NoPragma s) :
    ∃ output pp, ppFlushChunk s.pp s.chunk s.output = (true, output, pp) ∧ NoPragma ⟨pp, [], output⟩ := by
  unfold ppFlushChunk
  split
  · exact ⟨s.output, s.pp, rfl, h.macros, h.preserve, by simp, h.output⟩
  obtain ⟨written, e', hexpand, htable, hwritten⟩ :=
    macroExpanderExpand_noMacros (e := s.pp.expander) s.chunk h.macros
  rw [hexpand]
  refine ⟨_, _, rfl, ?_, h.preserve, by simp, ?_⟩
  · exact (congrArg MacroTable.macros htable).trans h.macros
  · intro t ht
    obtain ht | ht := List.mem_append.mp ht
    · exact h.output t ht
    · obtain ⟨u, hu, rfl⟩ := List.mem_map.mp ht
      rw [ppTokenCloneRemap_type]
      exact unchanged_noPragma hwritten h.chunk u (dropPragmaOperators_mem _ 0 hu)

theorem walkStep_noPragma (handler : IncludeHandler) (eval : EvalCondition) (first : Bool)
    (rest : List Token) (h : NoPragma s) (htok : isDirectiveType tok.type = false) :
    ∃ taken s', walkStep handler eval first ⟨s, []⟩ tok rest = some (.next taken ⟨s', []⟩) ∧
      NoPragma s' := by
  by_cases hpragma : tok.type = .pragma
  · obtain ⟨output, pp, hflush, hpp⟩ := ppFlushChunk_noPragma h
    have hconfig := processPragma_config pp tok rest
    have hpreserve : pp.preserveDirectives = false := hpp.preserve
    refine ⟨(directiveLine tok rest).length, ⟨(processPragma pp tok rest).pp, [], output⟩, ?_, ?_⟩
    · simp [walkStep, hpragma, contentStep, activeStep, WalkState.active, conditionalStackIsActive,
        flushThen, hflush, preserveLine, hpreserve, finishDirective, processPragma, WalkStep.map]
    · refine ⟨?_, hconfig.preserve.trans hpreserve, by simp, hpp.output⟩
      rw [processPragma_table]
      exact hpp.macros
  · rw [walkStep_text first s rest ⟨htok, hpragma⟩]
    split
    · exact ⟨0, s, rfl, h⟩
    unfold walkText
    split
    · exact ⟨_, s, rfl, h⟩
    refine ⟨0, { s with chunk := s.chunk ++ [tok] }, rfl, h.macros, h.preserve, ?_, h.output⟩
    intro t ht
    obtain ht | ht := List.mem_append.mp ht
    · exact h.chunk t ht
    · rw [List.mem_singleton.mp ht]
      exact hpragma

theorem walkLoop_noPragma (handler : IncludeHandler) (eval : EvalCondition) (tokens : List Token)
    (htokens : ∀ tok ∈ tokens, isDirectiveType tok.type = false) (first : Bool) (skip : Nat)
    (h : NoPragma s) :
    ∃ s', walkLoop handler eval first skip ⟨s, []⟩ tokens = some (.ok ⟨s', []⟩) ∧ NoPragma s' := by
  induction tokens generalizing first skip s with
  | nil => exact ⟨s, by cases skip <;> rfl, h⟩
  | cons tok rest ih =>
    have hrest := fun t ht => htokens t (mem_cons_of_mem tok ht)
    cases skip with
    | succ skip => exact ih hrest false skip h
    | zero => ?_
    obtain ⟨taken, s₁, hstep, h₁⟩ := walkStep_noPragma handler eval first rest h
      (htokens tok mem_cons_self)
    obtain ⟨s', hloop, h'⟩ := ih hrest false taken h₁
    refine ⟨s', ?_, h'⟩
    rw [walkLoop, hstep]
    exact hloop

theorem preprocessTokens_noPragma (handler : IncludeHandler) (eval : EvalCondition)
    (pp : Preprocessor) (htokens : ∀ tok ∈ tokens, isDirectiveType tok.type = false)
    (hmacros : pp.table.macros = []) (hpreserve : pp.preserveDirectives = false) :
    ∃ pp' output, preprocessTokens handler eval pp tokens [] false = some (true, pp', output) ∧
      ∀ t ∈ output, t.type ≠ .pragma := by
  have hstart : NoPragma ⟨ppEnterBuffer pp tokens, [], []⟩ :=
    ⟨by rw [ppEnterBuffer_table]; exact hmacros,
      (ppEnterBuffer_config pp tokens).preserve.trans hpreserve, by simp, by simp⟩
  obtain ⟨s', hloop, h'⟩ := walkLoop_noPragma handler eval tokens htokens true 0 hstart
  obtain ⟨output, pp', hflush, hend⟩ := ppFlushChunk_noPragma h'
  refine ⟨pp', output, ?_, hend.output⟩
  unfold preprocessTokens
  rw [hloop]
  simp [walkEnd, hflush]

theorem textResult_pragma (pp : Preprocessor) (hmacros : pp.table.macros = []) (ht : t ∈ tokens)
    (htype : t.type = .pragma) :
    ∃ u ∈ (textResult pp (textTokens 0 tokens) [] false).2.2, u.type = .pragma := by
  obtain ⟨written, e', hexpand, -, hwritten⟩ :=
    macroExpanderExpand_noMacros (e := pp.expander) (textTokens 0 tokens) hmacros
  have hmem := unchanged_mem hwritten (mem_textTokens tokens 0 ht htype) (by simp [htype])
  refine ⟨ppTokenCloneRemap (pp.withExpander e') t, ?_, ?_⟩
  · simp only [textResult, hexpand, List.nil_append]
    exact List.mem_append_left _ (List.mem_map_of_mem (mem_dropPragmaOperators written 0 hmem htype))
  · rw [ppTokenCloneRemap_type, htype]

-- Sources without a hash

/-- A source without `#` passes through, from every state, exactly when it has no
word `pragma`. -/
theorem text_passesThrough_iff (source : List Char) (filePath : Option String)
    (enableTrigraphs : Bool) (hsource : NoHash source) :
    (∀ handler eval pp output appendEOF,
      PassesThrough handler eval pp (lexSource source filePath enableTrigraphs).1 output appendEOF) ↔
      ∀ tok ∈ (lexSource source filePath enableTrigraphs).1, tok.type ≠ .pragma := by
  have htext := lexSource_text source filePath enableTrigraphs hsource
  generalize (lexSource source filePath enableTrigraphs).1 = tokens at htext ⊢
  constructor
  · intro h tok htok htype
    have hpasses := h (fun _ _ _ _ _ => none) (fun _ _ => none)
      (preprocessorInit false false false .internal) [] false
    obtain ⟨pp', output, hresult, hnone⟩ := preprocessTokens_noPragma
      (fun _ _ _ _ _ => none) (fun _ _ => none) (preprocessorInit false false false .internal) htext
      rfl rfl
    obtain ⟨u, hu, hutype⟩ := textResult_pragma
      (ppEnterBuffer (preprocessorInit false false false .internal) tokens)
      (by rw [ppEnterBuffer_table]; rfl) htok htype
    unfold PassesThrough at hpasses
    rw [hresult, Option.some.injEq] at hpasses
    rw [← hpasses] at hu
    exact hnone u hu hutype
  · intro h handler eval pp output appendEOF
    exact text_passesThrough (fun tok htok => ⟨htext tok htok, h tok htok⟩) pp output appendEOF

/-- `int pragma;` -/
def pragmaSource : List Char := ['i', 'n', 't', ' ', 'p', 'r', 'a', 'g', 'm', 'a', ';']

theorem pragmaSource_noHash : NoHash pragmaSource where
  hash := by decide
  digraph := by decide
  trigraph := by decide

theorem text_passesThrough_iff_pragmaSource :
    NoHash pragmaSource ∧
      ((∀ handler eval pp output appendEOF,
        PassesThrough handler eval pp (lexSource pragmaSource (some "a.c") false).1 output appendEOF) ↔
        ∀ tok ∈ (lexSource pragmaSource (some "a.c") false).1, tok.type ≠ .pragma) :=
  ⟨pragmaSource_noHash, text_passesThrough_iff pragmaSource (some "a.c") false pragmaSource_noHash⟩

theorem pragmaSource_output :
    (preprocessTokens (processInclude noFiles 1) (evalCondition noFiles)
      (preprocessorInit false false false .internal) (lexSource pragmaSource (some "a.c") false).1
      [] false).map (fun r => r.2.2.map tokenText) = some ["int"] := by
  decide

theorem pragmaSource_textResult :
    (textResult (ppEnterBuffer (preprocessorInit false false false .internal)
        (lexSource pragmaSource (some "a.c") false).1)
      (textTokens 0 (lexSource pragmaSource (some "a.c") false).1) [] false).2.2.map tokenText =
      ["int", "pragma", ";"] := by
  decide

/-- The walk writes `int` only: the word `pragma` is gone, and the semicolon behind
it. -/
theorem pragmaSource_not_passesThrough :
    NoHash pragmaSource ∧
      ¬PassesThrough (processInclude noFiles 1) (evalCondition noFiles)
        (preprocessorInit false false false .internal) (lexSource pragmaSource (some "a.c") false).1
        [] false := by
  refine ⟨pragmaSource_noHash, fun h => ?_⟩
  have houtput := pragmaSource_output
  rw [h, Option.map_some, pragmaSource_textResult] at houtput
  exact absurd houtput (by decide)

end Fisics
