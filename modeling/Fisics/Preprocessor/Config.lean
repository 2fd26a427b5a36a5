import Fisics.Preprocessor.ProcessInclude

/-!
# The configuration

The switches set by `preprocessor_init` are never changed: not by an expansion,
a report, a directive, a condition, a replay or an included file. The serial of
the macro table never falls, and the definitions change only with it. The include
stack is back at every return. One lemma for each operation, and at the end the
include handler itself, by induction on the nesting.
-/

namespace Fisics

open Option (bind_eq_some_iff map_eq_some_iff)

structure SameConfig (pp pp' : Preprocessor) : Prop where
  preserve : pp'.preserveDirectives = pp.preserveDirectives
  lenient : pp'.lenientMissingIncludes = pp.lenientMissingIncludes
  trigraphs : pp'.enableTrigraphs = pp.enableTrigraphs
  mode : pp'.preprocessMode = pp.preprocessMode
  frames : pp'.includeStack = pp.includeStack
  serial : pp.table.mutationSerial ≤ pp'.table.mutationSerial
  macros : pp'.table.mutationSerial = pp.table.mutationSerial →
    pp'.table.macros = pp.table.macros

theorem SameConfig.of_eq (h : (pp'.preserveDirectives, pp'.lenientMissingIncludes, pp'.enableTrigraphs,
    pp'.preprocessMode, pp'.includeStack, pp'.table) = (pp.preserveDirectives,
    pp.lenientMissingIncludes, pp.enableTrigraphs, pp.preprocessMode, pp.includeStack, pp.table)) :
    SameConfig pp pp' := by
  simp only [Prod.mk.injEq] at h
  obtain ⟨hp, hl, ht, hm, hf, htable⟩ := h
  exact ⟨hp, hl, ht, hm, hf, htable ▸ Nat.le_refl _, fun _ => htable ▸ rfl⟩

theorem SameConfig.refl (pp : Preprocessor) : SameConfig pp pp := .of_eq rfl

theorem SameConfig.trans (h : SameConfig pp pp') (h' : SameConfig pp' pp'') : SameConfig pp pp'' where
  preserve := h'.preserve.trans h.preserve
  lenient := h'.lenient.trans h.lenient
  trigraphs := h'.trigraphs.trans h.trigraphs
  mode := h'.mode.trans h.mode
  frames := h'.frames.trans h.frames
  serial := Nat.le_trans h.serial h'.serial
  macros heq := by
    have hmiddle : pp'.table.mutationSerial = pp.table.mutationSerial :=
      Nat.le_antisymm (heq ▸ h'.serial) h.serial
    rw [h'.macros (heq.trans hmiddle.symm), h.macros hmiddle]

-- State operations

theorem withExpander_config (htable : e.table = pp.table)
    (h : macroExpanderExpand e input = some (ok, out, e')) : SameConfig pp (pp.withExpander e') := by
  obtain ⟨_, _, _, heq, hframe⟩ := macroExpanderExpand_returns e input
  rw [h] at heq
  cases heq
  refine ⟨rfl, rfl, rfl, rfl, rfl, ?_, fun _ => ?_⟩
  · rw [← htable]
    exact Nat.le_of_eq hframe.serial.symm
  · rw [← htable]
    exact hframe.macros

theorem ppReportDiag_config (pp : Preprocessor) (tok : Option Token) (kind : DiagKind)
    (message : String) : SameConfig pp (ppReportDiag pp tok kind message) := .of_eq rfl

theorem ppEnterBuffer_config (pp : Preprocessor) (input : List Token) :
    SameConfig pp (ppEnterBuffer pp input) := by
  unfold ppEnterBuffer
  split
  · exact .refl pp
  unfold ppSetBaseFile ppSetLogicalFile
  dsimp only
  repeat' split
  all_goals exact .of_eq rfl

theorem load_config (host : Host) (pp : Preprocessor) (request : IncludeRequest) :
    SameConfig pp (pp.load host request).2 := .of_eq rfl

theorem reportExpandError_config (pp : Preprocessor) (info : MacroExpandErrorInfo) :
    SameConfig pp (reportExpandError pp info) := by
  unfold reportExpandError
  split
  · exact .of_eq rfl
  split
  · exact .of_eq rfl
  · exact ppReportDiag_config _ _ _ _

theorem ppFlushChunk_config (h : ppFlushChunk pp chunk output = (ok, output', pp')) :
    SameConfig pp pp' := by
  unfold ppFlushChunk at h
  split at h
  · cases h; exact .refl pp
  split at h
  · rename_i hexpand
    cases h
    exact withExpander_config rfl hexpand
  · rename_i hexpand
    cases h
    exact (withExpander_config rfl hexpand).trans (reportExpandError_config _ _)
  · cases h; exact .refl pp

-- Conditions

theorem appendExprToken_config (pp : Preprocessor) (out : List Token) (tok : Token) :
    SameConfig pp (appendExprToken pp out tok).2 := by
  unfold appendExprToken
  repeat' split
  all_goals exact .of_eq rfl

theorem appendExprTokens_config (pp : Preprocessor) (out tokens : List Token) :
    SameConfig pp (appendExprTokens pp out tokens).2 := by
  induction tokens generalizing pp out with
  | nil => exact .refl pp
  | cons tok tokens ih =>
    exact (appendExprToken_config pp out tok).trans (ih _ _)

theorem prepareHasInclude_config (h : prepareHasInclude host pp out tok rest = .moved n out' pp') :
    SameConfig pp pp' := by
  unfold prepareHasInclude at h
  split at h
  cases h
  split
  · split
    · exact .refl pp
    · exact load_config _ _ _
  · exact .refl pp

theorem prepareSpan_config (h : prepareSpan pp out tokens = .moved n out' pp') : SameConfig pp pp' := by
  unfold prepareSpan at h
  dsimp only at h
  split at h
  · cases h; exact .refl pp
  split at h
  · rename_i hexpand
    cases h
    exact (withExpander_config rfl hexpand).trans (appendExprTokens_config _ _ _)
  all_goals cases h

theorem prepareSpan_failed_config (h : prepareSpan pp out tokens = .failed pp') : SameConfig pp pp' := by
  unfold prepareSpan at h
  dsimp only at h
  split at h
  · cases h
  split at h
  · cases h
  · rename_i hexpand
    cases h
    exact withExpander_config rfl hexpand
  · cases h; exact .refl pp

theorem prepareStep_config (h : prepareStep host pp out tok rest = .moved n out' pp') :
    SameConfig pp pp' := by
  unfold prepareStep at h
  split at h
  · exact prepareHasInclude_config h
  split at h
  · cases h; exact .refl pp
  split at h
  · unfold prepareDefined at h
    simp only [PrepareStep.moved.injEq] at h
    obtain ⟨-, -, rfl⟩ := h
    exact appendExprTokens_config _ _ _
  · exact prepareSpan_config h

theorem prepareStep_failed_config (h : prepareStep host pp out tok rest = .failed pp') :
    SameConfig pp pp' := by
  unfold prepareStep at h
  iterate 3
    split at h
    · cases h
  · exact prepareSpan_failed_config h

theorem prepareLoop_config (h : prepareLoop host rounds out pp tokens = some (ok, out', pp')) :
    SameConfig pp pp' := by
  induction rounds generalizing out pp tokens with
  | zero =>
    cases tokens with
    | nil => cases h; exact .refl _
    | cons tok rest => cases h
  | succ rounds ih =>
    cases tokens with
    | nil => cases h; exact .refl _
    | cons tok rest => ?_
    rw [prepareLoop] at h
    split at h
    · rename_i hstep
      exact (prepareStep_config hstep).trans (ih h)
    rename_i hstep
    cases h
    exact prepareStep_failed_config hstep

def EvalKeepsConfig (eval : EvalCondition) : Prop :=
  ∀ pp line condition pp', eval pp line = some (condition, pp') → SameConfig pp pp'

theorem evalCondition_config (host : Host) : EvalKeepsConfig (evalCondition host) := by
  intro pp line condition pp' h
  unfold evalCondition at h
  split at h
  · cases h
  · rename_i hprep
    cases h
    exact prepareLoop_config hprep
  rename_i hprep
  have hconfig := prepareLoop_config hprep
  split at h
  · cases h; exact hconfig
  · cases h; exact hconfig
  · cases h

theorem evalDirective_config (heval : EvalKeepsConfig eval)
    (h : evalDirective eval pp tok line message = some (condition, pp')) : SameConfig pp pp' := by
  obtain ⟨⟨c, pp₁⟩, hc, heq⟩ := map_eq_some_iff.mp h
  have hconfig := heval _ _ _ _ hc
  dsimp only at heq
  split at heq
  · cases heq; exact hconfig
  · cases heq; exact hconfig
  · cases heq; exact hconfig.trans (ppReportDiag_config _ _ _ _)

theorem processIf_config (heval : EvalKeepsConfig eval)
    (h : processIf eval pp stack tok rest = some r) : SameConfig pp r.pp := by
  unfold processIf at h
  split at h
  · obtain ⟨⟨c, pp₁⟩, hc, heq⟩ := map_eq_some_iff.mp h
    have hconfig := evalDirective_config heval hc
    dsimp only at heq
    split at heq
    all_goals cases heq; exact hconfig
  · cases h; exact .refl pp

theorem processElif_config (heval : EvalKeepsConfig eval)
    (h : processElif eval pp stack tok rest = some r) : SameConfig pp r.pp := by
  unfold processElif at h
  iterate 2
    split at h
    · cases h; exact ppReportDiag_config _ _ _ _
  split at h
  · obtain ⟨⟨c, pp₁⟩, hc, heq⟩ := map_eq_some_iff.mp h
    have hconfig := evalDirective_config heval hc
    dsimp only at heq
    split at heq
    all_goals cases heq; exact hconfig
  · cases h; exact .refl pp

theorem processIfdeflike_config (pp : Preprocessor) (stack : List PPConditionalFrame) (tok : Token)
    (rest : List Token) (negate : Bool) :
    SameConfig pp (processIfdeflike pp stack tok rest negate).pp := by
  unfold processIfdeflike
  dsimp only
  split
  · exact ppReportDiag_config _ _ _ _
  split
  · split
    · exact .refl pp
    · exact ppReportDiag_config _ _ _ _
  · exact ppReportDiag_config _ _ _ _

theorem processElse_config (h : processElse pp stack tok = (ok, pp', stack')) : SameConfig pp pp' := by
  unfold processElse at h
  iterate 2
    split at h
    · cases h; exact ppReportDiag_config _ _ _ _
  · cases h; exact .refl pp

theorem processEndif_config (h : processEndif pp stack tok = (ok, pp', stack')) : SameConfig pp pp' := by
  unfold processEndif at h
  split at h
  · cases h; exact ppReportDiag_config _ _ _ _
  · cases h; exact .refl pp

-- Directives

theorem recordMacro_serial (pp : Preprocessor) (tok nameTok : Token)
    (params : Option MacroParamList) (body : List Token) :
    (recordMacro pp tok nameTok params body).table.mutationSerial = pp.table.mutationSerial + 1 := by
  cases params <;> rfl

theorem recordMacro_config (pp : Preprocessor) (tok nameTok : Token)
    (params : Option MacroParamList) (body : List Token) :
    SameConfig pp (recordMacro pp tok nameTok params body) :=
  ⟨rfl, rfl, rfl, rfl, rfl, by rw [recordMacro_serial]; exact Nat.le_succ _, fun h => by
    rw [recordMacro_serial] at h
    exact absurd h (Nat.succ_ne_self _)⟩

theorem macroTableUndef_serial (table : MacroTable) (name : String) :
    table.mutationSerial ≤ (macroTableUndef table name).1.mutationSerial ∧
      ((macroTableUndef table name).1.mutationSerial = table.mutationSerial →
        (macroTableUndef table name).1.macros = table.macros) := by
  unfold macroTableUndef
  split
  · exact ⟨Nat.le_succ _, fun h => absurd h (Nat.succ_ne_self _)⟩
  · exact ⟨Nat.le_refl _, fun _ => rfl⟩

theorem processDefine_config (h : processDefine first pp tok rest = (ok, pp', taken)) :
    SameConfig pp pp' := by
  unfold processDefine at h
  split at h
  · cases h; exact ppReportDiag_config _ _ _ _
  split at h
  · split at h
    · split at h
      · cases h; exact ppReportDiag_config _ _ _ _
      · cases h; exact recordMacro_config _ _ _ _ _
    · cases h; exact recordMacro_config _ _ _ _ _
  · cases h; exact ppReportDiag_config _ _ _ _

section
variable (pp : Preprocessor) (tok : Token) (rest : List Token)

theorem processUndef_config :
    SameConfig pp (processUndef pp tok rest).pp := by
  unfold processUndef
  split
  · exact ppReportDiag_config _ _ _ _
  split
  · split
    all_goals exact ⟨rfl, rfl, rfl, rfl, rfl, (macroTableUndef_serial _ _).1, (macroTableUndef_serial _ _).2⟩
  · exact ppReportDiag_config _ _ _ _

theorem processPragma_config :
    SameConfig pp (processPragma pp tok rest).pp := by
  unfold processPragma
  repeat' split
  all_goals exact .of_eq rfl

theorem processLineDirective_config :
    SameConfig pp (processLineDirective pp tok rest).pp := by
  unfold processLineDirective ppSetLogicalFile
  dsimp only
  split
  · rename_i hexpand
    have hconfig := withExpander_config rfl hexpand
    repeat' split
    all_goals exact ⟨rfl, rfl, rfl, rfl, rfl, hconfig.serial, hconfig.macros⟩
  · rename_i hexpand
    exact (withExpander_config rfl hexpand).trans (ppReportDiag_config _ _ _ _)
  · exact ppReportDiag_config _ _ _ _

end

-- The walk

def HandlerKeepsConfig (handler : IncludeHandler) : Prop :=
  ∀ pp tok rest output isNext ok pp' output',
    handler pp tok rest output isNext = some (ok, pp', output') → SameConfig pp pp'

/-- The state that a round leaves has the configuration of `pp`. -/
def StepKeepsConfig (pp : Preprocessor) (get : σ → Preprocessor) : WalkStep σ → Prop
  | .next _ s => SameConfig pp (get s)
  | .stop s => SameConfig pp s.pp

theorem flushThen_config {get : σ → Preprocessor} (h : flushThen s k = some r)
    (hk : ∀ t r, SameConfig s.pp t.pp → k t = some r → StepKeepsConfig s.pp get r) :
    StepKeepsConfig s.pp get r := by
  unfold flushThen at h
  generalize hflush : ppFlushChunk s.pp s.chunk s.output = f at h
  obtain ⟨ok, output, pp⟩ := f
  have hconfig := ppFlushChunk_config hflush
  dsimp only at h
  split at h
  · exact hk _ _ hconfig h
  · cases h; exact hconfig

theorem preserveLine_config (s : TextState) (tok : Token) (rest : List Token) :
    (preserveLine s tok rest).pp = s.pp := by
  unfold preserveLine
  split <;> rfl

theorem skipToLineEnd_config (get : σ → Preprocessor) (hs : SameConfig pp (get s))
    (h : skipToLineEnd s tok rest = some r) : StepKeepsConfig pp get r := by
  cases h; exact hs

theorem finishDirective_config (hd : SameConfig pp d.pp)
    (h : finishDirective s d = some r) : StepKeepsConfig pp TextState.pp r := by
  cases h
  split <;> exact hd

section
variable {handler : IncludeHandler} {eval : EvalCondition}
  (hhandler : HandlerKeepsConfig handler) (heval : EvalKeepsConfig eval)

theorem walkDefine_config (h : walkDefine first s tok rest = some r) :
    StepKeepsConfig s.pp TextState.pp r := by
  refine flushThen_config h fun t r ht hk => ?_
  dsimp only at hk
  generalize hdef : processDefine first (preserveLine t tok rest).pp tok rest = d at hk
  obtain ⟨ok, pp, taken⟩ := d
  rw [preserveLine_config] at hdef
  have hconfig := ht.trans (processDefine_config hdef)
  split at hk
  · obtain ⟨n, -, rfl⟩ := map_eq_some_iff.mp hk
    exact hconfig
  · cases hk; exact hconfig

include hhandler in
theorem walkInclude_config (h : walkInclude handler s tok rest = some r) :
    StepKeepsConfig s.pp TextState.pp r := by
  refine flushThen_config h fun t r ht hk => ?_
  obtain ⟨⟨ok, pp, output⟩, hh, rfl⟩ := map_eq_some_iff.mp hk
  have hconfig := hhandler _ _ _ _ _ _ _ _ hh
  rw [preserveLine_config] at hconfig
  dsimp only
  split <;> exact ht.trans hconfig

theorem walkOther_config (h : walkOther s tok rest = some r) : StepKeepsConfig s.pp TextState.pp r := by
  unfold walkOther at h
  split at h
  · refine flushThen_config h fun t r ht hk => ?_
    exact finishDirective_config (ht.trans (processLineDirective_config _ _ _)) hk
  split at h
  · exact skipToLineEnd_config TextState.pp (s := ⟨reportDiagnostic s.pp tok _, s.chunk, s.output⟩)
      (ppReportDiag_config _ _ _ _) h
  · cases h; exact ppReportDiag_config _ _ _ _

theorem walkText_config (s : TextState) (tok : Token) (rest : List Token) :
    StepKeepsConfig s.pp TextState.pp (walkText s tok rest) := by
  unfold walkText
  split <;> exact .refl s.pp

include hhandler in
theorem contentStep_config (h : contentStep handler first active s tok rest = some r) :
    StepKeepsConfig s.pp TextState.pp r := by
  unfold contentStep at h
  split at h
  · unfold activeStep at h
    split at h
    · exact walkDefine_config h
    · exact walkInclude_config hhandler h
    · exact walkInclude_config hhandler h
    · refine flushThen_config h fun t r ht hk => ?_
      exact finishDirective_config (ht.trans (processUndef_config _ _ _)) hk
    · refine flushThen_config h fun t r ht hk => ?_
      refine finishDirective_config ?_ hk
      rw [preserveLine_config]
      exact ht.trans (processPragma_config _ _ _)
    · exact walkOther_config h
    · cases h; exact .refl s.pp
    · cases h; exact walkText_config s tok rest
  · unfold inactiveStep at h
    split at h
    · exact skipToLineEnd_config TextState.pp (.refl s.pp) h
    · cases h; exact .refl s.pp

theorem finishConditional_config (hr : SameConfig pp r.pp) :
    StepKeepsConfig pp (fun s : WalkState => s.pp) (finishConditional s r) := by
  unfold finishConditional
  split <;> exact hr

theorem walkElse_config (h : walkElse s tok rest = some r) :
    StepKeepsConfig s.pp (fun s : WalkState => s.pp) r := by
  refine flushThen_config h fun t r ht hk => ?_
  split at hk
  · cases hk; exact ht.trans (ppReportDiag_config _ _ _ _)
  generalize helse : processElse t.pp s.stack tok = e at hk
  obtain ⟨ok, pp, stack⟩ := e
  have hconfig := ht.trans (processElse_config helse)
  dsimp only at hk
  split at hk
  · exact skipToLineEnd_config (fun s : WalkState => s.pp) hconfig hk
  · cases hk; exact hconfig

theorem walkEndif_config (h : walkEndif s tok rest = some r) :
    StepKeepsConfig s.pp (fun s : WalkState => s.pp) r := by
  refine flushThen_config h fun t r ht hk => ?_
  split at hk
  · cases hk; exact ht.trans (ppReportDiag_config _ _ _ _)
  have hpreserve : (if s.active then preserveLine t tok rest else t).pp = t.pp := by
    split
    · exact preserveLine_config t tok rest
    · rfl
  dsimp only at hk
  rw [hpreserve] at hk
  generalize hendif : processEndif t.pp s.stack tok = e at hk
  obtain ⟨ok, pp, stack⟩ := e
  have hconfig := ht.trans (processEndif_config hendif)
  split at hk
  · exact skipToLineEnd_config (fun s : WalkState => s.pp) hconfig hk
  · cases hk; exact hconfig

include hhandler heval in
theorem walkStep_config (h : walkStep handler eval first s tok rest = some r) :
    StepKeepsConfig s.pp (fun s : WalkState => s.pp) r := by
  unfold walkStep at h
  split at h
  · refine flushThen_config h fun t r ht hk => ?_
    obtain ⟨c, hc, rfl⟩ := map_eq_some_iff.mp hk
    exact finishConditional_config (ht.trans (processIf_config heval hc))
  · refine flushThen_config h fun t r ht hk => ?_
    obtain ⟨c, hc, rfl⟩ := map_eq_some_iff.mp hk
    exact finishConditional_config (ht.trans (processElif_config heval hc))
  · exact walkElse_config h
  · exact walkEndif_config h
  iterate 2
    · refine flushThen_config h fun t r ht hk => ?_
      cases hk
      exact finishConditional_config (ht.trans (processIfdeflike_config _ _ _ _ _))
  · obtain ⟨c, hc, rfl⟩ := map_eq_some_iff.mp h
    have hconfig := contentStep_config hhandler hc
    cases c <;> exact hconfig

/-- The state that the loop leaves has the configuration of `pp`. -/
def LoopKeepsConfig (pp : Preprocessor) : Except TextState WalkState → Prop
  | .ok s => SameConfig pp s.pp
  | .error s => SameConfig pp s.pp

include hhandler heval in
theorem walkLoop_config (h : walkLoop handler eval first skip s tokens = some r) :
    LoopKeepsConfig s.pp r := by
  induction tokens generalizing first skip s with
  | nil => cases skip <;> (cases h; exact .refl s.pp)
  | cons tok rest ih =>
    cases skip with
    | succ skip => exact ih h
    | zero => ?_
    obtain ⟨step, hstep, hk⟩ := bind_eq_some_iff.mp h
    have hconfig := walkStep_config hhandler heval hstep
    cases step with
    | stop s' => cases hk; exact hconfig
    | next taken s' =>
      have hrest := ih hk
      cases r with
      | ok s'' | error s'' => exact SameConfig.trans hconfig hrest

theorem walkEnd_config (h : walkEnd appendEOF s = (ok, pp', output')) : SameConfig s.pp pp' := by
  unfold walkEnd at h
  generalize hflush : ppFlushChunk s.pp s.chunk s.output = f at h
  obtain ⟨fok, output, pp⟩ := f
  have hconfig := ppFlushChunk_config hflush
  dsimp only at h
  split at h
  · split at h
    · cases h; exact hconfig
    · cases h; exact hconfig.trans (ppReportDiag_config _ _ _ _)
  · cases h; exact hconfig

include hhandler heval in
theorem preprocessTokens_config (h : preprocessTokens handler eval pp input output appendEOF =
    some (ok, pp', output')) : SameConfig pp pp' := by
  obtain ⟨r, hr, heq⟩ := map_eq_some_iff.mp h
  have hloop := walkLoop_config hhandler heval hr
  have henter := ppEnterBuffer_config pp input
  cases r with
  | error s => cases heq; exact henter.trans hloop
  | ok s => exact (henter.trans hloop).trans (walkEnd_config heq)

-- The replays

include hhandler in
theorem guardedAction_config (h : guardedAction handler buffer rawAllowed pp output action =
    some (result, pp', output', action')) : SameConfig pp pp' := by
  unfold guardedAction at h
  split at h
  · split at h
    · rename_i hmark
      obtain ⟨path, -, rfl⟩ := map_eq_some_iff.mp hmark
      cases h; exact .of_eq rfl
    · cases h; exact .refl pp
  · cases h; exact .refl pp
  · cases h; exact .refl pp
  · split at h
    · split at h <;> (cases h; exact .refl pp)
    · cases h; exact .refl pp
  · split at h
    · cases h; exact .refl pp
    · rename_i tok rest _
      generalize hdef : processDefine (action.start == 0) pp tok rest = d at h
      obtain ⟨ok, pp₁, taken⟩ := d
      have hconfig := processDefine_config hdef
      dsimp only at h
      split at h <;> (cases h; exact hconfig)
  iterate 2
    · split at h
      · cases h; exact .refl pp
      · obtain ⟨⟨ok, pp₁, out₁⟩, hh, heq⟩ := map_eq_some_iff.mp h
        cases heq
        exact hhandler _ _ _ _ _ _ _ _ hh
  · cases h; exact .refl pp

include hhandler in
theorem guardedReplayLoop_config (h : guardedReplayLoop handler buffer rawAllowed done pp output
    actions = some r) : SameConfig pp r.pp := by
  induction actions generalizing done pp output with
  | nil => cases h; exact .refl pp
  | cons action actions ih =>
    obtain ⟨⟨result, pp₁, out₁, action₁⟩, hact, hk⟩ := bind_eq_some_iff.mp h
    have hconfig := guardedAction_config hhandler hact
    dsimp only at hk
    split at hk
    · exact hconfig.trans (ih hk)
    · cases hk; exact hconfig

theorem appendEofToken_pp (appendEOF : Bool) (r : ReplayEnd) : (appendEofToken appendEOF r).pp = r.pp := by
  unfold appendEofToken
  split <;> rfl

include hhandler in
theorem preprocessTokensRouterReplay_config (h : preprocessTokensRouterReplay host handler pp buffer
    probe actions output appendEOF = some r) : SameConfig pp r.pp := by
  unfold preprocessTokensRouterReplay at h
  split at h
  · cases h; exact .refl pp
  have henter : SameConfig pp { ppEnterBuffer pp buffer with
      replaySeen := (ppEnterBuffer pp buffer).replaySeen + 1 } :=
    (ppEnterBuffer_config pp buffer).trans (.of_eq rfl)
  dsimp only at h
  split at h
  · cases h; exact henter
  split at h
  · obtain ⟨r', hr, rfl⟩ := map_eq_some_iff.mp h
    rw [appendEofToken_pp]
    exact henter.trans (guardedReplayLoop_config hhandler hr)
  · cases h; exact henter

include hhandler in
theorem preprocessTokensScaffoldReplay_config (h : preprocessTokensScaffoldReplay handler pp buffer
    probe actions output appendEOF = some r) : SameConfig pp r.pp := by
  unfold preprocessTokensScaffoldReplay at h
  split at h
  · cases h; exact .refl pp
  obtain ⟨r', hr, rfl⟩ := map_eq_some_iff.mp h
  rw [appendEofToken_pp]
  exact (ppEnterBuffer_config pp buffer).trans (guardedReplayLoop_config hhandler hr)

def ReplayKeepsConfig (pp : Preprocessor) (get : σ → Preprocessor) : Except TextState σ → Prop
  | .ok s => SameConfig pp (get s)
  | .error s => SameConfig pp s.pp

theorem replayFlush_config {get : σ → Preprocessor} (h : replayFlush s k = some r)
    (hk : ∀ t r, SameConfig s.pp t.pp → k t = some r → ReplayKeepsConfig s.pp get r) :
    ReplayKeepsConfig s.pp get r := by
  unfold replayFlush at h
  generalize hflush : ppFlushChunk s.pp s.chunk s.output = f at h
  obtain ⟨ok, output, pp⟩ := f
  have hconfig := ppFlushChunk_config hflush
  dsimp only at h
  split at h
  · exact hk _ _ hconfig h
  · cases h; exact hconfig

theorem preserveSpan_pp (s : TextState) (buffer : List Token) (action : IncludeSummaryAction) :
    (preserveSpan s buffer action).pp = s.pp := by
  unfold preserveSpan
  split <;> rfl

theorem replayFinish_config {s : TextState} (hpp : SameConfig pp pp') (ok : Bool) :
    ReplayKeepsConfig pp TextState.pp
      (if ok then .ok { s with pp := pp' } else .error { s with pp := pp' }) := by
  cases ok <;> exact hpp

include hhandler in
theorem replayDirective_config (h : replayDirective handler first kind s tok rest = some r) :
    ReplayKeepsConfig s.pp TextState.pp r := by
  unfold replayDirective at h
  split at h
  · generalize hdef : processDefine first s.pp tok rest = d at h
    obtain ⟨ok, pp₁, taken⟩ := d
    cases h; exact replayFinish_config (processDefine_config hdef) ok
  · cases h; exact replayFinish_config (processUndef_config _ _ _) _
  · cases h; exact replayFinish_config (processLineDirective_config _ _ _) _
  · cases h; exact ppReportDiag_config _ _ _ _
  · cases h; exact replayFinish_config (processPragma_config _ _ _) _
  iterate 2
    · obtain ⟨⟨ok, pp₁, out₁⟩, hh, rfl⟩ := map_eq_some_iff.mp h
      have hconfig := hhandler _ _ _ _ _ _ _ _ hh
      cases ok <;> exact hconfig
  · cases h; exact .refl s.pp

include heval in
theorem replayConditional_config (h : replayConditional eval buffer action s stack tok rest =
    some r) : ReplayKeepsConfig s.pp (fun s : WalkState => s.pp) r := by
  unfold replayConditional at h
  dsimp only at h
  split at h
  · obtain ⟨c, hc, rfl⟩ := map_eq_some_iff.mp h
    have hconfig := processIf_config heval hc
    split <;> exact hconfig
  iterate 2
    · cases h
      split <;> exact processIfdeflike_config _ _ _ _ _
  · obtain ⟨c, hc, rfl⟩ := map_eq_some_iff.mp h
    have hconfig := processElif_config heval hc
    split <;> exact hconfig
  · split at h
    · generalize helse : processElse s.pp stack tok = e at h
      obtain ⟨ok, pp₁, stack₁⟩ := e
      have hconfig := processElse_config helse
      cases h
      split <;> exact hconfig
    · cases h; exact .refl s.pp
  · split at h
    · have hpreserve : (if conditionalStackIsActive stack then preserveSpan s buffer action
          else s).pp = s.pp := by
        split
        · exact preserveSpan_pp _ _ _
        · rfl
      rw [hpreserve] at h
      generalize hendif : processEndif s.pp stack tok = e at h
      obtain ⟨ok, pp₁, stack₁⟩ := e
      have hconfig := processEndif_config hendif
      cases h
      split <;> exact hconfig
    · cases h; exact .refl s.pp

theorem replayRawRange_config (h : (replayRawRange buffer s action).1 = some r) :
    ReplayKeepsConfig s.pp TextState.pp r := by
  unfold replayRawRange at h
  dsimp only at h
  split at h
  · dsimp only at h
    refine replayFlush_config h fun t r ht hk => ?_
    split at hk <;> (cases hk; exact ht)
  · cases h; exact .refl s.pp

theorem replayMap_config (h : r.map (fun e => e.map (fun t => WalkState.mk t stack)) = some r')
    (hr : ∀ e, r = some e → ReplayKeepsConfig pp TextState.pp e) :
    ReplayKeepsConfig pp (fun s : WalkState => s.pp) r' := by
  obtain ⟨e, he, rfl⟩ := map_eq_some_iff.mp h
  have hconfig := hr e he
  cases e <;> exact hconfig

include hhandler heval in
theorem summaryAction_config (h : (summaryAction handler eval buffer s action).1 = some r) :
    ReplayKeepsConfig s.pp (fun s : WalkState => s.pp) r := by
  unfold summaryAction at h
  split at h
  · split at h
    · exact replayMap_config h fun e he => replayRawRange_config he
    · cases h; exact .refl s.pp
  split at h
  · cases h; exact .refl s.pp
  split at h
  · dsimp only at h
    refine replayFlush_config h fun t r ht hk => ?_
    have hconfig := replayConditional_config heval hk
    cases r <;> exact ht.trans hconfig
  · split at h
    · refine replayMap_config h fun e he => replayFlush_config he fun t r ht hk => ?_
      have hconfig := replayDirective_config hhandler hk
      rw [preserveSpan_pp] at hconfig
      cases r <;> exact ht.trans hconfig
    · cases h; exact .refl s.pp

include hhandler heval in
theorem summaryReplayLoop_config (h : summaryReplayLoop handler eval buffer done s actions =
    some (r, actions')) : ReplayKeepsConfig s.pp (fun s : WalkState => s.pp) r := by
  induction actions generalizing done s with
  | nil => cases h; exact .refl s.pp
  | cons action actions ih =>
    obtain ⟨e, he, hk⟩ := bind_eq_some_iff.mp h
    have hconfig := summaryAction_config hhandler heval he
    cases e with
    | error t => cases hk; exact hconfig
    | ok t =>
      have hrest := ih hk
      cases r <;> exact SameConfig.trans hconfig hrest

include hhandler heval in
theorem preprocessTokensSummaryReplay_config (h : preprocessTokensSummaryReplay handler eval pp
    buffer actions output appendEOF = some r) : SameConfig pp r.pp := by
  have henter := ppEnterBuffer_config pp buffer
  unfold preprocessTokensSummaryReplay at h
  split at h
  · cases h; exact henter
  obtain ⟨⟨e, actions'⟩, he, rfl⟩ := map_eq_some_iff.mp h
  have hloop := summaryReplayLoop_config hhandler heval he
  cases e with
  | error t => exact henter.trans hloop
  | ok t => exact (henter.trans hloop).trans (walkEnd_config rfl)

-- Included files

/-- The frame pushed for a file is the one popped after it. -/
theorem SameConfig.pop (h : SameConfig (ppIncludeStackPush pp frame) pp') :
    SameConfig pp (ppIncludeStackPop pp') where
  preserve := h.preserve
  lenient := h.lenient
  trigraphs := h.trigraphs
  mode := h.mode
  frames := by
    show pp'.includeStack.tail = _
    rw [h.frames]
    rfl
  serial := h.serial
  macros := h.macros

theorem includeOperand_config (h : includeOperand pp tok rest = (operand, pp')) : SameConfig pp pp' := by
  unfold includeOperand at h
  split at h
  · cases h; exact .refl pp
  dsimp only at h
  split at h
  · rename_i hexpand
    split at h <;> (cases h; exact withExpander_config rfl hexpand)
  · rename_i hexpand
    cases h
    exact withExpander_config rfl hexpand
  · cases h; exact .refl pp

theorem missingInclude_config (h : missingInclude pp tok name isSystem = (ok, pp')) :
    SameConfig pp pp' := by
  unfold missingInclude at h
  split at h
  · split at h
    · cases h; exact .refl pp
    · cases h; exact ppReportDiag_config _ _ _ _
  · cases h; exact ppReportDiag_config _ _ _ _

theorem ppIncludeFileGetLexedTokens_config
    (h : ppIncludeFileGetLexedTokens pp index = some (tokens, pp')) : SameConfig pp pp' := by
  obtain ⟨file, -, hk⟩ := bind_eq_some_iff.mp h
  split at hk
  · cases hk; exact .refl pp
  dsimp only at hk
  split at hk
  · cases hk; exact .of_eq rfl
  · cases hk

theorem ppIncludeFileCacheGuard_config (pp : Preprocessor) (index : Nat) (guard : Option String) :
    SameConfig pp (ppIncludeFileCacheGuard pp index guard) := by
  unfold ppIncludeFileCacheGuard
  split
  · split
    · exact .refl pp
    · exact .of_eq rfl
  · exact .refl pp

theorem summarizeInclude_config (pp : Preprocessor) (index : Nat) (file : IncludeFile)
    (buffer : List Token) (probeSupported : Bool) :
    SameConfig pp (summarizeInclude pp index file buffer probeSupported).1 := by
  have hguard : ∀ guard, SameConfig pp
      (if file.cachedGuardName.isNone then ppIncludeFileCacheGuard pp index guard else pp) := by
    intro guard
    split
    · exact ppIncludeFileCacheGuard_config _ _ _
    · exact .refl pp
  unfold summarizeInclude
  split
  · exact (hguard _).trans (.of_eq rfl)
  · exact hguard _

include hhandler in
theorem replayOrWalk_config
    (hreplay : ∀ r, replay = some r → SameConfig pp r.pp)
    (h : replayOrWalk host handler body replay = some (ok, pp', output')) : SameConfig pp pp' := by
  obtain ⟨r, hr, hk⟩ := bind_eq_some_iff.mp h
  have hconfig : SameConfig pp (r.pp.modifyFile body.index
      (fun file => { file with summaryActions := r.actions })) :=
    (hreplay r hr).trans (.of_eq rfl)
  split at hk
  · cases hk; exact hconfig
  · exact hconfig.trans (preprocessTokens_config hhandler (evalCondition_config host) hk)
  · cases hk; exact hconfig

include hhandler in
theorem dispatchInclude_config (h : dispatchInclude host handler pp body output =
    some (ok, pp', output')) : SameConfig pp pp' := by
  have heval := evalCondition_config host
  unfold dispatchInclude at h
  dsimp only at h
  split at h
  · exact replayOrWalk_config hhandler (fun r hr => preprocessTokensRouterReplay_config hhandler hr) h
  split at h
  · exact replayOrWalk_config hhandler (fun r hr => preprocessTokensScaffoldReplay_config hhandler hr) h
  split at h
  · exact replayOrWalk_config hhandler
      (fun r hr => preprocessTokensSummaryReplay_config hhandler heval hr) h
  · exact preprocessTokens_config hhandler heval h

include hhandler in
theorem includeFile_config (h : includeFile host handler pp tok index file origin originIndex output =
    some (ok, pp', output')) : SameConfig pp pp' := by
  unfold includeFile at h
  dsimp only at h
  split at h
  · cases h; exact .refl pp
  rename_i buffer pp₁ hlex
  have hfresh : SameConfig pp pp.freshLocation := .of_eq rfl
  have hlexed := hfresh.trans (ppIncludeFileGetLexedTokens_config hlex)
  have honce : SameConfig pp (pp₁.modifyFile index (fun f => { f with
      pragmaOnce := file.pragmaOnce || detectLeadingPragmaOnce buffer })) :=
    hlexed.trans (.of_eq rfl)
  have hsum := honce.trans (summarizeInclude_config _ index file buffer
    (ppIncludeSupportsSummaryProbe host origin file.path))
  generalize summarizeInclude _ index file buffer _ = summary at h hsum
  obtain ⟨pp₂, body⟩ := summary
  have hback : ∀ pp₃, SameConfig pp pp₃ → SameConfig pp (pp₃.withLocation pp) :=
    fun pp₃ h₃ => h₃.trans (.of_eq rfl)
  split at h
  · cases h
    exact hback _ (hsum.trans (.of_eq rfl))
  split at h
  · cases h; exact hback _ hsum
  split at h
  · unfold recursiveInclude at h
    split at h
    · cases h; exact hback _ hsum
    · cases h; exact (hback _ hsum).trans (ppReportDiag_config _ _ _ _)
  · obtain ⟨⟨ok₁, pp₃, out₃⟩, hd, heq⟩ := map_eq_some_iff.mp h
    cases heq
    have hbody : SameConfig (ppIncludeStackPush pp₂ ⟨body.path, origin, originIndex⟩)
        (ppIncludeFileMarkIncluded (pp₃.withLocation pp) body.index) :=
      (dispatchInclude_config hhandler hd).trans (.of_eq rfl)
    exact hsum.trans hbody.pop

theorem externalInclude_config (h : externalInclude host pp tok index file output =
    (ok, pp', output')) : SameConfig pp pp' := by
  unfold externalInclude at h
  split at h
  · split at h <;> (cases h; exact ppReportDiag_config _ _ _ _)
  · cases h; exact .of_eq rfl

include hhandler in
theorem processIncludeWith_config : HandlerKeepsConfig (processIncludeWith host handler) := by
  intro pp tok rest output isNext ok pp' output' h
  unfold processIncludeWith at h
  split at h
  · rename_i hop
    cases h
    exact (includeOperand_config hop).trans (ppReportDiag_config _ _ _ _)
  rename_i name isSystem taken pp₁ hop
  have hconfig := includeOperand_config hop
  dsimp only at h
  have hload := hconfig.trans (load_config host pp₁
    ⟨tokenFile ((tok :: rest).getD taken tok), name, isSystem, isNext⟩)
  generalize Preprocessor.load host pp₁ _ = l at h hload
  obtain ⟨found, pp₂⟩ := l
  split at h
  · generalize hm : missingInclude pp₂ _ name isSystem = m at h
    obtain ⟨ok₁, pp₃⟩ := m
    cases h
    exact hload.trans (missingInclude_config hm)
  split at h
  · simp only [Option.some.injEq] at h
    exact hload.trans (externalInclude_config h)
  split at h
  · cases h; exact hload
  · split at h
    · cases h; exact hload
    · exact hload.trans (includeFile_config hhandler h)

end

/-- An include directive leaves the configuration, however deep it goes. -/
theorem processInclude_config (host : Host) (depth : Nat) :
    HandlerKeepsConfig (processInclude host depth) := by
  induction depth with
  | zero =>
    intro pp tok rest output isNext ok pp' output' h
    cases h
  | succ depth ih => exact processIncludeWith_config ih

end Fisics
