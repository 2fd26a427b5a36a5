import Fisics.Preprocessor.Skipped

/-!
# Include guards and the walk

`process_include` does not walk a file whose include guard is defined. The walk
over such a file skips the guard's group, and so writes nothing and defines
nothing, exactly when the lines that it checks on the way are well formed: the
detectors count the nesting and look no closer.
-/

namespace Fisics

-- Headers with a guard

/-- Lines of `#pragma`. -/
inductive PragmaLines (after : List Token) : List Token → Prop
  | nil : PragmaLines after []
  | cons (htype : tok.type = .pragma) (hline : directiveLine tok (line ++ (rest ++ after)) = line)
    (h : PragmaLines after rest) : PragmaLines after (tok :: (line ++ rest))

/-- A header as its guard sees it: `#pragma` lines, the group of the guard without
branches of its own and with well-nested contents, and unknown tokens. -/
structure GuardedHeader (buffer pragmas : List Token) (d : CondLine) (b : Blocks)
    (close : CondLine) (trailing : List Token) : Prop where
  buffer : buffer = pragmas ++ (d.tokens ++ (b.tokens ++ (close.tokens ++ trailing)))
  pragmas : PragmaLines (d.tokens ++ (b.tokens ++ (close.tokens ++ trailing))) pragmas
  opener : d.Ok [.ifndef] (b.tokens ++ (close.tokens ++ trailing))
  nested : b.WellNested (close.tokens ++ trailing)
  close : close.Ok [.endif] trailing
  trailing : ∀ t ∈ trailing, t.type = .unknown ∨ t.type = .eof

def WalksToNothing (handler : IncludeHandler) (eval : EvalCondition) (pp : Preprocessor)
    (buffer output : List Token) : Prop :=
  ∃ pp', preprocessTokens handler eval pp buffer output false = some (true, pp', output) ∧
    pp'.table = pp.table

section
variable {handler : IncludeHandler} {eval : EvalCondition}

-- Pragmas

/-- What a run of `#pragma` lines does. -/
structure AfterPragmas (s s' : TextState) (count : Nat) : Prop where
  chunk : s'.chunk = []
  table : s'.pp.table = s.pp.table
  preserve : s'.pp.preserveDirectives = s.pp.preserveDirectives
  kept : count = 0 ∨ s.pp.preserveDirectives = false → s'.output = s.output
  length : s'.output.length = s.output.length + if s.pp.preserveDirectives then count else 0

theorem processPragma_table (pp : Preprocessor) (tok : Token) (rest : List Token) :
    (processPragma pp tok rest).pp.table = pp.table := by
  unfold processPragma
  repeat' split
  all_goals rfl

theorem pragma_step (handler : IncludeHandler) (eval : EvalCondition) (first : Bool)
    (htype : tok.type = .pragma) (hline : directiveLine tok (line ++ rest) = line)
    (hchunk : s.chunk = []) :
    ∃ s', WalkMoves handler eval (first, ⟨s, []⟩, tok :: (line ++ rest)) (false, ⟨s', []⟩, rest) ∧
      AfterPragmas s s' (line.length + 1) := by
  have hstep : walkStep handler eval first ⟨s, []⟩ tok (line ++ rest) =
      some (.next line.length
        ⟨{ preserveLine s tok (line ++ rest) with
          pp := (processPragma (preserveLine s tok (line ++ rest)).pp tok (line ++ rest)).pp }, []⟩) := by
    simp only [walkStep, htype, contentStep, activeStep, flushThen_nil hchunk]
    simp [WalkState.active, conditionalStackIsActive, finishDirective, processPragma, WalkStep.map, hline]
  have hmove := WalkMoves.round hstep
  rw [List.drop_left] at hmove
  have hpp := preserveLine_config s tok (line ++ rest)
  refine ⟨_, hmove, ?_, ?_, ?_, ?_, ?_⟩
  · unfold preserveLine
    split <;> exact hchunk
  · rw [processPragma_table, hpp]
  · rw [(processPragma_config _ tok (line ++ rest)).preserve, hpp]
  · intro hkept
    have hpreserve : s.pp.preserveDirectives = false := by simpa using hkept
    simp [preserveLine, hpreserve]
  · unfold preserveLine
    split
    · simp [ppAppendDirectiveLine, ppTokenBufferAppendCloneRemapSpan, hline]
    · rfl

theorem pragmas_reach (handler : IncludeHandler) (eval : EvalCondition) (first : Bool)
    (h : PragmaLines after pragmas) (hchunk : s.chunk = []) :
    ∃ first' s', Relation.ReflTransGen (WalkMoves handler eval) (first, ⟨s, []⟩, pragmas ++ after)
        (first', ⟨s', []⟩, after) ∧ AfterPragmas s s' pragmas.length := by
  induction h generalizing first s with
  | nil => exact ⟨first, s, .refl, hchunk, rfl, rfl, fun _ => rfl, by simp⟩
  | cons htype hline _ ih =>
    obtain ⟨s₁, hmove, h₁⟩ := pragma_step handler eval first htype hline hchunk
    obtain ⟨first', s', hreach, h'⟩ := ih false h₁.chunk
    rw [List.cons_append, List.append_assoc]
    refine ⟨first', s', .head hmove hreach, h'.chunk, h'.table.trans h₁.table,
      h'.preserve.trans h₁.preserve, fun hkept => ?_, ?_⟩
    · have hp : s.pp.preserveDirectives = false := by simpa using hkept
      rw [h'.kept (.inr (h₁.preserve.trans hp)), h₁.kept (.inr hp)]
    · rw [h'.length, h₁.length, h₁.preserve]
      split
      · simp only [List.length_cons, List.length_append]
        omega
      · omega

-- The end of the file

/-- Unknown tokens are collected, and the end of the file is passed. -/
theorem trailing_reach (trailing : List Token)
    (h : ∀ t ∈ trailing, t.type = .unknown ∨ t.type = .eof) (s : TextState) :
    Relation.ReflTransGen (WalkMoves handler eval) (false, ⟨s, []⟩, trailing)
      (false, ⟨{ s with chunk := s.chunk ++ trailing.filter (·.type == .unknown) }, []⟩, []) := by
  induction trailing generalizing s with
  | nil =>
    simp only [List.filter_nil, List.append_nil]
    exact .refl
  | cons t rest ih =>
    have hrest := ih fun u hu => h u (List.mem_cons_of_mem t hu)
    obtain ht | ht := h t List.mem_cons_self
    · have hmove : WalkMoves handler eval (false, ⟨s, []⟩, t :: rest)
          (false, ⟨{ s with chunk := s.chunk ++ [t] }, []⟩, rest.drop 0) := by
        refine .round ?_
        simp [walkStep, ht, contentStep, activeStep, WalkState.active, conditionalStackIsActive,
          walkText, ppSkipPragmaOperator, WalkStep.map]
      have := hrest { s with chunk := s.chunk ++ [t] }
      simp only [List.append_assoc, List.singleton_append] at this
      rw [List.filter_cons_of_pos (by simp [ht])]
      exact .head hmove this
    · have hmove : WalkMoves handler eval (false, ⟨s, []⟩, t :: rest)
          (false, ⟨s, []⟩, rest.drop 0) := by
        refine .round ?_
        simp [walkStep, ht, contentStep, activeStep, WalkState.active, conditionalStackIsActive,
          WalkStep.map]
      rw [List.filter_cons_of_neg (by simp [ht])]
      exact .head hmove (hrest s)

theorem dropPragmaOperators_unknown (tokens : List Token) (h : ∀ t ∈ tokens, t.type = .unknown) :
    dropPragmaOperators 0 tokens = [] := by
  induction tokens with
  | nil => rfl
  | cons t rest ih =>
    have ht := h t List.mem_cons_self
    simp [dropPragmaOperators, ppSkipPragmaOperator, ht, ih fun u hu => h u (List.mem_cons_of_mem t hu)]

theorem ppFlushChunk_unknown (pp : Preprocessor) (chunk output : List Token)
    (h : ∀ t ∈ chunk, t.type = .unknown) :
    ∃ pp', ppFlushChunk pp chunk output = (true, output, pp') ∧ pp'.table = pp.table := by
  unfold ppFlushChunk
  split
  · exact ⟨pp, rfl, rfl⟩
  have hnames : ∀ t ∈ chunk, NamesNoMacro pp.expander.table t := by
    intro t ht hid
    rw [h t ht] at hid
    cases hid
  rw [macroExpanderExpand_inert pp.expander chunk hnames]
  refine ⟨pp.withExpander (macroExpanderClearError pp.expander), ?_, rfl⟩
  simp [ppTokenBufferAppendCloneRemapSpan, dropPragmaOperators_unknown chunk h]

theorem walkEnd_unknown (s : TextState) (h : ∀ t ∈ s.chunk, t.type = .unknown) :
    ∃ pp', walkEnd false ⟨s, []⟩ = (true, pp', s.output) ∧ pp'.table = s.pp.table := by
  obtain ⟨pp', hflush, htable⟩ := ppFlushChunk_unknown s.pp s.chunk s.output h
  refine ⟨pp', ?_, htable⟩
  simp [walkEnd, hflush]

-- The guard's group

theorem walkLoop_first (first : Bool) (s : WalkState) (h : isConditionalType u.type = true) :
    walkLoop handler eval first 0 s (u :: rest) = walkLoop handler eval false 0 s (u :: rest) := by
  rw [← walkTrace_outcome, ← walkTrace_outcome,
    walkTrace_first handler eval first s fun v more hv => by cases hv; exact h]

theorem guard_skips {d : CondLine} (hok : d.Ok [.ifndef] after) (hchunk : s.chunk = [])
    (hdefined : ∀ name ∈ d.line.head?, (macroTableLookup s.pp.table (tokenText name)).isSome = true) :
    Skips handler eval d.formed s [] d.tokens after [⟨true, false, false, false⟩] := by
  have htype : d.tok.type = .ifndef := by simpa using hok.type
  have hok' : d.Ok [.ppIf, .ifdef, .ifndef] after := ⟨by simp [htype], hok.line⟩
  have h := stepRuns_opener handler eval s [] hok'
  refine line_skips hchunk (a := (false, s)) (fun hformed => ?_) rfl h
  simp only [CondLine.formed, htype] at hformed
  obtain ⟨name, hname⟩ : ∃ name, d.line = [name] := by
    generalize d.line = line at hformed
    obtain _ | ⟨name, _ | ⟨extra, more⟩⟩ := line
    · cases hformed
    · exact ⟨name, rfl⟩
    · cases hformed
  have hlookup := hdefined name (by simp [hname])
  simp [conditionalStackIsActive, CondLine.condition, htype, hname, hlookup]

theorem walkLoop_passes (h : Passes handler eval s stack tokens after stack') :
    walkLoop handler eval false 0 ⟨s, stack⟩ (tokens ++ after) =
      walkLoop handler eval false 0 ⟨s, stack'⟩ after := walkLoop_reaches h

theorem walkLoop_fails (h : FailsInside handler eval s stack tokens after) :
    ∃ t, walkLoop handler eval false 0 ⟨s, stack⟩ (tokens ++ after) = some (.error t) := by
  obtain ⟨s', tok, rest, t, hreach, -, hstop, -⟩ := h
  refine ⟨t, (walkLoop_reaches hreach).trans ?_⟩
  simp [walkLoop, hstop]

theorem ppEnterBuffer_table (pp : Preprocessor) (input : List Token) :
    (ppEnterBuffer pp input).table = pp.table := by
  unfold ppEnterBuffer ppSetBaseFile ppSetLogicalFile
  dsimp only
  repeat' split
  all_goals rfl

def headerFormed (d : CondLine) (b : Blocks) (close : CondLine) : Bool :=
  d.formed && (b.formed && close.formed)

/-- The walk over a header whose guard is defined: it writes the `#pragma` lines
and fails when a line is malformed. -/
theorem header_walk (handler : IncludeHandler) (eval : EvalCondition) (pp : Preprocessor)
    (output : List Token) (h : GuardedHeader buffer pragmas d b close trailing)
    (hdefined : ∀ name ∈ d.line.head?, (macroTableLookup pp.table (tokenText name)).isSome = true) :
    ∃ s', AfterPragmas ⟨ppEnterBuffer pp buffer, [], output⟩ s' pragmas.length ∧
      (if headerFormed d b close then
        ∃ pp', preprocessTokens handler eval pp buffer output false = some (true, pp', s'.output) ∧
          pp'.table = s'.pp.table
      else ∃ pp' output', preprocessTokens handler eval pp buffer output false =
        some (false, pp', output')) := by
  obtain ⟨first', s', hreach, hpragmas⟩ := pragmas_reach handler eval true
    (s := ⟨ppEnterBuffer pp buffer, [], output⟩) h.pragmas rfl
  refine ⟨s', hpragmas, ?_⟩
  have htype : isConditionalType d.tok.type = true := by
    rw [show d.tok.type = .ifndef by simpa using h.opener.type]
    rfl
  have htable : s'.pp.table = pp.table := hpragmas.table.trans (ppEnterBuffer_table pp buffer)
  rw [← htable] at hdefined
  have hskips : Skips handler eval (headerFormed d b close) s' []
      (d.tokens ++ (b.tokens ++ close.tokens)) trailing [] := by
    refine (guard_skips h.opener hpragmas.chunk hdefined).append (by simp only [List.append_assoc]) ?_
    exact (b.skips hpragmas.chunk _ h.nested _ rfl).append rfl (endif_skips hpragmas.chunk h.close rfl)
  have hloop : walkLoop handler eval true 0 ⟨⟨ppEnterBuffer pp buffer, [], output⟩, []⟩ buffer =
      walkLoop handler eval false 0 ⟨s', []⟩ ((d.tokens ++ (b.tokens ++ close.tokens)) ++ trailing) := by
    rw [← h.buffer] at hreach
    refine (walkLoop_reaches hreach).trans ?_
    simp only [List.append_assoc]
    exact walkLoop_first first' ⟨s', []⟩ htype
  unfold preprocessTokens
  rw [hloop]
  cases hformed : headerFormed d b close with
  | true =>
    rw [hformed] at hskips
    rw [walkLoop_passes hskips, walkLoop_reaches (trailing_reach trailing h.trailing s')]
    obtain ⟨pp', hend, hpp'⟩ := walkEnd_unknown
      { s' with chunk := s'.chunk ++ trailing.filter (·.type == .unknown) } (by
        rw [hpragmas.chunk]
        simp)
    exact ⟨pp', congrArg some hend, hpp'⟩
  | false =>
    rw [hformed] at hskips
    obtain ⟨t, ht⟩ := walkLoop_fails hskips
    rw [ht]
    exact ⟨t.pp, t.output, rfl⟩

-- The detectors

theorem detectIncludeGuard_name {guard : String} (h : GuardedHeader buffer pragmas d b close trailing)
    (hguard : detectIncludeGuard buffer = some guard) :
    ∀ name ∈ d.line.head?, tokenText name = guard := by
  intro name hname
  have hbuffer := h.buffer
  have hpragmas := h.pragmas
  unfold detectIncludeGuard at hguard
  split at hguard
  · rename_i ifndefTok first rest
    split at hguard
    · rename_i hhead
      split at hguard
      · split at hguard
        · have hfirst : first = name := by
            cases hpragmas with
            | nil => ?_
            | cons htype hline hrest =>
              simp only [List.cons_append, List.cons.injEq] at hbuffer
              rw [← hbuffer.1, hhead.1] at htype
              cases htype
            obtain ⟨more, hmore⟩ := List.head?_eq_some_iff.mp hname
            simp only [CondLine.tokens, hmore, List.nil_append, List.cons_append,
              List.cons.injEq] at hbuffer
            exact hbuffer.2.1
          rw [tokenText, ← hfirst, hguard]
          rfl
        · cases hguard
      · cases hguard
    · cases hguard
  · cases hguard

theorem appendRawAction_extends (buffer : List Token) (actions : List IncludeSummaryAction)
    (rawStart i : Nat) : ∃ more, appendRawAction buffer actions rawStart i = actions ++ more := by
  unfold appendRawAction
  split
  · exact ⟨_, rfl⟩
  · exact ⟨[], by simp⟩

theorem analyzeLoop_extends (h : analyzeLoop buffer skip i rawStart actions tokens = .ok result) :
    ∃ more, result = actions ++ more := by
  induction tokens generalizing skip i rawStart actions with
  | nil =>
    cases skip <;>
    · cases h
      exact appendRawAction_extends buffer actions rawStart i
  | cons tok rest ih =>
    cases skip with
    | succ skip => exact ih h
    | zero => ?_
    rw [analyzeLoop] at h
    split at h
    · cases h
      exact appendRawAction_extends buffer actions rawStart i
    split at h
    · exact ih h
    · cases h
    split at h
    · cases h
    · obtain ⟨raw, hraw⟩ := appendRawAction_extends buffer actions rawStart i
      obtain ⟨more, rfl⟩ := ih h
      rw [hraw, List.append_assoc, List.append_assoc]
      exact ⟨_, rfl⟩

theorem analyzeLoop_skip (buffer ts after : List Token) (i rawStart : Nat)
    (actions : List IncludeSummaryAction) :
    analyzeLoop buffer ts.length i rawStart actions (ts ++ after) =
      analyzeLoop buffer 0 (i + ts.length) rawStart actions after := by
  induction ts generalizing i with
  | nil => rfl
  | cons t ts ih =>
    rw [List.length_cons, List.cons_append, analyzeLoop, ih]
    congr 1
    omega

theorem analyzeLoop_line (hkind : directiveActionKind tok = some (some kind))
    (heof : tok.type ≠ .eof) (hplain : isIncludeType tok.type = false)
    (hline : directiveLine tok (line ++ rest) = line) (buffer : List Token) (i : Nat)
    (actions : List IncludeSummaryAction) :
    analyzeLoop buffer 0 i i actions (tok :: (line ++ rest)) =
      analyzeLoop buffer 0 (i + (line.length + 1)) (i + (line.length + 1))
        (actions ++ [includeSummaryActionMake buffer kind i (i + (line.length + 1))]) rest := by
  have htaken : actionTaken tok (line ++ rest) = some line.length := by
    simp [actionTaken, hplain, hline]
  have hstop : i + 1 + line.length = i + (line.length + 1) := by omega
  rw [analyzeLoop, if_neg heof]
  simp only [hkind, htaken, appendRawAction, Nat.lt_irrefl, ↓reduceIte]
  rw [analyzeLoop_skip, hstop]

theorem analyzeLoop_pragmas (h : PragmaLines after pragmas) (buffer : List Token) (i : Nat)
    (actions : List IncludeSummaryAction) :
    ∃ more, (∀ action ∈ more, action.kind = .pragma) ∧
      analyzeLoop buffer 0 i i actions (pragmas ++ after) =
        analyzeLoop buffer 0 (i + pragmas.length) (i + pragmas.length) (actions ++ more) after := by
  induction h generalizing i actions with
  | nil => exact ⟨[], by simp, by simp⟩
  | @cons tok line rest htype hline _ ih =>
    have hkind : directiveActionKind tok = some (some .pragma) := by simp [directiveActionKind, htype]
    have hstep := analyzeLoop_line hkind (by simp [htype]) (by rw [htype]; rfl) hline buffer i actions
    obtain ⟨more, hmore, heq⟩ := ih (i + (line.length + 1))
      (actions ++ [includeSummaryActionMake buffer .pragma i (i + (line.length + 1))])
    refine ⟨includeSummaryActionMake buffer .pragma i (i + (line.length + 1)) :: more, ?_, ?_⟩
    · intro action haction
      obtain rfl | haction := List.mem_cons.mp haction
      · rfl
      · exact hmore action haction
    · rw [List.cons_append, List.append_assoc, hstep, heq]
      simp only [List.length_cons, List.length_append, List.append_assoc, List.singleton_append]
      congr 1 <;> omega

theorem analyze_header (h : GuardedHeader buffer pragmas d b close trailing)
    (hactions : analyzeLoop buffer 0 0 0 [] buffer = .ok actions) :
    ∃ action more, actions.dropWhile (fun action => action.kind == .pragma) = action :: more ∧
      action.start = pragmas.length := by
  have htype : d.tok.type = .ifndef := by simpa using h.opener.type
  have hkind : directiveActionKind d.tok = some (some .ifndef) := by simp [directiveActionKind, htype]
  obtain ⟨lines, hlines, heq⟩ := analyzeLoop_pragmas h.pragmas buffer 0 []
  rw [← h.buffer, Nat.zero_add, List.nil_append, CondLine.tokens, List.cons_append,
    analyzeLoop_line hkind (by simp [htype]) (by rw [htype]; rfl) h.opener.line] at heq
  obtain ⟨more, rfl⟩ := analyzeLoop_extends (heq.symm.trans hactions)
  refine ⟨includeSummaryActionMake buffer .ifndef pragmas.length
    (pragmas.length + (d.line.length + 1)), more, ?_, rfl⟩
  rw [List.append_assoc, List.dropWhile_append_of_pos (by simpa using hlines)]
  rfl

theorem detectIncludeGuardFromSummaryActions_name {guard : String}
    (h : GuardedHeader buffer pragmas d b close trailing)
    (hguard : detectIncludeGuardFromSummaryActions buffer (analyzeIncludeSummaryProbe buffer).2 =
      some guard) :
    ∀ name ∈ d.line.head?, tokenText name = guard := by
  intro name hname
  have hempty : buffer.isEmpty = false := by
    rw [h.buffer]
    simp [CondLine.tokens]
  unfold analyzeIncludeSummaryProbe at hguard
  simp only [hempty, Bool.false_eq_true, ↓reduceIte] at hguard
  split at hguard
  · rename_i actions hactions
    obtain ⟨action, more, hdrop, hstart⟩ := analyze_header h hactions
    have hname' : ∃ rest, buffer.drop (action.start + 1) = name :: rest := by
      obtain ⟨more, hmore⟩ := List.head?_eq_some_iff.mp hname
      refine ⟨more ++ (b.tokens ++ (close.tokens ++ trailing)), ?_⟩
      rw [hstart, h.buffer, ← List.drop_drop, List.drop_left, CondLine.tokens, hmore]
      rfl
    obtain ⟨rest, hrest⟩ := hname'
    unfold detectIncludeGuardFromSummaryActions at hguard
    rw [hdrop] at hguard
    cases more with
    | nil => cases hguard
    | cons defineAction more => ?_
    simp only [hrest] at hguard
    split at hguard
    · split at hguard
      · cases hguard
      · rename_i ident hident
        split at hguard
        · cases hguard
          rw [tokenText, hident]
          rfl
        · cases hguard
    · cases hguard
  · cases hguard

end

-- Skipping a file whose guard is defined

/-- A file whose guard is defined may be skipped exactly when its directive lines
are well formed and no `#pragma` line in front of the guard is kept. -/
theorem guard_skip_agrees_iff (handler : IncludeHandler) (eval : EvalCondition) (pp : Preprocessor)
    (buffer output pragmas trailing : List Token) (guard : String) (d close : CondLine) (b : Blocks)
    (hguard : detectIncludeGuard buffer = some guard ∨
      detectIncludeGuardFromSummaryActions buffer (analyzeIncludeSummaryProbe buffer).2 = some guard)
    (hdefined : (macroTableLookup pp.table guard).isSome = true)
    (hheader : GuardedHeader buffer pragmas d b close trailing) :
    WalksToNothing handler eval pp buffer output ↔
      (d.formed = true ∧ b.formed = true ∧ close.formed = true ∧
        (pragmas = [] ∨ pp.preserveDirectives = false)) := by
  have hname : ∀ name ∈ d.line.head?, tokenText name = guard := by
    obtain hguard | hguard := hguard
    · exact detectIncludeGuard_name hheader hguard
    · exact detectIncludeGuardFromSummaryActions_name hheader hguard
  obtain ⟨s', hpragmas, hwalk⟩ := header_walk handler eval pp output hheader fun name hn =>
      by rw [hname name hn]; exact hdefined
  have hpreserve := (ppEnterBuffer_config pp buffer).preserve
  have hkept : s'.output = output ↔ (pragmas = [] ∨ pp.preserveDirectives = false) := by
    have hlength := hpragmas.length
    have hkept := hpragmas.kept
    simp only [hpreserve] at hlength hkept
    constructor
    · intro heq
      cases hp : pp.preserveDirectives with
      | false => exact .inr rfl
      | true =>
        rw [heq, hp] at hlength
        refine .inl (List.eq_nil_of_length_eq_zero ?_)
        simpa using hlength
    · rintro (rfl | hp)
      · exact hkept (.inl rfl)
      · exact hkept (.inr hp)
  unfold WalksToNothing
  cases hformed : headerFormed d b close with
  | true =>
    rw [hformed] at hwalk
    obtain ⟨pp', hresult, htable⟩ := hwalk
    have hall : d.formed = true ∧ b.formed = true ∧ close.formed = true := by
      simpa [headerFormed] using hformed
    rw [hresult]
    constructor
    · rintro ⟨pp'', h, -⟩
      simp only [Option.some.injEq, Prod.mk.injEq, true_and] at h
      exact ⟨hall.1, hall.2.1, hall.2.2, hkept.mp h.2⟩
    · rintro ⟨-, -, -, h⟩
      rw [hkept.mpr h]
      exact ⟨pp', rfl, htable.trans (hpragmas.table.trans (ppEnterBuffer_table pp buffer))⟩
  | false =>
    rw [hformed] at hwalk
    obtain ⟨pp', output', hresult⟩ := hwalk
    rw [hresult]
    constructor
    · rintro ⟨pp'', h, -⟩
      cases h
    · rintro ⟨hd, hb, hclose, -⟩
      simp [headerFormed, hd, hb, hclose] at hformed

/-- The state after `#define G`. -/
def guardDefined : Preprocessor :=
  { preprocessorInit false false false .internal with
    table := macroTableDefineObject macroTableCreate "G" [] emptyRange }

def guardOpener : CondLine := ⟨lineHead "ifndef" .ifndef 1, [operand "G" .identifier 1]⟩

def guardDefine : List Token := [lineHead "define" .define 2, operand "G" .identifier 2]

/-- `#ifndef G`, `#define G`, `x`, `#endif`. -/
def guardedFile : List Token :=
  [] ++ (guardOpener.tokens ++ ((Blocks.content (guardDefine ++ [lineHead "x" .identifier 3])).tokens ++
    ((⟨lineHead "endif" .endif 4, []⟩ : CondLine).tokens ++ [eofToken])))

theorem guardedFile_header :
    GuardedHeader guardedFile [] guardOpener
      (.content (guardDefine ++ [lineHead "x" .identifier 3])) ⟨lineHead "endif" .endif 4, []⟩
      [eofToken] where
  buffer := rfl
  pragmas := .nil
  opener := by decide
  nested := by decide
  close := by decide
  trailing := by decide

theorem guard_skip_agrees_iff_guardedFile :
    detectIncludeGuard guardedFile = some "G" ∧
      (macroTableLookup guardDefined.table "G").isSome = true ∧
      (WalksToNothing (processInclude noFiles 1) (evalCondition noFiles) guardDefined guardedFile [] ↔
        (guardOpener.formed = true ∧
          (Blocks.content (guardDefine ++ [lineHead "x" .identifier 3])).formed = true ∧
          (⟨lineHead "endif" .endif 4, []⟩ : CondLine).formed = true ∧
          (([] : List Token) = [] ∨ guardDefined.preserveDirectives = false))) :=
  ⟨by decide, by decide,
    guard_skip_agrees_iff (processInclude noFiles 1) (evalCondition noFiles) guardDefined guardedFile []
      [] [eofToken] "G" guardOpener ⟨lineHead "endif" .endif 4, []⟩
      (.content (guardDefine ++ [lineHead "x" .identifier 3])) (.inl (by decide))
      (by decide) guardedFile_header⟩

/-- `#ifndef G`, `#define G`, `#else`, `x`, `#endif`. -/
def guardElseFile : List Token :=
  guardOpener.tokens ++ guardDefine ++
    [lineHead "else" .ppElse 3, lineHead "x" .identifier 4, lineHead "endif" .endif 5, eofToken]

/-- The detectors take `G` for the guard, and the walk writes `x`. -/
theorem guardElseFile_not_skipped :
    detectIncludeGuard guardElseFile = some "G" ∧
      detectIncludeGuardFromSummaryActions guardElseFile
        (analyzeIncludeSummaryProbe guardElseFile).2 = some "G" ∧
      (macroTableLookup guardDefined.table "G").isSome = true ∧
      (preprocessTokens (processInclude noFiles 1) (evalCondition noFiles) guardDefined guardElseFile []
        false).map (fun r => r.2.2.map tokenText) = some ["x"] := by
  refine ⟨?_, ?_, ?_, ?_⟩ <;> decide

end Fisics

