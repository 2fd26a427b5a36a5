import Fisics.Preprocessor.ContentLaws

/-!
# The walk runs the blocks

The walk over a well-nested stream does what the tree of the stream says: the
same rounds with the same active flags, the same evaluations and the same
outcome, for every handler of includes and every evaluation of conditions. The
stack of frames is the path to the current line, and a frame holds what the walk
has to know of its group.

`Walks` is the statement for a piece of the stream: the walk over the piece is a
run, and goes on behind it with a state that depends on the value of the run.
Pieces compose like runs.
-/

namespace Fisics

-- Runs that return

def BlockRun.Returns (x : BlockRun α) (a : α) : Prop := ∃ log, x = some (log, .ok a)

theorem BlockRun.bind_returns {f : α → BlockRun β}
    (h : (x >>= f).Returns b) : ∃ a, x.Returns a ∧ (f a).Returns b := by
  obtain ⟨log, h⟩ := h
  obtain _ | ⟨log', _ | a⟩ := x
  · cases h
  · cases h
  · refine ⟨a, ⟨log', rfl⟩, ?_⟩
    obtain ⟨⟨log'', r⟩, hf, heq⟩ := Option.map_eq_some_iff.mp h
    simp only [Prod.mk.injEq] at heq
    exact ⟨log'', heq.2 ▸ hf⟩

theorem BlockRun.round_returns :
    (BlockRun.round tok active x).Returns a ↔ x.Returns a := by
  obtain _ | ⟨log, r⟩ := x
  · constructor <;> rintro ⟨log, h⟩ <;> cases h
  · constructor
    · rintro ⟨log', h⟩
      cases h
      exact ⟨log, rfl⟩
    · rintro ⟨log', h⟩
      cases h
      exact ⟨(tok, active) :: log, rfl⟩

theorem BlockRun.bind_congr {f g : α → BlockRun β}
    (h : ∀ a, x.Returns a → f a = g a) : x >>= f = x >>= g := by
  obtain _ | ⟨log, _ | a⟩ := x
  · rfl
  · rfl
  · show Option.map _ (f a) = Option.map _ (g a)
    rw [h a ⟨log, rfl⟩]

-- Pieces of the stream

section
variable (handler : IncludeHandler) (eval : EvalCondition)

def walkNext (rest : List Token) : WalkStep WalkState → BlockRun WalkState
  | .next taken s => walkTrace handler eval false taken s rest
  | .stop s => .fail s

theorem walkTrace_cons (first : Bool) (s : WalkState) (tok : Token) (rest : List Token) :
    walkTrace handler eval first 0 s (tok :: rest) =
      BlockRun.round tok s.active
        (BlockRun.after (walkStep handler eval first s tok rest) (walkNext handler eval rest)) := by
  rw [walkTrace]
  rfl

theorem walkTrace_skip (ts after : List Token) (s : WalkState) :
    walkTrace handler eval false ts.length s (ts ++ after) = walkTrace handler eval false 0 s after := by
  induction ts with
  | nil => rfl
  | cons t ts ih => exact ih

theorem walkStep_content (first : Bool) (s : WalkState) (rest : List Token)
    (h : isConditionalType tok.type = false) :
    walkStep handler eval first s tok rest =
      (contentStep handler first s.active s.toTextState tok rest).map (·.map (⟨·, s.stack⟩)) := by
  unfold walkStep
  split <;> simp_all [isConditionalType]

theorem walkStep_first (first : Bool) (s : WalkState) (rest : List Token)
    (h : isConditionalType tok.type = true) :
    walkStep handler eval first s tok rest = walkStep handler eval false s tok rest := by
  unfold walkStep
  split <;> simp_all [isConditionalType]

theorem walkTrace_first (first : Bool) (s : WalkState)
    (h : ∀ u rest, after = u :: rest → isConditionalType u.type = true) :
    walkTrace handler eval first 0 s after = walkTrace handler eval false 0 s after := by
  cases after with
  | nil => rfl
  | cons u rest =>
    rw [walkTrace_cons, walkTrace_cons, walkStep_first handler eval first s rest (h u rest rfl)]

def RoundOk (s : WalkState) (tok : Token) (rest : List Token) : Prop :=
  ¬SwallowsDirective s.active s.toTextState tok rest

theorem everyRound_first (first : Bool) (s : WalkState)
    (h : ∀ u rest, after = u :: rest → isConditionalType u.type = true)
    (hrounds : EveryRound handler eval RoundOk first 0 s after) :
    EveryRound handler eval RoundOk false 0 s after := by
  cases after with
  | nil => trivial
  | cons u rest =>
    refine ⟨hrounds.1, fun taken s' hstep => hrounds.2 taken s' ?_⟩
    rw [walkStep_first handler eval first s rest (h u rest rfl)]
    exact hstep

theorem everyRound_skip (ts after : List Token) (s : WalkState)
    (h : EveryRound handler eval RoundOk false ts.length s (ts ++ after)) :
    EveryRound handler eval RoundOk false 0 s after := by
  induction ts with
  | nil => exact h
  | cons t ts ih => exact ih h

/-- The walk over `tokens` is the run `x`, and goes on with `after` in the state
`next`. -/
def Walks (first : Bool) (s : WalkState) (tokens after : List Token) (x : BlockRun α)
    (next : α → WalkState) : Prop :=
  EveryRound handler eval RoundOk first 0 s (tokens ++ after) →
    walkTrace handler eval first 0 s (tokens ++ after) =
        (x >>= fun a => walkTrace handler eval false 0 (next a) after) ∧
      ∀ a, x.Returns a → EveryRound handler eval RoundOk false 0 (next a) after

variable {handler : IncludeHandler} {eval : EvalCondition}

theorem Walks.bind {f : α → BlockRun β}
    (hx : Walks handler eval first s tokens behind x next)
    (hbehind : behind = tokens' ++ after)
      (hf : ∀ a, Walks handler eval false (next a) tokens' after (f a) next') :
    Walks handler eval first s (tokens ++ tokens') after (x >>= f) next' := by
  intro hrounds
  subst hbehind
  rw [List.append_assoc] at hrounds ⊢
  obtain ⟨htrace, hreturns⟩ := hx hrounds
  refine ⟨?_, fun b hb => ?_⟩
  · rw [htrace, bind_assoc]
    exact BlockRun.bind_congr fun a ha => (hf a (hreturns a ha)).1
  · obtain ⟨a, ha, hfa⟩ := BlockRun.bind_returns hb
    exact (hf a (hreturns a ha)).2 b hfa

theorem Walks.pure (s : WalkState) (h : ∀ u rest, after = u :: rest → isConditionalType u.type = true)
    (next : α → WalkState) (hnext : next a = s) :
    Walks handler eval first s [] after (Pure.pure a) next := by
  intro hrounds
  subst hnext
  refine ⟨?_, ?_⟩
  · rw [pure_bind]
    exact walkTrace_first handler eval first _ h
  · rintro b ⟨log, hb⟩
    cases hb
    exact everyRound_first handler eval first _ h hrounds

-- Contents

theorem ContentOk.tail (h : ContentOk (t :: ts) after) : ContentOk ts after where
  plain u hu := h.plain u (List.mem_cons_of_mem t hu)
  next := h.next
  ownLine u rest hu v hv := h.ownLine u rest hu v (List.mem_cons_of_mem t hv)

theorem contentRun_walks (ts : List Token) (hok : ContentOk ts after) (hskip : skip ≤ ts.length)
    (hrounds : EveryRound handler eval RoundOk first skip ⟨s, stack⟩ (ts ++ after)) :
    walkTrace handler eval first skip ⟨s, stack⟩ (ts ++ after) =
        (contentRun handler (conditionalStackIsActive stack) after first skip ts s >>= fun s =>
          walkTrace handler eval false 0 ⟨s, stack⟩ after) ∧
      ∀ s', (contentRun handler (conditionalStackIsActive stack) after first skip ts s).Returns s' →
        EveryRound handler eval RoundOk false 0 ⟨s', stack⟩ after := by
  induction ts generalizing first skip s with
  | nil =>
    cases Nat.le_zero.mp hskip
    exact Walks.pure ⟨s, stack⟩ hok.next (⟨·, stack⟩) rfl hrounds
  | cons t ts ih =>
    cases skip with
    | succ skip => exact ih hok.tail (Nat.le_of_succ_le_succ hskip) hrounds
    | zero => ?_
    have hstep := walkStep_content handler eval first ⟨s, stack⟩ (ts ++ after)
      (hok.plain t List.mem_cons_self)
    rw [List.cons_append] at hrounds ⊢
    obtain ⟨hround, hmore⟩ := hrounds
    rw [walkTrace_cons, contentRun, BlockRun.round_bind, BlockRun.after_bind]
    simp only [BlockRun.round_returns]
    cases hcontent : contentStep handler first (conditionalStackIsActive stack) s t (ts ++ after) with
    | none =>
      simp only [WalkState.active, hcontent] at hstep
      rw [hstep]
      refine ⟨rfl, ?_⟩
      rintro s' ⟨log, hs'⟩
      cases hs'
    | some step =>
      simp only [WalkState.active, hcontent, Option.map_some] at hstep
      rw [hstep]
      cases step with
      | stop s' =>
        refine ⟨rfl, ?_⟩
        rintro s' ⟨log, hs'⟩
        cases hs'
      | next taken s' => ?_
      have htaken := contentStep_taken hok.toDirectiveNext hround hcontent
      obtain ⟨htrace, hreturns⟩ := ih hok.tail htaken (hmore taken ⟨s', stack⟩ hstep)
      simp only [BlockRun.after_some]
      refine ⟨?_, hreturns⟩
      rw [← htrace]
      rfl

theorem walks_content (hok : ContentOk ts after) :
    Walks handler eval first ⟨s, stack⟩ ts after
      (contentRun handler (conditionalStackIsActive stack) after first 0 ts s) (⟨·, stack⟩) :=
  contentRun_walks ts hok (Nat.zero_le _)

-- Conditional lines

inductive StepRuns (enter : α → WalkState) (taken : Nat) :
    Option (WalkStep WalkState) → BlockRun α → Prop
  | never : StepRuns enter taken none none
  | stop (s : TextState) : StepRuns enter taken (some (.stop s)) (.fail s)
  | next (a : α) : StepRuns enter taken (some (.next taken (enter a))) (pure a)

theorem walks_line (d : CondLine)
    (h : StepRuns enter d.line.length (walkStep handler eval false s d.tok (d.line ++ after)) x) :
    Walks handler eval false s d.tokens after (BlockRun.round d.tok s.active x) enter := by
  intro hrounds
  rw [CondLine.tokens, List.cons_append] at hrounds ⊢
  obtain ⟨-, hmore⟩ := hrounds
  rw [walkTrace_cons, BlockRun.round_bind]
  generalize hstep : walkStep handler eval false s d.tok (d.line ++ after) = step at h
  cases h with
  | never | stop t =>
    refine ⟨rfl, ?_⟩
    rintro a ⟨log, ha⟩
    cases ha
  | next a => ?_
  refine ⟨?_, ?_⟩
  · rw [pure_bind, BlockRun.after_some, walkNext, walkTrace_skip]
  · rintro b ⟨log, hb⟩
    cases hb
    exact everyRound_skip handler eval d.line after (enter a) (hmore _ _ hstep)

theorem StepRuns.flush
    (h : ∀ t, StepRuns enter taken (k t) (f t)) :
    StepRuns enter taken (flushThen s k) (flushRun s >>= f) := by
  unfold flushThen flushRun
  dsimp only
  split
  · rw [pure_bind]
    exact h _
  · exact .stop _

section
variable {d : CondLine} {after : List Token} (hline : directiveLine d.tok (d.line ++ after) = d.line)

include hline in
theorem line_cons (h : d.line = name :: more) :
    name.line = d.tok.line ∧ lineTokens d.tok.line (more ++ after) = more := by
  rw [h, directiveLine, lineTokens, List.cons_append, List.takeWhile_cons] at hline
  split at hline
  · rename_i hname
    simp only [Bool.and_eq_true, beq_iff_eq] at hname
    exact ⟨hname.2, List.tail_eq_of_cons_eq hline⟩
  · cases hline

include hline in
theorem line_nil (h : d.line = []) (hafter : after = u :: rest) :
    ¬(u.line = d.tok.line ∧ tokenIsMacroIdentifier u = true) := by
  rw [h, hafter, directiveLine, lineTokens, List.nil_append, List.takeWhile_cons] at hline
  split at hline
  · cases hline
  rename_i hu
  rintro ⟨hl, hname⟩
  refine hu ?_
  have heof : u.type ≠ .eof := by
    intro heof
    simp [tokenIsMacroIdentifier, heof] at hname
    exact absurd hname.2 (by decide)
  simp [hl, heof]

include hline in
theorem stepRuns_ifdeflike (t : TextState) (stack : List PPConditionalFrame) (negate : Bool)
    (hdirective : directive = if negate then "ifndef" else "ifdef") :
    StepRuns (fun r : Bool × TextState =>
        ⟨r.2, openFrame (conditionalStackIsActive stack) r.1 :: stack⟩) d.line.length
      (some (finishConditional t (processIfdeflike t.pp stack d.tok (d.line ++ after) negate)))
      (d.nameOperand directive after t >>= fun t =>
        if conditionalStackIsActive stack then
          let defined := d.line.head?.any fun name =>
            (macroTableLookup t.pp.table (tokenText name)).isSome
          pure (if negate then !defined else defined, t)
        else pure (false, t)) := by
  subst hdirective
  unfold CondLine.nameOperand
  cases hd : d.line with
  | nil =>
    rw [List.nil_append]
    cases hafter : after with
    | nil => exact .stop _
    | cons u rest => ?_
    unfold processIfdeflike
    simp only
    rw [if_neg (line_nil hline hd hafter)]
    exact .stop _
  | cons name more =>
    obtain ⟨hname, hmore⟩ := line_cons hline hd
    rw [List.cons_append, processIfdeflike]
    simp only [hname, true_and, hmore]
    split
    · split
      · rename_i hnil
        obtain rfl := List.isEmpty_iff.mp hnil
        cases hactive : conditionalStackIsActive stack with
        | false => exact .next (false, t)
        | true =>
          let defined := (macroTableLookup t.pp.table (tokenText name)).isSome
          exact .next (if negate then !defined else defined, t)
      · rename_i hnil
        obtain ⟨extra, more, rfl⟩ := List.exists_cons_of_ne_nil (fun h : more = [] => hnil (by rw [h]; rfl))
        exact .stop _
    · exact .stop _

theorem stepRuns_evaluated (t : TextState) (x : Option (Option Bool × Preprocessor))
    (enter : Bool × TextState → WalkState) (stack : Bool → List PPConditionalFrame)
    (henter : ∀ c t, enter (c, t) = ⟨t, stack c⟩) (below : List PPConditionalFrame) :
    StepRuns enter taken
      ((x.map fun (condition, pp) =>
        match condition with
        | some condition => (⟨true, pp, stack condition, taken⟩ : CondResult)
        | none => ⟨false, pp, below, 0⟩).map (finishConditional t))
      (BlockRun.after x fun
        | (some value, pp) => pure (value, { t with pp })
        | (none, pp) => .fail { t with pp }) := by
  obtain _ | ⟨_ | value, pp⟩ := x
  · exact .never
  · exact .stop _
  · have h : StepRuns enter taken (some (.next taken (enter (value, { t with pp }))))
        (pure (value, { t with pp })) := .next _
    rw [henter] at h
    exact h

include hline in
theorem stepRuns_if (htype : d.tok.type = .ppIf) (t : TextState) (stack : List PPConditionalFrame) :
    StepRuns (fun r : Bool × TextState =>
        ⟨r.2, openFrame (conditionalStackIsActive stack) r.1 :: stack⟩) d.line.length
      ((processIf eval t.pp stack d.tok (d.line ++ after)).map (finishConditional t))
      (if conditionalStackIsActive stack then d.condition eval t else pure (false, t)) := by
  unfold processIf CondLine.condition
  simp only [hline, htype]
  split
  · rename_i hactive
    simp only [hactive]
    exact stepRuns_evaluated t _ _ _ (fun _ _ => rfl) stack
  rename_i hactive
  rw [Bool.not_eq_true] at hactive
  rw [hactive]
  exact .next (false, t)

include hline in
theorem stepRuns_processElif (htype : d.tok.type = .ppElif) (t : TextState)
    (stack : List PPConditionalFrame) (active current taken : Bool) :
    StepRuns (fun r : Bool × TextState =>
        ⟨r.2, ⟨active, active && r.1, taken || r.1, false⟩ :: stack⟩) d.line.length
      ((processElif eval t.pp (⟨active, current, taken, false⟩ :: stack) d.tok
        (d.line ++ after)).map (finishConditional t))
      (if active && !taken then d.condition eval t else pure (false, t)) := by
  unfold processElif CondLine.condition
  simp only [hline, htype, Bool.false_eq_true, ↓reduceIte]
  split
  · rename_i heval
    obtain ⟨rfl, htaken⟩ := Bool.and_eq_true_iff.mp heval
    obtain rfl : taken = false := by simpa using htaken
    exact stepRuns_evaluated t _ _ _ (fun _ _ => rfl) _
  let enter (r : Bool × TextState) : WalkState :=
    ⟨r.2, ⟨active, active && r.1, taken || r.1, false⟩ :: stack⟩
  have h : StepRuns enter d.line.length (some (.next d.line.length (enter (false, t))))
      (pure (false, t)) := .next _
  simp only [enter, Bool.and_false, Bool.or_false] at h
  exact h

include hline in
theorem trailing_iff : ppDirectiveHasTrailingTokens d.tok (d.line ++ after) = !d.line.isEmpty := by
  rw [ppDirectiveHasTrailingTokens, hline]

include hline in
theorem stepRuns_bare (message : String) (t : TextState)
    (hx : d.line = [] → StepRuns enter 0 x (f t)) :
    StepRuns enter d.line.length
      (if ppDirectiveHasTrailingTokens d.tok (d.line ++ after) then
        stopTrailing t (d.line ++ after) message
      else x) (d.noOperand message t >>= f) := by
  rw [trailing_iff hline, CondLine.noOperand]
  cases hd : d.line with
  | nil =>
    simp only [List.isEmpty_nil, Bool.not_true, Bool.false_eq_true, ↓reduceIte]
    rw [pure_bind]
    exact hx hd
  | cons name more => exact .stop _

-- The lines of a group

theorem stepRuns_opener (handler : IncludeHandler) (eval : EvalCondition) (s : TextState)
    (stack : List PPConditionalFrame) (hok : d.Ok [.ppIf, .ifdef, .ifndef] after) :
    StepRuns (fun r : Bool × TextState =>
        ⟨r.2, openFrame (conditionalStackIsActive stack) r.1 :: stack⟩) d.line.length
      (walkStep handler eval false ⟨s, stack⟩ d.tok (d.line ++ after)) (do
        let s ← flushRun s
        let s ← d.check after s
        if conditionalStackIsActive stack then d.condition eval s else pure (false, s)) := by
  have htype := hok.type
  simp only [List.mem_cons, List.not_mem_nil, or_false] at htype
  obtain htype | htype | htype := htype
  · simp only [walkStep, htype, CondLine.check, pure_bind]
    exact .flush fun t => stepRuns_if hok.line htype t stack
  · simp only [walkStep, htype, CondLine.check, CondLine.condition]
    exact .flush fun t => stepRuns_ifdeflike hok.line t stack false rfl
  · simp only [walkStep, htype, CondLine.check, CondLine.condition]
    exact .flush fun t => stepRuns_ifdeflike hok.line t stack true rfl

theorem walks_opener (hok : d.Ok [.ppIf, .ifdef, .ifndef] after) :
    Walks handler eval false ⟨s, stack⟩ d.tokens after
      (d.choose eval (conditionalStackIsActive stack) (conditionalStackIsActive stack) after s)
      (fun r => ⟨r.2, openFrame (conditionalStackIsActive stack) r.1 :: stack⟩) :=
  walks_line d (stepRuns_opener _ _ _ _ hok)

theorem stepRuns_elif (hok : d.Ok [.ppElif] after) :
    StepRuns (fun r : Bool × TextState =>
        ⟨r.2, ⟨active, active && r.1, taken || r.1, false⟩ :: stack⟩) d.line.length
      (walkStep handler eval false ⟨s, ⟨active, current, taken, false⟩ :: stack⟩ d.tok
        (d.line ++ after)) (do
        let s ← flushRun s
        let s ← d.check after s
        if active && !taken then d.condition eval s else pure (false, s)) := by
  have htype : d.tok.type = .ppElif := by simpa using hok.type
  simp only [walkStep, htype, CondLine.check, pure_bind]
  exact .flush fun t => stepRuns_processElif hok.line htype t stack active current taken

theorem walks_elif (hok : d.Ok [.ppElif] after) :
    Walks handler eval false ⟨s, ⟨active, current, taken, false⟩ :: stack⟩ d.tokens after
      (d.choose eval current (active && !taken) after s)
      (fun r => ⟨r.2, ⟨active, active && r.1, taken || r.1, false⟩ :: stack⟩) :=
  walks_line d (stepRuns_elif hok)

theorem stepRuns_else (handler : IncludeHandler) (eval : EvalCondition) (s : TextState)
    (active current taken : Bool) (stack : List PPConditionalFrame) (hok : d.Ok [.ppElse] after) :
    StepRuns
      (fun t => ⟨t, ⟨active, active && !taken, taken || (active && !taken), true⟩ :: stack⟩)
      d.line.length
      (walkStep handler eval false ⟨s, ⟨active, current, taken, false⟩ :: stack⟩ d.tok
        (d.line ++ after)) (do
        let s ← flushRun s
        d.check after s) := by
  have htype : d.tok.type = .ppElse := by simpa using hok.type
  simp only [walkStep, htype, CondLine.check, walkElse]
  refine .flush fun t => ?_
  rw [← bind_pure (d.noOperand _ t)]
  refine stepRuns_bare hok.line _ t fun hnil => ?_
  rw [skipToLineEnd, hok.line, hnil]
  exact .next t

theorem walks_else (hok : d.Ok [.ppElse] after) :
    Walks handler eval false ⟨s, ⟨active, current, taken, false⟩ :: stack⟩ d.tokens after
      (d.turn current after s)
      (fun t => ⟨t, ⟨active, active && !taken, taken || (active && !taken), true⟩ :: stack⟩) :=
  walks_line d (stepRuns_else _ _ _ _ _ _ _ hok)

theorem stepRuns_endif (hok : d.Ok [.endif] after) :
    StepRuns (⟨·, stack⟩) d.line.length
      (walkStep handler eval false ⟨s, frame :: stack⟩ d.tok (d.line ++ after)) (do
        let s ← flushRun s
        let s ← d.check after s
        pure (if frame.selfActive then preserveLine s d.tok (d.line ++ after) else s)) := by
  have htype : d.tok.type = .endif := by simpa using hok.type
  simp only [walkStep, htype, CondLine.check, walkEndif]
  refine .flush fun t => stepRuns_bare hok.line _ t fun hnil => ?_
  rw [processEndif, skipToLineEnd, hok.line, hnil]
  exact .next (if frame.selfActive then preserveLine t d.tok ([] ++ after) else t)

theorem walks_endif (hok : d.Ok [.endif] after) :
    Walks handler eval false ⟨s, frame :: stack⟩ d.tokens after (d.close frame.selfActive after s)
      (⟨·, stack⟩) :=
  walks_line d (stepRuns_endif hok)

end

-- Trees

mutual

theorem Blocks.walks : (b : Blocks) → b.WellNested after → (first : Bool) → (s : TextState) →
    (stack : List PPConditionalFrame) →
    Walks handler eval first ⟨s, stack⟩ b.tokens after
      (b.run handler eval first (conditionalStackIsActive stack) after s) (⟨·, stack⟩)
  | .content tokens, h, first, s, stack => walks_content h
  | .group before opener body tail next, h, first, s, stack => by
    obtain ⟨hbefore, hopener, hbody, htail, hnext⟩ := h
    refine (walks_content hbefore).bind (by simp only [List.append_assoc]) fun s => ?_
    refine (walks_opener hopener).bind (by simp only [List.append_assoc]) fun r => ?_
    refine (body.walks hbody false r.2 _).bind (by simp only [List.append_assoc]) fun s => ?_
    exact (tail.walks htail s stack _ _).bind rfl fun s => next.walks hnext false s stack

theorem Branches.walks : (b : Branches) → b.WellNested after → (s : TextState) →
    (stack : List PPConditionalFrame) → (current taken : Bool) →
    Walks handler eval false
      ⟨s, ⟨conditionalStackIsActive stack, current, taken, false⟩ :: stack⟩ b.tokens after
      (b.run handler eval (conditionalStackIsActive stack) current taken after s) (⟨·, stack⟩)
  | .endif d, h, s, stack, current, taken => walks_endif h
  | .elif d body tail, h, s, stack, current, taken => by
    obtain ⟨hd, hbody, htail⟩ := h
    refine (walks_elif hd).bind (by simp only [List.append_assoc]) fun r => ?_
    exact (body.walks hbody false r.2 _).bind rfl fun s => tail.walks htail s stack _ _
  | .otherwise d body close, h, s, stack, current, taken => by
    obtain ⟨hd, hbody, hclose⟩ := h
    refine (walks_else hd).bind (by simp only [List.append_assoc]) fun s => ?_
    exact (body.walks hbody false s _).bind rfl fun s => walks_endif hclose

end

-- The frames

/-- An active group has an active parent and has taken a branch, and a frame
remembers whether the frame below was active. -/
def FramesOk : List PPConditionalFrame → Prop
  | [] => True
  | frame :: below =>
    (frame.selfActive = true → frame.parentActive = true ∧ frame.branchTaken = true) ∧
      frame.parentActive = conditionalStackIsActive below ∧ FramesOk below

theorem openFrame_framesOk (h : FramesOk stack) (condition : Bool) :
    FramesOk (openFrame (conditionalStackIsActive stack) condition :: stack) := by
  refine ⟨fun hself => ?_, rfl, h⟩
  exact ⟨(Bool.and_eq_true_iff.mp hself).1, hself⟩

theorem processIf_framesOk (h : FramesOk stack)
    (hr : processIf eval pp stack tok rest = some r) (hok : r.ok = true) : FramesOk r.stack := by
  unfold processIf at hr
  split at hr
  · rename_i hactive
    obtain ⟨⟨_ | condition, pp'⟩, -, rfl⟩ := Option.map_eq_some_iff.mp hr
    · cases hok
    · have := openFrame_framesOk h condition
      rwa [hactive] at this
  · rename_i hactive
    rw [Bool.not_eq_true] at hactive
    cases hr
    have := openFrame_framesOk h false
    rwa [hactive] at this

theorem processIfdeflike_framesOk (h : FramesOk stack)
    (hok : (processIfdeflike pp stack tok rest negate).ok = true) :
    FramesOk (processIfdeflike pp stack tok rest negate).stack := by
  unfold processIfdeflike at hok ⊢
  dsimp only at hok ⊢
  split at hok
  · cases hok
  split at hok
  · rename_i hname
    rw [if_pos hname]
    split at hok
    · rename_i hempty
      rw [if_pos hempty]
      exact openFrame_framesOk h _
    · cases hok
  · cases hok

theorem processElif_framesOk (h : FramesOk stack)
    (hr : processElif eval pp stack tok rest = some r) (hok : r.ok = true) : FramesOk r.stack := by
  unfold processElif at hr
  split at hr
  · cases hr
    exact h
  split at hr
  · cases hr
    exact h
  obtain ⟨-, hparent, hbelow⟩ := h
  split at hr
  · rename_i heval
    obtain ⟨⟨_ | condition, pp'⟩, -, rfl⟩ := Option.map_eq_some_iff.mp hr
    · cases hok
    · exact ⟨fun hself => ⟨(Bool.and_eq_true_iff.mp heval).1, hself⟩, hparent, hbelow⟩
  · cases hr
    exact ⟨(fun hself => nomatch hself), hparent, hbelow⟩

theorem processElse_framesOk (pp : Preprocessor) (tok : Token) (h : FramesOk stack) :
    FramesOk (processElse pp stack tok).2.2 := by
  unfold processElse
  split
  · exact h
  split
  · exact h
  obtain ⟨-, hparent, hbelow⟩ := h
  refine ⟨fun hself => ⟨(Bool.and_eq_true_iff.mp hself).1, ?_⟩, hparent, hbelow⟩
  exact Bool.or_eq_true_iff.mpr (.inr hself)

theorem processEndif_framesOk (h : FramesOk stack) : FramesOk (processEndif pp stack tok).2.2 := by
  unfold processEndif
  split
  · exact h
  · exact h.2.2

theorem finishConditional_next (h : finishConditional t r = .next taken s') :
    r.ok = true ∧ s'.stack = r.stack := by
  unfold finishConditional at h
  split at h
  · cases h
    exact ⟨‹_›, rfl⟩
  · cases h

theorem walkStep_framesOk (h : FramesOk s.stack)
    (hstep : walkStep handler eval first s tok rest = some (.next taken s')) :
    FramesOk s'.stack := by
  have hfinish : ∀ {t r}, finishConditional t r = .next taken s' →
      (r.ok = true → FramesOk r.stack) → FramesOk s'.stack := by
    intro t r hr hframes
    obtain ⟨hok, hstack⟩ := finishConditional_next hr
    exact hstack ▸ hframes hok
  unfold walkStep at hstep
  split at hstep
  · obtain ⟨t, -, hk⟩ := flushThen_next hstep
    obtain ⟨r, hr, heq⟩ := Option.map_eq_some_iff.mp hk
    exact hfinish heq (processIf_framesOk h hr)
  · obtain ⟨t, -, hk⟩ := flushThen_next hstep
    obtain ⟨r, hr, heq⟩ := Option.map_eq_some_iff.mp hk
    exact hfinish heq (processElif_framesOk h hr)
  · obtain ⟨t, -, hk⟩ := flushThen_next hstep
    split at hk
    · cases hk
    have := processElse_framesOk t.pp tok h
    dsimp only at hk
    split at hk
    · cases hk
      exact this
    · cases hk
  · obtain ⟨t, -, hk⟩ := flushThen_next hstep
    split at hk
    · cases hk
    dsimp only at hk
    generalize (if s.active then preserveLine t tok rest else t) = t' at hk
    split at hk
    · cases hk
      exact processEndif_framesOk h
    · cases hk
  iterate 2
    · obtain ⟨t, -, hk⟩ := flushThen_next hstep
      exact hfinish (Option.some.inj hk) (processIfdeflike_framesOk h)
  · obtain ⟨step, -, heq⟩ := Option.map_eq_some_iff.mp hstep
    cases step with
    | stop t => cases heq
    | next taken t =>
      cases heq
      exact h

inductive WalkMoves (handler : IncludeHandler) (eval : EvalCondition) :
    Bool × WalkState × List Token → Bool × WalkState × List Token → Prop
  | round (h : walkStep handler eval first s tok rest = some (.next taken s')) :
    WalkMoves handler eval (first, s, tok :: rest) (false, s', rest.drop taken)

theorem walkLoop_drop (s : WalkState) (tokens : List Token) :
    walkLoop handler eval false skip s tokens = walkLoop handler eval false 0 s (tokens.drop skip) := by
  induction tokens generalizing skip with
  | nil => cases skip <;> rfl
  | cons tok rest ih =>
    cases skip with
    | zero => rfl
    | succ skip => exact ih

theorem walkLoop_moves (h : WalkMoves handler eval c c') :
    walkLoop handler eval c.1 0 c.2.1 c.2.2 = walkLoop handler eval c'.1 0 c'.2.1 c'.2.2 := by
  cases h with
  | round hstep =>
    rw [walkLoop, hstep]
    exact walkLoop_drop _ _

theorem reachable_framesOk (hframes : FramesOk c.2.1.stack)
    (h : Relation.ReflTransGen (WalkMoves handler eval) c c') : FramesOk c'.2.1.stack := by
  induction h with
  | refl => exact hframes
  | tail _ hmove ih =>
    cases hmove with
    | round hstep => exact walkStep_framesOk ih hstep

-- The walk and the blocks

end

/-- The walk over a well-nested stream makes the rounds of its tree, with the
tree's active flags, and has the tree's outcome; the frames are in order in every
state that a walk over any stream reaches. -/
theorem walk_runs_blocks (handler : IncludeHandler) (eval : EvalCondition) (b : Blocks)
    (s : TextState) (hnested : b.WellNested [])
    (hrounds : EveryRound handler eval RoundOk true 0 ⟨s, []⟩ b.tokens) :
    walkTrace handler eval true 0 ⟨s, []⟩ b.tokens =
        (b.run handler eval true true [] s >>= fun s => pure ⟨s, []⟩) ∧
      walkLoop handler eval true 0 ⟨s, []⟩ b.tokens =
        (b.run handler eval true true [] s >>= fun s =>
          (pure ⟨s, []⟩ : BlockRun WalkState)).outcome ∧
      ∀ tokens c, Relation.ReflTransGen (WalkMoves handler eval) (true, ⟨s, []⟩, tokens) c →
        FramesOk c.2.1.stack := by
  have hwalks : Walks handler eval true ⟨s, []⟩ b.tokens [] (b.run handler eval true true [] s) (⟨·, []⟩) :=
    b.walks hnested true s []
  rw [Walks, List.append_nil] at hwalks
  obtain ⟨htrace, -⟩ := hwalks hrounds
  refine ⟨htrace, ?_, fun tokens c => reachable_framesOk trivial⟩
  rw [← walkTrace_outcome, htrace]
  rfl

/-- A directive or a word at the start of a line of `a.c`. -/
def lineHead (text : String) (type : TokenType) (line : Int) : Token :=
  makeSimpleToken type text (fileLine "a.c" line 1)

def operand (text : String) (type : TokenType) (line : Int) : Token :=
  makeSimpleToken type text (fileLine "a.c" line 9)

/-- `#if 1`, `x`, `#ifdef Y`, `y`, `#endif`, `#else`, `z`, `#endif`. -/
def nestedGroups : Blocks :=
  .group [] ⟨lineHead "if" .ppIf 1, [operand "1" .number 1]⟩
    (.group [lineHead "x" .identifier 2] ⟨lineHead "ifdef" .ifdef 3, [operand "Y" .identifier 3]⟩
      (.content [lineHead "y" .identifier 4]) (.endif ⟨lineHead "endif" .endif 5, []⟩) (.content []))
    (.otherwise ⟨lineHead "else" .ppElse 6, []⟩ (.content [lineHead "z" .identifier 7])
      ⟨lineHead "endif" .endif 8, []⟩) (.content [])

theorem nestedGroups_runs :
    nestedGroups.WellNested [] ∧
      EveryRound (processInclude noFiles 1) (evalCondition noFiles) RoundOk true 0
        ⟨⟨preprocessorInit false true false .internal, [], []⟩, []⟩ nestedGroups.tokens ∧
      walkTrace (processInclude noFiles 1) (evalCondition noFiles) true 0
          ⟨⟨preprocessorInit false true false .internal, [], []⟩, []⟩ nestedGroups.tokens =
        (nestedGroups.run (processInclude noFiles 1) (evalCondition noFiles) true true []
          ⟨preprocessorInit false true false .internal, [], []⟩ >>= fun s => pure ⟨s, []⟩) := by
  have hnested : nestedGroups.WellNested [] := by decide
  have hrounds : EveryRound (processInclude noFiles 1) (evalCondition noFiles) RoundOk true 0
      ⟨⟨preprocessorInit false true false .internal, [], []⟩, []⟩ nestedGroups.tokens := by
    refine everyRound_of_tokens _ _ RoundOk (fun tok htok s rest hswallows => ?_) true 0 _
    have hdefine : ∀ tok ∈ nestedGroups.tokens, tok.type ≠ .define := by decide
    exact hdefine tok htok hswallows.2.2.1
  exact ⟨hnested, hrounds, (walk_runs_blocks (processInclude noFiles 1) (evalCondition noFiles)
    nestedGroups ⟨preprocessorInit false true false .internal, [], []⟩ hnested hrounds).1⟩

/-- `#define`, `#if 0`, `x`, `#endif`. -/
def swallowedIf : Blocks :=
  .group [lineHead "define" .define 1] ⟨lineHead "if" .ppIf 2, [operand "0" .number 2]⟩
    (.content [lineHead "x" .identifier 3]) (.endif ⟨lineHead "endif" .endif 4, []⟩) (.content [])

/-- Where missing includes are forgiven, the `#if` is skipped with the nameless
`#define` before it, and `x` is active. -/
theorem swallowedIf_not_runs :
    swallowedIf.WellNested [] ∧
      walkTrace (processInclude noFiles 1) (evalCondition noFiles) true 0
          ⟨⟨preprocessorInit false true false .internal, [], []⟩, []⟩ swallowedIf.tokens ≠
        (swallowedIf.run (processInclude noFiles 1) (evalCondition noFiles) true true []
          ⟨preprocessorInit false true false .internal, [], []⟩ >>= fun s => pure ⟨s, []⟩) := by
  refine ⟨by decide, fun h => ?_⟩
  have hlog := congrArg (Option.map Prod.fst) h
  revert hlog
  decide

end Fisics
