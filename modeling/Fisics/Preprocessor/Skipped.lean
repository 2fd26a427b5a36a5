import Fisics.Preprocessor.Lookahead

/-!
# Skipped groups

A group that is not active is passed line by line: nothing of its contents is
looked at but the conditional directives, which are counted. The operands of
`#ifdef` and `#ifndef` and what stands behind `#else` and `#endif` are checked all
the same, so a group is passed exactly when these lines are well formed.
-/

namespace Fisics

open List (append_assoc mem_cons)

-- Well formed lines

def isOneName : List Token → Bool
  | [name] => tokenIsMacroIdentifier name
  | _ => false

/-- `#ifdef` and `#ifndef` with one name, `#else` and `#endif` with nothing. -/
def CondLine.formed (d : CondLine) : Bool :=
  match d.tok.type with
  | .ifdef | .ifndef => isOneName d.line
  | .ppElse | .endif => d.line.isEmpty
  | _ => true

mutual

def Blocks.formed : Blocks → Bool
  | .content _ => true
  | .group _ opener body tail next =>
    opener.formed && (body.formed && (tail.formed && next.formed))

def Branches.formed : Branches → Bool
  | .endif d => d.formed
  | .elif d body tail => d.formed && (body.formed && tail.formed)
  | .otherwise d body close => d.formed && (body.formed && close.formed)

end

structure SameText (s t : TextState) : Prop where
  output : t.output = s.output
  table : t.pp.table = s.pp.table

inductive Checks (s : TextState) : (formed : Bool) → BlockRun TextState → Prop
  | passes : Checks s true (pure s)
  | fails (h : SameText s t) : Checks s false (.fail t)

theorem nameOperand_checks (d : CondLine) (directive : String) (after : List Token)
    (s : TextState) : Checks s (isOneName d.line) (d.nameOperand directive after s) := by
  unfold CondLine.nameOperand
  obtain _ | ⟨name, _ | ⟨extra, more⟩⟩ := d.line
  · exact .fails ⟨rfl, rfl⟩
  · simp only [isOneName, List.isEmpty_nil, ↓reduceIte]
    cases tokenIsMacroIdentifier name with
    | true => exact .passes
    | false => exact .fails ⟨rfl, rfl⟩
  · simp only [isOneName, List.isEmpty_cons]
    cases tokenIsMacroIdentifier name with
    | true | false => exact .fails ⟨rfl, rfl⟩

theorem noOperand_checks (d : CondLine) (message : String) (s : TextState) :
    Checks s d.line.isEmpty (d.noOperand message s) := by
  unfold CondLine.noOperand
  cases d.line with
  | nil => exact .passes
  | cons name more => exact .fails ⟨rfl, rfl⟩

theorem check_checks (d : CondLine) (after : List Token) (s : TextState) :
    Checks s d.formed (d.check after s) := by
  unfold CondLine.formed
  split
  · rename_i htype
    simp only [CondLine.check, htype]
    exact nameOperand_checks d "ifdef" after s
  · rename_i htype
    simp only [CondLine.check, htype]
    exact nameOperand_checks d "ifndef" after s
  iterate 2
    · rename_i htype
      simp only [CondLine.check, htype]
      exact noOperand_checks d _ s
  unfold CondLine.check
  split
  all_goals first
    | exact .passes
    | exact absurd ‹_› ‹_›

-- Passing a piece of the stream

section
variable (handler : IncludeHandler) (eval : EvalCondition)

/-- The walk goes over `tokens` and changes nothing but the stack. -/
def Passes (s : TextState) (stack : List PPConditionalFrame) (tokens after : List Token)
    (stack' : List PPConditionalFrame) : Prop :=
  Relation.ReflTransGen (WalkMoves handler eval) (false, ⟨s, stack⟩, tokens ++ after)
    (false, ⟨s, stack'⟩, after)

/-- The walk fails in a round that starts at one of the tokens, with the output
and the macros as they were. -/
def FailsInside (s : TextState) (stack : List PPConditionalFrame) (tokens after : List Token) :
    Prop :=
  ∃ s' tok rest t, Relation.ReflTransGen (WalkMoves handler eval)
      (false, ⟨s, stack⟩, tokens ++ after) (false, s', tok :: rest) ∧
    after.length ≤ rest.length ∧ walkStep handler eval false s' tok rest = some (.stop t) ∧
    SameText s t

def Skips (formed : Bool) (s : TextState) (stack : List PPConditionalFrame)
    (tokens after : List Token) (stack' : List PPConditionalFrame) : Prop :=
  if formed then Passes handler eval s stack tokens after stack'
  else FailsInside handler eval s stack tokens after

variable {handler : IncludeHandler} {eval : EvalCondition}

theorem Skips.append (h : Skips handler eval formed s stack tokens behind stack')
    (hbehind : behind = tokens' ++ after)
    (h' : Skips handler eval formed' s stack' tokens' after stack'') :
    Skips handler eval (formed && formed') s stack (tokens ++ tokens') after stack'' := by
  subst hbehind
  unfold Skips Passes FailsInside at *
  rw [append_assoc]
  cases formed with
  | false =>
    obtain ⟨s', tok, rest, t, hreach, hlength, hstop⟩ := h
    rw [List.length_append] at hlength
    exact ⟨s', tok, rest, t, hreach, by omega, hstop⟩
  | true => ?_
  cases formed' with
  | false =>
    obtain ⟨s', tok, rest, t, hreach, hstop⟩ := h'
    exact ⟨s', tok, rest, t, .trans h hreach, hstop⟩
  | true => exact .trans h h'

-- Contents and lines

theorem flushThen_nil (h : s.chunk = []) (k : TextState → Option (WalkStep σ)) : flushThen s k = k s := by
  obtain ⟨pp, chunk, output⟩ := s
  cases h
  rfl

theorem flushRun_nil (h : s.chunk = []) : flushRun s = pure s := by
  obtain ⟨pp, chunk, output⟩ := s
  cases h
  rfl

theorem inactiveStep_next (s : TextState) (tok : Token) (rest : List Token) :
    ∃ taken, inactiveStep s tok rest = some (.next taken s) := by
  unfold inactiveStep
  split
  all_goals exact ⟨_, rfl⟩

section
variable {d : CondLine} (hinactive : conditionalStackIsActive stack = false)

include hinactive in
theorem content_passes (ts : List Token) (hok : ContentOk ts after) :
    Passes handler eval s stack ts after stack := by
  induction hlength : ts.length using Nat.strongRecOn generalizing ts with
  | ind n ih =>
    cases ts with
    | nil => exact .refl
    | cons t ts => ?_
    obtain ⟨taken, hstep⟩ := inactiveStep_next s t (ts ++ after)
    have hcontent : contentStep handler false (conditionalStackIsActive stack) s t (ts ++ after) =
        some (.next taken s) := by
      rw [hinactive]
      exact hstep
    have htaken := contentStep_taken hok.toDirectiveNext (fun h => absurd h.1 (by simp [hinactive])) hcontent
    have hmove : WalkMoves handler eval (false, ⟨s, stack⟩, t :: (ts ++ after))
        (false, ⟨s, stack⟩, (ts ++ after).drop taken) := by
      refine .round ?_
      rw [walkStep_content handler eval false ⟨s, stack⟩ _ (hok.plain t List.mem_cons_self)]
      simp only [WalkState.active, hcontent]
      rfl
    rw [List.drop_append_of_le_length htaken] at hmove
    refine .head hmove (ih (ts.drop taken).length ?_ (ts.drop taken) ?_ rfl)
    · rw [← hlength, List.length_drop, List.length_cons]
      omega
    · exact ⟨⟨hok.next, fun u rest hu t ht => hok.tail.ownLine u rest hu t (List.mem_of_mem_drop ht)⟩,
        fun t ht => hok.tail.plain t (List.mem_of_mem_drop ht)⟩

theorem StepRuns.of_pure {enter : α → WalkState} (h : StepRuns enter taken step (pure a)) :
    step = some (.next taken (enter a)) := by
  generalize hx : (pure a : BlockRun α) = x at h
  cases h with
  | never => cases hx
  | stop t => cases hx
  | next b =>
    cases hx
    rfl

theorem StepRuns.of_fail {enter : α → WalkState} (h : StepRuns enter taken step (BlockRun.fail t)) :
    step = some (.stop t) := by
  generalize hx : (BlockRun.fail t : BlockRun α) = x at h
  cases h with
  | never => cases hx
  | stop t =>
    cases hx
    rfl
  | next b => cases hx

theorem line_skips {f : TextState → BlockRun α}
    (hchunk : s.chunk = []) (hf : d.formed = true → f s = pure a) (henter : enter a = ⟨s, stack'⟩)
    (h : StepRuns enter d.line.length
      (walkStep handler eval false ⟨s, stack⟩ d.tok (d.line ++ after)) (do
        let s ← flushRun s
        let s ← d.check after s
        f s)) :
    Skips handler eval d.formed s stack d.tokens after stack' := by
  rw [flushRun_nil hchunk, pure_bind] at h
  have hcheck := check_checks d after s
  generalize d.formed = formed at hcheck hf ⊢
  generalize hx : d.check after s = x at hcheck h
  cases hcheck with
  | passes =>
    rw [pure_bind, hf rfl] at h
    have hmove := WalkMoves.round h.of_pure
    rw [List.drop_left, henter] at hmove
    exact .single hmove
  | fails hsame =>
    refine ⟨_, d.tok, d.line ++ after, _, .refl, ?_, h.of_fail, hsame⟩
    rw [List.length_append]
    exact Nat.le_add_left _ _

include hinactive in
theorem opener_skips (hchunk : s.chunk = []) (hok : d.Ok [.ppIf, .ifdef, .ifndef] after) :
    Skips handler eval d.formed s stack d.tokens after (openFrame false false :: stack) := by
  refine line_skips hchunk (a := (false, s))
    (f := fun s => if conditionalStackIsActive stack then d.condition eval s else pure (false, s))
    (fun _ => ?_) ?_ (stepRuns_opener _ _ _ _ hok)
  · rw [hinactive]
    rfl
  · rw [hinactive]

theorem elif_skips (hchunk : s.chunk = []) (hok : d.Ok [.ppElif] after) :
    Skips handler eval d.formed s (openFrame false false :: stack) d.tokens after
      (openFrame false false :: stack) :=
  line_skips hchunk (a := (false, s)) (fun _ => rfl) rfl (stepRuns_elif hok)

theorem else_skips (hchunk : s.chunk = []) (hok : d.Ok [.ppElse] after) :
    Skips handler eval d.formed s (openFrame false false :: stack) d.tokens after
      (⟨false, false, false, true⟩ :: stack) := by
  have h := stepRuns_else handler eval s false false false stack hok
  rw [← bind_pure (flushRun s >>= _), bind_assoc] at h
  exact line_skips hchunk (f := pure) (a := s) (fun _ => rfl) rfl h

theorem endif_skips (hchunk : s.chunk = []) (hok : d.Ok [.endif] after)
    (hframe : frame.selfActive = false) :
    Skips handler eval d.formed s (frame :: stack) d.tokens after stack := by
  refine line_skips hchunk (a := s) (fun _ => ?_) rfl (stepRuns_endif hok)
  rw [hframe]
  rfl

end

-- Trees

mutual

theorem Blocks.skips (hchunk : s.chunk = []) : (b : Blocks) → (after : List Token) →
    b.WellNested after → (stack : List PPConditionalFrame) →
    conditionalStackIsActive stack = false →
    Skips handler eval b.formed s stack b.tokens after stack
  | .content tokens, after, h, stack, hinactive => content_passes hinactive tokens h
  | .group before opener body tail next, after, h, stack, hinactive => by
    obtain ⟨hbefore, hopener, hbody, htail, hnext⟩ := h
    rw [Blocks.tokens, Blocks.formed, ← Bool.true_and (opener.formed && _)]
    refine Skips.append (content_passes hinactive before hbefore) (by simp only [append_assoc]) ?_
    refine (opener_skips hinactive hchunk hopener).append (by simp only [append_assoc]) ?_
    refine (body.skips hchunk _ hbody _ rfl).append (by simp only [append_assoc]) ?_
    exact (tail.skips hchunk _ htail stack).append rfl (next.skips hchunk after hnext stack hinactive)

theorem Branches.skips (hchunk : s.chunk = []) : (b : Branches) → (after : List Token) →
    b.WellNested after → (stack : List PPConditionalFrame) →
    Skips handler eval b.formed s (openFrame false false :: stack) b.tokens after stack
  | .endif d, after, h, stack => endif_skips hchunk h rfl
  | .elif d body tail, after, h, stack => by
    obtain ⟨hd, hbody, htail⟩ := h
    refine (elif_skips hchunk hd).append (by simp only [append_assoc]) ?_
    exact (body.skips hchunk _ hbody _ rfl).append rfl (tail.skips hchunk after htail stack)
  | .otherwise d body close, after, h, stack => by
    obtain ⟨hd, hbody, hclose⟩ := h
    refine (else_skips hchunk hd).append (by simp only [append_assoc]) ?_
    exact (body.skips hchunk _ hbody _ rfl).append rfl (endif_skips hchunk hclose rfl)

end

-- Inputs with a skipped group

theorem walkMoves_unique : Relator.RightUnique (WalkMoves handler eval) := by
  intro c c₁ c₂ h₁ h₂
  cases h₁ with
  | round hstep₁ =>
    cases h₂ with
    | round hstep₂ =>
      rw [hstep₁] at hstep₂
      cases hstep₂
      rfl

theorem walkLoop_reaches (h : Relation.ReflTransGen (WalkMoves handler eval) c c') :
    walkLoop handler eval c.1 0 c.2.1 c.2.2 = walkLoop handler eval c'.1 0 c'.2.1 c'.2.2 := by
  induction h with
  | refl => rfl
  | tail _ hmove ih => exact ih.trans (walkLoop_moves hmove)

theorem Passes.not_fails (h : Passes handler eval s stack tokens after stack') :
    ¬FailsInside handler eval s stack tokens after := by
  rintro ⟨s', tok, rest, t, hreach, hlength, hstop, -⟩
  obtain hto | hfrom := Relation.ReflTransGen.total_of_right_unique walkMoves_unique hreach h
  · obtain heq | ⟨c, hmove, -⟩ := hto.cases_head
    · have := congrArg (·.2.2.length) heq
      simp only [List.length_cons] at this
      omega
    · cases hmove with
      | round hstep =>
        rw [hstop] at hstep
        cases hstep
  · have := reaches_length hfrom
    simp only [List.length_cons] at this
    omega

theorem flushThen_chunk (h : flushThen s k = some (.next taken s')) :
    ∃ t, t.chunk = [] ∧ k t = some (.next taken s') := by
  unfold flushThen at h
  dsimp only at h
  split at h
  · exact ⟨_, rfl, h⟩
  · cases h

theorem finishConditional_chunk (h : finishConditional t r = .next taken s') : s'.chunk = t.chunk := by
  unfold finishConditional at h
  split at h
  · cases h
    rfl
  · cases h

theorem walkStep_chunk (hd : tok.type ∈ [.ppIf, .ifdef, .ifndef, .ppElif, .ppElse])
    (h : walkStep handler eval first s tok rest = some (.next taken s')) : s'.chunk = [] := by
  simp only [mem_cons, List.not_mem_nil, or_false] at hd
  obtain htype | htype | htype | htype | htype := hd
  all_goals simp only [walkStep, htype] at h
  · obtain ⟨t, ht, hk⟩ := flushThen_chunk h
    obtain ⟨r, -, heq⟩ := Option.map_eq_some_iff.mp hk
    exact (finishConditional_chunk heq).trans ht
  iterate 2
    · obtain ⟨t, ht, hk⟩ := flushThen_chunk h
      exact (finishConditional_chunk (Option.some.inj hk)).trans ht
  · obtain ⟨t, ht, hk⟩ := flushThen_chunk h
    obtain ⟨r, -, heq⟩ := Option.map_eq_some_iff.mp hk
    exact (finishConditional_chunk heq).trans ht
  · obtain ⟨t, ht, hk⟩ := flushThen_chunk h
    split at hk
    · cases hk
    dsimp only at hk
    split at hk
    · cases hk
      exact ht
    · cases hk

/-- What follows the line of a directive does not matter for a round that
succeeds. -/
theorem processIfdeflike_line {d : CondLine} (hline : directiveLine d.tok (d.line ++ body) = d.line)
    (hline' : directiveLine d.tok (d.line ++ body') = d.line)
    (h : finishConditional t (processIfdeflike t.pp stack d.tok (d.line ++ body) negate) =
      .next taken s') :
    finishConditional t (processIfdeflike t.pp stack d.tok (d.line ++ body') negate) =
      .next taken s' := by
  cases hd : d.line with
  | nil =>
    rw [hd, List.nil_append] at h
    unfold processIfdeflike at h
    cases body with
    | nil => cases h
    | cons u rest =>
      dsimp only at h
      rw [if_neg (line_nil hline hd rfl)] at h
      cases h
  | cons name more =>
    obtain ⟨hname, hmore⟩ := line_cons hline hd
    obtain ⟨-, hmore'⟩ := line_cons hline' hd
    rw [hd, List.cons_append, processIfdeflike] at h
    rw [List.cons_append, processIfdeflike]
    simp only [hname, hmore, hmore', true_and] at h ⊢
    split at h
    · rename_i hident
      split at h
      · rename_i hempty
        rw [if_pos hident, if_pos hempty]
        exact h
      · cases h
    · cases h

theorem walkStep_line {d : CondLine} (hd : d.Ok [.ppIf, .ifdef, .ifndef, .ppElif, .ppElse] body)
    (hd' : d.Ok [.ppIf, .ifdef, .ifndef, .ppElif, .ppElse] body')
    (h : walkStep handler eval first s d.tok (d.line ++ body) = some (.next taken s')) :
    walkStep handler eval first s d.tok (d.line ++ body') = some (.next taken s') := by
  have hline := hd.line
  have hline' := hd'.line
  have htype := hd.type
  simp only [mem_cons, List.not_mem_nil, or_false] at htype
  obtain htype | htype | htype | htype | htype := htype
  all_goals simp only [walkStep, htype] at h ⊢
  · unfold processIf at h ⊢
    simpa only [hline, hline'] using h
  iterate 2
    · unfold flushThen at h ⊢
      dsimp only at h ⊢
      split at h
      · rename_i hflush
        rw [if_pos hflush]
        exact congrArg some (processIfdeflike_line hline hline' (Option.some.inj h))
      · cases h
  · unfold processElif at h ⊢
    simpa only [hline, hline'] using h
  · unfold walkElse flushThen at h ⊢
    simp only [ppDirectiveHasTrailingTokens, skipToLineEnd, hline, hline'] at h ⊢
    split at h
    · rename_i hflush
      rw [if_pos hflush]
      split at h
      · cases h
      rename_i htrailing
      rw [if_neg htrailing]
      exact h
    · cases h

end

section
variable (handler : IncludeHandler) (eval : EvalCondition)

structure SkippedGroup (start : TextState) (before : List Token) (d : CondLine)
    (body : List Token) (s : TextState) (stack : List PPConditionalFrame) : Prop where
  line : d.Ok [.ppIf, .ifdef, .ifndef, .ppElif, .ppElse] body
  ownLine : ∀ t ∈ before, t.line ≠ d.tok.line
  reaches : ∃ first s₁, Relation.ReflTransGen (WalkMoves handler eval)
      (true, ⟨start, []⟩, before ++ (d.tokens ++ body)) (first, s₁, d.tokens ++ body) ∧
    walkStep handler eval first s₁ d.tok (d.line ++ body) = some (.next d.line.length ⟨s, stack⟩)
  inactive : conditionalStackIsActive stack = false

variable {handler : IncludeHandler} {eval : EvalCondition}

theorem SkippedGroup.chunk (h : SkippedGroup handler eval start before d body s stack) : s.chunk = [] := by
  obtain ⟨first, s₁, -, hstep⟩ := h.reaches
  exact walkStep_chunk h.line.type hstep

theorem SkippedGroup.reaches_body (h : SkippedGroup handler eval start before d body s stack) :
    Relation.ReflTransGen (WalkMoves handler eval)
      (true, ⟨start, []⟩, before ++ (d.tokens ++ body)) (false, ⟨s, stack⟩, body) := by
  obtain ⟨first, s₁, hreach, hstep⟩ := h.reaches
  have hmove := WalkMoves.round hstep
  rw [List.drop_left] at hmove
  exact hreach.tail hmove

theorem SkippedGroup.replace (hlocal : HandlerLocal handler)
    (h : SkippedGroup handler eval start before d body s stack)
    (hline : d.Ok [.ppIf, .ifdef, .ifndef, .ppElif, .ppElse] body') :
    SkippedGroup handler eval start before d body' s stack := by
  refine ⟨hline, h.ownLine, ?_, h.inactive⟩
  obtain ⟨first, s₁, hreach, hstep⟩ := h.reaches
  have hcond : isConditionalType d.tok.type = true := by
    have htype := h.line.type
    simp only [mem_cons, List.not_mem_nil, or_false] at htype
    obtain htype | htype | htype | htype | htype := htype <;> rw [htype] <;> rfl
  have hlength : (lineTokens d.tok.line (d.tok :: (d.line ++ body))).length =
      (lineTokens d.tok.line (d.tok :: (d.line ++ body'))).length := by
    have hl := h.line.line
    have hl' := hline.line
    unfold directiveLine lineTokens at hl hl'
    unfold lineTokens
    rw [List.takeWhile_cons, List.takeWhile_cons, hl, hl']
  exact ⟨first, s₁, reaches_before hcond hlocal _ _ hlength before h.ownLine hreach,
    walkStep_line h.line hline hstep⟩

theorem ppEnterBuffer_before (pp : Preprocessor) (before : List Token) (d : CondLine)
    (body body' : List Token) :
    ppEnterBuffer pp (before ++ (d.tokens ++ body)) = ppEnterBuffer pp (before ++ (d.tokens ++ body')) := by
  cases before <;> rfl

end

/-- The two inputs, which differ in the contents of the skipped group, have the
same result, and the walk does not fail inside the group. -/
structure Inert (handler : IncludeHandler) (eval : EvalCondition) (pp : Preprocessor)
    (output before : List Token) (d : CondLine) (b b' : Blocks) (after : List Token)
    (s : TextState) (stack : List PPConditionalFrame) : Prop where
  result : ∀ appendEOF,
    preprocessTokens handler eval pp (before ++ (d.tokens ++ (b.tokens ++ after))) output appendEOF =
      preprocessTokens handler eval pp (before ++ (d.tokens ++ (b'.tokens ++ after))) output appendEOF
  passes : ¬FailsInside handler eval s stack b.tokens after
  passes' : ¬FailsInside handler eval s stack b'.tokens after

/-- The contents of a skipped group do not matter exactly when the directives in
them are well formed. -/
theorem skipped_inert_iff (host : Host) (depth : Nat) (pp : Preprocessor)
    (output before after : List Token) (d : CondLine) (b b' : Blocks) (s : TextState)
    (stack : List PPConditionalFrame)
    (hgroup : SkippedGroup (processInclude host depth) (evalCondition host)
      ⟨ppEnterBuffer pp (before ++ (d.tokens ++ (b.tokens ++ after))), [], output⟩ before d
      (b.tokens ++ after) s stack)
    (hline : d.Ok [.ppIf, .ifdef, .ifndef, .ppElif, .ppElse] (b'.tokens ++ after))
    (hnested : b.WellNested after) (hnested' : b'.WellNested after) :
    Inert (processInclude host depth) (evalCondition host) pp output before d b b' after s stack ↔
      (b.formed = true ∧ b'.formed = true) := by
  have hskips : Skips (processInclude host depth) (evalCondition host) b.formed s stack b.tokens
      after stack := b.skips hgroup.chunk after hnested stack hgroup.inactive
  have hskips' : Skips (processInclude host depth) (evalCondition host) b'.formed s stack b'.tokens
      after stack := b'.skips hgroup.chunk after hnested' stack hgroup.inactive
  constructor
  · rintro ⟨-, hpasses, hpasses'⟩
    constructor
    · by_contra hformed
      rw [Bool.not_eq_true] at hformed
      rw [hformed] at hskips
      exact hpasses hskips
    · by_contra hformed
      rw [Bool.not_eq_true] at hformed
      rw [hformed] at hskips'
      exact hpasses' hskips'
  · rintro ⟨hformed, hformed'⟩
    rw [hformed] at hskips
    rw [hformed'] at hskips'
    refine ⟨fun appendEOF => ?_, Passes.not_fails hskips, Passes.not_fails hskips'⟩
    have hgroup' := hgroup.replace (processInclude_local host depth) hline
    have hloop := walkLoop_reaches (.trans hgroup.reaches_body hskips)
    have hloop' := walkLoop_reaches (.trans hgroup'.reaches_body hskips')
    unfold preprocessTokens
    rw [ppEnterBuffer_before pp before d (b'.tokens ++ after) (b.tokens ++ after)]
    exact congrArg _ (hloop.trans hloop'.symm)

/-- `#ifdef Y`, the directive of a group that is skipped. -/
def skippedOpener : CondLine := ⟨lineHead "ifdef" .ifdef 1, [operand "Y" .identifier 1]⟩

def nestedIfdef (operands : List Token) : Blocks :=
  .group [] ⟨lineHead "ifdef" .ifdef 2, operands⟩ (.content [])
    (.endif ⟨lineHead "endif" .endif 3, []⟩) (.content [])

def lastEndif : List Token := [lineHead "endif" .endif 4]

theorem skippedOpener_group :
    SkippedGroup (processInclude noFiles 1) (evalCondition noFiles)
      ⟨ppEnterBuffer (preprocessorInit false false false .internal)
        ([] ++ (skippedOpener.tokens ++ ((nestedIfdef [operand "X" .identifier 2]).tokens ++ lastEndif))),
        [], []⟩ [] skippedOpener
      ((nestedIfdef [operand "X" .identifier 2]).tokens ++ lastEndif)
      ⟨ppEnterBuffer (preprocessorInit false false false .internal) skippedOpener.tokens, [], []⟩
      [⟨true, false, false, false⟩] where
  line := by decide
  ownLine := by simp
  reaches := ⟨true, _, .refl, rfl⟩
  inactive := rfl

theorem skipped_inert_iff_malformed :
    SkippedGroup (processInclude noFiles 1) (evalCondition noFiles)
        ⟨ppEnterBuffer (preprocessorInit false false false .internal)
          ([] ++ (skippedOpener.tokens ++
            ((nestedIfdef [operand "X" .identifier 2]).tokens ++ lastEndif))), [], []⟩ [] skippedOpener
        ((nestedIfdef [operand "X" .identifier 2]).tokens ++ lastEndif)
        ⟨ppEnterBuffer (preprocessorInit false false false .internal) skippedOpener.tokens, [], []⟩
        [⟨true, false, false, false⟩] ∧
      (Inert (processInclude noFiles 1) (evalCondition noFiles)
          (preprocessorInit false false false .internal) [] [] skippedOpener
          (nestedIfdef [operand "X" .identifier 2]) (nestedIfdef []) lastEndif
          ⟨ppEnterBuffer (preprocessorInit false false false .internal) skippedOpener.tokens, [], []⟩
          [⟨true, false, false, false⟩] ↔
        ((nestedIfdef [operand "X" .identifier 2]).formed = true ∧ (nestedIfdef []).formed = true)) :=
  ⟨skippedOpener_group, skipped_inert_iff noFiles 1 (preprocessorInit false false false .internal) []
    [] lastEndif skippedOpener (nestedIfdef [operand "X" .identifier 2]) (nestedIfdef [])
    ⟨ppEnterBuffer (preprocessorInit false false false .internal) skippedOpener.tokens, [], []⟩
    [⟨true, false, false, false⟩] skippedOpener_group (by decide) (by decide)
    (by decide)⟩

/-- A nested `#ifdef` without a name makes the walk fail, although its group is
skipped. -/
theorem nestedIfdef_not_inert :
    (nestedIfdef [operand "X" .identifier 2]).WellNested lastEndif ∧
      (nestedIfdef []).WellNested lastEndif ∧
      (preprocessTokens (processInclude noFiles 1) (evalCondition noFiles)
        (preprocessorInit false false false .internal)
        (skippedOpener.tokens ++ ((nestedIfdef [operand "X" .identifier 2]).tokens ++ lastEndif)) []
        false).map (·.1) = some true ∧
      (preprocessTokens (processInclude noFiles 1) (evalCondition noFiles)
        (preprocessorInit false false false .internal)
        (skippedOpener.tokens ++ ((nestedIfdef []).tokens ++ lastEndif)) [] false).map (·.1) =
        some false := by
  refine ⟨?_, ?_, ?_, ?_⟩ <;> decide

end Fisics
