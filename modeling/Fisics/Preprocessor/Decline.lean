import Fisics.Preprocessor.GuardLaws

/-!
# Replays that decline

`process_include` walks a header when its replay declines, and counts on the
output and the macro table being as they were. The router replay tests its raw
ranges before it starts; the scaffold replay tests them as it comes to them. Both
have defined the guard by then, so a range that can no longer be copied is found
too late: the walk that follows meets a defined guard and skips the header.

A replay declines cleanly exactly when every raw range that it comes to can still
be copied there.
-/

namespace Fisics

-- Declining

/-- The state is as before the call, and the walk of `process_include` starts from
it; the count of router replays and the memos of the actions apart. -/
structure DeclinesCleanly (host : Host) (handler : IncludeHandler) (body : IncludeBody)
    (pp : Preprocessor) (output : List Token) (r : ReplayEnd) : Prop where
  sameOutput : r.output = output
  sameTable : r.pp.table = pp.table
  walk : replayOrWalk host handler body (some r) =
    preprocessTokens handler (evalCondition host)
      ({ pp with replaySeen := r.pp.replaySeen }.modifyFile body.index
        (fun file => { file with summaryActions := r.actions })) body.buffer output false

inductive ReplayEnds (host : Host) (handler : IncludeHandler) (pp : Preprocessor)
    (body : IncludeBody) (output : List Token) (appendEOF : Bool) (r : ReplayEnd) : Prop
  | router (h : preprocessTokensRouterReplay host handler pp body.buffer body.probe body.actions
      output appendEOF = some r)
  | scaffold (h : preprocessTokensScaffoldReplay handler pp body.buffer body.probe body.actions
      output appendEOF = some r)
  | summary (h : preprocessTokensSummaryReplay handler (evalCondition host) pp body.buffer
      body.actions output appendEOF = some r)

-- What a replay comes to

def routerStart (host : Host) (pp : Preprocessor) (body : IncludeBody) :
    Option (Preprocessor × List IncludeSummaryAction) :=
  if (!body.probe.routerOnly && !body.probe.routerRawTail) || body.actions.isEmpty ||
      pp.preserveDirectives then none
  else
    let pp := ppEnterBuffer pp body.buffer
    let pp := { pp with replaySeen := pp.replaySeen + 1 }
    if host.routerReplayLimit < pp.replaySeen then none
    else
      let (canRun, actions) :=
        ppRouterReplayCanRun pp.table body.buffer body.probe.routerRawTail body.actions
      if canRun then some (pp, actions) else none

def scaffoldStart (pp : Preprocessor) (body : IncludeBody) :
    Option (Preprocessor × List IncludeSummaryAction) :=
  if body.probe.behaviorClass ≠ .includeDefineScaffold ∨ body.actions.isEmpty ∨
      pp.preserveDirectives then none
  else some (ppEnterBuffer pp body.buffer, body.actions)

inductive ReplayMoves (handler : IncludeHandler) (buffer : List Token) (rawAllowed : Bool) :
    Preprocessor × List Token × List IncludeSummaryAction →
    Preprocessor × List Token × List IncludeSummaryAction → Prop
  | action (h : guardedAction handler buffer rawAllowed pp output action =
      some (.ok (), pp', output', action')) :
    ReplayMoves handler buffer rawAllowed (pp, output, action :: rest) (pp', output', rest)

/-- Every raw range that the replay comes to can be copied with the table of that
moment. -/
def RawRangesClone (handler : IncludeHandler) (buffer : List Token) (rawAllowed : Bool)
    (output : List Token) (start : Preprocessor × List IncludeSummaryAction) : Prop :=
  ∀ pp' output' action after,
    Relation.ReflTransGen (ReplayMoves handler buffer rawAllowed) (start.1, output, start.2)
      (pp', output', action :: after) →
    action.kind = .rawRange →
    (ppSummaryActionRawRangeCanCloneDirect pp'.table buffer action).1 = true

-- Runs of the loop

section
variable {handler : IncludeHandler} {buffer : List Token} {rawAllowed : Bool}

theorem guardedReplayLoop_reaches (hreach : Relation.ReflTransGen
      (ReplayMoves handler buffer rawAllowed) (pp, output, actions) (pp', output', action :: after))
    (h : guardedAction handler buffer rawAllowed pp' output' action =
      some (.error result, pp'', output'', action')) (done : List IncludeSummaryAction) :
    ∃ actions', guardedReplayLoop handler buffer rawAllowed done pp output actions =
      some ⟨result, pp'', output'', actions'⟩ := by
  generalize hc : (pp, output, actions) = c at hreach
  induction hreach using Relation.ReflTransGen.head_induction_on generalizing done pp output actions with
  | refl =>
    cases hc
    refine ⟨done ++ action' :: after, ?_⟩
    rw [guardedReplayLoop, h]
    rfl
  | head hmove _ ih =>
    obtain ⟨hstep⟩ := hmove
    cases hc
    obtain ⟨actions', hloop⟩ := ih _ rfl
    refine ⟨actions', ?_⟩
    rw [guardedReplayLoop, hstep]
    exact hloop

theorem guardedReplayLoop_stops (h : guardedReplayLoop handler buffer rawAllowed done pp output
      actions = some r) (hresult : r.result ≠ .used) :
    ∃ pp' output' action after action', Relation.ReflTransGen
        (ReplayMoves handler buffer rawAllowed) (pp, output, actions) (pp', output', action :: after) ∧
      guardedAction handler buffer rawAllowed pp' output' action =
        some (.error r.result, r.pp, r.output, action') := by
  induction actions generalizing done pp output with
  | nil =>
    cases h
    exact absurd rfl hresult
  | cons action actions ih =>
    obtain ⟨⟨e, pp₁, output₁, action₁⟩, hstep, hrest⟩ := Option.bind_eq_some_iff.mp h
    cases e with
    | error result =>
      cases hrest
      exact ⟨pp, output, action, actions, action₁, .refl, hstep⟩
    | ok u =>
      obtain ⟨pp', output', action', after, action'', hreach, hstop⟩ := ih hrest
      exact ⟨pp', output', action', after, action'', .head (.action hstep) hreach, hstop⟩

end

-- Classified headers

def IncludeSummaryAction.forget (action : IncludeSummaryAction) : IncludeSummaryAction :=
  { action with
    directCloneMacroSerial := 0
    directCloneMemoValid := false
    directCloneMemoResult := false }

/-- The tokens come from a file, and the classes of the probe are those of the
actions, for the table of the moment when they were computed. -/
structure Classified (body : IncludeBody) : Prop where
  located : ∀ tok ∈ body.buffer, (tokenFile tok).isSome = true
  routerOnly : body.probe.routerOnly = true →
    classifyIncludeSummaryRouterOnly body.buffer body.actions body.guard = true
  routerRawTail : body.probe.routerRawTail = true →
    classifyIncludeSummaryRouterRawTail body.buffer body.actions body.guard = true
  scaffold : body.probe.behaviorClass = .includeDefineScaffold → ∃ table,
    classifyIncludeSummaryIncludeDefineScaffold table body.buffer body.actions body.guard = true

theorem classifyProbe_classified (table : MacroTable) (body : IncludeBody)
    (hlocated : ∀ tok ∈ body.buffer, (tokenFile tok).isSome = true)
    (hprobe : body.probe = classifyProbe table body.buffer body.actions body.guard
      ⟨.candidate, .unknown, false, false⟩) : Classified body := by
  simp only [classifyProbe, ↓reduceIte] at hprobe
  refine ⟨hlocated, fun h => ?_, fun h => ?_, fun h => ⟨table, ?_⟩⟩
  · rw [hprobe] at h
    exact h
  · rw [hprobe] at h
    exact (Bool.and_eq_true_iff.mp h).2
  · rw [hprobe] at h
    simp only [classifyIncludeSummaryBehaviorClass] at h
    repeat' split at h
    all_goals first
      | assumption
      | cases h

section
variable {rules : ClassifyRules} {buffer : List Token} {guard : String}

/-- The loop can go through the actions from the state. -/
def Classifies (rules : ClassifyRules) (buffer : List Token) (guard : String) (s : ClassifyState)
    (actions : List IncludeSummaryAction) : Prop :=
  (classifyLoop rules buffer guard s actions).isSome = true

theorem Classifies.head (h : Classifies rules buffer guard s (action :: rest)) :
    ∃ s', classifyAction rules buffer guard rest.isEmpty s action = some s' ∧
      Classifies rules buffer guard s' rest := by
  obtain ⟨final, h⟩ := Option.isSome_iff_exists.mp h
  obtain ⟨s', hs', hrest⟩ := Option.bind_eq_some_iff.mp h
  exact ⟨s', hs', by rw [Classifies, hrest]; rfl⟩

theorem classifyLoop_forget (hraw : ∀ action, rules.rawAllowed action.forget = rules.rawAllowed action)
    (s : ClassifyState) (actions : List IncludeSummaryAction) :
    classifyLoop rules buffer guard s (actions.map IncludeSummaryAction.forget) =
      classifyLoop rules buffer guard s actions := by
  induction actions generalizing s with
  | nil => rfl
  | cons action rest ih =>
    have haction : classifyAction rules buffer guard (rest.map IncludeSummaryAction.forget).isEmpty s
        action.forget = classifyAction rules buffer guard rest.isEmpty s action := by
      rw [List.isEmpty_map]
      unfold classifyAction
      rw [hraw action]
      rfl
    rw [List.map_cons, classifyLoop, classifyLoop, haction]
    congr 1
    funext s'
    exact ih s'

theorem classifyActions_classifies (h : (classifyActions rules buffer actions guard?).any f = true) :
    ∃ guard, Classifies rules buffer guard ⟨false, false, false, false, false⟩ actions := by
  unfold classifyActions at h
  split at h
  · cases h
  rename_i guard
  split at h
  · cases h
  refine ⟨guard, ?_⟩
  unfold Classifies
  cases hloop : classifyLoop rules buffer guard ⟨false, false, false, false, false⟩ actions with
  | none => rw [hloop] at h; cases h
  | some s => rfl

end

theorem ppSummaryActionRawRangeCanCloneDirect_forget (table : MacroTable) (buffer : List Token)
    (action : IncludeSummaryAction) :
    (ppSummaryActionRawRangeCanCloneDirect table buffer action).2.forget = action.forget := by
  unfold ppSummaryActionRawRangeCanCloneDirect
  repeat' split
  all_goals rfl

theorem ppRouterReplayCanRun_forget (table : MacroTable) (buffer : List Token) (rawTail : Bool)
    (actions : List IncludeSummaryAction) :
    (ppRouterReplayCanRun table buffer rawTail actions).2.map IncludeSummaryAction.forget =
      actions.map IncludeSummaryAction.forget := by
  induction actions with
  | nil => rfl
  | cons action rest ih =>
    have hcons : ∀ r : Bool × IncludeSummaryAction, r.2.forget = action.forget →
        (if r.1 then
          ((ppRouterReplayCanRun table buffer rawTail rest).1,
            r.2 :: (ppRouterReplayCanRun table buffer rawTail rest).2)
        else (false, r.2 :: rest)).2.map IncludeSummaryAction.forget =
          (action :: rest).map IncludeSummaryAction.forget := by
      intro r hr
      split
      · rw [List.map_cons, hr, ih, List.map_cons]
      · rw [List.map_cons, hr, List.map_cons]
    refine hcons _ ?_
    repeat' split
    all_goals first
      | rfl
      | exact ppSummaryActionRawRangeCanCloneDirect_forget table buffer action

-- The guard is defined before the first raw range

theorem processDefine_single (first : Bool) (pp : Preprocessor)
    (h : directiveLineMatchesSingleIdentifier ident tok rest = true) :
    ∃ nameTok after, rest = nameTok :: after ∧
      processDefine first pp tok rest = (true, recordMacro pp tok nameTok none [], some 1) := by
  cases rest with
  | nil => cases h
  | cons nameTok after => ?_
  simp only [directiveLineMatchesSingleIdentifier, Bool.and_eq_true, beq_iff_eq, List.isEmpty_iff] at h
  obtain ⟨⟨⟨hline, htype⟩, hvalue⟩, hempty⟩ := h
  have hident : tokenIsMacroIdentifier nameTok = true := by
    simp [tokenIsMacroIdentifier, htype, hvalue]
  have hstarts : startsParameters nameTok after = false := by
    cases after with
    | nil => rfl
    | cons t ts => ?_
    have hhead : (t.type != .eof && t.line == tok.line) = false := by
      by_contra hne
      rw [lineTokens, List.takeWhile_cons_of_pos (by simpa using hne)] at hempty
      cases hempty
    simp only [startsParameters, hline]
    rw [Bool.eq_false_iff]
    intro hparen
    simp only [Bool.and_eq_true, beq_iff_eq] at hparen
    simp [hparen.1.1, hparen.1.2] at hhead
  refine ⟨nameTok, after, rfl, ?_⟩
  simp [processDefine, hline, hident, hstarts, hempty]

section
variable {rules : ClassifyRules} {buffer : List Token} {guard : String} {handler : IncludeHandler}
  {rawAllowed : Bool}

theorem guardDefine_serial (hkind : action.kind = .define)
    (hline : actionLine buffer action (directiveLineMatchesSingleIdentifier guard) = true)
    (h : guardedAction handler buffer rawAllowed pp output action = some (.ok (), pp', output', action')) :
    pp.table.mutationSerial < pp'.table.mutationSerial := by
  unfold actionLine at hline
  unfold guardedAction at h
  simp only [hkind] at h
  split at hline
  · cases hline
  rename_i tok rest hdrop
  obtain ⟨nameTok, after, rfl, hdefine⟩ := processDefine_single (action.start == 0) pp hline
  simp only [hdrop, hdefine, ↓reduceIte, Option.some.injEq, Prod.mk.injEq] at h
  obtain ⟨-, rfl, -, -⟩ := h
  exact Nat.lt_succ_self _

/-- The classes see the guard's define before they allow a raw range. -/
structure ReplayInvariant (rules : ClassifyRules) (buffer : List Token) (guard : String)
    (serial : Nat) (c : Preprocessor × List Token × List IncludeSummaryAction) (s : ClassifyState) :
    Prop where
  classifies : Classifies rules buffer guard s c.2.2
  defined : s.sawDefine = true → serial < c.1.table.mutationSerial

theorem classifyAction_sawDefine (h : classifyAction rules buffer guard last s action = some s')
    (hdefined : s'.sawDefine = true) :
    s.sawDefine = true ∨ action.kind = .define ∧
      actionLine buffer action (directiveLineMatchesSingleIdentifier guard) = true := by
  unfold classifyAction at h
  dsimp only at h
  repeat' split at h
  all_goals cases h
  all_goals first
    | exact .inl hdefined
    | exact .inr ⟨by assumption, by assumption⟩

theorem replayMoves_invariant (hhandler : HandlerKeepsConfig handler)
    (h : ∃ s, ReplayInvariant rules buffer guard serial c s)
    (hmove : ReplayMoves handler buffer rawAllowed c c') (hserial : serial ≤ c.1.table.mutationSerial) :
    (∃ s, ReplayInvariant rules buffer guard serial c' s) ∧ serial ≤ c'.1.table.mutationSerial := by
  obtain ⟨s, hclassifies, hdefined⟩ := h
  obtain ⟨hstep⟩ := hmove
  obtain ⟨s', hs', hrest⟩ := hclassifies.head
  have hle := (guardedAction_config hhandler hstep).serial
  refine ⟨⟨s', hrest, fun hsaw => ?_⟩, Nat.le_trans hserial hle⟩
  obtain hsaw | ⟨hkind, hline⟩ := classifyAction_sawDefine hs' hsaw
  · exact Nat.lt_of_lt_of_le (hdefined hsaw) hle
  · exact Nat.lt_of_le_of_lt hserial (guardDefine_serial hkind hline hstep)

theorem reaches_invariant (hhandler : HandlerKeepsConfig handler)
    (hclassifies : Classifies rules buffer guard ⟨false, false, false, false, false⟩ actions)
    (hreach : Relation.ReflTransGen (ReplayMoves handler buffer rawAllowed) (pp, output, actions) c) :
    ∃ s, ReplayInvariant rules buffer guard pp.table.mutationSerial c s := by
  have hboth : (∃ s, ReplayInvariant rules buffer guard pp.table.mutationSerial c s) ∧
      pp.table.mutationSerial ≤ c.1.table.mutationSerial := by
    induction hreach with
    | refl => exact ⟨⟨_, hclassifies, (fun hsaw => nomatch hsaw)⟩, Nat.le_refl _⟩
    | tail _ hmove ih => exact replayMoves_invariant hhandler ih.1 hmove ih.2
  exact hboth.1

-- Where a replay declines

theorem classifyAction_raw (h : classifyAction rules buffer guard last s action = some s')
    (hkind : action.kind = .rawRange) : s.sawDefine = true ∧ rules.rawAllowed action = true := by
  unfold classifyAction at h
  simp only [hkind] at h
  split at h
  · rename_i hbody
    simp only [ClassifyState.inBody, Bool.and_eq_true] at hbody
    exact ⟨hbody.1.1.2, hbody.2⟩
  · cases h

theorem guardedAction_unclonable (hkind : action.kind = .rawRange)
    (hclone : (ppSummaryActionRawRangeCanCloneDirect pp.table buffer action).1 = false) :
    ∃ action', guardedAction handler buffer rawAllowed pp output action =
      some (.error .unsupported, pp, output, action') := by
  unfold guardedAction
  simp only [hkind]
  cases rawAllowed with
  | false => exact ⟨action, rfl⟩
  | true =>
    refine ⟨(ppSummaryActionRawRangeCanCloneDirect pp.table buffer action).2, ?_⟩
    simp [ppSummaryAppendRawRangeDirect, hclone]

theorem guardedAction_declines (hlocated : ∀ tok ∈ buffer, (tokenFile tok).isSome = true)
    (hraw : rawAllowed = false → ∀ action, rules.rawAllowed action = false)
    (hclass : classifyAction rules buffer guard last s action = some s')
    (h : guardedAction handler buffer rawAllowed pp output action =
      some (.error .unsupported, pp', output', action')) :
    action.kind = .rawRange ∧ (ppSummaryActionRawRangeCanCloneDirect pp.table buffer action).1 = false := by
  unfold guardedAction at h
  dsimp only at h
  split at h
  · rename_i hkind
    -- the directive's token has a file
    have hline : actionLine buffer action pragmaIsOnceDirective = true := by
      by_contra hne
      simp [classifyAction, hkind, hne] at hclass
    unfold actionLine at hline
    split at hline
    · cases hline
    rename_i tok rest hdrop
    obtain ⟨path, hpath⟩ := Option.isSome_iff_exists.mp
      (hlocated tok (List.mem_of_mem_drop (hdrop ▸ List.mem_cons_self)))
    simp [ppRouterMarkPragmaOnce, hdrop, hpath] at h
  · cases h
  · cases h
  · rename_i hkind
    refine ⟨hkind, ?_⟩
    cases rawAllowed with
    | false =>
      have := (classifyAction_raw hclass hkind).2
      rw [hraw rfl action] at this
      cases this
    | true => ?_
    simp only [↓reduceIte, ppSummaryAppendRawRangeDirect] at h
    cases hclone : (ppSummaryActionRawRangeCanCloneDirect pp.table buffer action).1 with
    | false => rfl
    | true => simp [hclone] at h
  · split at h
    · cases h
    · split at h <;> cases h
  iterate 2
    · split at h
      · cases h
      obtain ⟨⟨ok, pp₁, out₁⟩, -, heq⟩ := Option.map_eq_some_iff.mp h
      cases ok <;> cases heq
  · -- no class has other kinds
    unfold classifyAction at hclass
    repeat' split at hclass
    all_goals contradiction

section
variable (hhandler : HandlerKeepsConfig handler)
  (hclassifies : Classifies rules buffer guard ⟨false, false, false, false, false⟩ actions)
include hhandler hclassifies

theorem rawRangesClone_of_table (h : ∀ r,
      guardedReplayLoop handler buffer rawAllowed [] pp output actions = some r →
      r.result = .unsupported → r.pp.table = pp.table) :
    RawRangesClone handler buffer rawAllowed output (pp, actions) := by
  intro pp' output' action after hreach hkind
  by_contra hclone
  obtain ⟨action', hstep⟩ : ∃ action', guardedAction handler buffer rawAllowed pp' output' action =
      some (.error .unsupported, pp', output', action') :=
    guardedAction_unclonable hkind (Bool.eq_false_iff.mpr hclone)
  obtain ⟨actions', hloop⟩ := guardedReplayLoop_reaches hreach hstep []
  obtain ⟨s, hs⟩ := reaches_invariant hhandler hclassifies hreach
  obtain ⟨s', hs', -⟩ := hs.classifies.head
  have hlt := hs.defined (classifyAction_raw hs' hkind).1
  have htable := h _ hloop rfl
  rw [htable] at hlt
  exact absurd hlt (Nat.lt_irrefl _)

theorem RawRangesClone.not_declines (hlocated : ∀ tok ∈ buffer, (tokenFile tok).isSome = true)
    (hraw : rawAllowed = false → ∀ action, rules.rawAllowed action = false)
    (h : RawRangesClone handler buffer rawAllowed output (pp, actions))
    (hloop : guardedReplayLoop handler buffer rawAllowed [] pp output actions = some r) :
    r.result ≠ .unsupported := by
  intro hresult
  obtain ⟨pp', output', action, after, action', hreach, hstep⟩ :=
    guardedReplayLoop_stops hloop (by rw [hresult]; nofun)
  rw [hresult] at hstep
  obtain ⟨s, hs⟩ := reaches_invariant hhandler hclassifies hreach
  obtain ⟨s', hs', -⟩ := hs.classifies.head
  obtain ⟨hkind, hclone⟩ := guardedAction_declines hlocated hraw hs' hstep
  rw [h pp' output' action after hreach hkind] at hclone
  cases hclone

end

end

-- Entry

/-- The state as it was, or with the file of the header entered and the replay
counted. -/
def Entered (pp : Preprocessor) (buffer : List Token) (pp' : Preprocessor) : Prop :=
  pp' = pp ∨ ∃ n, pp' = { ppEnterBuffer pp buffer with replaySeen := n }

theorem ppEnterBuffer_again (pp : Preprocessor) (buffer : List Token) (n i : Nat)
    (f : IncludeFile → IncludeFile) :
    ppEnterBuffer ({ ppEnterBuffer pp buffer with replaySeen := n }.modifyFile i f) buffer =
      ppEnterBuffer ({ pp with replaySeen := n }.modifyFile i f) buffer := by
  unfold ppEnterBuffer
  cases buffer.head?.bind tokenFile with
  | none => rfl
  | some path => ?_
  unfold ppSetBaseFile ppSetLogicalFile Preprocessor.modifyFile
  cases hbase : pp.baseFile with
  | none => cases pp.logicalFile <;> simp
  | some base => cases hlogical : pp.logicalFile <;> simp [hbase, hlogical]

theorem Entered.table (h : Entered pp buffer pp') : pp'.table = pp.table := by
  obtain rfl | ⟨n, rfl⟩ := h
  · rfl
  · exact ppEnterBuffer_table pp buffer

theorem Entered.declines (h : Entered pp body.buffer r.pp) (houtput : r.output = output)
    (hresult : r.result = .unsupported) : DeclinesCleanly host handler body pp output r := by
  refine ⟨houtput, h.table, ?_⟩
  simp only [replayOrWalk, Option.bind_some, hresult, houtput]
  obtain h | ⟨n, h⟩ := h
  · rw [h]
  · unfold preprocessTokens
    rw [h, ppEnterBuffer_again]

section
variable {host : Host} {handler : IncludeHandler} {pp : Preprocessor} {body : IncludeBody}

theorem routerReplay_declines (h : routerStart host pp body = none)
    (hr : preprocessTokensRouterReplay host handler pp body.buffer body.probe body.actions output
      appendEOF = some r) : Entered pp body.buffer r.pp ∧ r.output = output := by
  unfold routerStart at h
  unfold preprocessTokensRouterReplay at hr
  dsimp only at h hr
  split at hr
  · cases hr
    exact ⟨.inl rfl, rfl⟩
  rename_i hentry
  rw [if_neg hentry] at h
  split at hr
  · cases hr
    exact ⟨.inr ⟨_, rfl⟩, rfl⟩
  rename_i hlimit
  rw [if_neg hlimit] at h
  split at hr
  · rename_i hrun
    rw [if_pos hrun] at h
    cases h
  · cases hr
    exact ⟨.inr ⟨_, rfl⟩, rfl⟩

theorem routerReplay_starts (handler : IncludeHandler) (output : List Token) (appendEOF : Bool)
    (h : routerStart host pp body = some start) :
    preprocessTokensRouterReplay host handler pp body.buffer body.probe body.actions output
        appendEOF =
        (guardedReplayLoop handler body.buffer body.probe.routerRawTail [] start.1 output
          start.2).map (appendEofToken appendEOF) ∧
      (body.probe.routerOnly = true ∨ body.probe.routerRawTail = true) ∧
      start.1.table = pp.table ∧
      start.2.map IncludeSummaryAction.forget = body.actions.map IncludeSummaryAction.forget := by
  unfold routerStart at h
  unfold preprocessTokensRouterReplay
  dsimp only at h ⊢
  split at h
  · cases h
  rename_i hentry
  rw [if_neg hentry]
  split at h
  · cases h
  rename_i hlimit
  rw [if_neg hlimit]
  split at h
  · rename_i hrun
    cases h
    rw [if_pos hrun]
    refine ⟨rfl, ?_, ppEnterBuffer_table pp body.buffer, ppRouterReplayCanRun_forget _ _ _ _⟩
    by_contra hclass
    rw [not_or, Bool.not_eq_true, Bool.not_eq_true] at hclass
    simp [hclass] at hentry
  · cases h

theorem scaffoldReplay_declines (h : scaffoldStart pp body = none)
    (hr : preprocessTokensScaffoldReplay handler pp body.buffer body.probe body.actions output
      appendEOF = some r) : Entered pp body.buffer r.pp ∧ r.output = output := by
  unfold scaffoldStart at h
  unfold preprocessTokensScaffoldReplay at hr
  split at hr
  · cases hr
    exact ⟨.inl rfl, rfl⟩
  rename_i hentry
  rw [if_neg hentry] at h
  cases h

theorem scaffoldReplay_starts (handler : IncludeHandler) (output : List Token) (appendEOF : Bool)
    (h : scaffoldStart pp body = some start) :
    preprocessTokensScaffoldReplay handler pp body.buffer body.probe body.actions output appendEOF =
        (guardedReplayLoop handler body.buffer true [] start.1 output start.2).map
          (appendEofToken appendEOF) ∧
      body.probe.behaviorClass = .includeDefineScaffold ∧ start.1.table = pp.table ∧
      start.2 = body.actions := by
  unfold scaffoldStart at h
  unfold preprocessTokensScaffoldReplay
  split at h
  · cases h
  rename_i hentry
  cases h
  rw [if_neg hentry]
  refine ⟨rfl, ?_, ppEnterBuffer_table pp body.buffer, rfl⟩
  by_contra hclass
  exact hentry (.inl hclass)

theorem summaryReplay_declines (hr : preprocessTokensSummaryReplay handler eval pp body.buffer
      body.actions output appendEOF = some r) (hresult : r.result = .unsupported) :
    Entered pp body.buffer r.pp ∧ r.output = output := by
  unfold preprocessTokensSummaryReplay at hr
  split at hr
  · cases hr
    exact ⟨.inr ⟨_, rfl⟩, rfl⟩
  obtain ⟨⟨e, actions⟩, -, rfl⟩ := Option.map_eq_some_iff.mp hr
  cases e with
  | error t => cases hresult
  | ok t =>
    dsimp only at hresult
    split at hresult <;> cases hresult

-- The three replays

theorem loop_clean_iff {guard : String} (hhandler : HandlerKeepsConfig handler)
    (hclassifies : Classifies rules body.buffer guard ⟨false, false, false, false, false⟩ start.2)
    (hlocated : ∀ tok ∈ body.buffer, (tokenFile tok).isSome = true)
    (hraw : rawAllowed = false → ∀ action, rules.rawAllowed action = false)
    (htable : start.1.table = pp.table) :
    (∀ r, (guardedReplayLoop handler body.buffer rawAllowed [] start.1 output start.2).map
        (appendEofToken appendEOF) = some r → r.result = .unsupported →
      DeclinesCleanly host handler body pp output r) ↔
      RawRangesClone handler body.buffer rawAllowed output start := by
  constructor
  · intro h
    refine rawRangesClone_of_table hhandler hclassifies fun r hloop hresult => ?_
    have hend : appendEofToken appendEOF r = r := by simp [appendEofToken, hresult]
    have hclean := h r (by rw [hloop, Option.map_some, hend]) hresult
    exact hclean.sameTable.trans htable.symm
  · intro h r hr hresult
    obtain ⟨r₀, hloop, rfl⟩ := Option.map_eq_some_iff.mp hr
    refine absurd ?_ (h.not_declines hhandler hclassifies hlocated hraw hloop)
    unfold appendEofToken at hresult
    split at hresult <;> exact hresult

theorem router_clean_iff (hhandler : HandlerKeepsConfig handler) (hclass : Classified body) :
    (∀ r, preprocessTokensRouterReplay host handler pp body.buffer body.probe body.actions output
        appendEOF = some r → r.result = .unsupported →
      DeclinesCleanly host handler body pp output r) ↔
      ∀ start, routerStart host pp body = some start →
        RawRangesClone handler body.buffer body.probe.routerRawTail output start := by
  cases hstart : routerStart host pp body with
  | none =>
    refine ⟨(fun _ start h => nomatch h), fun _ r hr hresult => ?_⟩
    obtain ⟨hentered, houtput⟩ := routerReplay_declines hstart hr
    exact hentered.declines houtput hresult
  | some start => ?_
  obtain ⟨hloop, hkind, htable, hforget⟩ := routerReplay_starts handler output appendEOF hstart
  rw [hloop]
  simp only [Option.some.injEq, forall_eq']
  cases hraw : body.probe.routerRawTail with
  | true =>
    obtain ⟨guard, hclassifies⟩ := classifyActions_classifies (hclass.routerRawTail hraw)
    rw [Classifies, ← classifyLoop_forget (fun _ => rfl), ← hforget,
      classifyLoop_forget (fun _ => rfl)] at hclassifies
    exact loop_clean_iff hhandler hclassifies hclass.located nofun htable
  | false =>
    rw [hraw, Bool.false_eq_true, or_false] at hkind
    obtain ⟨guard, hclassifies⟩ := classifyActions_classifies (hclass.routerOnly hkind)
    rw [Classifies, ← classifyLoop_forget (fun _ => rfl), ← hforget,
      classifyLoop_forget (fun _ => rfl)] at hclassifies
    exact loop_clean_iff hhandler hclassifies hclass.located (fun _ _ => rfl) htable

theorem scaffold_clean_iff (hhandler : HandlerKeepsConfig handler) (hclass : Classified body) :
    (∀ r, preprocessTokensScaffoldReplay handler pp body.buffer body.probe body.actions output
        appendEOF = some r → r.result = .unsupported →
      DeclinesCleanly host handler body pp output r) ↔
      ∀ start, scaffoldStart pp body = some start →
        RawRangesClone handler body.buffer true output start := by
  cases hstart : scaffoldStart pp body with
  | none =>
    refine ⟨(fun _ start h => nomatch h), fun _ r hr hresult => ?_⟩
    obtain ⟨hentered, houtput⟩ := scaffoldReplay_declines hstart hr
    exact hentered.declines houtput hresult
  | some start => ?_
  obtain ⟨hloop, hkind, htable, hactions⟩ := scaffoldReplay_starts handler output appendEOF hstart
  rw [hloop]
  simp only [Option.some.injEq, forall_eq']
  obtain ⟨table, hscaffold⟩ := hclass.scaffold hkind
  obtain ⟨guard, hclassifies⟩ := classifyActions_classifies hscaffold
  rw [← hactions] at hclassifies
  exact loop_clean_iff hhandler hclassifies hclass.located nofun htable

end

/-- A declined replay is clean exactly when no raw range that it comes to needs
expansion by then. -/
theorem declined_replay_clean_iff (host : Host) (depth : Nat) (body : IncludeBody)
    (pp : Preprocessor) (output : List Token) (appendEOF : Bool) (hclass : Classified body) :
    (∀ r, ReplayEnds host (processInclude host depth) pp body output appendEOF r →
      r.result = .unsupported →
      DeclinesCleanly host (processInclude host depth) body pp output r) ↔
      (∀ start, routerStart host pp body = some start →
        RawRangesClone (processInclude host depth) body.buffer body.probe.routerRawTail output start) ∧
      (∀ start, scaffoldStart pp body = some start →
        RawRangesClone (processInclude host depth) body.buffer true output start) := by
  have hhandler := processInclude_config host depth
  rw [← router_clean_iff hhandler hclass, ← scaffold_clean_iff hhandler hclass]
  constructor
  · intro h
    exact ⟨fun r hr => h r (.router hr), fun r hr => h r (.scaffold hr)⟩
  · rintro ⟨hrouter, hscaffold⟩ r (hr | hr | hr) hresult
    · exact hrouter r hr hresult
    · exact hscaffold r hr hresult
    · obtain ⟨hentered, houtput⟩ := summaryReplay_declines hr hresult
      exact hentered.declines houtput hresult

/-- `n.h` with the line `#define T int`. -/
def nestedHeader : IncludeFile where
  path := "n.h"
  contents := ['#', 'd', 'e', 'f', 'i', 'n', 'e', ' ', 'T', ' ', 'i', 'n', 't']
  lexedTokens := none
  cachedGuardName := none
  summaryProbe := ⟨.unknown, .unknown, false, false⟩
  summaryActions := []
  pragmaOnce := false
  includedOnce := false
  origin := .includePath
  originIndex := 0

/-- Every include finds `n.h`. -/
def oneHeader : Host :=
  { noFiles with includeResolverLoad := fun resolver _ => (some (0, .includePath, 0), resolver) }

def declineState : Preprocessor :=
  { preprocessorInit false false false .internal with
    resolver := ⟨[nestedHeader, { nestedHeader with path := "a.c", contents := [] }], []⟩ }

def typedefLine (name : String) (line : Int) : List Token :=
  [lineHead "typedef" .kwTypedef line, operand "int" .kwInt line, operand name .identifier line,
    operand ";" .semicolon line]

/-- `#ifndef G`, `#define G`, `typedef int A;`, `#include "n.h"`, `typedef int T;`,
`#endif`. -/
def declineFile : List Token :=
  guardOpener.tokens ++ guardDefine ++ typedefLine "A" 3 ++
    [lineHead "include" .include 4, operand "n.h" .string 4] ++ typedefLine "T" 5 ++
    [lineHead "endif" .endif 6, lineHead "EOF" .eof 7]

def declineBody : IncludeBody where
  index := 1
  path := "a.c"
  buffer := declineFile
  guard := some "G"
  probeSupported := true
  probe := classifyProbe macroTableCreate declineFile (analyzeIncludeSummaryProbe declineFile).2
    (some "G") ⟨.candidate, .unknown, false, false⟩
  actions := (analyzeIncludeSummaryProbe declineFile).2

theorem declineBody_classified : Classified declineBody :=
  classifyProbe_classified macroTableCreate declineBody (by decide) rfl

theorem declined_replay_clean_iff_declineBody :
    Classified declineBody ∧
      ((∀ r, ReplayEnds oneHeader (processInclude oneHeader 2) declineState declineBody [] false r →
        r.result = .unsupported →
        DeclinesCleanly oneHeader (processInclude oneHeader 2) declineBody declineState [] r) ↔
        (∀ start, routerStart oneHeader declineState declineBody = some start →
          RawRangesClone (processInclude oneHeader 2) declineBody.buffer
            declineBody.probe.routerRawTail [] start) ∧
        (∀ start, scaffoldStart declineState declineBody = some start →
          RawRangesClone (processInclude oneHeader 2) declineBody.buffer true [] start)) :=
  ⟨declineBody_classified,
    declined_replay_clean_iff oneHeader 2 declineBody declineState [] false declineBody_classified⟩

/-- The replay writes the first typedef, defines `G` and `T`, and declines at the
second typedef. -/
theorem declineBody_declines :
    (preprocessTokensRouterReplay oneHeader (processInclude oneHeader 2) declineState declineFile
      declineBody.probe declineBody.actions [] false).map
        (fun r => (r.result, r.output.map tokenText, r.pp.table.macros.map (·.name))) =
      some (.unsupported, ["typedef", "int", "A", ";"], ["G", "T"]) := by
  decide

/-- The walk that follows skips the header, whose second typedef is lost. -/
theorem declineBody_not_clean :
    Classified declineBody ∧
      ¬(∀ r, ReplayEnds oneHeader (processInclude oneHeader 2) declineState declineBody [] false r →
        r.result = .unsupported →
        DeclinesCleanly oneHeader (processInclude oneHeader 2) declineBody declineState [] r) ∧
      (dispatchInclude oneHeader (processInclude oneHeader 2) declineState declineBody []).map
        (fun r => (r.1, r.2.2.map tokenText)) = some (true, ["typedef", "int", "A", ";"]) ∧
      (preprocessTokens (processInclude oneHeader 2) (evalCondition oneHeader) declineState declineFile
        [] false).map (fun r => (r.1, r.2.2.map tokenText)) =
        some (true, ["typedef", "int", "A", ";", "typedef", "int", "int", ";"]) := by
  refine ⟨declineBody_classified, fun h => ?_, by decide, by decide +kernel⟩
  obtain ⟨r, hr, heq⟩ := Option.map_eq_some_iff.mp declineBody_declines
  rw [Prod.mk.injEq, Prod.mk.injEq] at heq
  obtain ⟨hresult, houtput, -⟩ := heq
  rw [(h r (.router hr) hresult).sameOutput] at houtput
  exact absurd houtput (by decide)

end Fisics
