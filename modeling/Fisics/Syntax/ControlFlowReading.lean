import Fisics.Syntax.ControlFlowRuns

/-!
# The checker's reading of a body

Where the checker takes a statement for reachable it reads it as `exitOf` does, and
what it reports as unreachable is not alive.
-/

namespace Fisics

variable {targets : GotoTargetSet}
variable {v w : Standing}

-- Paths

theorem Standing.at?_append (v : Standing) (p q : StmtPath) :
    v.at? targets (p ++ q) = (v.at? targets p).bind (·.at? targets q) := by
  induction p generalizing v with
  | nil => rfl
  | cons i p ih =>
    simp only [List.cons_append, Standing.at?, Option.bind_assoc]
    congr 1
    funext w
    exact ih w

theorem Standing.at?_stmt (v : Standing) (p : StmtPath) :
    (v.at? targets p).map Standing.stmt = v.stmt.at? p := by
  induction p generalizing v with
  | nil => rfl
  | cons i p ih =>
    simp only [Standing.at?, Standing.child, Stmt.at?]
    cases v.stmt.children[i]? with
    | none => rfl
    | some s => exact ih _

theorem Standing.alive_of_child (h : v.child targets i = some w) (halive : w.alive = true) :
    v.alive = true := by
  simp only [Standing.child, Option.map_eq_some_iff] at h
  obtain ⟨s, -, rfl⟩ := h
  exact (Bool.and_eq_true_iff.mp halive).1

theorem Standing.alive_of_at? (h : v.at? targets p = some w) (halive : w.alive = true) :
    v.alive = true := by
  induction p generalizing v with
  | nil =>
    cases h
    exact halive
  | cons i p ih =>
    obtain ⟨u, hu, hw⟩ := Option.bind_eq_some_iff.mp h
    exact Standing.alive_of_child hu (ih hw)

-- The checker reads as `exitOf` does

def Exit.flow : Exit → FlowResult
  | .falls => ⟨false, false⟩
  | .jumps => ⟨false, true⟩
  | .returns => ⟨true, true⟩

@[simp] theorem Exit.flow_returns (e : Exit) : e.flow.returns = decide (e = .returns) := by
  cases e <;> rfl

theorem Exit.flow_join (e f : Exit) :
    (e.join f).flow = ⟨e.flow.returns && f.flow.returns, e.flow.stops && f.flow.stops⟩ := by
  cases e <;> cases f <;> rfl

theorem chainFlows_map (exits : List Exit) :
    chainFlows (exits.map Exit.flow) = (chainExits exits).map Exit.flow := by
  induction exits with
  | nil => rfl
  | cons e es ih =>
    simp only [List.map_cons, chainFlows, chainExits, ih]
    congr 1
    cases e with
    | falls => cases chainExits es <;> rfl
    | jumps => rfl
    | returns => rfl

@[simp] theorem FlowCheck.noted_flow (c : FlowCheck) : c.noted.flow = c.flow := rfl

@[simp] theorem ListFlow.before_reachable (list : ListFlow) (s : Stmt) :
    (list.before targets s).reachable = (list.reachable || revives targets s) := by
  unfold ListFlow.before
  cases h : list.reachable <;> cases revives targets s <;> simp [h]

@[simp] theorem ListFlow.before_sawReturn (list : ListFlow) (s : Stmt) :
    (list.before targets s).sawReturn = list.sawReturn := by
  unfold ListFlow.before
  split <;> rfl

theorem exitOfList_result (list : ListFlow) :
    list.result = (exitOfList targets [] list.reachable list.sawReturn).flow := by
  obtain ⟨reachable, sawReturn, reported⟩ := list
  cases reachable <;> cases sawReturn <;> rfl

theorem ListFlow.after_flow (ctx : FlowContext) (list : ListFlow) (s : Stmt) (h : list.reachable = true)
    (e : Exit) :
    (list.after ctx s e.flow).reachable = decide (e = .falls) ∧
      (list.after ctx s e.flow).sawReturn = (list.sawReturn || decide (e = .returns)) := by
  cases e <;> simp [ListFlow.after, h, Exit.flow]

theorem ListFlow.after_dead (ctx : FlowContext) (list : ListFlow) (s : Stmt) (h : list.reachable = false)
    (flow : FlowResult) :
    (list.after ctx s flow).reachable = false ∧ (list.after ctx s flow).sawReturn = list.sawReturn := by
  simp [ListFlow.after, h]

/-- The reading of a list at the state its loop is in. -/
theorem exitOfList_cons (s : Stmt) (ss : List Stmt) (reached sawReturn : Bool) :
    exitOfList targets (s :: ss) reached sawReturn =
      if reached || revives targets s then
        exitOfList targets ss (decide (exitOf targets s = .falls))
          (sawReturn || decide (exitOf targets s = .returns))
      else exitOfList targets ss false sawReturn := by
  rw [exitOfList]
  split
  · cases exitOf targets s <;> simp
  · rfl

def CaseCheck.read (c : CaseCheck) : Bool × FlowResult := (c.isDefault, c.body.flow)

@[simp] theorem CaseCheck.read_within (i : Nat) : CaseCheck.read ∘ CaseCheck.within i = CaseCheck.read := rfl

theorem checkSwitch_flow (ctx : FlowContext) (h : ctx.reachable = true) (cases : List CaseCheck)
    (exits : List (Bool × Exit)) (hread : cases.map CaseCheck.read = exits.map (Prod.map id Exit.flow)) :
    (checkSwitch ctx cases).flow = (switchExit exits).flow := by
  have hdefault : cases.any (·.isDefault) = exits.any (·.1) := by
    have h := congrArg (List.any · (·.1)) hread
    simpa [List.any_map, Function.comp_def, CaseCheck.read] using h
  have hflows : cases.map (·.body.flow) = (exits.map Prod.snd).map Exit.flow := by
    have h := congrArg (List.map Prod.snd) hread
    simpa [Function.comp_def, CaseCheck.read] using h
  have hempty : cases.isEmpty = exits.isEmpty := by
    have h := congrArg List.isEmpty hread
    simpa using h
  have hall : (chainFlows (cases.map (·.body.flow))).all (·.returns) =
      (chainExits (exits.map Prod.snd)).all (· = .returns) := by
    rw [hflows, chainFlows_map, List.all_map]
    simp [Function.comp_def]
  simp only [checkSwitch, hdefault, hall, hempty, h, switchExit]
  cases exits with
  | nil => rfl
  | cons e es =>
    generalize (e :: es).any (·.1) = sawDefault
    generalize (chainExits ((e :: es).map Prod.snd)).all (· = .returns) = allReturn
    cases sawDefault <;> cases allReturn <;> rfl

mutual
theorem checkStatement_flow (ctx : FlowContext) (h : ctx.reachable = true) :
    (s : Stmt) → (checkStatement ctx s).flow = (exitOf ctx.gotoTargets s).flow
  | .block _ statements => by
    simp only [checkStatement, FlowCheck.noted_flow, exitOf, checkStatementList_flow ctx statements, h]
  | .ifStmt _ _ => rfl
  | .ifElseStmt _ thenBranch elseBranch => by
    simp only [checkStatement, FlowCheck.noted_flow, exitOf, Exit.flow_join,
      checkStatement_flow ctx h thenBranch, checkStatement_flow ctx h elseBranch]
  | .whileLoop _ _ _ => rfl
  | .forLoop _ hasCondition hasIncrement body => by
    simp only [checkStatement, FlowCheck.noted_flow, exitOf, checkStatement_flow ctx h body, Exit.flow_returns]
    split
    · next hclosed => simp [hclosed, Exit.flow]
    · next hopen => simp [hopen, Exit.flow]
  | .switchStmt _ caseList => by
    exact checkSwitch_flow ctx h _ _ (checkAllOwnedCases_read (ctx.inside ctx.reachable) h caseList 0)
  | .caseStmt _ _ caseBody => by
    simp only [checkStatement, FlowCheck.noted_flow, exitOf, checkStatementList_flow ctx caseBody, h]
  | .label _ _ statement => by
    simp only [checkStatement, FlowCheck.noted_flow, exitOf, checkStatement_flow ctx h statement]
  | .returnStmt _ | .breakStmt _ | .continueStmt _ | .gotoStmt _ _ | .other _ => rfl
theorem checkStatementList_flow (ctx : FlowContext) : (ss : List Stmt) → (i : Nat) → (list : ListFlow) →
    (checkStatementList ctx ss i list).flow =
      (exitOfList ctx.gotoTargets ss list.reachable list.sawReturn).flow
  | [], _, list => exitOfList_result list
  | s :: ss, i, list => by
    rw [checkStatementList, exitOfList_cons, checkStatementList_flow ctx ss]
    by_cases hreached : (list.reachable || revives ctx.gotoTargets s) = true
    · have hbefore : (list.before ctx.gotoTargets s).reachable = true := by simpa using hreached
      have hflow : (checkStatement (ctx.inside (list.before ctx.gotoTargets s).reachable) s).flow =
          (exitOf ctx.gotoTargets s).flow :=
        checkStatement_flow (ctx.inside (list.before ctx.gotoTargets s).reachable) hbefore s
      obtain ⟨hafter, hsaw⟩ := ListFlow.after_flow ctx _ s hbefore (exitOf ctx.gotoTargets s)
      rw [hflow, hafter, hsaw, if_pos hreached, ListFlow.before_sawReturn]
    · have hbefore : (list.before ctx.gotoTargets s).reachable = false := by
        simpa using hreached
      obtain ⟨hafter, hsaw⟩ := ListFlow.after_dead ctx _ s hbefore
        (checkStatement (ctx.inside (list.before ctx.gotoTargets s).reachable) s).flow
      rw [hafter, hsaw, if_neg hreached, ListFlow.before_sawReturn]
theorem checkOwnedCases_read (ctx : FlowContext) (h : ctx.reachable = true) : (s : Stmt) →
    (checkOwnedCases ctx s).map CaseCheck.read = (caseExits ctx.gotoTargets s).map (Prod.map id Exit.flow)
  | .caseStmt _ _ caseBody => by
    simp only [checkOwnedCases, caseExits, List.map_cons, CaseCheck.read,
      checkAllOwnedCases_read ctx h caseBody 0,
      checkStatementList_flow ctx caseBody, h]
    rfl
  | .block _ statements => by
    simp only [checkOwnedCases, caseExits, checkAllOwnedCases_read ctx h statements 0]
  | .ifStmt _ thenBranch => by
    simp [checkOwnedCases, caseExits, List.map_map, checkOwnedCases_read ctx h thenBranch]
  | .ifElseStmt _ thenBranch elseBranch => by
    simp [checkOwnedCases, caseExits, List.map_map, checkOwnedCases_read ctx h thenBranch,
      checkOwnedCases_read ctx h elseBranch]
  | .whileLoop _ _ body | .forLoop _ _ _ body | .label _ _ body => by
    simp [checkOwnedCases, caseExits, List.map_map, checkOwnedCases_read ctx h body]
  | .switchStmt _ _ | .returnStmt _ | .breakStmt _ | .continueStmt _ | .gotoStmt _ _ | .other _ => rfl
theorem checkAllOwnedCases_read (ctx : FlowContext) (h : ctx.reachable = true) : (ss : List Stmt) → (i : Nat) →
    (checkAllOwnedCases ctx ss i).map CaseCheck.read =
      (allCaseExits ctx.gotoTargets ss).map (Prod.map id Exit.flow)
  | [], _ => rfl
  | s :: ss, i => by
    simp [checkAllOwnedCases, allCaseExits, List.map_map, checkOwnedCases_read ctx h s,
      checkAllOwnedCases_read ctx h ss (i + 1)]
end

theorem ListFlow.after_reachable (ctx : FlowContext) (list : ListFlow) (s : Stmt) :
    ((list.before ctx.gotoTargets s).after ctx s
        (checkStatement (ctx.inside (list.before ctx.gotoTargets s).reachable) s).flow).reachable =
      ((list.reachable || revives ctx.gotoTargets s) && decide (exitOf ctx.gotoTargets s = .falls)) := by
  rw [← ListFlow.before_reachable]
  cases hbefore : (list.before ctx.gotoTargets s).reachable with
  | false => simp [ListFlow.after_dead ctx _ s hbefore]
  | true =>
    have hflow : (checkStatement (ctx.inside true) s).flow = (exitOf ctx.gotoTargets s).flow :=
      checkStatement_flow (ctx.inside true) rfl s
    rw [hflow, (ListFlow.after_flow ctx _ s hbefore (exitOf ctx.gotoTargets s)).1, Bool.true_and]

-- Events

def EventFits (targets : GotoTargetSet) (v : Standing) : FlowEvent → Prop
  | .checked flow => v.alive = true → v.reading = .read ∧ flow = (exitOf targets v.stmt).flow
  | .unreachable _ => v.alive = false
  | .mayFallThrough _ => True

def Fits (targets : GotoTargetSet) (v : Standing) (events : List (StmtPath × FlowEvent)) : Prop :=
  ∀ e ∈ events, ∀ w, v.at? targets e.1 = some w → EventFits targets w e.2

theorem fits_of_dead (h : v.alive = false) (events : List (StmtPath × FlowEvent)) :
    Fits targets v events := by
  intro e _ w hw
  have hdead : w.alive = false := by
    by_contra hne
    simp [Standing.alive_of_at? hw (by simpa using hne)] at h
  cases e.2 with
  | checked flow => exact fun halive => absurd halive (by simp [hdead])
  | unreachable line => exact hdead
  | mayFallThrough line => trivial

theorem Fits.append (h : Fits targets v events) (h' : Fits targets v events') :
    Fits targets v (events ++ events') := by
  intro e he
  rcases List.mem_append.mp he with he | he
  · exact h e he
  · exact h' e he

theorem Fits.under (h : ∀ w, v.at? targets p = some w → Fits targets w events) :
    Fits targets v (under p events) := by
  intro e he w hw
  obtain ⟨e', he', rfl⟩ := List.mem_map.mp he
  rw [Standing.at?_append] at hw
  obtain ⟨u, hu, hw⟩ := Option.bind_eq_some_iff.mp hw
  exact h u hu e' he' w hw

theorem Fits.child (hs : v.stmt.children[i]? = some s)
    (h : Fits targets ⟨s, v.reading.into v.stmt s, true⟩ events) :
    Fits targets v (Fisics.under [i] events) := by
  refine Fits.under fun w hw => ?_
  simp only [Standing.at?, Standing.child, hs, Option.map_some, Option.bind_some, Option.some.injEq] at hw
  by_cases halive : w.alive = true
  · subst hw
    rw [show (v.alive && _) = true from halive]
    exact h
  · exact fits_of_dead (by simpa using halive) _

theorem Fits.noted {c : FlowCheck} (h : Fits targets ⟨s, .read, true⟩ c.events)
    (hflow : c.flow = (exitOf targets s).flow) : Fits targets ⟨s, .read, true⟩ c.noted.events := by
  refine h.append fun e he w hw => ?_
  obtain rfl := List.mem_singleton.mp he
  cases hw
  exact fun _ => ⟨rfl, hflow⟩

/-- The events below the rows of a list, numbered from `i` on. -/
def FitsRows (targets : GotoTargetSet) (rows : List Stmt) (reached : Bool) (i : Nat)
    (events : List (StmtPath × FlowEvent)) : Prop :=
  ∀ e ∈ events, ∃ j p s, e.1 = (i + j) :: p ∧ rows[j]? = some s ∧
    ∀ w, (Standing.mk s .read (reachedAt targets rows reached j)).at? targets p = some w →
      EventFits targets w e.2

theorem FitsRows.fits (hlist : s.isList = true) (h : FitsRows targets s.children true 0 events) :
    Fits targets ⟨s, .read, true⟩ events := by
  intro e he w hw
  obtain ⟨j, p, row, hpath, hrow, hfits⟩ := h e he
  refine hfits w ?_
  have hswitch : s.isSwitch = false := by cases s <;> first | rfl | cases hlist
  rw [hpath, Nat.zero_add] at hw
  simpa [Standing.at?, Standing.child, hrow, Reading.into, hlist, hswitch] using hw

def Labelled (reading : Reading) (s : Stmt) : Prop :=
  reading = .read ∨ reading = .skipped ∧ s.isCase = false

theorem Labelled.into (h : v.reading = .read ∨ v.reading = .skipped ∧ v.stmt.isSwitch = false)
    (s : Stmt) : Labelled (v.reading.into v.stmt s) s := by
  rcases h with h | ⟨h, hswitch⟩
  · by_cases hskip : (v.stmt.isSwitch && !s.isCase) = true
    · exact .inr (by simp_all [Reading.into])
    · exact .inl (by simp [Reading.into, h, hskip])
  · by_cases hcase : s.isCase = true
    · exact .inl (by simp [Reading.into, h, hswitch, hcase])
    · exact .inr (by simp_all [Reading.into])

theorem under_cons (i : Nat) (p : StmtPath) (events : List (StmtPath × FlowEvent)) :
    under (i :: p) events = under [i] (under p events) := by
  simp [under, Function.comp_def]

/-- The checks of the case labels found below a statement that stands at `v`. -/
def FitsCases (targets : GotoTargetSet) (v : Standing) (cases : List CaseCheck) : Prop :=
  ∀ c ∈ cases, Fits targets v (under c.path c.body.events)

theorem FitsCases.append (h : FitsCases targets v cases) (h' : FitsCases targets v cases') :
    FitsCases targets v (cases ++ cases') := by
  intro c hc
  rcases List.mem_append.mp hc with hc | hc
  · exact h c hc
  · exact h' c hc

theorem FitsCases.child (hs : v.stmt.children[i]? = some s)
    (hv : v.reading = .read ∨ v.reading = .skipped ∧ v.stmt.isSwitch = false)
    (h : ∀ reading, Labelled reading s → FitsCases targets ⟨s, reading, true⟩ cases) :
    FitsCases targets v (cases.map (·.within i)) := by
  intro c hc
  obtain ⟨c', hc', rfl⟩ := List.mem_map.mp hc
  show Fits targets v (under (i :: c'.path) c'.body.events)
  rw [under_cons]
  exact Fits.child hs (h _ (Labelled.into hv _) c' hc')

theorem FitsCases.fits (hctx : ctx.reachable = true)
    (h : FitsCases targets v cases) : Fits targets v (caseEvents ctx cases) := by
  induction cases with
  | nil => exact fun e he => absurd he List.not_mem_nil
  | cons c cases ih =>
    have hwarn : Fits targets v (if ctx.reachable && c.hasStatements && !c.body.flow.stops && !cases.isEmpty
        then
        [(c.path, FlowEvent.mayFallThrough c.line)] else []) := by
      intro e he w _
      split at he
      · obtain rfl := List.mem_singleton.mp he
        trivial
      · cases he
    have hrest := ih fun c' hc' => h c' (List.mem_cons_of_mem _ hc')
    simp only [caseEvents, hctx, Bool.not_true, Bool.false_and, Bool.false_eq_true, if_false, List.nil_append]
    simpa [hctx] using ((h c List.mem_cons_self).append hwarn).append hrest

mutual
theorem checkStatement_fits (ctx : FlowContext) (h : ctx.reachable = true) :
    (s : Stmt) → Fits ctx.gotoTargets ⟨s, .read, true⟩ (checkStatement ctx s).events
  | .block line statements => by
    have hrows := checkStatementList_fits ctx statements 0 ⟨ctx.reachable, false, false⟩
    rw [show (ListFlow.mk ctx.reachable false false).reachable = true from h] at hrows
    exact Fits.noted (FitsRows.fits rfl hrows) (checkStatement_flow ctx h (.block line statements))
  | .ifStmt line thenBranch =>
    Fits.noted (Fits.child rfl (checkStatement_fits ctx h thenBranch))
      (checkStatement_flow ctx h (.ifStmt line thenBranch))
  | .ifElseStmt line thenBranch elseBranch =>
    Fits.noted ((Fits.child rfl (checkStatement_fits ctx h thenBranch)).append
        (Fits.child rfl (checkStatement_fits ctx h elseBranch)))
      (checkStatement_flow ctx h (.ifElseStmt line thenBranch elseBranch))
  | .whileLoop line isDoWhile body =>
    Fits.noted (Fits.child rfl (checkStatement_fits ctx h body))
      (checkStatement_flow ctx h (.whileLoop line isDoWhile body))
  | .forLoop line hasCondition hasIncrement body =>
    Fits.noted (Fits.child rfl (checkStatement_fits ctx h body))
      (checkStatement_flow ctx h (.forLoop line hasCondition hasIncrement body))
  | .switchStmt line caseList =>
    Fits.noted (FitsCases.fits h (checkAllOwnedCases_fits (ctx.inside ctx.reachable) h
        caseList ⟨.switchStmt line caseList, .read, true⟩ (.inl rfl) 0 fun j => by rw [Nat.zero_add]; rfl))
      (checkStatement_flow ctx h (.switchStmt line caseList))
  | .caseStmt line isDefault caseBody => by
    have hrows := checkStatementList_fits ctx caseBody 0 ⟨ctx.reachable, false, false⟩
    rw [show (ListFlow.mk ctx.reachable false false).reachable = true from h] at hrows
    exact Fits.noted (FitsRows.fits rfl hrows) (checkStatement_flow ctx h (.caseStmt line isDefault caseBody))
  | .label line labelName statement =>
    Fits.noted (Fits.child rfl (checkStatement_fits ctx h statement))
      (checkStatement_flow ctx h (.label line labelName statement))
  | .returnStmt line | .breakStmt line | .continueStmt line | .gotoStmt line _ | .other line =>
    Fits.noted (fun _ he => absurd he List.not_mem_nil) rfl
theorem checkStatementList_fits (ctx : FlowContext) : (ss : List Stmt) → (i : Nat) → (list : ListFlow) →
    FitsRows ctx.gotoTargets ss list.reachable i (checkStatementList ctx ss i list).events
  | [], _, _ => fun _ he => absurd he List.not_mem_nil
  | s :: ss, i, list => by
    intro e he
    have hreach : (list.before ctx.gotoTargets s).reachable =
        reachedAt ctx.gotoTargets (s :: ss) list.reachable 0 := ListFlow.before_reachable list s
    rcases List.mem_append.mp he with he | he
    · rcases List.mem_append.mp he with he | he
      · -- the report of the statement itself
        split at he
        · next hreports =>
          obtain rfl := List.mem_singleton.mp he
          refine ⟨0, [], s, rfl, rfl, fun w hw => ?_⟩
          cases hw
          show reachedAt ctx.gotoTargets (s :: ss) list.reachable 0 = false
          rw [← hreach]
          simp only [ListFlow.reports, Bool.and_eq_true, Bool.not_eq_true'] at hreports
          exact hreports.1.1.2
        · cases he
      · obtain ⟨e', he', rfl⟩ := List.mem_map.mp he
        refine ⟨0, e'.1, s, rfl, rfl, ?_⟩
        rw [← hreach]
        cases hbefore : (list.before ctx.gotoTargets s).reachable with
        | false => exact fits_of_dead rfl _ e' he'
        | true =>
          exact checkStatement_fits (ctx.inside (list.before ctx.gotoTargets s).reachable) hbefore s e' he'
    · obtain ⟨j, p, row, hpath, hrow, hfits⟩ := checkStatementList_fits ctx ss (i + 1) _ e he
      refine ⟨j + 1, p, row, ?_, hrow, ?_⟩
      · rw [hpath, Nat.add_assoc, Nat.add_comm 1 j]
      · rw [ListFlow.after_reachable] at hfits
        exact hfits
theorem checkOwnedCases_fits (ctx : FlowContext) (h : ctx.reachable = true) : (s : Stmt) →
    (reading : Reading) → Labelled reading s →
      FitsCases ctx.gotoTargets ⟨s, reading, true⟩ (checkOwnedCases ctx s)
  | .caseStmt line isDefault caseBody, reading, hreading => by
    obtain rfl : reading = .read := hreading.resolve_right fun hskip => absurd hskip.2 Bool.noConfusion
    intro c hc
    rcases List.mem_cons.mp hc with rfl | hc
    · have hrows := checkStatementList_fits ctx caseBody 0 ⟨ctx.reachable, false, false⟩
      rw [show (ListFlow.mk ctx.reachable false false).reachable = true from h] at hrows
      exact Fits.under fun w hw => Option.some.inj hw ▸ FitsRows.fits rfl hrows
    · exact checkAllOwnedCases_fits ctx h caseBody ⟨.caseStmt line isDefault caseBody, .read, true⟩ (.inl rfl) 0
        (fun j => by rw [Nat.zero_add]; rfl) c hc
  | .block line statements, reading, hreading =>
    checkAllOwnedCases_fits ctx h statements ⟨.block line statements, reading, true⟩
      (hreading.imp_right fun hskip => ⟨hskip.1, rfl⟩) 0 fun j => by rw [Nat.zero_add]; rfl
  | .ifStmt line thenBranch, reading, hreading =>
    FitsCases.child rfl (hreading.imp_right fun hskip => ⟨hskip.1, rfl⟩) (checkOwnedCases_fits ctx h thenBranch)
  | .ifElseStmt line thenBranch elseBranch, reading, hreading =>
    FitsCases.append
      (FitsCases.child rfl (hreading.imp_right fun hskip => ⟨hskip.1, rfl⟩)
        (checkOwnedCases_fits ctx h thenBranch))
      (FitsCases.child rfl (hreading.imp_right fun hskip => ⟨hskip.1, rfl⟩)
        (checkOwnedCases_fits ctx h elseBranch))
  | .whileLoop line isDoWhile body, reading, hreading =>
    FitsCases.child rfl (hreading.imp_right fun hskip => ⟨hskip.1, rfl⟩) (checkOwnedCases_fits ctx h body)
  | .forLoop line hasCondition hasIncrement body, reading, hreading =>
    FitsCases.child rfl (hreading.imp_right fun hskip => ⟨hskip.1, rfl⟩) (checkOwnedCases_fits ctx h body)
  | .label line labelName statement, reading, hreading =>
    FitsCases.child rfl (hreading.imp_right fun hskip => ⟨hskip.1, rfl⟩) (checkOwnedCases_fits ctx h statement)
  | .switchStmt _ _, _, _ | .returnStmt _, _, _ | .breakStmt _, _, _ | .continueStmt _, _, _
  | .gotoStmt _ _, _, _ | .other _, _, _ => fun _ hc => absurd hc List.not_mem_nil
theorem checkAllOwnedCases_fits (ctx : FlowContext) (h : ctx.reachable = true) : (ss : List Stmt) →
    (v : Standing) → (hv : v.reading = .read ∨ v.reading = .skipped ∧ v.stmt.isSwitch = false) →
    (i : Nat) → (hrows : ∀ j, v.stmt.children[i + j]? = ss[j]?) →
      FitsCases ctx.gotoTargets v (checkAllOwnedCases ctx ss i)
  | [], _, _, _, _ => fun _ hc => absurd hc List.not_mem_nil
  | s :: ss, v, hv, i, hrows =>
    (FitsCases.child (hrows 0) hv (checkOwnedCases_fits ctx h s)).append
      (checkAllOwnedCases_fits ctx h ss v hv (i + 1) fun j => by
        rw [Nat.add_assoc, Nat.add_comm 1 j]
        exact hrows (j + 1))
end

end Fisics
