import Mathlib.Data.List.Basic

/-!
# Control-flow checking

`analyzeControlFlow` walks each function body once and sums up every statement in
two flags: `stops`, that its end is not reached, and `returns`, that it is left by
a return. A node is named by its path, the child indices from the body down to it.
-/

namespace Fisics

/-- The statement nodes `control_flow.c` tells apart; every other node is `other`.
The expressions of a statement hold no statement, so they are left out, but for
the two clauses of a `for` that may be absent. `nextCase` is always null. -/
inductive Stmt where
  | block (line : Int) (statements : List Stmt)
  | ifStmt (line : Int) (thenBranch : Stmt)
  | ifElseStmt (line : Int) (thenBranch elseBranch : Stmt)
  | whileLoop (line : Int) (isDoWhile : Bool) (body : Stmt)
  | forLoop (line : Int) (hasCondition hasIncrement : Bool) (body : Stmt)
  | switchStmt (line : Int) (caseList : List Stmt)
  | caseStmt (line : Int) (isDefault : Bool) (caseBody : List Stmt)
  | returnStmt (line : Int)
  | breakStmt (line : Int)
  | continueStmt (line : Int)
  | gotoStmt (line : Int) (label : String)
  | label (line : Int) (labelName : String) (statement : Stmt)
  | other (line : Int)

def Stmt.line : Stmt → Int
  | .block line _ | .ifStmt line _ | .ifElseStmt line _ _ | .whileLoop line _ _
  | .forLoop line _ _ _ | .switchStmt line _ | .caseStmt line _ _ | .returnStmt line
  | .breakStmt line | .continueStmt line | .gotoStmt line _ | .label line _ _ | .other line => line

def safeLine (node : Stmt) : Int := if node.line ≤ 0 then 0 else node.line

-- Goto targets

abbrev GotoTargetSet := List String

def gotoTargetSetAdd (set : GotoTargetSet) (name : String) : GotoTargetSet :=
  if name = "" || set.contains name then set else set ++ [name]

def gotoTargetSetContains (set : GotoTargetSet) (name : String) : Bool :=
  name ≠ "" && set.contains name

mutual
def collectGotoTargets (set : GotoTargetSet) : Stmt → GotoTargetSet
  | .block _ statements => collectAllGotoTargets set statements
  | .ifStmt _ thenBranch => collectGotoTargets set thenBranch
  | .ifElseStmt _ thenBranch elseBranch =>
    collectGotoTargets (collectGotoTargets set thenBranch) elseBranch
  | .whileLoop _ _ body | .forLoop _ _ _ body => collectGotoTargets set body
  | .switchStmt _ caseList => collectAllGotoTargets set caseList
  | .caseStmt _ _ caseBody => collectAllGotoTargets set caseBody
  | .label _ _ statement => collectGotoTargets set statement
  | .gotoStmt _ label => gotoTargetSetAdd set label
  | .returnStmt _ | .breakStmt _ | .continueStmt _ | .other _ => set
def collectAllGotoTargets (set : GotoTargetSet) : List Stmt → GotoTargetSet
  | [] => set
  | s :: ss => collectAllGotoTargets (collectGotoTargets set s) ss
end

-- Loops without a condition

mutual
def conditionlessLoopMayExit : Stmt → (nestedLoopDepth nestedSwitchDepth : Nat) → Bool
  | .breakStmt _, loops, switches => loops == 0 && switches == 0
  | .gotoStmt _ _, _, _ => true
  | .block _ statements, loops, switches => anyMayExit statements loops switches
  | .ifStmt _ thenBranch, loops, switches => conditionlessLoopMayExit thenBranch loops switches
  | .ifElseStmt _ thenBranch elseBranch, loops, switches =>
    conditionlessLoopMayExit thenBranch loops switches || conditionlessLoopMayExit elseBranch loops switches
  | .whileLoop _ _ body, loops, switches => conditionlessLoopMayExit body (loops + 1) switches
  | .forLoop _ _ _ body, loops, switches => conditionlessLoopMayExit body (loops + 1) switches
  | .switchStmt _ caseList, loops, switches => anyMayExit caseList loops (switches + 1)
  | .caseStmt _ _ caseBody, loops, switches => anyMayExit caseBody loops switches
  | .label _ _ statement, loops, switches => conditionlessLoopMayExit statement loops switches
  | .returnStmt _, _, _ | .continueStmt _, _, _ | .other _, _, _ => false
def anyMayExit : List Stmt → (nestedLoopDepth nestedSwitchDepth : Nat) → Bool
  | [], _, _ => false
  | s :: ss, loops, switches =>
    conditionlessLoopMayExit s loops switches || anyMayExit ss loops switches
end

-- Checking statements

structure FlowResult where
  returns : Bool
  stops : Bool
  deriving DecidableEq

/-- `inLoop` and `inSwitch` of the source are set and never read. -/
structure FlowContext where
  reachable : Bool
  suppressUnreachable : Bool
  gotoTargets : GotoTargetSet

def FlowContext.inside (ctx : FlowContext) (reachable : Bool) : FlowContext :=
  { ctx with reachable := reachable, suppressUnreachable := !reachable }

/-- What a check of a node leaves behind: the result a call of `checkStatement`
gave for it, and the warnings about it. -/
inductive FlowEvent where
  | checked (flow : FlowResult)
  | unreachable (line : Int)
  | mayFallThrough (line : Int)
  deriving DecidableEq

abbrev StmtPath := List Nat

structure FlowCheck where
  flow : FlowResult
  events : List (StmtPath × FlowEvent)

def under (path : StmtPath) (events : List (StmtPath × FlowEvent)) : List (StmtPath × FlowEvent) :=
  events.map fun event => (path ++ event.1, event.2)

def FlowCheck.noted (c : FlowCheck) : FlowCheck := ⟨c.flow, c.events ++ [([], .checked c.flow)]⟩

/-- The locals of the loop of `checkStatementList`. -/
structure ListFlow where
  reachable : Bool
  sawReturn : Bool
  reportedDeadRegion : Bool

def ListFlow.result (list : ListFlow) : FlowResult := ⟨!list.reachable && list.sawReturn, !list.reachable⟩

def revives (targets : GotoTargetSet) : Stmt → Bool
  | .label _ labelName _ => gotoTargetSetContains targets labelName
  | _ => false

/-- A label some goto names makes the rest of its list reachable again. -/
def ListFlow.before (targets : GotoTargetSet) (list : ListFlow) (stmt : Stmt) : ListFlow :=
  if !list.reachable && revives targets stmt then { list with reachable := true, reportedDeadRegion := false }
  else list

def ListFlow.reports (ctx : FlowContext) (list : ListFlow) (stmt : Stmt) : Bool :=
  stmt.line > 0 && !list.reachable && !ctx.suppressUnreachable && !list.reportedDeadRegion

def ListFlow.after (ctx : FlowContext) (list : ListFlow) (stmt : Stmt) (flow : FlowResult) : ListFlow :=
  if list.reachable && flow.stops then
    { reachable := false, sawReturn := list.sawReturn || flow.returns, reportedDeadRegion := false }
  else { list with reportedDeadRegion := list.reportedDeadRegion || list.reports ctx stmt }

structure CaseCheck where
  path : StmtPath
  line : Int
  isDefault : Bool
  hasStatements : Bool
  body : FlowCheck

def CaseCheck.within (i : Nat) (c : CaseCheck) : CaseCheck := { c with path := i :: c.path }

/-- A case that does not stop runs into the next one. -/
def chainFlows : List FlowResult → List FlowResult
  | [] => []
  | flow :: rest =>
    let chain := chainFlows rest
    (if flow.stops then flow else chain.headD ⟨false, false⟩) :: chain

def caseEvents (ctx : FlowContext) : List CaseCheck → List (StmtPath × FlowEvent)
  | [] => []
  | c :: rest =>
    (if !ctx.reachable && !ctx.suppressUnreachable then [(c.path, .unreachable c.line)] else []) ++
    under c.path c.body.events ++
    (if ctx.reachable && c.hasStatements && !c.body.flow.stops && !rest.isEmpty then
      [(c.path, .mayFallThrough c.line)] else []) ++
    caseEvents ctx rest

def checkSwitch (ctx : FlowContext) (cases : List CaseCheck) : FlowCheck :=
  let sawDefault := cases.any (·.isDefault)
  let anyReachable := ctx.reachable && !cases.isEmpty
  let allReturn := anyReachable && (chainFlows (cases.map (·.body.flow))).all (·.returns)
  let closed := sawDefault && ctx.reachable && anyReachable && allReturn
  ⟨⟨closed, closed⟩, caseEvents ctx cases⟩

mutual
def checkStatement (ctx : FlowContext) : Stmt → FlowCheck
  | .block _ statements => (checkStatementList ctx statements 0 ⟨ctx.reachable, false, false⟩).noted
  | .ifStmt _ thenBranch =>
    let thenCheck := checkStatement ctx thenBranch
    FlowCheck.noted ⟨⟨false, false⟩, under [0] thenCheck.events⟩
  | .ifElseStmt _ thenBranch elseBranch =>
    let thenCheck := checkStatement ctx thenBranch
    let elseCheck := checkStatement ctx elseBranch
    FlowCheck.noted ⟨⟨thenCheck.flow.returns && elseCheck.flow.returns,
      thenCheck.flow.stops && elseCheck.flow.stops⟩,
      under [0] thenCheck.events ++ under [1] elseCheck.events⟩
  | .whileLoop _ _ body => FlowCheck.noted ⟨⟨false, false⟩, under [0] (checkStatement ctx body).events⟩
  | .forLoop _ hasCondition hasIncrement body =>
    let bodyCheck := checkStatement ctx body
    let closed := !hasCondition && !hasIncrement &&
      (bodyCheck.flow.returns || !conditionlessLoopMayExit body 0 0)
    FlowCheck.noted ⟨⟨closed, closed⟩, under [0] bodyCheck.events⟩
  | .switchStmt _ caseList =>
    (checkSwitch ctx (checkAllOwnedCases (ctx.inside ctx.reachable) caseList 0)).noted
  | .caseStmt _ _ caseBody => (checkStatementList ctx caseBody 0 ⟨ctx.reachable, false, false⟩).noted
  | .label _ _ statement =>
    let inner := checkStatement ctx statement
    FlowCheck.noted ⟨inner.flow, under [0] inner.events⟩
  | .returnStmt _ => FlowCheck.noted ⟨⟨true, true⟩, []⟩
  | .breakStmt _ | .continueStmt _ | .gotoStmt _ _ => FlowCheck.noted ⟨⟨false, true⟩, []⟩
  | .other _ => FlowCheck.noted ⟨⟨false, false⟩, []⟩
def checkStatementList (ctx : FlowContext) : List Stmt → Nat → ListFlow → FlowCheck
  | [], _, list => ⟨list.result, []⟩
  | stmt :: rest, i, list =>
    let list := list.before ctx.gotoTargets stmt
    let check := checkStatement (ctx.inside list.reachable) stmt
    let tail := checkStatementList ctx rest (i + 1) (list.after ctx stmt check.flow)
    ⟨tail.flow, (if list.reports ctx stmt then [([i], .unreachable (safeLine stmt))] else []) ++
      under [i] check.events ++ tail.events⟩
/-- `collectOwnedSwitchCases`, each case label checked where it is collected. -/
def checkOwnedCases (ctx : FlowContext) : Stmt → List CaseCheck
  | .caseStmt line isDefault caseBody =>
    ⟨[], safeLine (.caseStmt line isDefault caseBody), isDefault, !caseBody.isEmpty,
      checkStatementList ctx caseBody 0 ⟨ctx.reachable, false, false⟩⟩ ::
      checkAllOwnedCases ctx caseBody 0
  | .block _ statements => checkAllOwnedCases ctx statements 0
  | .ifStmt _ thenBranch => (checkOwnedCases ctx thenBranch).map (·.within 0)
  | .ifElseStmt _ thenBranch elseBranch =>
    (checkOwnedCases ctx thenBranch).map (·.within 0) ++ (checkOwnedCases ctx elseBranch).map (·.within 1)
  | .whileLoop _ _ body => (checkOwnedCases ctx body).map (·.within 0)
  | .forLoop _ _ _ body => (checkOwnedCases ctx body).map (·.within 0)
  | .label _ _ statement => (checkOwnedCases ctx statement).map (·.within 0)
  | .switchStmt _ _ | .returnStmt _ | .breakStmt _ | .continueStmt _ | .gotoStmt _ _ | .other _ => []
def checkAllOwnedCases (ctx : FlowContext) : List Stmt → Nat → List CaseCheck
  | [], _ => []
  | s :: ss, i => (checkOwnedCases ctx s).map (·.within i) ++ checkAllOwnedCases ctx ss (i + 1)
end

-- A function

/-- The branch of `traverse` for a function definition: the check of its body, and
whether "Control reaches end of non-void function" is reported. -/
structure FunctionFlow where
  body : FlowCheck
  controlReachesEnd : Bool

def traverseFunction (returnsVoid : Bool) (body : Stmt) : FunctionFlow :=
  let check := checkStatement ⟨true, false, collectGotoTargets [] body⟩ body
  ⟨check, !returnsVoid && !check.flow.stops⟩

end Fisics
