import Fisics.Syntax.ControlFlow

/-!
# Executions of a function body

Control moves over the points of the body. Every condition may come out either
way and a switch may choose any of its cases, so a run is a path of `Step`. The
second half says which steps the checker's reading of a body overlooks.
-/

namespace Fisics

def Stmt.children : Stmt → List Stmt
  | .block _ statements => statements
  | .ifStmt _ thenBranch => [thenBranch]
  | .ifElseStmt _ thenBranch elseBranch => [thenBranch, elseBranch]
  | .whileLoop _ _ body | .forLoop _ _ _ body => [body]
  | .switchStmt _ caseList => caseList
  | .caseStmt _ _ caseBody => caseBody
  | .label _ _ statement => [statement]
  | .returnStmt _ | .breakStmt _ | .continueStmt _ | .gotoStmt _ _ | .other _ => []

def Stmt.at? (body : Stmt) : StmtPath → Option Stmt
  | [] => some body
  | i :: path => body.children[i]?.bind (·.at? path)

def Stmt.isList : Stmt → Bool
  | .block _ _ | .caseStmt _ _ _ => true
  | _ => false

def Stmt.isSwitch : Stmt → Bool
  | .switchStmt _ _ => true
  | _ => false

def Stmt.isCase : Stmt → Bool
  | .caseStmt _ _ _ => true
  | _ => false

def Stmt.isLoop : Stmt → Bool
  | .whileLoop _ _ _ | .forLoop _ _ _ _ => true
  | _ => false

def Stmt.isBranching : Stmt → Bool
  | .ifStmt _ _ | .ifElseStmt _ _ _ | .label _ _ _ => true
  | _ => false

def Stmt.testsFirst : Stmt → Bool
  | .whileLoop _ isDoWhile _ => !isDoWhile
  | .forLoop _ _ _ _ => true
  | _ => false

def Stmt.hasTest : Stmt → Bool
  | .whileLoop _ _ _ => true
  | .forLoop _ hasCondition _ _ => hasCondition
  | _ => false

/-- `outer` is the innermost statement of this kind around `inner`. -/
def Innermost (body : Stmt) (kind : Stmt → Bool) (outer inner : StmtPath) : Prop :=
  (∃ s, body.at? outer = some s ∧ kind s = true) ∧ outer <+: inner ∧ outer ≠ inner ∧
    ∀ between, outer <+: between → between <+: inner → between ≠ outer → between ≠ inner →
      ∀ s, body.at? between = some s → kind s = false

-- Points and steps

/-- Before a statement, at its normal end, or before a further round of a loop. -/
inductive Point where
  | enter (path : StmtPath)
  | leave (path : StmtPath)
  | round (path : StmtPath)
  deriving DecidableEq

def Point.path : Point → StmtPath
  | .enter path | .leave path | .round path => path

inductive Step (body : Stmt) : Point → Point → Prop
  | pass : body.at? p = some (.other line) → Step body (.enter p) (.leave p)
  | emptyList : body.at? p = some s → s.isList = true → s.children = [] → Step body (.enter p) (.leave p)
  | firstOf : body.at? p = some s → s.isList = true → s.children ≠ [] →
    Step body (.enter p) (.enter (p ++ [0]))
  -- a switch runs from one row of its body into the next as a block does
  | nextOf : body.at? p = some s → s.isList = true ∨ s.isSwitch = true → i + 1 < s.children.length →
    Step body (.leave (p ++ [i])) (.enter (p ++ [i + 1]))
  | lastOf : body.at? p = some s → s.isList = true ∨ s.isSwitch = true → i + 1 = s.children.length →
    Step body (.leave (p ++ [i])) (.leave p)
  | choose : body.at? p = some s → s.isBranching = true → i < s.children.length →
    Step body (.enter p) (.enter (p ++ [i]))
  | skipThen : body.at? p = some (.ifStmt line thenBranch) → Step body (.enter p) (.leave p)
  | join : body.at? p = some s → s.isBranching = true → Step body (.leave (p ++ [i])) (.leave p)
  | test : body.at? p = some s → s.testsFirst = true → Step body (.enter p) (.round p)
  | runFirst : body.at? p = some (.whileLoop line true loopBody) →
    Step body (.enter p) (.enter (p ++ [0]))
  | roundEnd : body.at? p = some s → s.isLoop = true → Step body (.leave (p ++ [0])) (.round p)
  | again : body.at? p = some s → s.isLoop = true → Step body (.round p) (.enter (p ++ [0]))
  | done : body.at? p = some s → s.hasTest = true → Step body (.round p) (.leave p)
  | dispatch : Innermost body Stmt.isSwitch p q → body.at? q = some s → s.isCase = true →
    Step body (.enter p) (.enter q)
  | noMatch : body.at? p = some s → s.isSwitch = true →
    (∀ q line caseBody, Innermost body Stmt.isSwitch p q →
      body.at? q ≠ some (.caseStmt line true caseBody)) → Step body (.enter p) (.leave p)
  | breakTo : body.at? p = some (.breakStmt line) →
    Innermost body (fun s => s.isLoop || s.isSwitch) q p → Step body (.enter p) (.leave q)
  | continueTo : body.at? p = some (.continueStmt line) → Innermost body Stmt.isLoop q p →
    Step body (.enter p) (.round q)
  | goto : body.at? p = some (.gotoStmt line name) → body.at? q = some (.label line' name statement) →
    Step body (.enter p) (.enter q)

-- The straight reading

/-- How a statement is left by one who reads on past the jumps inside it. -/
inductive Exit where
  | falls
  | jumps
  | returns
  deriving DecidableEq

def Exit.join : Exit → Exit → Exit
  | .falls, _ | _, .falls => .falls
  | .returns, .returns => .returns
  | _, _ => .jumps

def chainExits : List Exit → List Exit
  | [] => []
  | exit :: rest => (if exit = .falls then (chainExits rest).headD .falls else exit) :: chainExits rest

def switchExit (cases : List (Bool × Exit)) : Exit :=
  if cases.any (·.1) && (chainExits (cases.map Prod.snd)).all (· = .returns) then .returns else .falls

mutual
def exitOf (targets : GotoTargetSet) : Stmt → Exit
  | .block _ statements => exitOfList targets statements true false
  | .ifStmt _ _ => .falls
  | .ifElseStmt _ thenBranch elseBranch => (exitOf targets thenBranch).join (exitOf targets elseBranch)
  | .whileLoop _ _ _ => .falls
  | .forLoop _ hasCondition hasIncrement body =>
    if !hasCondition && !hasIncrement &&
      (exitOf targets body = .returns || !conditionlessLoopMayExit body 0 0) then .returns else .falls
  | .switchStmt _ caseList => switchExit (allCaseExits targets caseList)
  | .caseStmt _ _ caseBody => exitOfList targets caseBody true false
  | .label _ _ statement => exitOf targets statement
  | .returnStmt _ => .returns
  | .breakStmt _ | .continueStmt _ | .gotoStmt _ _ => .jumps
  | .other _ => .falls
def exitOfList (targets : GotoTargetSet) : List Stmt → (reached sawReturn : Bool) → Exit
  | [], reached, sawReturn => if reached then .falls else if sawReturn then .returns else .jumps
  | s :: ss, reached, sawReturn =>
    if reached || revives targets s then
      match exitOf targets s with
      | .falls => exitOfList targets ss true sawReturn
      | .jumps => exitOfList targets ss false sawReturn
      | .returns => exitOfList targets ss false true
    else exitOfList targets ss false sawReturn
def caseExits (targets : GotoTargetSet) : Stmt → List (Bool × Exit)
  | .caseStmt _ isDefault caseBody =>
    (isDefault, exitOfList targets caseBody true false) :: allCaseExits targets caseBody
  | .block _ statements => allCaseExits targets statements
  | .ifStmt _ thenBranch => caseExits targets thenBranch
  | .ifElseStmt _ thenBranch elseBranch => caseExits targets thenBranch ++ caseExits targets elseBranch
  | .whileLoop _ _ body | .forLoop _ _ _ body => caseExits targets body
  | .label _ _ statement => caseExits targets statement
  | .switchStmt _ _ | .returnStmt _ | .breakStmt _ | .continueStmt _ | .gotoStmt _ _ | .other _ => []
def allCaseExits (targets : GotoTargetSet) : List Stmt → List (Bool × Exit)
  | [] => []
  | s :: ss => caseExits targets s ++ allCaseExits targets ss
end

/-- Whether the reading of a list still reaches its statement `i`. -/
def reachedAt (targets : GotoTargetSet) : List Stmt → Bool → Nat → Bool
  | [], reached, _ => reached
  | s :: _, reached, 0 => reached || revives targets s
  | s :: ss, reached, i + 1 =>
    reachedAt targets ss ((reached || revives targets s) && exitOf targets s = .falls) i

-- Where a statement stands

/-- The rows of a switch before its first case label are not read, only the case
labels inside them are. -/
inductive Reading where
  | read
  | skipped
  | buried
  deriving DecidableEq

def Reading.into (reading : Reading) (parent child : Stmt) : Reading :=
  match reading with
  | .read => if parent.isSwitch && !child.isCase then .skipped else .read
  | .skipped => if parent.isSwitch then .buried else if child.isCase then .read else .skipped
  | .buried => .buried

/-- A statement with its surroundings: `alive` when no list around it is read as
left before the statement that holds it. -/
structure Standing where
  stmt : Stmt
  reading : Reading
  alive : Bool

def Standing.child (targets : GotoTargetSet) (v : Standing) (i : Nat) : Option Standing :=
  v.stmt.children[i]?.map fun s =>
    { stmt := s
      reading := v.reading.into v.stmt s
      alive := v.alive && (v.reading ≠ .read || !v.stmt.isList || reachedAt targets v.stmt.children true i) }

def Standing.at? (targets : GotoTargetSet) (v : Standing) : StmtPath → Option Standing
  | [] => some v
  | i :: path => (v.child targets i).bind (·.at? targets path)

def standingAt (body : Stmt) (path : StmtPath) : Option Standing :=
  (Standing.mk body .read true).at? (collectGotoTargets [] body) path

/-- The steps the reading of a body overlooks. -/
inductive Hidden (body : Stmt) : Point → Point → Prop
  -- a break next to a return
  | breakSwitch : body.at? p = some (.breakStmt line) → standingAt body q = some v → v.reading = .read →
    v.stmt = .switchStmt line' caseList → exitOf (collectGotoTargets [] body) v.stmt = .returns →
    Hidden body (.enter p) (.leave q)
  | breakLoop : body.at? p = some (.breakStmt line) → standingAt body q = some v → v.reading = .read →
    v.stmt = .forLoop line' false false loopBody →
    exitOf (collectGotoTargets [] body) loopBody = .returns → Hidden body (.enter p) (.leave q)
  -- the end of the last row of a switch, if the row is no case or has cases inside
  | endSwitch : standingAt body q = some v → v.reading = .read → v.stmt = .switchStmt line caseList →
    exitOf (collectGotoTargets [] body) v.stmt = .returns → body.at? (q ++ [i]) = some row →
    row.isCase = false ∨ allCaseExits (collectGotoTargets [] body) row.children ≠ [] →
    Hidden body (.leave (q ++ [i])) (.leave q)
  -- a jump to a label inside a statement that its list had left before
  | intoDead : body.at? p = some s → s.isSwitch = true ∨ (∃ line name, s = .gotoStmt line name) →
    standingAt body q = some v → v.alive = false → Hidden body (.enter p) (.enter q)

end Fisics
