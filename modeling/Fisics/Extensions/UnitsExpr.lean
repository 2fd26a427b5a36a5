import Fisics.Extensions.UnitsModel
import Fisics.Library.CInteger
import Fisics.Library.KeyTable

/-!
# Units of expressions

`walk_expr_results` over expressions: each node looks its operands up in a table
keyed by nodes and records a dimension, with a concrete unit where its operands tell
one, or reports a diagnostic. Nodes are told apart by numbers. The annotation that is
bound to an identifier is that of its name.
-/

namespace Fisics

open CInteger (CompareOp)

-- Expressions

inductive UnitsUnaryOp
  | plus | minus | inc | dec | bitNot | logNot
  deriving DecidableEq

inductive UnitsBinaryOp
  | add | sub | mul | div
  | compare (op : CompareOp)
  | other (op : String)
  deriving DecidableEq

inductive UnitsAssignOp
  | assign | add | sub | mul | div
  | other (op : String)
  deriving DecidableEq

inductive UnitsNode
  /-- A number or character literal. -/
  | literal (id : Nat) (value : Rat)
  | identifier (id : Nat) (name : String)
  | unary (id : Nat) (op : UnitsUnaryOp) (operand : UnitsNode)
  | binary (id : Nat) (op : UnitsBinaryOp) (left right : UnitsNode)
  | ternary (id : Nat) (condition trueExpr falseExpr : UnitsNode)
  | comma (id : Nat) (expressions : List UnitsNode)
  | cast (id : Nat) (expression : UnitsNode)
  /-- The target is the identifier `name` with the number `target`. -/
  | assignment (id : Nat) (op : UnitsAssignOp) (target : Nat) (name : String) (value : UnitsNode)

def UnitsNode.id : UnitsNode → Nat
  | .literal id _ | .identifier id _ | .unary id _ _ | .binary id _ _ _ | .ternary id _ _ _
  | .comma id _ | .cast id _ | .assignment id _ _ _ _ => id

mutual

def UnitsNode.subexpressions : UnitsNode → List UnitsNode
  | .literal id value => [.literal id value]
  | .identifier id name => [.identifier id name]
  | .unary id op e => e.subexpressions ++ [.unary id op e]
  | .binary id op l r => l.subexpressions ++ r.subexpressions ++ [.binary id op l r]
  | .ternary id c t f =>
    c.subexpressions ++ t.subexpressions ++ f.subexpressions ++ [.ternary id c t f]
  | .comma id es => UnitsNode.subexpressionsAll es ++ [.comma id es]
  | .cast id e => e.subexpressions ++ [.cast id e]
  | .assignment id op target name value =>
    .identifier target name :: value.subexpressions ++ [.assignment id op target name value]

def UnitsNode.subexpressionsAll : List UnitsNode → List UnitsNode
  | [] => []
  | e :: es => e.subexpressions ++ UnitsNode.subexpressionsAll es

end

def UnitsNode.ids (node : UnitsNode) : List Nat := node.subexpressions.map UnitsNode.id

-- Tables

structure UnitsAnnotationInfo (U : Type) where
  dim : Dim8
  resolved : Bool
  dimDuplicateCount : Nat
  unitDef : Option U
  unitResolved : Bool

structure UnitsExprResult (U : Type) where
  dim : Dim8
  resolved : Bool
  unitDef : Option U
  unitResolved : Bool

inductive UnitsDiag (U : Type)
  | addDimMismatch (left right : Dim8)
  | subDimMismatch (left right : Dim8)
  | compareDimMismatch (left right : Dim8)
  | ternaryDimMismatch (trueDim falseDim : Dim8)
  | assignDimMismatch (left right : Dim8)
  | exponentOverflow (op : String) (left right : Dim8)
  | implicitUnitConversion (context : String) (source target : Option U)

structure UnitsState (U : Type) where
  results : List (Nat × UnitsExprResult U)
  diags : List (Nat × UnitsDiag U)

section
variable {U : Type}

/-- What `fisics_extension_set_units_expr_result_with_unit` stores for a resolved
dimension. -/
def unitsExprResult (dim : Dim8) (unitDef : Option U) (unitResolved : Bool) : UnitsExprResult U :=
  { dim, resolved := true, unitDef, unitResolved := unitResolved && unitDef.isSome }

def UnitsState.setUnitsExprResultWithUnit (st : UnitsState U) (id : Nat) (result : UnitsExprResult U) :
    UnitsState U :=
  { st with results := KeyTable.set id result st.results }

def UnitsState.report (st : UnitsState U) (id : Nat) (diag : UnitsDiag U) : UnitsState U :=
  { st with diags := st.diags ++ [(id, diag)] }

def lookupResolvedExprMetadata (st : UnitsState U) (id : Nat) : Option (UnitsExprResult U) :=
  (KeyTable.get id st.results).filter (·.resolved)

-- What a node records

inductive UnitsOutcome (U : Type)
  | nothing
  | record (dim : Dim8) (unitDef : Option U) (unitResolved : Bool)
  | report (id : Nat) (diag : UnitsDiag U)

def UnitsState.apply (st : UnitsState U) (id : Nat) : UnitsOutcome U → UnitsState U
  | .nothing => st
  | .record dim unitDef unitResolved =>
    st.setUnitsExprResultWithUnit id (unitsExprResult dim unitDef unitResolved)
  | .report node diag => st.report node diag

def identifierOutcome : Option (UnitsAnnotationInfo U) → UnitsOutcome U
  | none => .nothing
  | some ann =>
    if !ann.resolved || 1 < ann.dimDuplicateCount then .nothing
    else .record ann.dim (if ann.unitResolved then ann.unitDef else none) ann.unitResolved

def isUnitsPreservingUnaryOp : UnitsUnaryOp → Bool
  | .plus | .minus | .inc | .dec => true
  | _ => false

/-- A unary operator, a cast and a comma keep what is recorded for an operand. -/
def keepOutcome (operand : UnitsExprResult U) : UnitsOutcome U :=
  .record operand.dim operand.unitDef operand.unitResolved

def unaryOutcome (op : UnitsUnaryOp) (operand : UnitsExprResult U) : UnitsOutcome U :=
  if isUnitsPreservingUnaryOp op then keepOutcome operand else .nothing

variable [DecidableEq U]

def unitsResolvedAndDifferent (left right : UnitsExprResult U) : Bool :=
  left.unitResolved && right.unitResolved && left.unitDef.isSome && right.unitDef.isSome &&
    left.unitDef != right.unitDef

def explicitConversionContextForBinary : UnitsBinaryOp → String
  | .add => "addition"
  | .sub => "subtraction"
  | .compare _ => "comparison"
  | _ => "expression"

def productUnit (isProduct : Bool) (left right : UnitsExprResult U) : Option U × Bool :=
  let leftDimensionless := dimIsDimensionless left.dim
  let rightDimensionless := dimIsDimensionless right.dim
  if isProduct && (leftDimensionless && right.unitResolved) then (right.unitDef, true)
  else if rightDimensionless && left.unitResolved then (left.unitDef, true)
  else (none, false)

/-- Sums, differences and the arms of `?:`, with the diagnostic of unequal dimensions. -/
def mergeOutcome (id : Nat) (context : String) (mismatch : Dim8 → Dim8 → UnitsDiag U)
    (left right : UnitsExprResult U) : UnitsOutcome U :=
  if left.dim ≠ right.dim then .report id (mismatch left.dim right.dim)
  else if unitsResolvedAndDifferent left right then
    .report id (.implicitUnitConversion context right.unitDef left.unitDef)
  else .record left.dim (if left.unitResolved then left.unitDef else none)
    (left.unitResolved && left.unitDef == right.unitDef)

def productOutcome (id : Nat) (isProduct : Bool) (left right : UnitsExprResult U) : UnitsOutcome U :=
  match if isProduct then dimAdd left.dim right.dim else dimSub left.dim right.dim with
  | none => .report id (.exponentOverflow (if isProduct then "*" else "/") left.dim right.dim)
  | some dim =>
    let (unitDef, unitResolved) := productUnit isProduct left right
    .record dim unitDef unitResolved

def compareOutcome (id : Nat) (op : CompareOp) (left right : UnitsExprResult U) : UnitsOutcome U :=
  if left.dim ≠ right.dim then .report id (.compareDimMismatch left.dim right.dim)
  else if unitsResolvedAndDifferent left right then
    .report id (.implicitUnitConversion (explicitConversionContextForBinary (.compare op)) right.unitDef
      left.unitDef)
  else .record dimZero none false

@[grind] def binaryOutcome (id : Nat) (op : UnitsBinaryOp) (left right : UnitsExprResult U) : UnitsOutcome U :=
  match op with
  | .add => mergeOutcome id (explicitConversionContextForBinary .add) .addDimMismatch left right
  | .sub => mergeOutcome id (explicitConversionContextForBinary .sub) .subDimMismatch left right
  | .mul => productOutcome id true left right
  | .div => productOutcome id false left right
  | .compare op => compareOutcome id op left right
  | .other _ => .nothing

def ternaryOutcome (id : Nat) (trueResult falseResult : UnitsExprResult U) : UnitsOutcome U :=
  mergeOutcome id "ternary result" .ternaryDimMismatch trueResult falseResult

-- Assignments

/-- `literal_value`, to a depth of 64. -/
def unitsLiteralValue : UnitsNode → Nat → Bool
  | .literal _ _, depth => depth ≤ 64
  | .cast _ e, depth => depth ≤ 64 && unitsLiteralValue e (depth + 1)
  | .unary _ op e, depth =>
    depth ≤ 64 && (op ≠ .inc && op ≠ .dec && unitsLiteralValue e (depth + 1))
  | .binary _ _ l r, depth => depth ≤ 64 && (unitsLiteralValue l (depth + 1) && unitsLiteralValue r (depth + 1))
  | .ternary _ c t f, depth =>
    depth ≤ 64 &&
      (unitsLiteralValue c (depth + 1) && (unitsLiteralValue t (depth + 1) && unitsLiteralValue f (depth + 1)))
  | _, _ => false

def isLiteralValue (node : UnitsNode) : Bool := unitsLiteralValue node 0

def targetOutcome (target : UnitsExprResult U) : UnitsOutcome U :=
  .record target.dim (if target.unitResolved then target.unitDef else none) target.unitResolved

def simpleAssignOutcome (id : Nat) (value : UnitsNode) (target result : UnitsExprResult U) :
    UnitsOutcome U :=
  if isLiteralValue value then
    .record target.dim target.unitDef target.unitResolved
  else if target.dim ≠ result.dim then .report id (.assignDimMismatch target.dim result.dim)
  else if unitsResolvedAndDifferent target result then
    .report value.id (.implicitUnitConversion "assignment" result.unitDef target.unitDef)
  else targetOutcome target

def sumAssignOutcome (id : Nat) (mismatch : Dim8 → Dim8 → UnitsDiag U)
    (target result : UnitsExprResult U) : UnitsOutcome U :=
  if target.dim ≠ result.dim then .report id (mismatch target.dim result.dim)
  else if unitsResolvedAndDifferent target result then
    .report id (.implicitUnitConversion "compound assignment" result.unitDef target.unitDef)
  else targetOutcome target

def productAssignOutcome (id : Nat) (isProduct : Bool) (target result : UnitsExprResult U) :
    UnitsOutcome U :=
  match if isProduct then dimAdd target.dim result.dim else dimSub target.dim result.dim with
  | none => .report id (.exponentOverflow (if isProduct then "*" else "/") target.dim result.dim)
  | some combined =>
    if target.dim ≠ combined then .report id (.assignDimMismatch target.dim combined)
    else targetOutcome target

@[grind] def assignmentOutcome (id : Nat) (op : UnitsAssignOp) (value : UnitsNode)
    (target result : UnitsExprResult U) : UnitsOutcome U :=
  match op with
  | .assign => simpleAssignOutcome id value target result
  | .add => sumAssignOutcome id .addDimMismatch target result
  | .sub => sumAssignOutcome id .subDimMismatch target result
  | .mul => productAssignOutcome id true target result
  | .div => productAssignOutcome id false target result
  | .other _ => .nothing

def UnitsAnnotationInfo.isConcrete (ann : UnitsAnnotationInfo U) : Bool :=
  ann.resolved && ann.dimDuplicateCount ≤ 1 && ann.unitResolved && ann.unitDef.isSome

def assignmentTarget (st : UnitsState U) (target : Nat) (ann : Option (UnitsAnnotationInfo U)) :
    Option (UnitsExprResult U) :=
  match lookupResolvedExprMetadata st target with
  | some result => some result
  | none => (ann.filter (·.isConcrete)).map fun ann => unitsExprResult ann.dim ann.unitDef true

-- The walk

variable (bindings : String → Option (UnitsAnnotationInfo U))

def UnitsState.recordOne (st : UnitsState U) (id operand : Nat)
    (outcome : UnitsExprResult U → UnitsOutcome U) : UnitsState U :=
  match lookupResolvedExprMetadata st operand with
  | some result => st.apply id (outcome result)
  | none => st

/-- A node with two. -/
def UnitsState.recordTwo (st : UnitsState U) (id left right : Nat)
    (outcome : UnitsExprResult U → UnitsExprResult U → UnitsOutcome U) : UnitsState U :=
  match lookupResolvedExprMetadata st left, lookupResolvedExprMetadata st right with
  | some l, some r => st.apply id (outcome l r)
  | _, _ => st

def maybeRecordAssignmentResult (st : UnitsState U) (id : Nat) (op : UnitsAssignOp) (target : Nat)
    (name : String) (value : UnitsNode) : UnitsState U :=
  match assignmentTarget st target (bindings name), lookupResolvedExprMetadata st value.id with
  | some target, some result => st.apply id (assignmentOutcome id op value target result)
  | _, _ => st

mutual

def walkExprResults : UnitsNode → UnitsState U → UnitsState U
  | .literal id _, st => st.apply id (.record dimZero none false)
  | .identifier id name, st => st.apply id (identifierOutcome (bindings name))
  | .unary id op e, st => (walkExprResults e st).recordOne id e.id (unaryOutcome op)
  | .binary id op l r, st =>
    (walkExprResults r (walkExprResults l st)).recordTwo id l.id r.id (binaryOutcome id op)
  | .ternary id c t f, st =>
    (walkExprResults f (walkExprResults t (walkExprResults c st))).recordTwo id t.id f.id
      (ternaryOutcome id)
  | .comma id es, st =>
    match es.getLast? with
    | some tail => (walkAllResults es st).recordOne id tail.id keepOutcome
    | none => walkAllResults es st
  | .cast id e, st => (walkExprResults e st).recordOne id e.id keepOutcome
  | .assignment id op target name value, st =>
    let st := st.apply target (identifierOutcome (bindings name))
    maybeRecordAssignmentResult bindings (walkExprResults value st) id op target name value

def walkAllResults : List UnitsNode → UnitsState U → UnitsState U
  | [], st => st
  | e :: es, st => walkAllResults es (walkExprResults e st)

end

/-- `fisics_units_run_expr_semantics`, from the diagnostics so far. -/
def fisicsUnitsRunExprSemantics (root : UnitsNode) (diags : List (Nat × UnitsDiag U)) : UnitsState U :=
  walkExprResults bindings root { results := [], diags }

end

end Fisics
