import Fisics.Extensions.PhysicalFacts

/-!
# Physical expressions

`physical_expression` on scalar expressions. The walk puts the fact of each operand
before it comes to the expression, so the fact of an operand is its own result here.
`resolved` is whether the units layer has resolved the node.
-/

namespace Fisics.Physical

inductive UnaryOp
  | plus
  | minus
  | not
  | other
  deriving DecidableEq

/-- `call1` and `call2` are calls of a standard helper under its identity; `construct1`
and `construct2` are calls of a function with the operation attribute `id`, `verified`
when its definition and the callee are as a constructor requires. -/
inductive PhysicalExpr
  | identifier (node : Node) (name : String)
  | number (node : Node)
  | cast (node : Node) (scalar : Bool) (operand : PhysicalExpr)
  | unary (node : Node) (op : UnaryOp) (operand : PhysicalExpr)
  | binary (node : Node) (op : PhysicalOp) (resolved : Bool) (left right : PhysicalExpr)
  | ternary (node : Node) (condition yes no : PhysicalExpr)
  | comma (node : Node) (first last : PhysicalExpr)
  | call1 (node : Node) (op : MathOperation) (resolved : Bool) (argument : PhysicalExpr)
  | call2 (node : Node) (op : MathOperation) (resolved : Bool) (left right : PhysicalExpr)
  | construct1 (node : Node) (id : String) (verified resolved : Bool) (argument : PhysicalExpr)
  | construct2 (node : Node) (id : String) (verified resolved : Bool) (left right : PhysicalExpr)

@[grind] def PhysicalExpr.node : PhysicalExpr → Node
  | identifier node _ => node
  | number node => node
  | cast node _ _ => node
  | unary node _ _ => node
  | binary node _ _ _ _ => node
  | ternary node _ _ _ => node
  | comma node _ _ => node
  | call1 node _ _ _ => node
  | call2 node _ _ _ _ => node
  | construct1 node _ _ _ _ => node
  | construct2 node _ _ _ _ _ => node

def operationName : MathOperation → String
  | .none => "unknown"
  | .sqrt => "sqrt"
  | .fabs => "fabs"
  | .hypot => "hypot"
  | .fmax => "fmax"
  | .expm1 => "expm1"
  | .log => "log"
  | .fmin => "fmin"
  | .atan2 => "atan2"
  | .multiply => "multiply"
  | .divide => "divide"
  | .couplingTr => "frame_coupling_tr"
  | .couplingRt => "frame_coupling_rt"
  | .translationWork => "translation_work"
  | .rotationWork => "rotation_work"
  | .lineMoment => "transverse_line_moment"

section
variable (p : PhysicalPolicy) (node : Node)

-- Operators

def ruleFact (r : OperationRule) (f : PhysicalFact) (reason : String) : PhysicalFact :=
  { f with type := ⟨r.kind, 0, 0⟩, reason := reason, operationRule := some r.id }

def scalarProduct (op : PhysicalOp) (resolved : Bool) (a b : PhysicalFact) : PhysicalFact :=
  let unknown := physicalUnknown node "no admitted scalar rule or operand kind"
  if scalarKnown a && scalarKnown b && a.type.origin == 0 && b.type.origin == 0 then
    match scalarRule p (if op = .mul then .multiply else .divide) a.type.kind b.type.kind with
    | some r =>
      let component := 6 ≤ p.schemaVersion &&
        (a.declaredContext.axis != 0 || b.declaredContext.axis != 0 || a.storageComponent ||
          b.storageComponent)
      if resolved || component then
        { ruleFact r (physicalMergeTrust a b)
            "explicit finite scalar rule; input provenance preserved" with carrier := false }
      else unknown
    | none => unknown
  else unknown

def physicalScalarExpression (op : PhysicalOp) (resolved : Bool) (a b : PhysicalFact) : Checked :=
  if p.schemaVersion < 3 then
    (physicalUnknown node "unsupported physical operation; P6 rule required", [])
  else
    let (f, diags) := physicalFrameScale p node op a b (scalarProduct p node op resolved a b)
    (physicalEnergyScale p op a b f, diags)

def comparisonControl : PhysicalFact :=
  physicalControl "comparison boolean is an ordinary C control"

def linearBinary (op : PhysicalOp) (a b : PhysicalFact) : Checked :=
  let add := op == .add || op == .sub
  if scalarKnown a && scalarKnown b then
    let ar := p.role a.type.kind
    let br := p.role b.type.kind
    if add && (ar == .absolute || br == .absolute) then physicalAffineBinary p node op a b
    else if add && (ar == .unprofiled || br == .unprofiled) then
      (physicalUnknown node "affine/unprofiled arithmetic deferred", [])
    else if a.type.kind ≠ b.type.kind ∨ a.type.origin ≠ b.type.origin then
      ({ a with state := .error, reason := "contradictory physical operands" },
        [.mismatch node (if a.type.kind ≠ b.type.kind then 4317 else 4318) op.text a b])
    else if !add then (comparisonControl, [])
    else if ar == .linear || ar == .difference then
      ({ physicalMergeTrust a b with reason := "same-kind linear operation" }, [])
    else (physicalUnknown node "affine/unprofiled arithmetic deferred", [])
  else (physicalUnknown node "missing operand kind or unsupported carrier", [])

def physicalBinary (op : PhysicalOp) (resolved : Bool) (a b : PhysicalFact) : Checked :=
  if a.state = .error then (a, [])
  else if b.state = .error then (b, [])
  else if op = .mul ∨ op = .div then physicalScalarExpression p node op resolved a b
  else if op = .add ∨ op = .sub then
    let (f, diags) := (linearBinary p node op a b).andThen fun f =>
      physicalFrameBinary p node op a b f
    (physicalEnergyBinary p a b f, diags)
  else if op.isComparison then
    let (f, diags) := (linearBinary p node op a b).andThen fun f =>
      physicalFrameBinary p node op a b f
    (if f.state ≠ .error ∧ (p.schemaVersion < 6 ∨ f.state ≠ .unknown) then comparisonControl else f, diags)
  else if op = .and ∨ op = .or then
    (physicalControl "logical result is an ordinary C control", [])
  else (physicalUnknown node "unsupported physical operation; P6 rule required", [])

def physicalUnary (op : UnaryOp) (a : PhysicalFact) : PhysicalFact :=
  let signed :=
    if scalarKnown a then
      if p.role a.type.kind = .linear ∨ p.role a.type.kind = .difference then a
      else physicalUnknown node "point/unprofiled sign operation deferred"
    else a
  match op with
  | .plus => signed
  | .minus => physicalFrameSign p signed
  | .not => physicalControl "logical result is an ordinary C control"
  | .other => physicalUnknown node "unsupported unary/pointer operation"

def physicalConditional (a b : PhysicalFact) : Checked :=
  if physicalKnown a && physicalKnown b then
    let merged : Checked :=
      if p.schemaVersion = 7 ∧ a.type.kind = b.type.kind ∧
          a.type.kind = p.findKind "quantity.energy" then
        (physicalEnergyBinary p a b (physicalMergeTrust a b), [])
      else physicalBoundary p node "conditional merge" a b false
    let (f, diags) := merged.andThen fun f =>
      if f.state ≠ .error then
        physicalFrameBinary p node .conditional a b (physicalMergeTrust a b)
      else (f, [])
    (physicalEnergyBinary p a b f, diags)
  else
    let unknown := physicalUnknown node "conditional branch kind is unverified"
    (if a.state = .error ∨ b.state = .error then { unknown with state := .error } else unknown, [])

-- Calls

def mathRecognized (op : MathOperation) : Bool :=
  2 ≤ p.schemaVersion &&
    ((p.schemaVersion == 7 && cosmicMathOperation op) || op == .fabs || op == .fmax ||
      (p.schemaVersion == 7 && (op == .fmin || op == .expm1 || op == .log)))

def mathRule (op : MathOperation) (a : PhysicalFact) (b : Option PhysicalFact) :
    Option OperationRule :=
  if cosmicMathOperation op then scalarRule p op a.type.kind (b.elim 0 fun b => b.type.kind)
  else ((a :: b.toList).filter scalarKnown).findSome? fun f => operationRule p op f.type.kind

/-- Scalar rules do not apply to what has a place or a direction. -/
def isFramed (f : PhysicalFact) : Bool :=
  let v := f.declaredContext
  f.type.origin != 0 || v.frame != 0 || v.axis != 0 || v.appliedAt != 0 ||
    v.displacementFrom != 0 || v.displacementTo != 0 || v.momentReference != 0 ||
    v.pointSubject != 0

def mathFact (op : MathOperation) (r : OperationRule) (a : PhysicalFact)
    (b : Option PhysicalFact) : PhysicalFact :=
  let reason := "identity-checked standard helper; admitted input-derived physical rule"
  let f := b.elim a (physicalMergeTrust a)
  if cosmicMathOperation op then
    if (a :: b.toList).any isFramed then
      { physicalUnknown node
          "scalar math requires unframed operands; use a qualified geometric helper" with
        operationRule := some r.id }
    else { ruleFact r f reason with declaredContext := noContext }
  else { f with reason := reason, operationRule := some r.id }

def mathContradicts (rule : Option OperationRule) (a b : PhysicalFact) : Bool :=
  rule.isSome && physicalKnown a && physicalKnown b && !a.carrier && !b.carrier &&
    (a.type.kind != b.type.kind || a.type.origin != b.type.origin)

def mathStart (op : MathOperation) (resolved : Bool) (a : PhysicalFact) (b : Option PhysicalFact) :
    Checked :=
  let args := a :: b.toList
  let rule := mathRule p op a b
  let unknown := physicalUnknown node "no admitted physical helper rule or operand kind"
  match b.filter (mathContradicts rule a) with
  | some b =>
    ({ a with state := .error, reason := "contradictory physical helper operands" },
      [.mismatch node (if a.type.kind ≠ b.type.kind then 4317 else 4318) (operationName op) a b])
  | none =>
    match args.find? (fun f => f.state == .error), rule with
    | some f, _ => (f, [])
    | none, none => (unknown, [])
    | none, some r =>
      if !args.all scalarKnown then (unknown, [])
      else if resolved || (6 ≤ p.schemaVersion && a.declaredContext.axis != 0) then
        (mathFact node op r a b, [])
      else (physicalUnknown node "physical helper lacks a valid dimensional result", [])

def physicalMathExpression (op : MathOperation) (resolved : Bool) (a : PhysicalFact)
    (b : Option PhysicalFact) : Checked :=
  if b.isSome = mathUnary op then
    (physicalUnknown node "invalid recognized physical helper arity", [])
  else
    let start := mathStart p node op resolved a b
    if cosmicMathOperation op then start
    else
      match b with
      | some b =>
        let (f, diags) := start.andThen fun f => physicalFrameBinary p node .conditional a b f
        (physicalEnergyBinary p a b f, diags)
      | none => (physicalFrameSign p start.1, start.2)

def uncontractedCall (args : List (Node × PhysicalFact)) : Checked :=
  let expected := physicalUnknown node "missing physical kind"
  (if 6 ≤ p.schemaVersion ∧ args.any (fun (_, f) => f.type.kind != 0 || frameGeometric p f) then
      physicalUnknown node "unverified direct function frame boundary"
    else expected,
    args.flatMap fun (argument, f) => (physicalBoundary p argument "argument" expected f false).2)

def constructorOperand (kind : Nat) (f : PhysicalFact) : Bool :=
  scalarKnown f && f.type.origin == 0 && f.declaredContext == noContext && f.type.kind == kind

def physicalDerive (resolved : Bool) (r : OperationRule) (a : PhysicalFact)
    (b : Option PhysicalFact) : PhysicalFact :=
  if constructorOperand r.left a && (b.all (constructorOperand r.right)) && resolved then
    ruleFact r (b.elim a (physicalMergeTrust a))
      "explicit scalar construction; exact signature/body and input provenance checked"
  else physicalUnknown node "constructor operands lack exact kind/dimensional provenance"

/-- An argument checked against what the constructor expects; the result it leaves. -/
def constructorArgument (kind : Nat) (argument : Node) (actual out : PhysicalFact) : Checked :=
  let (checked, diags) := physicalBoundary p argument "argument"
    ⟨⟨kind, 0, 0⟩, .known, noContext, false, false, none, "", none⟩ actual false
  (if physicalKnown checked then out else checked, diags)

def physicalConstructorCall (id : String) (verified resolved : Bool) (a : Node × PhysicalFact)
    (b : Option (Node × PhysicalFact)) : Checked :=
  match constructorRule p id with
  | none => uncontractedCall p node (a :: b.toList)
  | some r =>
    if !verified || b.isSome != (r.right != 0) then
      (physicalUnknown node "constructor definition/signature/body or direct callee is unverified", [])
    else
      let out := physicalDerive node resolved r a.2 (b.map (·.2))
      let first := constructorArgument p r.left a.1 a.2 out
      match b with
      | some b => first.andThen fun out => constructorArgument p r.right b.1 b.2 out
      | none => first

end

-- Expressions

/-- `declared` are the facts of the identifiers. -/
@[grind] def physicalExpression (p : PhysicalPolicy) (declared : String → PhysicalFact) :
    PhysicalExpr → Checked
  | .identifier _ name => (declared name, [])
  | .number node => (physicalUnknown node "bare literal has no inferred physical kind", [])
  | .cast node scalar operand =>
    (physicalExpression p declared operand).andThen fun a =>
      (if scalar then a else physicalUnknown node "unsupported cast loses physical identity", [])
  | .unary node op operand =>
    (physicalExpression p declared operand).andThen fun a => (physicalUnary p node op a, [])
  | .binary node op resolved left right =>
    (physicalExpression p declared left).andThen fun a =>
      (physicalExpression p declared right).andThen fun b => physicalBinary p node op resolved a b
  | .ternary node condition yes no =>
    (physicalExpression p declared condition).andThen fun _ =>
      (physicalExpression p declared yes).andThen fun a =>
        (physicalExpression p declared no).andThen fun b => physicalConditional p node a b
  | .comma _ first last =>
    (physicalExpression p declared first).andThen fun _ => physicalExpression p declared last
  | .call1 node op resolved argument =>
    (physicalExpression p declared argument).andThen fun a =>
      if mathRecognized p op then physicalMathExpression p node op resolved a none
      else uncontractedCall p node [(argument.node, a)]
  | .call2 node op resolved left right =>
    (physicalExpression p declared left).andThen fun a =>
      (physicalExpression p declared right).andThen fun b =>
        if mathRecognized p op then physicalMathExpression p node op resolved a (some b)
        else uncontractedCall p node [(left.node, a), (right.node, b)]
  | .construct1 node id verified resolved argument =>
    (physicalExpression p declared argument).andThen fun a =>
      physicalConstructorCall p node id verified resolved (argument.node, a) none
  | .construct2 node id verified resolved left right =>
    (physicalExpression p declared left).andThen fun a =>
      (physicalExpression p declared right).andThen fun b =>
        physicalConstructorCall p node id verified resolved (left.node, a) (some (right.node, b))

end Fisics.Physical
