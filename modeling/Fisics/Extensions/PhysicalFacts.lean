import Fisics.Extensions.PhysicalPolicy

/-!
# Physical facts

What the checker knows of a value, and how facts meet: trust, affine pairs, coordinate
frames, energy forms and boundaries. A check gives a fact and the diagnostics it
reports. Declared contexts are interned in the source and reached by a handle; here a
fact has its context. Diagnostics keep the node, the code and what the text is made of.
-/

namespace Fisics.Physical

abbrev Node := Nat

inductive FactState
  | unknown
  | known
  | literalTrust
  | declaredTrust
  | control
  | error
  deriving DecidableEq, Inhabited

structure PhysicalDeclaredContext where
  frame : Nat
  axis : Nat
  appliedAt : Nat
  displacementFrom : Nat
  displacementTo : Nat
  momentReference : Nat
  pointSubject : Nat
  transform : Nat
  checked : Bool
  invariant : Bool
  energyForm : Nat
  energyTransfer : Nat
  deriving DecidableEq

def noContext : PhysicalDeclaredContext := ⟨0, 0, 0, 0, 0, 0, 0, 0, false, false, 0, 0⟩

structure PhysicalType where
  kind : Nat
  origin : Nat
  representation : Nat
  deriving DecidableEq

structure PhysicalFact where
  type : PhysicalType
  state : FactState
  declaredContext : PhysicalDeclaredContext
  storageComponent : Bool
  carrier : Bool
  loss : Option Node
  reason : String
  operationRule : Option String
  deriving DecidableEq

inductive PhysicalDiag
  | error (node : Node) (code : Nat) (message : String)
  | mismatch (node : Node) (code : Nat) (op : String) (expected actual : PhysicalFact)
  | frames (node : Node) (code : Nat) (left right : Nat)
  deriving DecidableEq

abbrev Checked := PhysicalFact × List PhysicalDiag

def physicalUnknown (node : Node) (reason : String) : PhysicalFact :=
  ⟨⟨0, 0, 0⟩, .unknown, noContext, false, false, some node, reason, none⟩

def physicalControl (reason : String) : PhysicalFact :=
  ⟨⟨0, 0, 0⟩, .control, noContext, false, false, none, reason, none⟩

def physicalKnown (f : PhysicalFact) : Bool :=
  f.type.kind != 0 && (f.state == .known || f.state == .literalTrust || f.state == .declaredTrust)

def scalarKnown (f : PhysicalFact) : Bool :=
  physicalKnown f && !f.carrier && f.type.representation == 0

-- Trust and affine pairs

def physicalMergeTrust (a b : PhysicalFact) : PhysicalFact :=
  let merged :=
    if b.state = .declaredTrust ∧ a.state ≠ .declaredTrust then
      { a with state := b.state, loss := b.loss }
    else if b.state = .literalTrust ∧ a.state = .known then
      { a with state := b.state, loss := b.loss }
    else if a.loss.isNone ∧ b.loss.isSome then { a with loss := b.loss }
    else a
  { merged with storageComponent := a.storageComponent || b.storageComponent }

inductive PhysicalOp
  | add
  | sub
  | mul
  | div
  | eq
  | ne
  | lt
  | le
  | gt
  | ge
  | and
  | or
  | conditional
  | other
  deriving DecidableEq, Inhabited

def PhysicalOp.text : PhysicalOp → String
  | .add => "+"
  | .sub => "-"
  | .mul => "*"
  | .div => "/"
  | .eq => "=="
  | .ne => "!="
  | .lt => "<"
  | .le => "<="
  | .gt => ">"
  | .ge => ">="
  | .and => "&&"
  | .or => "||"
  | .conditional => "conditional"
  | .other => ""

def PhysicalOp.isComparison (op : PhysicalOp) : Bool :=
  op == .eq || op == .ne || op == .lt || op == .le || op == .gt || op == .ge

section
variable (p : PhysicalPolicy) (node : Node)

def affineError (code : Nat) (op : PhysicalOp) (a b : PhysicalFact) : Checked :=
  ({ a with state := .error, reason := "invalid affine physical operation" },
    [.mismatch node code op.text a b])

/-- At least one operand is absolute where this is called. -/
def physicalAffineBinary (op : PhysicalOp) (a b : PhysicalFact) : Checked :=
  let am := p.model a.type.kind
  let bm := p.model b.type.kind
  let aa := am.role == .absolute
  let ba := bm.role == .absolute
  if aa && ba then
    if a.type.kind ≠ b.type.kind then affineError node 4317 op a b
    else if a.type.origin ≠ b.type.origin then affineError node 4318 op a b
    else if op ≠ .sub then affineError node 4317 op a b
    else
      let f := physicalMergeTrust a b
      ({ f with
          type := { f.type with kind := am.pairedKind, origin := 0 }
          reason := "same-origin point subtraction yields paired difference" }, [])
  else if aa && bm.role == .difference && am.pairedKind == b.type.kind &&
      bm.pairedKind == a.type.kind then
    ({ physicalMergeTrust a b with
        reason := "point shifted by paired difference; origin preserved" }, [])
  else if ba && op != .sub && am.role == .difference && bm.pairedKind == a.type.kind &&
      am.pairedKind == b.type.kind then
    ({ physicalMergeTrust b a with
        reason := "paired difference plus point; origin preserved" }, [])
  else affineError node 4317 op a b

-- Coordinate frames

def frameGeometric (f : PhysicalFact) : Bool :=
  6 ≤ p.schemaVersion &&
    (f.declaredContext.frame != 0 ||
      (f.type.representation != 0 && p.representationRanks.getD (f.type.representation - 1) 0 == 1))

def frameStore (f : PhysicalFact) (v : PhysicalDeclaredContext) : PhysicalFact :=
  { f with declaredContext := { v with transform := 0 } }

def frameRefuse (f : PhysicalFact) (contradiction : Bool) (reason : String) : Checked :=
  if f.state = .error then (f, [])
  else
    ({ f with
        state := if contradiction then .error else .unknown
        reason := reason
        loss := some node },
      [.error node (if contradiction then 4317 else 4319) reason])

def framePair (a b f : PhysicalFact) : Option Checked :=
  let x := a.declaredContext
  let y := b.declaredContext
  if !physicalKnown a || !physicalKnown b || x.frame == 0 || y.frame == 0 then
    some (frameRefuse node f false
      "required frame/axis provenance is unknown; annotations and trust permissions cannot restore it")
  else if x.frame ≠ y.frame then
    some ({ f with
        state := .error
        reason := "contradictory coordinate frames"
        loss := some node }, [.frames node 4317 x.frame y.frame])
  else if x.axis ≠ y.axis then
    some (frameRefuse node f true "physical component axis mismatch within the same frame")
  else none

def frameReferences (f : PhysicalFact) : List (Nat × Nat) → Option Checked
  | [] => none
  | (expected, actual) :: rest =>
    if expected ≠ 0 ∧ expected ≠ actual then
      some (frameRefuse node f (actual != 0)
        (if actual ≠ 0 then "physical reference point mismatch at boundary"
          else "required physical reference is unknown; destination metadata cannot supply it"))
    else frameReferences f rest

def physicalFrameBoundary (a b f : PhysicalFact) (literal : Bool) : Checked :=
  if p.schemaVersion < 6 ∨ f.state = .error then (f, [])
  else if !frameGeometric p a && !frameGeometric p b then (f, [])
  else if literal && physicalKnown a && f.state == .literalTrust then (f, [])
  else
    let x := a.declaredContext
    let y := b.declaredContext
    if x.frame = 0 ∧ y.frame ≠ 0 then
      frameRefuse node f false
        "framed value cannot pass through an unframed scalar or carrier boundary (context erasure)"
    else
      match framePair node a b f with
      | some refused => refused
      | none =>
        match frameReferences node f
            [(x.appliedAt, y.appliedAt), (x.displacementFrom, y.displacementFrom),
              (x.displacementTo, y.displacementTo), (x.momentReference, y.momentReference),
              (x.pointSubject, y.pointSubject)] with
        | some refused => refused
        | none =>
          if physicalKnown f then (frameStore f { y with checked := true }, []) else (f, [])

/-- Sums and differences with a position; `none` where there is none. -/
def physicalPointOperation (op : PhysicalOp) (a b : PhysicalFact) : Option Checked :=
  if p.schemaVersion < 6 ∨ a.type.kind = 0 ∨ b.type.kind = 0 then none
  else
    let pa := (p.kindOf a.type.kind).id == "quantity.position"
    let pb := (p.kindOf b.type.kind).id == "quantity.position"
    if !pa && !pb then none
    else if op ≠ .add ∧ op ≠ .sub then none
    else
      let x := a.declaredContext
      let y := b.declaredContext
      let unknown := physicalUnknown node "point operation requires known compatible frames and origins"
      if !physicalKnown a || !physicalKnown b || x.frame == 0 || y.frame == 0 then
        some (unknown, [.error node 4319 unknown.reason])
      else if x.frame ≠ y.frame ∨ x.axis ≠ y.axis ∨
          a.type.representation ≠ b.type.representation then
        some ({ unknown with state := .error },
          [.error node 4317 "point operation frame, axis or representation mismatch"])
      else
        let (f, diags) := physicalAffineBinary p node op a b
        if !physicalKnown f then some (f, diags)
        else
          let v := { (if pa then x else y) with
            transform := 0, checked := true, invariant := false, pointSubject := 0
            displacementFrom := 0, displacementTo := 0 }
          let v :=
            if pa && pb && y.pointSubject != 0 && x.pointSubject != 0 then
              { v with displacementFrom := y.pointSubject, displacementTo := x.pointSubject }
            else v
          some ({ f with
            declaredContext := v
            reason := "same-frame affine point operation checked; physical reference identities are authored premises" },
            diags)

def physicalFrameBinary (op : PhysicalOp) (a b f : PhysicalFact) : Checked :=
  if p.schemaVersion < 6 ∨ f.state = .error then (f, [])
  else if !frameGeometric p a && !frameGeometric p b then (f, [])
  else
    match framePair node a b f with
    | some refused => refused
    | none =>
      if !physicalKnown f && f.state != .control then (f, [])
      else
        match physicalPointOperation p node op a b with
        | some point => point
        | none =>
          let x := { a.declaredContext with checked := true }
          let y := b.declaredContext
          let kind := (p.kindOf f.type.kind).id
          if f.state = .control then
            (frameStore f { noContext with checked := true, invariant := true }, [])
          else if kind = "quantity.position" then
            frameRefuse node f false
              "framed position arithmetic is deferred to the bounded point checkpoint"
          else if kind = "quantity.torque" ∧ x.momentReference ≠ y.momentReference then
            frameRefuse node f (x.momentReference != 0 && y.momentReference != 0)
              "torque addition requires compatible moment reference points"
          else
            let x := if kind = "quantity.force" ∧ x.appliedAt ≠ y.appliedAt then
              { x with appliedAt := 0 } else x
            let x :=
              if kind = "quantity.displacement" ∧ (op ≠ .conditional ∨
                  x.displacementFrom ≠ y.displacementFrom ∨ x.displacementTo ≠ y.displacementTo) then
                { x with displacementFrom := 0, displacementTo := 0 } else x
            (frameStore f x, [])

def physicalFrameScale (op : PhysicalOp) (a b f : PhysicalFact) : Checked :=
  if p.schemaVersion < 6 ∨ f.state = .error then (f, [])
  else
    let ga := frameGeometric p a
    let gb := frameGeometric p b
    if !ga && !gb then (f, [])
    else
      let vector := if ga then a else b
      let ratio := if ga then b else a
      if ga == gb || (!ga && op == .div) || !physicalKnown vector || !physicalKnown ratio ||
          (p.kindOf ratio.type.kind).id != "quantity.ratio" || ratio.carrier ||
          ratio.type.representation != 0 || ratio.declaredContext.frame != 0 then
        frameRefuse node f false
          "framed scalar products require a known unframed ratio; a component product is not a qualified dot/cross operation"
      else
        let v := vector.declaredContext
        if v.frame = 0 then
          frameRefuse node f false "ratio scaling cannot manufacture missing frame provenance"
        else if !physicalKnown f then (f, [])
        else
          (frameStore f { v with displacementFrom := 0, displacementTo := 0, checked := true }, [])

def physicalFrameSign (f : PhysicalFact) : PhysicalFact :=
  if frameGeometric p f then
    frameStore f { f.declaredContext with displacementFrom := 0, displacementTo := 0 }
  else f

-- Energy forms

def isEnergy (f : PhysicalFact) : Bool :=
  p.schemaVersion == 7 && f.type.kind != 0 && (p.kindOf f.type.kind).id == "quantity.energy"

def energyStore (f : PhysicalFact) (form : Nat) : PhysicalFact :=
  { f with declaredContext := { f.declaredContext with energyForm := form, energyTransfer := 0 } }

def energyRefuse (f : PhysicalFact) (why : String) : Checked :=
  ({ f with state := .error, reason := why, loss := some node },
    if f.state = .error then [] else [.error node 4317 why])

def mixedForm : Nat := (p.energyForms.findIdx? (· == "energy.mixed")).elim 0 (· + 1)

def physicalEnergyBoundary (a b f : PhysicalFact) (literal : Bool) : Checked :=
  if !isEnergy p a || f.state == .error then (f, [])
  else
    let x := a.declaredContext.energyForm
    let y := b.declaredContext.energyForm
    if literal && f.state == .literalTrust then (f, [])
    else if x != 0 && physicalKnown f && x != y && !(y != 0 && x == mixedForm p) then
      energyRefuse node f
        "energy form boundary cannot narrow, restore or relabel a contribution; use an explicit directed transfer"
    else (f, [])

def physicalEnergyBinary (a b f : PhysicalFact) : PhysicalFact :=
  if !isEnergy p f || !physicalKnown f || !isEnergy p a || !isEnergy p b then f
  else
    let x := a.declaredContext.energyForm
    let y := b.declaredContext.energyForm
    let form := if x = 0 ∨ y = 0 then 0 else if x = y then x else mixedForm p
    { energyStore f form with
      reason :=
        if form ≠ 0 then "energy contributions aggregate; mixed result is not a conversion"
        else "energy form unknown on an operand" }

def isRatio (f : PhysicalFact) : Bool :=
  f.type.kind != 0 && (p.kindOf f.type.kind).id == "quantity.ratio"

def physicalEnergyScale (op : PhysicalOp) (a b f : PhysicalFact) : PhysicalFact :=
  if p.schemaVersion ≠ 7 ∨ physicalKnown f = false then f
  else if isEnergy p f then
    energyStore f
      (if isEnergy p a && isRatio p b then a.declaredContext.energyForm
        else if op == .mul && isRatio p a && isEnergy p b then b.declaredContext.energyForm
        else 0)
  else if f.declaredContext.energyForm ≠ 0 then energyStore f 0
  else f

-- Boundaries

def Checked.andThen (c : Checked) (next : PhysicalFact → Checked) : Checked :=
  ((next c.1).1, c.2 ++ (next c.1).2)

def physicalBoundary (op : String) (a b : PhysicalFact) (literal : Bool) : Checked :=
  let f : Checked :=
    if a.state = .error ∨ b.state = .error then ({ b with state := .error }, [])
    else if physicalKnown a && literal then
      ({ a with
          state := .literalTrust
          reason := "authored literal representation"
          loss := some node }, [])
    else if a.type.kind ≠ 0 ∧ b.type.kind ≠ 0 ∧ a.type ≠ b.type then
      ({ b with state := .error, reason := "contradictory physical boundary" },
        [.mismatch node (if a.type.kind ≠ b.type.kind then 4316 else 4318) op a b])
    else if physicalKnown a && physicalKnown b then (b, [])
    else
      ({ physicalUnknown node "unverified physical boundary" with
          loss := if b.loss.isSome then b.loss else some node }, [])
  (f.andThen fun f => physicalFrameBoundary p node a b f literal).andThen fun f =>
    physicalEnergyBoundary p node a b f literal

end

end Fisics.Physical
