import Fisics.Compiler.ProjectJson
import Fisics.Extensions.UnitsModel
import Fisics.Library.LowerBound

/-!
# The physical policy

Quantity kinds, their roles, origins and operation rules, as `physical_policy_profiles`
and `physical_operations_load` put them into a `FisicsPhysicalPolicy`. Handles count from
one; zero is unknown. The catalogs that the kinds come from and the tables loaded after
the rules are given.
-/

namespace Fisics.Physical

open Fisics.Json (JsonValue)

-- The model of a policy

inductive ReferenceRole
  | unprofiled
  | linear
  | absolute
  | difference
  deriving DecidableEq, Inhabited

structure QuantityKind where
  id : String
  dimension : Dim8
  deriving DecidableEq

instance : Inhabited QuantityKind := ⟨"", dimZero⟩

structure KindModel where
  role : ReferenceRole
  pairedKind : Nat
  deriving DecidableEq, Inhabited

structure PhysicalOrigin where
  id : String
  absoluteKind : Nat
  deriving DecidableEq, Inhabited

/-- `FisicsUnitsMathOperation` with the private codes of `physical_operations.h`. -/
inductive MathOperation
  | none
  | sqrt
  | fabs
  | hypot
  | fmax
  | expm1
  | log
  | fmin
  | atan2
  | multiply
  | divide
  | couplingTr
  | couplingRt
  | translationWork
  | rotationWork
  | lineMoment
  deriving DecidableEq, Inhabited

def MathOperation.code : MathOperation → Nat
  | .none => 0
  | .sqrt => 1
  | .fabs => 2
  | .hypot => 3
  | .fmax => 4
  | .expm1 => 5
  | .log => 6
  | .fmin => 7
  | .atan2 => 8
  | .multiply => 100
  | .divide => 101
  | .couplingTr => 102
  | .couplingRt => 103
  | .translationWork => 104
  | .rotationWork => 105
  | .lineMoment => 106

/-- `right` is zero for one operand. -/
structure OperationRule where
  id : String
  operation : MathOperation
  kind : Nat
  left : Nat
  right : Nat
  deriving DecidableEq, Inhabited

/-- `representationRanks` are the ranks of the representations. -/
structure PhysicalPolicy where
  schemaVersion : Nat
  kinds : List QuantityKind
  models : List KindModel
  origins : List PhysicalOrigin
  operations : List OperationRule
  representationRanks : List Nat
  energyForms : List String

namespace PhysicalPolicy

variable (p : PhysicalPolicy)

def kindOf (k : Nat) : QuantityKind := p.kinds.getD (k - 1) default

def model (k : Nat) : KindModel := p.models.getD (k - 1) default

def role (k : Nat) : ReferenceRole := (p.model k).role

def dimensionOf (k : Nat) : Dim8 := (p.kindOf k).dimension

def hasKind (k : Nat) : Bool := k != 0 && k ≤ p.kinds.length

/-- The handle of an entry of a table that is sorted by `key`. -/
def findHandle (key : α → String) (id : String) (table : List α) : Nat :=
  match LowerBound.find (fun a => key a < id) (fun a => key a == id) table with
  | some (i, _) => i + 1
  | none => 0

def findKind (id : String) : Nat := findHandle QuantityKind.id id p.kinds

def findOrigin (id : String) : Nat := findHandle PhysicalOrigin.id id p.origins

/-- `fisics_physical_policy_make_type` -/
def makesType (k o : Nat) : Bool :=
  p.hasKind k && o ≤ p.origins.length &&
    if p.role k = .absolute then o != 0 && (p.origins.getD (o - 1) default).absoluteKind == k
    else o == 0

end PhysicalPolicy

-- Contracts of the operation rules

def mathUnary (op : MathOperation) : Bool :=
  op == .fabs || op == .expm1 || op == .log || op == .sqrt

def constructorOperation (op : MathOperation) : Bool :=
  MathOperation.couplingTr.code ≤ op.code && op.code ≤ MathOperation.lineMoment.code

def cosmicMathOperation (op : MathOperation) : Bool := op == .sqrt || op == .hypot || op == .atan2

def exponents (e : List Int) : Dim8 := ⟨fun i => Int8.ofInt (e.getD i 0)⟩

structure ContractRow where
  op : MathOperation
  a : String
  b : Option String
  k : String
  deriving DecidableEq

def times (a b k : String) : ContractRow := ⟨.multiply, a, some b, k⟩

def per (a b k : String) : ContractRow := ⟨.divide, a, some b, k⟩

def dynamicKinds : List (String × Dim8) :=
  [("quantity.inertia_translation_rotation", exponents [1, 1]),
   ("quantity.inertia_rotation_translation", exponents [1, 1]),
   ("quantity.velocity", exponents [1, 0, -1]),
   ("quantity.angular_rate", exponents [0, 0, -1]),
   ("quantity.momentum", exponents [1, 1, -1]),
   ("quantity.rotational_momentum", exponents [2, 1, -1])]

def dynamicRows : List ContractRow :=
  [times "quantity.velocity" "quantity.inertia_translation_rotation" "quantity.rotational_momentum",
   times "quantity.angular_rate" "quantity.inertia_translation_rotation" "quantity.momentum",
   times "quantity.angular_rate" "quantity.inertia_rotation_translation" "quantity.momentum",
   times "quantity.velocity" "quantity.inertia_rotation_translation" "quantity.rotational_momentum"]

def cosmicKinds : List (String × Dim8) :=
  [("quantity.gravitational_constant", exponents [3, -1, -2]),
   ("quantity.gravitational_parameter", exponents [3, 0, -2]),
   ("quantity.gravity_pair_strength", exponents [3, 1, -2]),
   ("quantity.translational_stiffness", exponents [0, 1, -2]),
   ("quantity.translational_damping", exponents [0, 1, -1]),
   ("quantity.dissipative_power", exponents [2, 1, -3]),
   ("quantity.mass", exponents [0, 1]),
   ("quantity.area", exponents [2]),
   ("quantity.geometric_length", exponents [1]),
   ("quantity.displacement", exponents [1]),
   ("quantity.velocity", exponents [1, 0, -1]),
   ("quantity.speed_squared", exponents [2, 0, -2]),
   ("quantity.specific_energy", exponents [2, 0, -2]),
   ("quantity.specific_external_potential", exponents [2, 0, -2]),
   ("quantity.external_potential_energy", exponents [2, 1, -2]),
   ("quantity.acceleration", exponents [1, 0, -2]),
   ("quantity.force", exponents [1, 1, -2]),
   ("quantity.momentum", exponents [1, 1, -1]),
   ("quantity.orbital_angular_momentum", exponents [2, 1, -1]),
   ("quantity.rotational_momentum", exponents [2, 1, -1]),
   ("quantity.moment_of_inertia", exponents [2, 1]),
   ("quantity.angular_rate", exponents [0, 0, -1]),
   ("quantity.angle", exponents []),
   ("quantity.energy", exponents [2, 1, -2]),
   ("quantity.duration", exponents [0, 0, 1]),
   ("quantity.inverse_length", exponents [-1]),
   ("quantity.ratio", exponents []),
   ("quantity.acceleration_squared", exponents [2, 0, -4]),
   ("quantity.specific_angular_momentum", exponents [2, 0, -1]),
   ("quantity.kinetic_specific_factor", exponents []),
   ("quantity.inverse_velocity", exponents [-1, 0, 1]),
   ("quantity.inverse_speed_squared", exponents [-2, 0, 2])]

def cosmicRows : List ContractRow :=
  [times "quantity.translational_stiffness" "quantity.displacement" "quantity.force",
   times "quantity.translational_damping" "quantity.velocity" "quantity.force",
   times "quantity.force" "quantity.displacement" "quantity.energy",
   times "quantity.force" "quantity.velocity" "quantity.dissipative_power",
   times "quantity.dissipative_power" "quantity.duration" "quantity.energy",
   per "quantity.moment_of_inertia" "quantity.moment_of_inertia" "quantity.ratio",
   per "quantity.gravitational_parameter" "quantity.geometric_length" "quantity.specific_external_potential",
   per "quantity.specific_external_potential" "quantity.geometric_length" "quantity.acceleration",
   times "quantity.mass" "quantity.specific_external_potential" "quantity.external_potential_energy",
   times "quantity.speed_squared" "quantity.kinetic_specific_factor" "quantity.specific_energy",
   times "quantity.geometric_length" "quantity.velocity" "quantity.specific_angular_momentum",
   per "quantity.specific_angular_momentum" "quantity.gravitational_parameter" "quantity.inverse_velocity",
   times "quantity.velocity" "quantity.inverse_velocity" "quantity.ratio",
   times "quantity.inverse_velocity" "quantity.specific_angular_momentum" "quantity.geometric_length",
   per "quantity.gravitational_parameter" "quantity.specific_energy" "quantity.geometric_length",
   per "quantity.geometric_length" "quantity.gravitational_parameter" "quantity.inverse_speed_squared",
   times "quantity.geometric_length" "quantity.inverse_velocity" "quantity.duration",
   per "quantity.geometric_length" "quantity.velocity" "quantity.duration",
   per "quantity.geometric_length" "quantity.geometric_length" "quantity.ratio",
   per "quantity.velocity" "quantity.velocity" "quantity.ratio",
   times "quantity.geometric_length" "quantity.geometric_length" "quantity.area",
   times "quantity.acceleration" "quantity.acceleration" "quantity.acceleration_squared",
   per "quantity.acceleration" "quantity.acceleration" "quantity.ratio",
   per "quantity.displacement" "quantity.geometric_length" "quantity.ratio",
   per "quantity.mass" "quantity.mass" "quantity.ratio",
   per "quantity.ratio" "quantity.geometric_length" "quantity.inverse_length",
   per "quantity.angle" "quantity.angle" "quantity.ratio",
   times "quantity.displacement" "quantity.velocity" "quantity.specific_angular_momentum",
   times "quantity.mass" "quantity.specific_angular_momentum" "quantity.orbital_angular_momentum",
   times "quantity.momentum" "quantity.velocity" "quantity.energy",
   times "quantity.gravitational_constant" "quantity.mass" "quantity.gravitational_parameter",
   times "quantity.gravitational_parameter" "quantity.mass" "quantity.gravity_pair_strength",
   per "quantity.gravity_pair_strength" "quantity.area" "quantity.force",
   per "quantity.force" "quantity.mass" "quantity.acceleration",
   times "quantity.mass" "quantity.acceleration" "quantity.force",
   times "quantity.mass" "quantity.velocity" "quantity.momentum",
   per "quantity.momentum" "quantity.mass" "quantity.velocity",
   times "quantity.velocity" "quantity.velocity" "quantity.speed_squared",
   times "quantity.mass" "quantity.speed_squared" "quantity.energy",
   per "quantity.energy" "quantity.mass" "quantity.specific_energy",
   times "quantity.mass" "quantity.specific_energy" "quantity.energy",
   per "quantity.gravitational_parameter" "quantity.geometric_length" "quantity.specific_energy",
   per "quantity.gravitational_parameter" "quantity.area" "quantity.acceleration",
   times "quantity.displacement" "quantity.displacement" "quantity.area",
   times "quantity.mass" "quantity.area" "quantity.moment_of_inertia",
   times "quantity.displacement" "quantity.momentum" "quantity.orbital_angular_momentum",
   times "quantity.moment_of_inertia" "quantity.angular_rate" "quantity.orbital_angular_momentum",
   times "quantity.moment_of_inertia" "quantity.angular_rate" "quantity.rotational_momentum",
   times "quantity.rotational_momentum" "quantity.angular_rate" "quantity.energy",
   per "quantity.orbital_angular_momentum" "quantity.moment_of_inertia" "quantity.angular_rate",
   times "quantity.angular_rate" "quantity.duration" "quantity.angle",
   times "quantity.force" "quantity.duration" "quantity.momentum",
   per "quantity.momentum" "quantity.duration" "quantity.force",
   per "quantity.gravity_pair_strength" "quantity.geometric_length" "quantity.energy",
   times "quantity.gravity_pair_strength" "quantity.inverse_length" "quantity.energy"]

/-- The names stand behind `quantity.`. -/
def thermalKinds : List (String × Dim8) :=
  [("area", exponents [2]),
   ("geometric_length", exponents [1]),
   ("volume", exponents [3]),
   ("volumetric_heat_capacity", exponents [-1, 1, -2, 0, -1]),
   ("thermal_conductivity", exponents [1, 1, -3, 0, -1]),
   ("area_specific_thermal_resistance", exponents [0, -1, 3, 0, 1]),
   ("volumetric_enthalpy", exponents [-1, 1, -2]),
   ("capacity_per_length", exponents [1, 1, -2, 0, -1]),
   ("conductance_length", exponents [3, 1, -3, 0, -1]),
   ("inverse_heat_capacity", exponents [-2, -1, 2, 0, 1]),
   ("power", exponents [2, 1, -3]),
   ("duration", exponents [0, 0, 1]),
   ("energy", exponents [2, 1, -2]),
   ("heat_capacity", exponents [2, 1, -2, 0, -1]),
   ("thermal_conductance", exponents [2, 1, -3, 0, -1]),
   ("temperature.difference", exponents [0, 0, 0, 0, 1]),
   ("temperature_rate", exponents [0, 0, -1, 0, 1]),
   ("inverse_duration", exponents [0, 0, -1]),
   ("ratio", exponents [])]

def thermalRows : List ContractRow :=
  [times "temperature_rate" "duration" "temperature.difference",
   per "temperature.difference" "temperature.difference" "ratio",
   per "ratio" "inverse_duration" "duration",
   times "heat_capacity" "temperature_rate" "power",
   times "duration" "thermal_conductance" "heat_capacity",
   per "temperature_rate" "temperature_rate" "ratio",
   times "volumetric_heat_capacity" "area" "capacity_per_length",
   times "capacity_per_length" "geometric_length" "heat_capacity",
   per "geometric_length" "thermal_conductivity" "area_specific_thermal_resistance",
   per "area" "area_specific_thermal_resistance" "thermal_conductance",
   times "area" "thermal_conductivity" "conductance_length",
   per "conductance_length" "geometric_length" "thermal_conductance",
   times "temperature.difference" "volumetric_heat_capacity" "volumetric_enthalpy",
   times "area" "geometric_length" "volume",
   times "volume" "volumetric_enthalpy" "energy",
   per "energy" "volume" "volumetric_enthalpy",
   times "volume" "volumetric_heat_capacity" "heat_capacity",
   per "ratio" "heat_capacity" "inverse_heat_capacity",
   times "thermal_conductance" "inverse_heat_capacity" "inverse_duration",
   times "power" "duration" "energy",
   per "energy" "duration" "power",
   times "heat_capacity" "temperature.difference" "energy",
   per "energy" "heat_capacity" "temperature.difference",
   times "thermal_conductance" "temperature.difference" "power",
   per "power" "heat_capacity" "temperature_rate",
   per "thermal_conductance" "heat_capacity" "inverse_duration",
   times "inverse_duration" "duration" "ratio",
   per "heat_capacity" "heat_capacity" "ratio"]

/-- The names stand behind `quantity.`. -/
def structuralKinds : List (String × Dim8) :=
  [("temperature.difference", exponents [0, 0, 0, 0, 1]),
   ("thermal_expansion_coefficient", exponents [0, 0, 0, 0, -1]),
   ("mechanical_strain", exponents []),
   ("pressure", exponents [-1, 1, -2]),
   ("area", exponents [2]),
   ("inertia", exponents [4]),
   ("geometric_length", exponents [1]),
   ("length_squared", exponents [2]),
   ("length_cubed", exponents [3]),
   ("section_modulus", exponents [3]),
   ("axial_rigidity", exponents [1, 1, -2]),
   ("flexural_rigidity", exponents [3, 1, -2]),
   ("translational_stiffness", exponents [0, 1, -2]),
   ("coupling_coefficient", exponents [1, 1, -2]),
   ("force_per_angle", exponents [1, 1, -2]),
   ("moment_per_displacement", exponents [1, 1, -2]),
   ("rotational_stiffness", exponents [2, 1, -2]),
   ("line_load", exponents [0, 1, -2]),
   ("force", exponents [1, 1, -2]),
   ("torque", exponents [2, 1, -2]),
   ("displacement", exponents [1]),
   ("angle", exponents []),
   ("energy", exponents [2, 1, -2])]

def structuralRows : List ContractRow :=
  [times "thermal_expansion_coefficient" "temperature.difference" "mechanical_strain",
   times "temperature.difference" "thermal_expansion_coefficient" "mechanical_strain",
   times "axial_rigidity" "mechanical_strain" "force",
   per "displacement" "geometric_length" "mechanical_strain",
   times "mechanical_strain" "geometric_length" "displacement",
   times "pressure" "area" "axial_rigidity",
   times "pressure" "inertia" "flexural_rigidity",
   times "geometric_length" "geometric_length" "length_squared",
   times "length_squared" "geometric_length" "length_cubed",
   per "axial_rigidity" "geometric_length" "translational_stiffness",
   per "flexural_rigidity" "length_cubed" "translational_stiffness",
   times "translational_stiffness" "geometric_length" "coupling_coefficient",
   times "coupling_coefficient" "geometric_length" "rotational_stiffness",
   times "line_load" "geometric_length" "force",
   times "line_load" "length_squared" "torque",
   per "force" "area" "pressure",
   per "torque" "section_modulus" "pressure",
   ⟨.couplingTr, "coupling_coefficient", none, "force_per_angle"⟩,
   ⟨.couplingRt, "coupling_coefficient", none, "moment_per_displacement"⟩,
   ⟨.translationWork, "force", some "displacement", "energy"⟩,
   ⟨.rotationWork, "torque", some "angle", "energy"⟩,
   ⟨.lineMoment, "force", some "geometric_length", "torque"⟩]

section
variable (p : PhysicalPolicy)

def named (k : Nat) (id : String) (dim : Dim8) : Bool :=
  (p.kindOf k).id == id && p.dimensionOf k == dim

def inTable (table : List (String × Dim8)) (stem : String) (k : Nat) (id : String) : Bool :=
  (table.find? (·.1 == id)).any fun e => named p k (stem ++ id) e.2

/-- Some row has the operation and the kinds; `reverses` lets a product have its operands
in the other order. -/
def rowsAdmit (isKind : Nat → String → Bool) (reverses : Bool) (rows : List ContractRow)
    (op : MathOperation) (a b k : Nat) : Bool :=
  rows.any fun row =>
    row.op == op && isKind k row.k &&
      ((isKind a row.a && row.b.elim (b == 0) (isKind b)) ||
        (reverses && op == .multiply && isKind b row.a && row.b.elim false (isKind a)))

def dynamicContract (op : MathOperation) (a b k : Nat) : Bool :=
  p.schemaVersion == 7 &&
    rowsAdmit (fun k id => p.hasKind k && p.role k == .linear && inTable p dynamicKinds "" k id) true
      dynamicRows op a b k

def cosmicContract (op : MathOperation) (a b k : Nat) : Bool :=
  p.schemaVersion == 7 &&
    rowsAdmit
      (fun k id => p.hasKind k &&
        p.role k == (if id = "quantity.displacement" then .difference else .linear) &&
        inTable p cosmicKinds "" k id)
      true cosmicRows op a b k

def thermalContract (op : MathOperation) (a b k : Nat) : Bool :=
  p.schemaVersion == 7 &&
    rowsAdmit
      (fun k id => p.hasKind k &&
        p.role k == (if id = "temperature.difference" then .difference else .linear) &&
        inTable p thermalKinds "quantity." k id)
      true thermalRows op a b k

/-- A displacement may be linear or a difference. -/
def structuralKind (k : Nat) (id : String) : Bool :=
  p.hasKind k &&
    (if id = "temperature.difference" then p.role k == .difference
      else p.role k == .linear || (id == "displacement" && p.role k == .difference)) &&
    inTable p structuralKinds "quantity." k id

def structuralContract (op : MathOperation) (a b k : Nat) : Bool :=
  p.schemaVersion == 7 && rowsAdmit (structuralKind p) false structuralRows op a b k

structure MechanicalRule where
  coefficient : String
  coordinate : String
  result : String
  coefficientDim : Dim8
  coordinateDim : Dim8
  resultDim : Dim8

def mechanicalRules : List MechanicalRule :=
  [⟨"quantity.translational_stiffness", "quantity.displacement", "quantity.force",
      exponents [0, 1, -2], exponents [1], exponents [1, 1, -2]⟩,
   ⟨"quantity.force_per_angle", "quantity.angle", "quantity.force",
      exponents [1, 1, -2], exponents [0], exponents [1, 1, -2]⟩,
   ⟨"quantity.moment_per_displacement", "quantity.displacement", "quantity.torque",
      exponents [1, 1, -2], exponents [1], exponents [2, 1, -2]⟩,
   ⟨"quantity.rotational_stiffness", "quantity.angle", "quantity.torque",
      exponents [2, 1, -2], exponents [0], exponents [2, 1, -2]⟩]

/-- The first rule whose names match decides, with the coefficient on the left first. -/
def mechanicalContract (op : MathOperation) (a b k : Nat) : Bool :=
  4 ≤ p.schemaVersion && op == .multiply &&
    match (mechanicalRules.flatMap fun r => [(r, a, b), (r, b, a)]).find? fun (r, c, x) =>
        (p.kindOf c).id == r.coefficient && (p.kindOf x).id == r.coordinate &&
          (p.kindOf k).id == r.result with
    | some (r, c, x) =>
      p.role c == .linear && p.role k == .linear &&
        (p.role x == .linear || (r.coordinate == "quantity.displacement" && p.role x == .difference)) &&
        p.dimensionOf c == r.coefficientDim && p.dimensionOf x == r.coordinateDim &&
        p.dimensionOf k == r.resultDim
    | none => false

def isLinear (k : Nat) : Bool := p.role k == .linear || p.role k == .difference

/-- The exponents of a product or a quotient, in integers that do not overflow. -/
def exponentsAgree (op : MathOperation) (a b k : Nat) : Bool :=
  decide (∀ i, ((p.dimensionOf a).e i).toInt +
    (if op = .multiply then 1 else -1) * ((p.dimensionOf b).e i).toInt = ((p.dimensionOf k).e i).toInt)

def motionContract (mul : Bool) (a b k : Nat) : Bool :=
  named p b "quantity.duration" (exponents [0, 0, 1]) && p.role b == .linear &&
    ((let v := if mul then k else a
      let acceleration := if mul then a else k
      named p v "quantity.velocity" (exponents [1, 0, -1]) &&
        named p acceleration "quantity.acceleration" (exponents [1, 0, -2]) &&
        p.role v == .linear && p.role acceleration == .linear) ||
      (let d := if mul then k else a
       let v := if mul then a else k
       named p d "quantity.displacement" (exponents [1]) &&
        named p v "quantity.velocity" (exponents [1, 0, -1]) &&
        p.role d == .difference && p.role v == .linear))

def scalarContract (op : MathOperation) (a b k : Nat) : Bool :=
  let mul := op == .multiply
  p.hasKind a && p.hasKind b && p.hasKind k && isLinear p a && isLinear p b && isLinear p k &&
    (mul || op == .divide) && exponentsAgree p op a b k &&
    (dynamicContract p op a b k || cosmicContract p op a b k || thermalContract p op a b k ||
      structuralContract p op a b k || mechanicalContract p op a b k ||
      (named p b "quantity.ratio" dimZero && a == k && p.role b == .linear) ||
      (mul && named p a "quantity.ratio" dimZero && b == k && p.role a == .linear) ||
      if mul && named p a "quantity.duration" (exponents [0, 0, 1]) then motionContract p mul b a k
      else motionContract p mul a b k)

/-- `kind` of the cosmic mathematics rules. -/
def cosmicKind (k : Nat) (id : String) (dim : List Int) : Bool :=
  p.hasKind k && named p k id (exponents dim) &&
    p.role k == if id = "quantity.displacement" then .difference else .linear

def cosmicMathContract (op : MathOperation) (a b k : Nat) : Bool :=
  let kind := cosmicKind p
  p.schemaVersion == 7 &&
    if op = .sqrt ∧ b = 0 then
      (kind a "quantity.inverse_speed_squared" [-2, 0, 2] &&
        kind k "quantity.inverse_velocity" [-1, 0, 1]) ||
      (kind a "quantity.area" [2] && kind k "quantity.geometric_length" [1]) ||
      (kind a "quantity.speed_squared" [2, 0, -2] && kind k "quantity.velocity" [1, 0, -1]) ||
      (kind a "quantity.acceleration_squared" [2, 0, -4] && kind k "quantity.acceleration" [1, 0, -2])
    else if a ≠ b then false
    else if op = .hypot then
      (kind a "quantity.ratio" [] && a == k) ||
      (kind a "quantity.displacement" [1] && kind k "quantity.geometric_length" [1]) ||
      (kind a "quantity.velocity" [1, 0, -1] && a == k) ||
      (kind a "quantity.acceleration" [1, 0, -2] && a == k)
    else
      op == .atan2 &&
        (kind a "quantity.geometric_length" [1] || kind a "quantity.ratio" []) &&
        kind k "quantity.angle" []

end

-- Reading the policy document

/-- `fisics_semantic_metadata_is_canonical_name` behind the length check. -/
def canonicalLoop : (segmentStart : Bool) → List Char → Bool
  | _, [] => true
  | segmentStart, c :: rest =>
    if c = '.' then !segmentStart && !rest.isEmpty && canonicalLoop true rest
    else if segmentStart then c.isLower && canonicalLoop false rest
    else (c.isLower || c.isDigit || c == '_') && canonicalLoop false rest

def isCanonicalName (value : String) : Bool :=
  value != "" && value.length ≤ 255 && canonicalLoop true value.toList

/-- `fisics_json_object_get` -/
def objectGet (key : String) : JsonValue String → Option (JsonValue String)
  | .object members => (members.find? (·.1 == key)).map (·.2)
  | _ => none

def exactFields (fields : List String) : JsonValue String → Bool
  | .object members =>
    members.length == fields.length && fields.all fun f => (members.find? (·.1 == f)).isSome
  | _ => false

def stringOf : Option (JsonValue String) → Option String
  | some (.string text) => some text
  | _ => none

def arrayOf : Option (JsonValue String) → Option (List (JsonValue String))
  | some (.array items) => some items
  | _ => none

structure LoadOptions where
  maxKinds : Nat
  maxOrigins : Nat

def firstDuplicate (same : α → α → Bool) : List α → Option α
  | [] => none
  | [_] => none
  | a :: b :: rest => if same a b then some b else firstDuplicate same (b :: rest)

def kindHandle (p : PhysicalPolicy) (value : Option (JsonValue String)) : Nat :=
  (stringOf value).elim 0 p.findKind

def setModel (p : PhysicalPolicy) (k : Nat) (m : KindModel) : PhysicalPolicy :=
  { p with models := p.models.set (k - 1) m }

def loadLinearKinds : (index : Nat) → PhysicalPolicy → List (JsonValue String) →
    Except String PhysicalPolicy
  | _, p, [] => .ok p
  | index, p, value :: rest =>
    let k := kindHandle p (some value)
    if k = 0 then .error s!"unknown physical linear kind at index {index}"
    else if p.role k ≠ .unprofiled then
      .error ("duplicate or conflicting physical role for " ++ (p.kindOf k).id)
    else loadLinearKinds (index + 1) (setModel p k ⟨.linear, 0⟩) rest

def loadAffinePairs : PhysicalPolicy → List (JsonValue String) → Except String PhysicalPolicy
  | p, [] => .ok p
  | p, value :: rest =>
    let a := kindHandle p (objectGet "absolute_kind" value)
    let b := kindHandle p (objectGet "difference_kind" value)
    if !exactFields ["absolute_kind", "difference_kind"] value then
      .error "invalid physical affine pair"
    else if a = 0 ∨ b = 0 then .error "unknown physical affine pair kind"
    else if a = b ∨ p.role a ≠ .unprofiled ∨ p.role b ≠ .unprofiled then
      .error "duplicate or ambiguous physical affine pair role"
    else if p.dimensionOf a ≠ p.dimensionOf b then
      .error "physical affine pair dimensions disagree"
    else loadAffinePairs (setModel (setModel p a ⟨.absolute, b⟩) b ⟨.difference, a⟩) rest

def loadOrigin (p : PhysicalPolicy) (value : JsonValue String) : Except String PhysicalOrigin :=
  let k := kindHandle p (objectGet "absolute_kind" value)
  match stringOf (objectGet "id" value) with
  | some id =>
    if exactFields ["id", "absolute_kind"] value && isCanonicalName id && k != 0 &&
        p.role k == .absolute then .ok ⟨id, k⟩
    else .error "invalid physical origin or unknown/nonabsolute origin kind"
  | none => .error "invalid physical origin or unknown/nonabsolute origin kind"

def physicalPolicyProfiles (options : LoadOptions) (root : JsonValue String) (p : PhysicalPolicy) :
    Except String PhysicalPolicy :=
  match arrayOf (objectGet "linear_kinds" root), arrayOf (objectGet "affine_pairs" root),
      arrayOf (objectGet "origins" root) with
  | some linear, some pairs, some origins =>
    if options.maxKinds < linear.length ∨ options.maxKinds / 2 < pairs.length ∨
        options.maxOrigins < origins.length then
      .error "physical policy role/origin limit exceeded"
    else do
      let p ← loadLinearKinds 0 { p with models := p.kinds.map fun _ => ⟨.unprofiled, 0⟩ } linear
      let p ← loadAffinePairs p pairs
      let loaded ← origins.mapM (loadOrigin p)
      let sorted := loaded.insertionSort fun a b => a.id ≤ b.id
      match firstDuplicate (fun a b => a.id == b.id) sorted with
      | some origin => .error ("duplicate physical origin " ++ origin.id)
      | none => .ok { p with origins := sorted }
  | _, _, _ => .error "physical policy roles must be arrays"

-- Operation rules

def operationNamed (version : Nat) (op : String) : MathOperation :=
  if op = "fabs" then .fabs
  else if op = "fmax" then .fmax
  else if version = 7 ∧ op = "fmin" then .fmin
  else if version = 7 ∧ op = "expm1" then .expm1
  else if version = 7 ∧ op = "log" then .log
  else if version = 7 ∧ op = "sqrt" then .sqrt
  else if version = 7 ∧ op = "hypot" then .hypot
  else if version = 7 ∧ op = "atan2" then .atan2
  else if 3 ≤ version ∧ op = "multiply" then .multiply
  else if 3 ≤ version ∧ op = "divide" then .divide
  else if version = 7 ∧ op = "frame_coupling_tr" then .couplingTr
  else if version = 7 ∧ op = "frame_coupling_rt" then .couplingRt
  else if version = 7 ∧ op = "translation_work" then .translationWork
  else if version = 7 ∧ op = "rotation_work" then .rotationWork
  else if version = 7 ∧ op = "transverse_line_moment" then .lineMoment
  else .none

def roleNamed (role : String) : ReferenceRole :=
  if role = "linear" then .linear
  else if role = "difference" then .difference
  else if role = "absolute" then .absolute
  else .unprofiled

def operationArity (op : MathOperation) : Nat :=
  if mathUnary op || op == .couplingTr || op == .couplingRt then 1 else 2

/-- The checks on the operation, its operands and the result; `origin` is the authored
origin policy. -/
def ruleAdmitted (p : PhysicalPolicy) (op : MathOperation) (operands : List Nat) (k : Nat)
    (role : ReferenceRole) (origin : String) : Bool :=
  let left := operands.getD 0 0
  let right := operands.getD 1 0
  let constructor := constructorOperation op
  let transform := cosmicMathOperation op
  let scalar := op == .multiply || op == .divide || constructor
  (scalar || transform || operands.all fun a => p.dimensionOf a == p.dimensionOf k && a == k) &&
  role != .unprofiled && p.role k == role &&
  !(op == .fabs && (role == .absolute || origin != "preserve")) &&
  !((op == .fmax || op == .fmin) && origin != "same") &&
  !((op == .expm1 || op == .log) &&
    ((p.kindOf k).id != "quantity.ratio" || p.dimensionOf k != dimZero || role != .linear ||
      origin != "none")) &&
  !(transform && (origin != "none" || !cosmicMathContract p op left right k)) &&
  !(scalar && (origin != "none" ||
    !(if constructor then structuralContract p op left right k
      else scalarContract p op left right k)))

def ruleError : String :=
  "invalid, duplicate or ambiguous physical operation rule (outside the bounded helper/scalar model)"

def loadRule (p : PhysicalPolicy) (value : JsonValue String) : Except String OperationRule :=
  match stringOf (objectGet "id" value), stringOf (objectGet "operation" value),
      stringOf (objectGet "result_kind" value), stringOf (objectGet "reference_role" value),
      stringOf (objectGet "origin_policy" value), stringOf (objectGet "provenance" value),
      arrayOf (objectGet "operand_kinds" value) with
  | some id, some op, some result, some role, some origin, some provenance, some args =>
    let operation := operationNamed p.schemaVersion op
    let k := p.findKind result
    let operands := args.map fun arg => kindHandle p (some arg)
    if exactFields ["id", "operation", "operand_kinds", "result_kind", "reference_role",
          "origin_policy", "provenance"] value && isCanonicalName id && provenance == "inputs" &&
        operation != .none && args.length == operationArity operation && k != 0 &&
        operands.all (· != 0) &&
        ruleAdmitted p operation operands k (roleNamed role) origin then
      .ok ⟨id, operation, k, operands.getD 0 0, operands.getD 1 0⟩
    else .error ruleError
  | _, _, _, _, _, _, _ => .error ruleError

/-- `by_key`: operation, operands, result. -/
def ruleKey (r : OperationRule) : List Nat := [r.operation.code, r.left, r.right, r.kind]

def sameOperands (a b : OperationRule) : Bool :=
  a.operation == b.operation && a.left == b.left && a.right == b.right

def maxOperationRules : Nat := 4096

def physicalOperationsLoad (root : JsonValue String) (p : PhysicalPolicy) :
    Except String PhysicalPolicy :=
  match arrayOf (objectGet "operation_rules" root) with
  | some list =>
    if maxOperationRules < list.length then .error "physical operation rule limit exceeded"
    else do
      let rules ← list.mapM (loadRule p)
      let byId := rules.insertionSort fun a b => a.id ≤ b.id
      let byKey := byId.insertionSort fun a b => ruleKey a ≤ ruleKey b
      if (firstDuplicate (fun a b => a.id == b.id) byId).isNone &&
          (firstDuplicate sameOperands byKey).isNone then
        .ok { p with operations := byKey }
      else .error ruleError
  | none => .error "operation_rules must be an array"

/-- What `fisics_physical_policy_load_with_options` does to kinds, roles, origins and rules.
`p` has the kinds of the catalogs and the tables that are loaded after the rules; the
checks on those, on the catalogs and on the fields of the document can only refuse. -/
def physicalPolicyLoad (options : LoadOptions) (root : JsonValue String) (p : PhysicalPolicy) :
    Except String PhysicalPolicy := do
  if p.schemaVersion < 1 ∨ 7 < p.schemaVersion then
    .error "invalid physical semantics policy schema/identity/catalog paths"
  else
    let p ← physicalPolicyProfiles options root { p with operations := [] }
    if 2 ≤ p.schemaVersion then physicalOperationsLoad root p else .ok p

-- Looking up a rule

section
variable (p : PhysicalPolicy)

/-- `physical_operation_rule` -/
def operationRule (op : MathOperation) (kind : Nat) : Option OperationRule :=
  let key : OperationRule := ⟨"", op, kind, kind, if mathUnary op then 0 else kind⟩
  (LowerBound.find (fun r => ruleKey r < ruleKey key) (fun r => ruleKey r == ruleKey key)
    p.operations).map (·.2)

/-- `physical_scalar_rule` -/
def scalarRule (op : MathOperation) (a b : Nat) : Option OperationRule :=
  if p.schemaVersion < 3 then none
  else
    (LowerBound.find (fun r => [r.operation.code, r.left, r.right] < [op.code, a, b])
      (fun r => r.operation == op && r.left == a && r.right == b) p.operations).map (·.2)

/-- `physical_constructor_rule` -/
def constructorRule (id : String) : Option OperationRule :=
  if p.schemaVersion ≠ 7 then none
  else p.operations.find? fun r => constructorOperation r.operation && r.id == id

end

end Fisics.Physical
