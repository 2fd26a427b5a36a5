import Fisics.Extensions.PhysicalLaws
import Fisics.Extensions.PhysicalPolicyLaws
import Mathlib.Algebra.Group.Pi.Basic

/-!
# Kinds refine dimensions

Every rule of a loaded policy is homogeneous: the exponents of its result are those that
the operation gives for the exponents of its operands, in integers that do not overflow.
So a known kind of an expression has the dimension of the expression.
-/

namespace Fisics.Physical

open Fisics.Json (JsonValue)

-- Dimensions of operations

abbrev Exponents := Fin 8 → ℤ

/-- The exponents of a result; none where the operands do not fit the operation. -/
def operationDimension (op : MathOperation) (a b : Exponents) : Option Exponents :=
  match op with
  | .none => none
  | .multiply | .translationWork | .rotationWork | .lineMoment => some (a + b)
  | .divide => some (a - b)
  | .fabs | .couplingTr | .couplingRt => some a
  | .fmax | .fmin | .hypot => if a = b then some a else none
  | .sqrt => if ∀ i, 2 ∣ a i then some (fun i => a i / 2) else none
  | .expm1 | .log => if a = 0 then some 0 else none
  | .atan2 => if a = b then some 0 else none

def PhysicalPolicy.exponentsOf (p : PhysicalPolicy) (k : Nat) : Exponents :=
  (p.dimensionOf k).exponents

def Homogeneous (p : PhysicalPolicy) (r : OperationRule) : Prop :=
  operationDimension r.operation (p.exponentsOf r.left) (p.exponentsOf r.right) =
    some (p.exponentsOf r.kind)

-- Contracts

section
variable {p : PhysicalPolicy}

theorem exponents_named (h : named p k name dim = true) : p.exponentsOf k = dim.exponents := by
  simp only [named, Bool.and_eq_true, beq_iff_eq] at h
  rw [PhysicalPolicy.exponentsOf, h.2]

theorem exponents_cosmicKind (h : cosmicKind p k name dim = true) :
    p.exponentsOf k = (exponents dim).exponents := by
  simp only [cosmicKind, Bool.and_eq_true] at h
  exact exponents_named h.1.2

theorem scalarContract_balances (h : scalarContract p op a b k = true) :
    op = .multiply ∧ p.exponentsOf k = p.exponentsOf a + p.exponentsOf b ∨
      op = .divide ∧ p.exponentsOf k = p.exponentsOf a - p.exponentsOf b := by
  simp only [scalarContract, Bool.and_eq_true, Bool.or_eq_true, beq_iff_eq] at h
  obtain ⟨⟨⟨-, hop⟩, hagree⟩, -⟩ := h
  simp only [exponentsAgree, decide_eq_true_eq] at hagree
  rcases hop with rfl | rfl
  · refine .inl ⟨rfl, ?_⟩
    funext i
    have hi := hagree i
    simp only [if_true, one_mul] at hi
    exact hi.symm
  · refine .inr ⟨rfl, ?_⟩
    funext i
    have hi := hagree i
    simp only [reduceCtorEq, if_false] at hi
    simp only [PhysicalPolicy.exponentsOf, Dim8.exponents, Pi.sub_apply]
    omega

theorem cosmicMath_balances (hop : cosmicMathOperation op = true)
    (h : cosmicMathContract p op a b k = true) :
    operationDimension op (p.exponentsOf a) (p.exponentsOf b) = some (p.exponentsOf k) := by
  simp only [cosmicMathContract, Bool.and_eq_true] at h
  obtain ⟨-, h⟩ := h
  split at h
  · rename_i hsqrt
    obtain ⟨rfl, -⟩ := hsqrt
    simp only [Bool.or_eq_true, Bool.and_eq_true] at h
    rcases h with ((h | h) | h) | h <;>
    · rw [exponents_cosmicKind h.1, exponents_cosmicKind h.2]
      show operationDimension .sqrt _ 0 = _
      decide
  · split at h
    · cases h
    rename_i hsame
    obtain rfl := not_not.mp hsame
    split at h
    · rename_i hhypot
      subst hhypot
      simp only [Bool.or_eq_true, Bool.and_eq_true, beq_iff_eq] at h
      rcases h with ((h | h) | h) | h
      · simp [operationDimension, h.2]
      · rw [exponents_cosmicKind h.1, exponents_cosmicKind h.2]
        decide
      all_goals simp [operationDimension, h.2]
    · simp only [Bool.and_eq_true, beq_iff_eq] at h
      obtain ⟨⟨rfl, -⟩, hk⟩ := h
      rw [exponents_cosmicKind hk]
      simp only [operationDimension, if_true]
      decide

def tableDimension (table : List (String × Dim8)) (name : String) : Option Exponents :=
  (table.find? (·.1 == name)).map fun e => e.2.exponents

theorem tableDimension_of_inTable (h : inTable p table stem k name = true) :
    tableDimension table name = some (p.exponentsOf k) := by
  unfold inTable at h
  unfold tableDimension
  cases hfind : table.find? (·.1 == name) with
  | none => simp [hfind] at h
  | some e =>
    simp only [hfind, Option.any_some] at h
    simp [exponents_named h]

theorem tableDimension_structural (h : structuralKind p k name = true) :
    tableDimension structuralKinds name = some (p.exponentsOf k) := by
  simp only [structuralKind, Bool.and_eq_true] at h
  exact tableDimension_of_inTable h.2

/-- The dimensions of a row's names are those that its operation asks for. -/
def rowBalanced (table : List (String × Dim8)) (row : ContractRow) : Bool :=
  (tableDimension table row.a).any fun a => (tableDimension table row.k).any fun k =>
    match row.b with
    | none => (row.op == .couplingTr || row.op == .couplingRt) && a == k
    | some name =>
      (tableDimension table name).any fun b => operationDimension row.op a b == some k

theorem structuralRows_balanced :
    (structuralRows.filter fun row => constructorOperation row.op).all
      (rowBalanced structuralKinds) = true := by
  decide

theorem structural_balances (hop : constructorOperation op = true)
    (h : structuralContract p op a b k = true) :
    operationDimension op (p.exponentsOf a) (p.exponentsOf b) = some (p.exponentsOf k) := by
  simp only [structuralContract, rowsAdmit, Bool.and_eq_true, List.any_eq_true, beq_iff_eq,
    Bool.false_and, Bool.or_false] at h
  obtain ⟨-, row, hrow, ⟨rfl, hk⟩, ha, hb⟩ := h
  have hbalanced := List.all_eq_true.mp structuralRows_balanced row (List.mem_filter.mpr ⟨hrow, hop⟩)
  simp only [rowBalanced, tableDimension_structural ha, tableDimension_structural hk,
    Option.any_some] at hbalanced
  cases hname : row.b with
  | none =>
    simp only [hname, Bool.and_eq_true, Bool.or_eq_true, beq_iff_eq] at hbalanced
    obtain ⟨hcoupling | hcoupling, hsame⟩ := hbalanced <;> simp [operationDimension, hcoupling, hsame]
  | some name =>
    simp only [hname, Option.elim_some] at hb
    simpa [hname, tableDimension_structural hb] using hbalanced

-- Rules

theorem helper_balances {operands : List Nat} (hop : op = .fabs ∨ op = .fmax ∨ op = .fmin)
    (hlen : operands.length = operationArity op) (h : ∀ a ∈ operands, a = k) :
    operationDimension op (p.exponentsOf (operands.getD 0 0)) (p.exponentsOf (operands.getD 1 0)) =
      some (p.exponentsOf k) := by
  rcases hop with rfl | rfl | rfl
  · obtain ⟨x, rfl⟩ := List.length_eq_one_iff.mp hlen
    obtain rfl := h x (by simp)
    rfl
  all_goals
    obtain ⟨x, y, rfl⟩ := List.length_eq_two.mp hlen
    obtain rfl := h x (by simp)
    obtain rfl := h y (by simp)
    simp [operationDimension]

theorem ratio_balances {operands : List Nat} (hop : op = .expm1 ∨ op = .log)
    (hlen : operands.length = operationArity op) (h : ∀ a ∈ operands, a = k)
    (hzero : p.dimensionOf k = dimZero) :
    operationDimension op (p.exponentsOf (operands.getD 0 0)) (p.exponentsOf (operands.getD 1 0)) =
      some (p.exponentsOf k) := by
  have hk : p.exponentsOf k = 0 := by
    rw [PhysicalPolicy.exponentsOf, hzero, exponents_dimZero]
  rcases hop with rfl | rfl <;>
  · obtain ⟨x, rfl⟩ := List.length_eq_one_iff.mp hlen
    obtain rfl := h x (by simp)
    simp [operationDimension, hk]

theorem homogeneous_of_admitted (h : AdmittedIn p r) : Homogeneous p r := by
  obtain ⟨operands, role, origin, hadmitted, hnone, hlen, -, hleft, hright, -⟩ := h
  unfold Homogeneous
  rw [hleft, hright]
  simp only [ruleAdmitted, Bool.and_eq_true] at hadmitted
  obtain ⟨⟨⟨⟨⟨⟨⟨hsame, -⟩, -⟩, -⟩, -⟩, hzero⟩, htransform⟩, hscalar⟩ := hadmitted
  revert hnone hlen hscalar htransform hzero hsame
  generalize r.operation = op
  intro hnone hlen hscalar htransform hzero hsame
  by_cases hconstructor : constructorOperation op = true
  · simp [hconstructor] at hscalar
    exact structural_balances hconstructor (by simpa using hscalar.2)
  by_cases hcosmic : cosmicMathOperation op = true
  · simp [hcosmic] at htransform
    exact cosmicMath_balances hcosmic (by simpa using htransform.2)
  by_cases hproduct : op = .multiply ∨ op = .divide
  · have hcontract : scalarContract p op (operands.getD 0 0) (operands.getD 1 0) r.kind = true := by
      rcases hproduct with rfl | rfl <;>
      · simp [hconstructor] at hscalar
        simpa using hscalar.2
    rcases scalarContract_balances hcontract with ⟨rfl, hk⟩ | ⟨rfl, hk⟩ <;>
    · rw [hk]
      rfl
  · obtain ⟨hmul, hdiv⟩ := not_or.mp hproduct
    have hkinds : ∀ a ∈ operands, a = r.kind := by
      intro a ha
      simp [hconstructor, hcosmic, hmul, hdiv] at hsame
      exact (hsame a ha).2
    by_cases hratio : op = .expm1 ∨ op = .log
    · refine ratio_balances hratio hlen hkinds ?_
      rcases hratio with rfl | rfl <;> simp at hzero
      all_goals exact hzero.1.1.2
    · refine helper_balances ?_ hlen hkinds
      cases op <;> simp_all [constructorOperation, cosmicMathOperation, MathOperation.code]

end

-- Dimensions of expressions

/-- The exponents of an expression over those of its leaves; none where it is not
homogeneous, and for a bare number. -/
def PhysicalExpr.dimension (leaf : String → Exponents) : PhysicalExpr → Option Exponents
  | .identifier _ name => some (leaf name)
  | .number _ => none
  | .cast _ _ operand => operand.dimension leaf
  | .unary _ op operand =>
    if op = .plus ∨ op = .minus then operand.dimension leaf else none
  | .binary _ op _ left right =>
    (left.dimension leaf).bind fun a => (right.dimension leaf).bind fun b =>
      match op with
      | .mul => some (a + b)
      | .div => some (a - b)
      | .add | .sub => if a = b then some a else none
      | _ => none
  | .ternary _ _ yes no =>
    (yes.dimension leaf).bind fun a => (no.dimension leaf).bind fun b =>
      if a = b then some a else none
  | .comma _ _ last => last.dimension leaf
  | .call1 _ op _ argument => (argument.dimension leaf).bind fun a => operationDimension op a a
  | .call2 _ op _ left right =>
    (left.dimension leaf).bind fun a => (right.dimension leaf).bind fun b =>
      operationDimension op a b
  | .construct1 _ _ _ _ argument => argument.dimension leaf
  | .construct2 _ _ _ _ left right =>
    (left.dimension leaf).bind fun a => (right.dimension leaf).bind fun b => some (a + b)

section
variable {p : PhysicalPolicy}

def KindHas (p : PhysicalPolicy) (k : Nat) (dimension : Option Exponents) : Prop :=
  p.hasKind k = true ∧ dimension = some (p.exponentsOf k)

theorem exponentsOf_paired (hload : Loaded p) (hk : p.hasKind k = true)
    (hrole : p.role k = .absolute ∨ p.role k = .difference) :
    p.hasKind (p.model k).pairedKind = true ∧ p.exponentsOf (p.model k).pairedKind = p.exponentsOf k := by
  obtain ⟨hpaired, hdim⟩ := hload.pairs.pairs k hk hrole
  exact ⟨hpaired, by rw [PhysicalPolicy.exponentsOf, hdim]; rfl⟩

theorem linear_exponents (hload : Loaded p) (h : LinearResult p op a b f)
    (ha : p.hasKind a.type.kind = true) (hb : p.hasKind b.type.kind = true) :
    p.hasKind f.type.kind = true ∧
      p.exponentsOf a.type.kind = p.exponentsOf f.type.kind ∧
      p.exponentsOf b.type.kind = p.exponentsOf f.type.kind := by
  cases h with
  | affine h => ?_
  | same _ hkind _ hf => simp [hf, hkind, hb]
  cases h with
  | difference hrole hkind _ _ hf =>
    obtain ⟨hpaired, hsame⟩ := exponentsOf_paired hload ha (.inl hrole)
    simp [hf, hkind, hpaired, hsame]
  | shiftRight hrole _ hpair hf =>
    obtain ⟨-, hsame⟩ := exponentsOf_paired hload ha (.inl hrole)
    rw [hpair] at hsame
    simp [hf, ha, hsame]
  | shiftLeft _ hrole hpair _ hf =>
    obtain ⟨-, hsame⟩ := exponentsOf_paired hload hb (.inl hrole)
    rw [hpair] at hsame
    simp [hf, hb, hsame]

theorem operationDimension_unary (h : mathUnary op = true) (a b c : Exponents) :
    operationDimension op a b = operationDimension op a c := by
  cases op <;> first | rfl | cases h

theorem rule_exponents (hload : Loaded p) (h : r ∈ p.operations) :
    p.hasKind r.kind = true ∧ Homogeneous p r := by
  have hadmitted := hload.rules r h
  refine ⟨?_, homogeneous_of_admitted hadmitted⟩
  obtain ⟨_, _, _, -, -, -, -, -, -, hk⟩ := hadmitted
  exact hk

theorem math_exponents (hload : Loaded p) (harity : b.isSome ≠ mathUnary op) (h : MathResult p op a b f) :
    KindHas p f.type.kind (operationDimension op (p.exponentsOf a.type.kind)
      (p.exponentsOf (b.getD a).type.kind)) := by
  obtain ⟨hoperands, hsame, r, hrule, hfact⟩ := h
  -- One operand stands for both where the operation has one.
  have hswap : ∀ x y z : Exponents, b = none → operationDimension op x y = operationDimension op x z := by
    rintro x y z rfl
    exact operationDimension_unary (by simpa using harity.symm) x y z
  by_cases hcosmic : cosmicMathOperation op = true
  · rw [if_pos hcosmic] at hfact
    rw [mathRule, if_pos hcosmic] at hrule
    obtain ⟨hmem, rfl, hleft, hright⟩ := scalarRule_spec hrule
    obtain ⟨hkind, hbalanced⟩ := rule_exponents hload hmem
    rw [Homogeneous, hleft, hright] at hbalanced
    rw [hfact.1.1]
    refine ⟨hkind, ?_⟩
    cases b with
    | none => exact (hswap _ _ _ rfl).trans hbalanced
    | some b => exact hbalanced
  · rw [if_neg hcosmic] at hfact
    rw [mathRule, if_neg hcosmic] at hrule
    obtain ⟨g, hg, hrule⟩ := List.exists_of_findSome?_eq_some hrule
    have hgkind : g.type.kind = a.type.kind := by
      have hmem := (List.mem_filter.mp hg).1
      rcases List.mem_cons.mp hmem with rfl | hmem
      · rfl
      · exact (hsame g (by simpa using hmem)).1.symm
    obtain ⟨hmem, rfl, hleft, hright, hresult⟩ := operationRule_spec hrule
    obtain ⟨hkind, hbalanced⟩ := rule_exponents hload hmem
    rw [Homogeneous, hleft, hresult, hgkind] at hbalanced
    rw [hresult, hgkind] at hkind
    rw [hfact.1]
    refine ⟨hkind, ?_⟩
    cases b with
    | none => exact (hswap _ _ _ rfl).trans hbalanced
    | some b => ?_
    have hbinary : mathUnary r.operation = false := by
      simpa using harity
    rw [hright, hbinary] at hbalanced
    simpa [hgkind, (hsame b rfl).1] using hbalanced

theorem operationDimension_constructor (h : constructorOperation op = true) (a b : Exponents) :
    operationDimension op a b = some (if operationArity op = 1 then a else a + b) := by
  cases op <;> first | rfl | exact absurd h (by decide)

theorem constructor_exponents (hload : Loaded p) {id : String} (hrule : constructorRule p id = some r)
    (hcount : b.isSome = (r.right != 0)) (h : ConstructorResult r a b f) :
    KindHas p f.type.kind (some (b.elim (p.exponentsOf a.type.kind)
      fun b => p.exponentsOf a.type.kind + p.exponentsOf b.type.kind)) := by
  obtain ⟨hmem, hconstructor, -⟩ := constructorRule_spec hrule
  obtain ⟨hkind, hbalanced⟩ := rule_exponents hload hmem
  have harity := (hload.rules r hmem).right_eq_zero_iff
  obtain ⟨⟨-, hleft⟩, hright, hresult, -⟩ := h
  rw [hresult]
  refine ⟨hkind, ?_⟩
  rw [Homogeneous, operationDimension_constructor hconstructor] at hbalanced
  rw [← hbalanced]
  cases b with
  | none =>
    have hone : operationArity r.operation = 1 := harity.mp (by simpa using hcount.symm)
    simp [hone, hleft]
  | some b =>
    have htwo : operationArity r.operation ≠ 1 := fun hone => by simp [harity.mpr hone] at hcount
    simp [htwo, hleft, (hright b rfl).2]

-- Expressions

def DeclaredKinds (p : PhysicalPolicy) (declared : String → PhysicalFact) : Prop :=
  ∀ name, physicalKnown (declared name) = true → p.hasKind (declared name).type.kind = true

theorem known_dimension (hload : Loaded p) (hdeclared : DeclaredKinds p declared)
    (h : physicalKnown (physicalExpression p declared e).1 = true) :
    KindHas p (physicalExpression p declared e).1.type.kind
      (e.dimension fun name => p.exponentsOf (declared name).type.kind) := by
  induction e with
  | identifier node name => exact ⟨hdeclared name h, rfl⟩
  | number node => simp [physicalExpression] at h
  | cast node scalar operand ih =>
    simp only [physicalExpression, andThen_fst] at h ⊢
    cases scalar with
    | false => simp at h
    | true => exact ih h
  | unary node op operand ih =>
    simp only [physicalExpression, andThen_fst] at h ⊢
    have hop : op = .plus ∨ op = .minus := by
      cases op <;> simp [physicalUnary] at h ⊢
    obtain ⟨hknown, htype, -⟩ := retains_unary hop h
    rw [htype, PhysicalExpr.dimension, if_pos hop]
    exact ih hknown
  | binary node op resolved left right ihl ihr =>
    simp only [physicalExpression, andThen_fst] at h ⊢
    rcases binary_known_op h with hop | hop
    · obtain ⟨hknownl, hknownr, hlinear, -⟩ := sum_known hop h
      obtain ⟨hkl, hdiml⟩ := ihl hknownl
      obtain ⟨hkr, hdimr⟩ := ihr hknownr
      obtain ⟨hk, hsamel, hsamer⟩ := linear_exponents hload hlinear hkl hkr
      refine ⟨hk, ?_⟩
      rcases hop with rfl | rfl <;> simp [PhysicalExpr.dimension, hdiml, hdimr, hsamel, hsamer]
    · obtain ⟨hscalarl, hscalarr, -, -, -, r, hrule, hfact⟩ := product_known hop h
      obtain ⟨-, hdiml⟩ := ihl (known_of_scalarKnown hscalarl)
      obtain ⟨-, hdimr⟩ := ihr (known_of_scalarKnown hscalarr)
      obtain ⟨hmem, hroperation, hleft, hright⟩ := scalarRule_spec hrule
      obtain ⟨hk, hbalanced⟩ := rule_exponents hload hmem
      rw [Homogeneous, hroperation, hleft, hright] at hbalanced
      rw [hfact.1]
      refine ⟨hk, ?_⟩
      rcases hop with rfl | rfl <;>
      · simpa [PhysicalExpr.dimension, hdiml, hdimr, operationDimension] using hbalanced
  | ternary node condition yes no ihc ihyes ihno =>
    simp only [physicalExpression, andThen_fst] at h ⊢
    obtain ⟨hyes, hno, hkind, -, htype, -⟩ := conditional_known h
    obtain ⟨hk, hdimyes⟩ := ihyes hyes
    obtain ⟨-, hdimno⟩ := ihno hno
    rw [htype]
    refine ⟨hk, ?_⟩
    simp [PhysicalExpr.dimension, hdimyes, hdimno, hkind]
  | comma node first last ihf ihl =>
    exact ihl h
  | call1 node op resolved argument ih =>
    simp only [physicalExpression, andThen_fst] at h ⊢
    split at h
    · rename_i hrecognized
      rw [if_pos hrecognized]
      obtain ⟨harity, hresult⟩ := math_known h
      have hscalar := hresult.operands
      simp at hscalar
      obtain ⟨-, hdim⟩ := ih (known_of_scalarKnown hscalar)
      obtain ⟨hk, hmath⟩ := math_exponents hload harity hresult
      refine ⟨hk, ?_⟩
      simpa [PhysicalExpr.dimension, hdim] using hmath
    · rw [uncontractedCall_lost] at h
      cases h
  | call2 node op resolved left right ihl ihr =>
    simp only [physicalExpression, andThen_fst] at h ⊢
    split at h
    · rename_i hrecognized
      rw [if_pos hrecognized]
      obtain ⟨harity, hresult⟩ := math_known h
      have hscalar := hresult.operands
      simp at hscalar
      obtain ⟨-, hdiml⟩ := ihl (known_of_scalarKnown hscalar.1)
      obtain ⟨-, hdimr⟩ := ihr (known_of_scalarKnown hscalar.2)
      obtain ⟨hk, hmath⟩ := math_exponents hload harity hresult
      refine ⟨hk, ?_⟩
      simpa [PhysicalExpr.dimension, hdiml, hdimr] using hmath
    · rw [uncontractedCall_lost] at h
      cases h
  | construct1 node id verified resolved argument ih =>
    simp only [physicalExpression, andThen_fst] at h ⊢
    obtain ⟨r, hrule, hcount, hresult⟩ := constructorCall_known h
    obtain ⟨-, hdim⟩ := ih hresult.left.1
    obtain ⟨hk, hconstructor⟩ := constructor_exponents hload hrule (by simpa using hcount) hresult
    refine ⟨hk, ?_⟩
    simpa [PhysicalExpr.dimension, hdim] using hconstructor
  | construct2 node id verified resolved left right ihl ihr =>
    simp only [physicalExpression, andThen_fst] at h ⊢
    obtain ⟨r, hrule, hcount, hresult⟩ := constructorCall_known h
    obtain ⟨-, hdiml⟩ := ihl hresult.left.1
    obtain ⟨-, hdimr⟩ := ihr (hresult.right _ rfl).1
    obtain ⟨hk, hconstructor⟩ := constructor_exponents hload hrule (by simpa using hcount) hresult
    refine ⟨hk, ?_⟩
    simpa [PhysicalExpr.dimension, hdiml, hdimr] using hconstructor

/-- The rules of a loaded policy are homogeneous, and a known kind has the dimension of
its expression. -/
theorem kinds_refine_dimensions (hload : physicalPolicyLoad options root start = .ok p) :
    (∀ r ∈ p.operations, Homogeneous p r) ∧
      ∀ (declared : String → PhysicalFact) (e : PhysicalExpr), DeclaredKinds p declared →
        physicalKnown (physicalExpression p declared e).1 = true →
        e.dimension (fun name => p.exponentsOf (declared name).type.kind) =
          some (p.exponentsOf (physicalExpression p declared e).1.type.kind) := by
  have hloaded := loaded_of_load hload
  refine ⟨fun r hr => (rule_exponents hloaded hr).2, ?_⟩
  intro declared e hdeclared hknown
  exact (known_dimension hloaded hdeclared hknown).2

end

-- A scaled length

def lengthsStart : PhysicalPolicy :=
  ⟨3, [⟨"quantity.geometric_length", exponents [1]⟩, ⟨"quantity.ratio", exponents []⟩], [], [], [], [], []⟩

def lengthsDocument : JsonValue String :=
  .object [("linear_kinds", .array [.string "quantity.geometric_length", .string "quantity.ratio"]),
    ("affine_pairs", .array []), ("origins", .array []),
    ("operation_rules", .array [.object [("id", .string "rule.scale"),
      ("operation", .string "multiply"),
      ("operand_kinds", .array [.string "quantity.geometric_length", .string "quantity.ratio"]),
      ("result_kind", .string "quantity.geometric_length"), ("reference_role", .string "linear"),
      ("origin_policy", .string "none"), ("provenance", .string "inputs")]])]

def lengthsPolicy : PhysicalPolicy :=
  { lengthsStart with
    models := [⟨.linear, 0⟩, ⟨.linear, 0⟩]
    operations := [⟨"rule.scale", .multiply, 1, 1, 2⟩] }

def lengthsDeclared (name : String) : PhysicalFact :=
  ⟨⟨if name = "ratio" then 2 else 1, 0, 0⟩, .known, noContext, false, false, none, "", none⟩

theorem lengthsPolicy_loads :
    physicalPolicyLoad ⟨2, 0⟩ lengthsDocument lengthsStart = .ok lengthsPolicy := rfl

/-- `length * ratio + length` -/
def scaledLength : PhysicalExpr :=
  .binary 0 .add true
    (.binary 1 .mul true (.identifier 2 "length") (.identifier 3 "ratio")) (.identifier 4 "length")

theorem scaledLength_dimension :
    (∀ r ∈ lengthsPolicy.operations, Homogeneous lengthsPolicy r) ∧
      scaledLength.dimension (fun name => lengthsPolicy.exponentsOf (lengthsDeclared name).type.kind) =
        some (lengthsPolicy.exponentsOf 1) := by
  obtain ⟨hrules, hkinds⟩ := kinds_refine_dimensions lengthsPolicy_loads
  refine ⟨hrules, hkinds lengthsDeclared scaledLength ?_ rfl⟩
  intro name _
  unfold lengthsDeclared
  split <;> rfl

end Fisics.Physical
