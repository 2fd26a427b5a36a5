import Fisics.Extensions.PhysicalLaws
import Fisics.Extensions.PhysicalPolicyLaws
import Mathlib.Algebra.Order.Field.Rat
import Mathlib.Algebra.Order.Group.MinMax
import Mathlib.Tactic.Ring

/-!
# Origins

Under the policy schemas 3 to 5 a known fact tracks the origin of its value: moving
every point of one origin by a distance moves a value of that origin by the distance,
and leaves every other value as it is. Conditions are not tracked: this needs that what
they compare is known.
-/

namespace Fisics.Physical

open Fisics.Json (JsonValue)

-- Values

/-- No quotient by zero. -/
@[grind] def PhysicalOp.apply (op : PhysicalOp) (x y : ℚ) : Option ℚ :=
  match op with
  | .add => some (x + y)
  | .sub => some (x - y)
  | .mul => some (x * y)
  | .div => if y = 0 then none else some (x / y)
  | .eq => some (if x = y then 1 else 0)
  | .ne => some (if x = y then 0 else 1)
  | .lt => some (if x < y then 1 else 0)
  | .le => some (if x ≤ y then 1 else 0)
  | .gt => some (if y < x then 1 else 0)
  | .ge => some (if y ≤ x then 1 else 0)
  | .and => none
  | .or => none
  | .conditional => none
  | .other => none

def mathValue (op : MathOperation) (x y : ℚ) : Option ℚ :=
  if op = .fmax then some (max x y) else if op = .fmin then some (min x y) else none

/-- The exact value; `none` where it is not defined, and outside scalar expressions. -/
@[grind] def PhysicalExpr.evaluate (value : String → ℚ) : PhysicalExpr → Option ℚ
  | .identifier _ name => some (value name)
  | .number _ => none
  | .cast _ _ _ => none
  | .unary _ op operand =>
    (operand.evaluate value).bind fun x =>
      if op = .plus then some x else if op = .minus then some (-x) else none
  | .binary _ op _ left right =>
    (left.evaluate value).bind fun x => (right.evaluate value).bind fun y => op.apply x y
  | .ternary _ condition yes no =>
    (condition.evaluate value).bind fun x =>
      if x = 0 then no.evaluate value else yes.evaluate value
  | .comma _ _ last => last.evaluate value
  | .call1 _ op _ argument =>
    (argument.evaluate value).bind fun x => if op = .fabs then some |x| else none
  | .call2 _ op _ left right =>
    (left.evaluate value).bind fun x => (right.evaluate value).bind fun y => mathValue op x y
  | .construct1 _ _ _ _ _ => none
  | .construct2 _ _ _ _ _ _ => none

/-- The distance by which a value of this fact moves with the origin `w`. -/
def offset (f : PhysicalFact) (w : Nat) (d : ℚ) : ℚ := if f.type.origin = w then d else 0

theorem offset_of_origin (h : f.type.origin = g.type.origin) (w : Nat) (d : ℚ) :
    offset f w d = offset g w d := by
  simp [offset, h]

theorem offset_zero (h : f.type.origin = 0) (hw : w ≠ 0) (d : ℚ) : offset f w d = 0 := by
  simp [offset, h, hw.symm]

/-- Every point of the origin `w` is moved by `d`. -/
def moved (declared : String → PhysicalFact) (w : Nat) (d : ℚ) (value : String → ℚ) : String → ℚ :=
  fun name => value name + offset (declared name) w d

-- Scalar expressions

def KnownScalar (p : PhysicalPolicy) (f : PhysicalFact) : Prop :=
  scalarKnown f = true ∧ p.makesType f.type.kind f.type.origin = true

/-- Expressions over identifiers of known kinds; `compares` is asked of the operands of a
condition. -/
inductive ScalarExpr (p : PhysicalPolicy) (declared : String → PhysicalFact)
    (compares : PhysicalExpr → Prop) : PhysicalExpr → Prop
  | identifier (h : KnownScalar p (declared name)) :
      ScalarExpr p declared compares (.identifier node name)
  | sign (hop : op = .plus ∨ op = .minus) (h : ScalarExpr p declared compares e) :
      ScalarExpr p declared compares (.unary node op e)
  | arithmetic (hop : op = .add ∨ op = .sub ∨ op = .mul ∨ op = .div)
      (hl : ScalarExpr p declared compares l) (hr : ScalarExpr p declared compares r) :
      ScalarExpr p declared compares (.binary node op resolved l r)
  | absolute (h : ScalarExpr p declared compares e) :
      ScalarExpr p declared compares (.call1 node .fabs resolved e)
  | extremum (hop : op = .fmax ∨ op = .fmin) (hl : ScalarExpr p declared compares l)
      (hr : ScalarExpr p declared compares r) :
      ScalarExpr p declared compares (.call2 node op resolved l r)
  | conditional (hop : op.isComparison = true) (hcl : compares l) (hcr : compares r)
      (hl : ScalarExpr p declared compares l) (hr : ScalarExpr p declared compares r)
      (hyes : ScalarExpr p declared compares yes) (hno : ScalarExpr p declared compares no) :
      ScalarExpr p declared compares (.ternary node (.binary node' op resolved l r) yes no)

def TracksOrigin (p : PhysicalPolicy) (declared : String → PhysicalFact) (e : PhysicalExpr) :
    Prop :=
  ∀ w, w ≠ 0 → ∀ d value,
    e.evaluate (moved declared w d value) =
      (e.evaluate value).map (· + offset (physicalExpression p declared e).1 w d)

structure PlainFact (p : PhysicalPolicy) (f : PhysicalFact) : Prop where
  carrier : f.carrier = false
  representation : f.type.representation = 0
  origin : p.role f.type.kind ≠ .absolute → f.type.origin = 0

theorem PlainFact.scalarKnown (h : PlainFact p f) (hknown : physicalKnown f = true) :
    Physical.scalarKnown f = true :=
  scalarKnown_iff.mpr ⟨hknown, h.carrier, h.representation⟩

theorem PlainFact.congr (h : PlainFact p f) (htype : g.type = f.type)
    (hcarrier : g.carrier = f.carrier) : PlainFact p g := by
  refine ⟨hcarrier.trans h.carrier, ?_, ?_⟩
  · rw [htype]
    exact h.representation
  · rw [htype]
    exact h.origin

theorem plainFact_knownScalar (h : KnownScalar p f) : PlainFact p f := by
  obtain ⟨hscalar, htype⟩ := h
  obtain ⟨-, hcarrier, hrepresentation⟩ := scalarKnown_iff.mp hscalar
  refine ⟨hcarrier, hrepresentation, ?_⟩
  intro hrole
  simp only [PhysicalPolicy.makesType, if_neg hrole, Bool.and_eq_true, beq_iff_eq] at htype
  exact htype.2

theorem plainFact_fromRule (h : FromRule r f) : PlainFact p f := by
  obtain ⟨htype, hcarrier⟩ := h
  refine ⟨hcarrier, ?_, ?_⟩ <;> simp [htype]

theorem PlainFact.origin_of_role (h : PlainFact p f)
    (hrole : p.role f.type.kind = .linear ∨ p.role f.type.kind = .difference) :
    f.type.origin = 0 := by
  apply h.origin
  rcases hrole with hrole | hrole <;> simp [hrole]

-- Sums and differences

theorem plainFact_linear (h : LinearResult p op a b f) (ha : PlainFact p a) (hb : PlainFact p b)
    (hcarrier : f.carrier = false) : PlainFact p f := by
  cases h with
  | affine h =>
    cases h with
    | difference _ _ _ _ hf => exact ⟨hcarrier, by simp [hf, ha.representation], by simp [hf]⟩
    | shiftRight _ _ _ hf => exact ha.congr hf (hcarrier.trans ha.carrier.symm)
    | shiftLeft _ _ _ _ hf => exact hb.congr hf (hcarrier.trans hb.carrier.symm)
  | same _ _ _ hf => exact ha.congr hf (hcarrier.trans ha.carrier.symm)

theorem offset_linear (h : LinearResult p op a b f) (ha : PlainFact p a) (hb : PlainFact p b)
    (hw : w ≠ 0) (d : ℚ) :
    (op ≠ .sub → offset f w d = offset a w d + offset b w d) ∧
      (op = .sub → offset f w d = offset a w d - offset b w d) := by
  cases h with
  | affine h =>
    cases h with
    | difference _ _ horigin hop hf =>
      have hnone : offset f w d = 0 := offset_zero (by simp [hf]) hw d
      have hsame := offset_of_origin horigin w d
      simp [hop, hnone, hsame]
    | shiftRight _ hrole _ hf =>
      have hnone : offset b w d = 0 := offset_zero (hb.origin_of_role (.inr hrole)) hw d
      have hsame : offset f w d = offset a w d := offset_of_origin (by simp [hf]) w d
      simp [hnone, hsame]
    | shiftLeft hrole _ _ hop hf =>
      have hnone : offset a w d = 0 := offset_zero (ha.origin_of_role (.inr hrole)) hw d
      have hsame : offset f w d = offset b w d := offset_of_origin (by simp [hf]) w d
      simp [hop, hnone, hsame]
  | same hrole _ horigin hf =>
    have hnone : offset a w d = 0 := offset_zero (ha.origin_of_role hrole) hw d
    have hright : offset b w d = 0 := (offset_of_origin horigin w d).symm.trans hnone
    have hsame : offset f w d = 0 := (offset_of_origin (by simp [hf]) w d).trans hnone
    simp [hnone, hright, hsame]

-- Values that move

theorem bind_moved {x y x' y' : Option ℚ} {f : ℚ → ℚ → Option ℚ} (hx : x' = x.map (· + s))
    (hy : y' = y.map (· + t)) (h : ∀ u v, f (u + s) (v + t) = (f u v).map (· + r)) :
    (x'.bind fun u => y'.bind fun v => f u v) = (x.bind fun u => y.bind fun v => f u v).map (· + r) := by
  subst hx hy
  cases x with
  | none => rfl
  | some u =>
    cases y with
    | none => rfl
    | some v => exact h u v

theorem map_add_zero (x : Option ℚ) : x.map (· + 0) = x := by
  cases x <;> simp

theorem add_moved (u v s t : ℚ) :
    PhysicalOp.add.apply (u + s) (v + t) = (PhysicalOp.add.apply u v).map (· + (s + t)) := by
  simp only [PhysicalOp.apply, Option.map_some]
  congr 1
  ring

theorem sub_moved (u v s t : ℚ) :
    PhysicalOp.sub.apply (u + s) (v + t) = (PhysicalOp.sub.apply u v).map (· + (s - t)) := by
  simp only [PhysicalOp.apply, Option.map_some]
  congr 1
  ring

theorem compare_moved {op : PhysicalOp} (hop : op.isComparison = true) (u v s : ℚ) :
    op.apply (u + s) (v + s) = op.apply u v := by
  cases op <;> simp [PhysicalOp.apply, PhysicalOp.isComparison] at hop ⊢

theorem fmax_moved (u v s : ℚ) : mathValue .fmax (u + s) (v + s) = (mathValue .fmax u v).map (· + s) := by
  simp [mathValue, max_add_add_right]

-- Operations

def KnownOperand (p : PhysicalPolicy) (declared : String → PhysicalFact) (e : PhysicalExpr) :
    Prop := physicalKnown (physicalExpression p declared e).1 = true

theorem fabs_not_absolute (hload : Loaded p) (h : operationRule p .fabs k = some r) :
    p.role k ≠ .absolute := by
  obtain ⟨hmem, hop, -, -, hkind⟩ := operationRule_spec h
  obtain ⟨operands, role, origin, hadmitted, -⟩ := hload.rules r hmem
  subst hkind
  simp only [ruleAdmitted, hop, Bool.and_eq_true, bne_iff_ne, beq_iff_eq] at hadmitted
  obtain ⟨⟨⟨⟨⟨⟨⟨-, -⟩, hrole⟩, hfabs⟩, -⟩, -⟩, -⟩, -⟩ := hadmitted
  rw [hrole]
  rintro rfl
  simp at hfabs

theorem compares_same (hop : op.isComparison = true) (ha : scalarKnown a = true)
    (hb : scalarKnown b = true) (h : (physicalBinary p node op resolved a b).2 = []) :
    a.type.kind = b.type.kind ∧ a.type.origin = b.type.origin := by
  have hmul : ¬(op = .mul ∨ op = .div) := by
    rintro (rfl | rfl) <;> cases hop
  have hadd : ¬(op = .add ∨ op = .sub) := by
    rintro (rfl | rfl) <;> cases hop
  unfold physicalBinary at h
  simp only [if_neg (state_of_scalarKnown ha), if_neg (state_of_scalarKnown hb), if_neg hmul, if_neg hadd,
    if_pos hop, andThen_snd,
    List.append_eq_nil_iff] at h
  exact linear_compares hop ha hb h.1

-- Expressions

theorem tracksOrigin_iff (horigin : (physicalExpression p declared e).1.type.origin = 0) :
    TracksOrigin p declared e ↔
      ∀ w, w ≠ 0 → ∀ d value, e.evaluate (moved declared w d value) = e.evaluate value := by
  refine forall_congr' fun w => forall_congr' fun hw => forall_congr' fun d => forall_congr' fun value => ?_
  rw [offset_zero horigin hw, map_add_zero]

/-- A known fact without a diagnostic is plain, and tells how the value moves. -/
def Tracked (p : PhysicalPolicy) (declared : String → PhysicalFact) (e : PhysicalExpr) : Prop :=
  physicalKnown (physicalExpression p declared e).1 = true → (physicalExpression p declared e).2 = [] →
    PlainFact p (physicalExpression p declared e).1 ∧ TracksOrigin p declared e

theorem sign_tracked (hop : op = .plus ∨ op = .minus) (ih : Tracked p declared e) :
    Tracked p declared (.unary node op e) := by
  intro hknown hclean
  simp only [physicalExpression, andThen_fst, andThen_snd, List.append_nil] at hknown hclean ⊢
  obtain ⟨hoperand, htype, hcarrier, -⟩ := retains_unary hop hknown
  obtain ⟨hplain, htracks⟩ := ih hoperand hclean
  have horigin := hplain.origin_of_role (signed_role hop hknown (hplain.scalarKnown hoperand))
  have hresult : (physicalExpression p declared (.unary node op e)).1.type.origin = 0 := by
    simp only [physicalExpression, andThen_fst, htype, horigin]
  rw [tracksOrigin_iff hresult]
  rw [tracksOrigin_iff horigin] at htracks
  refine ⟨hplain.congr htype hcarrier, ?_⟩
  intro w hw d value
  simp only [PhysicalExpr.evaluate, htracks w hw d value]

theorem sum_tracked (hsum : op = .add ∨ op = .sub) (ihl : Tracked p declared l) (ihr : Tracked p declared r) :
    Tracked p declared (.binary node op resolved l r) := by
  intro hknown hclean
  simp only [physicalExpression, andThen_fst, andThen_snd, List.append_eq_nil_iff] at hknown hclean ⊢
  obtain ⟨hcleanl, hcleanr, -⟩ := hclean
  obtain ⟨hkl, hkr, hlinear, hcarrier, -⟩ := sum_known hsum hknown
  obtain ⟨hpl, htl⟩ := ihl hkl hcleanl
  obtain ⟨hpr, htr⟩ := ihr hkr hcleanr
  refine ⟨plainFact_linear hlinear hpl hpr (hcarrier hpl.carrier hpr.carrier), ?_⟩
  intro w hw d value
  apply bind_moved (htl w hw d value) (htr w hw d value)
  intro u v
  obtain ⟨hshift, hgap⟩ := offset_linear hlinear hpl hpr hw d
  simp only [physicalExpression, andThen_fst]
  rcases hsum with rfl | rfl
  · rw [hshift (by simp)]
    exact add_moved u v _ _
  · rw [hgap rfl]
    exact sub_moved u v _ _

theorem product_tracked (hproduct : op = .mul ∨ op = .div) (ihl : Tracked p declared l)
    (ihr : Tracked p declared r) : Tracked p declared (.binary node op resolved l r) := by
  intro hknown hclean
  simp only [physicalExpression, andThen_fst, andThen_snd, List.append_eq_nil_iff] at hknown hclean ⊢
  obtain ⟨hcleanl, hcleanr, -⟩ := hclean
  obtain ⟨hkl, hkr, hol, hor, -, rule, -, hrule⟩ := product_known hproduct hknown
  obtain ⟨-, htl⟩ := ihl (known_of_scalarKnown hkl) hcleanl
  obtain ⟨-, htr⟩ := ihr (known_of_scalarKnown hkr) hcleanr
  have hresult : (physicalExpression p declared (.binary node op resolved l r)).1.type.origin = 0 := by
    simp only [physicalExpression, andThen_fst, hrule.1]
  rw [tracksOrigin_iff hresult]
  rw [tracksOrigin_iff hol] at htl
  rw [tracksOrigin_iff hor] at htr
  refine ⟨plainFact_fromRule hrule, ?_⟩
  intro w hw d value
  simp only [PhysicalExpr.evaluate, htl w hw d value, htr w hw d value]

section
variable (hload : Loaded p) (hversion : 3 ≤ p.schemaVersion) (hearly : p.schemaVersion ≤ 5)

include hload hversion in
theorem absolute_tracked (ih : Tracked p declared e) : Tracked p declared (.call1 node .fabs resolved e) := by
  intro hknown hclean
  have hrecognized : mathRecognized p .fabs = true := by
    simp [mathRecognized]
    omega
  simp only [physicalExpression, andThen_fst, andThen_snd, hrecognized, if_true,
    List.append_eq_nil_iff] at hknown hclean ⊢
  obtain ⟨-, hoperands, -, rule, hrule, hfact⟩ := math_known hknown
  have hscalar : scalarKnown (physicalExpression p declared e).1 = true := by
    simpa using hoperands
  obtain ⟨hplain, htracks⟩ := ih (known_of_scalarKnown hscalar) hclean.1
  obtain ⟨htype, hcarrier⟩ : _ ∧ _ := hfact
  have horigin : (physicalExpression p declared e).1.type.origin = 0 := by
    apply hplain.origin
    apply fabs_not_absolute hload (r := rule)
    simpa [mathRule, cosmicMathOperation, hscalar] using hrule
  have hresult : (physicalExpression p declared (.call1 node .fabs resolved e)).1.type.origin = 0 := by
    simp only [physicalExpression, andThen_fst, hrecognized, if_true, htype, horigin]
  rw [tracksOrigin_iff hresult]
  rw [tracksOrigin_iff horigin] at htracks
  refine ⟨hplain.congr htype hcarrier, ?_⟩
  intro w hw d value
  simp only [PhysicalExpr.evaluate, htracks w hw d value]

include hversion hearly in
theorem extremum_tracked (hop : op = .fmax ∨ op = .fmin) (ihl : Tracked p declared l)
    (ihr : Tracked p declared r) : Tracked p declared (.call2 node op resolved l r) := by
  intro hknown hclean
  simp only [physicalExpression, andThen_fst, andThen_snd, List.append_eq_nil_iff] at hknown hclean ⊢
  obtain ⟨hcleanl, hcleanr, -⟩ := hclean
  split at hknown
  · rename_i hrecognized
    have hmax : op = .fmax := by
      rcases hop with rfl | rfl
      · rfl
      · simp [mathRecognized, cosmicMathOperation] at hrecognized
        omega
    subst hmax
    rw [if_pos hrecognized]
    obtain ⟨-, hoperands, hsame, rule, -, hfact⟩ := math_known hknown
    obtain ⟨hkl, hkr⟩ : scalarKnown (physicalExpression p declared l).1 = true ∧
        scalarKnown (physicalExpression p declared r).1 = true := by
      simpa using hoperands
    obtain ⟨hpl, htl⟩ := ihl (known_of_scalarKnown hkl) hcleanl
    obtain ⟨-, htr⟩ := ihr (known_of_scalarKnown hkr) hcleanr
    obtain ⟨htype, hcarrier⟩ : _ ∧ _ := hfact
    refine ⟨hpl.congr htype hcarrier, ?_⟩
    intro w hw d value
    have hright := htr w hw d value
    rw [← offset_of_origin (hsame _ rfl).2] at hright
    have hresult : offset (physicalExpression p declared (.call2 node .fmax resolved l r)).1 w d =
        offset (physicalExpression p declared l).1 w d := by
      refine offset_of_origin ?_ w d
      simp only [physicalExpression, andThen_fst, if_pos hrecognized, htype]
    rw [hresult]
    exact bind_moved (htl w hw d value) hright fun u v => fmax_moved u v _
  · rw [uncontractedCall_lost] at hknown
    cases hknown

include hversion hearly in
theorem conditional_tracked (hop : op.isComparison = true)
    (hcl : physicalKnown (physicalExpression p declared l).1 = true)
    (hcr : physicalKnown (physicalExpression p declared r).1 = true) (ihl : Tracked p declared l)
    (ihr : Tracked p declared r) (ihyes : Tracked p declared yes) (ihno : Tracked p declared no) :
    Tracked p declared (.ternary node (.binary node' op resolved l r) yes no) := by
  intro hknown hclean
  simp only [physicalExpression, andThen_fst, andThen_snd, List.append_eq_nil_iff] at hknown hclean ⊢
  obtain ⟨⟨hcleanl, hcleanr, hcompare⟩, hcleanyes, hcleanno, -⟩ := hclean
  obtain ⟨hkyes, hkno, -, htypes, htype, hcarrier, -⟩ := conditional_known hknown
  obtain ⟨hpl, htl⟩ := ihl hcl hcleanl
  obtain ⟨hpr, htr⟩ := ihr hcr hcleanr
  obtain ⟨hpyes, htyes⟩ := ihyes hkyes hcleanyes
  obtain ⟨-, htno⟩ := ihno hkno hcleanno
  obtain ⟨-, horigin⟩ := compares_same hop (hpl.scalarKnown hcl) (hpr.scalarKnown hcr) hcompare
  refine ⟨hpyes.congr htype hcarrier, ?_⟩
  intro w hw d value
  have hright := htr w hw d value
  rw [← offset_of_origin horigin] at hright
  have hcondition := bind_moved (r := 0) (htl w hw d value) hright fun u v => by
    rw [map_add_zero]
    exact compare_moved hop u v _
  have hno := htno w hw d value
  rw [← offset_of_origin (congrArg (·.origin) (htypes (by omega)))] at hno
  have hresult : offset (physicalExpression p declared
      (.ternary node (.binary node' op resolved l r) yes no)).1 w d =
      offset (physicalExpression p declared yes).1 w d := by
    refine offset_of_origin ?_ w d
    simp only [physicalExpression, andThen_fst, htype]
  rw [hresult]
  rw [map_add_zero] at hcondition
  simp only [PhysicalExpr.evaluate, hcondition, hno, htyes w hw d value]
  generalize ((l.evaluate value).bind fun u => (r.evaluate value).bind fun v => op.apply u v) = c
  cases c with
  | none => rfl
  | some x =>
    dsimp only [Option.bind_some]
    split <;> rfl

include hload hversion hearly in
theorem plain_tracksOrigin (h : ScalarExpr p declared (KnownOperand p declared) e) : Tracked p declared e := by
  induction h with
  | identifier h => exact fun _ _ => ⟨plainFact_knownScalar h, fun _ _ _ _ => rfl⟩
  | sign hop h ih => exact sign_tracked hop ih
  | @arithmetic op _ _ _ _ hop hl hr ihl ihr =>
    have hsplit : (op = .add ∨ op = .sub) ∨ (op = .mul ∨ op = .div) := by
      rcases hop with hop | hop | hop | hop <;> simp [hop]
    rcases hsplit with hsum | hproduct
    · exact sum_tracked hsum ihl ihr
    · exact product_tracked hproduct ihl ihr
  | absolute h ih => exact absolute_tracked hload hversion ih
  | extremum hop hl hr ihl ihr => exact extremum_tracked hversion hearly hop ihl ihr
  | conditional hop hcl hcr hl hr hyes hno ihl ihr ihyes ihno =>
    exact conditional_tracked hversion hearly hop hcl hcr ihl ihr ihyes ihno

end

/-- Under a loaded policy of the schemas 3 to 5, a known fact without a diagnostic tells
how the value moves with every origin. -/
theorem tracksOrigin_of_known (hload : physicalPolicyLoad options root start = .ok p)
    (hversion : 3 ≤ p.schemaVersion ∧ p.schemaVersion ≤ 5)
    (h : ScalarExpr p declared (KnownOperand p declared) e)
    (hknown : physicalKnown (physicalExpression p declared e).1 = true)
    (hclean : (physicalExpression p declared e).2 = []) : TracksOrigin p declared e :=
  (plain_tracksOrigin (loaded_of_load hload) hversion.1 hversion.2 h hknown hclean).2

-- Points and displacements

def pointsStart : PhysicalPolicy :=
  ⟨3, [⟨"quantity.displacement", exponents [1]⟩, ⟨"quantity.position", exponents [1]⟩], [], [], [], [], []⟩

def pointsDocument : JsonValue String :=
  .object [("linear_kinds", .array []),
    ("affine_pairs", .array [.object [("absolute_kind", .string "quantity.position"),
      ("difference_kind", .string "quantity.displacement")]]),
    ("origins", .array [.object [("id", .string "origin.ground"),
      ("absolute_kind", .string "quantity.position")]]),
    ("operation_rules", .array [])]

def pointsPolicy : PhysicalPolicy :=
  { pointsStart with
    models := [⟨.difference, 2⟩, ⟨.absolute, 1⟩]
    origins := [⟨"origin.ground", 2⟩] }

/-- `left` and `right` are points above the ground, every other name is a displacement. -/
def pointsDeclared (name : String) : PhysicalFact :=
  ⟨if name = "left" ∨ name = "right" then ⟨2, 1, 0⟩ else ⟨1, 0, 0⟩, .known, noContext, false, false,
    none, "", none⟩

theorem pointsPolicy_loads : physicalPolicyLoad ⟨2, 1⟩ pointsDocument pointsStart = .ok pointsPolicy := rfl

/-- `left < right ? left + step : right` -/
def nextPoint : PhysicalExpr :=
  .ternary 0 (.binary 1 .lt true (.identifier 2 "left") (.identifier 3 "right"))
    (.binary 4 .add true (.identifier 5 "left") (.identifier 6 "step")) (.identifier 7 "right")

theorem nextPoint_tracksOrigin : TracksOrigin pointsPolicy pointsDeclared nextPoint :=
  tracksOrigin_of_known pointsPolicy_loads ⟨by decide, by decide⟩
    (.conditional rfl rfl rfl (.identifier ⟨rfl, rfl⟩) (.identifier ⟨rfl, rfl⟩)
      (.arithmetic (.inl rfl) (.identifier ⟨rfl, rfl⟩) (.identifier ⟨rfl, rfl⟩))
      (.identifier ⟨rfl, rfl⟩))
    rfl rfl

/-- `-left < right ? step : width`: the sign of a point is unknown and is compared. -/
def comparesUnknown : PhysicalExpr :=
  .ternary 0 (.binary 1 .lt true (.unary 2 .minus (.identifier 3 "left")) (.identifier 4 "right"))
    (.identifier 5 "step") (.identifier 6 "width")

/-- A condition over an operand without a known fact is not tracked. -/
theorem comparesUnknown_moves :
    ∃ (options : LoadOptions) (root : JsonValue String) (start p : PhysicalPolicy)
      (declared : String → PhysicalFact) (e : PhysicalExpr),
      physicalPolicyLoad options root start = .ok p ∧ 3 ≤ p.schemaVersion ∧ p.schemaVersion ≤ 5 ∧
        ScalarExpr p declared (fun _ => True) e ∧
        physicalKnown (physicalExpression p declared e).1 = true ∧
        (physicalExpression p declared e).2 = [] ∧ ¬TracksOrigin p declared e := by
  refine ⟨⟨2, 1⟩, pointsDocument, pointsStart, pointsPolicy, pointsDeclared, comparesUnknown,
    pointsPolicy_loads, by decide, by decide, ?_, rfl, rfl, ?_⟩
  · exact .conditional rfl trivial trivial (.sign (.inr rfl) (.identifier ⟨rfl, rfl⟩))
      (.identifier ⟨rfl, rfl⟩) (.identifier ⟨rfl, rfl⟩) (.identifier ⟨rfl, rfl⟩)
  · intro h
    have hmoved := h 1 (by decide) (-2) fun name => if name = "step" then 0 else 1
    revert hmoved
    decide +kernel

end Fisics.Physical
