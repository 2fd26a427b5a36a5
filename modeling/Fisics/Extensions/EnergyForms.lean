import Fisics.Extensions.PhysicalLaws

/-!
# Energy forms aggregate

Sums, conditionals and scaled energies join the forms of what contributes: one without
a form leaves none, and different ones are mixed. So a boundary or a call that asks for
one form only lets contributions of this form through.
-/

namespace Fisics.Physical

-- Policies and calls

/-- What `physical_energy_load` checks for a policy of schema 7. -/
structure EnergyPolicy (p : PhysicalPolicy) : Prop where
  version : p.schemaVersion = 7
  kind : p.findKind "quantity.energy" ≠ 0
  linear : p.role (p.findKind "quantity.energy") = .linear
  mixed : mixedForm p ≠ 0

/-- `physical_energy_call_result` -/
def physicalEnergyCallResult (p : PhysicalPolicy) (node : Node) (args : List PhysicalFact) (f : PhysicalFact) :
    Checked :=
  if !isEnergy p f || !physicalKnown f then (f, [])
  else
    let target := f.declaredContext.energyForm
    if target = 0 then (energyStore f 0, [])
    else if args.any fun a => isEnergy p a && a.declaredContext.energyForm != target then
      energyRefuse node f
        "ordinary energy helper cannot relabel an input contribution without an exact energy_transfer contract"
    else (energyStore f target, [])

-- Forms

/-- The form of what is made of contributions of these forms; zero is no form. -/
def aggregate (mixed : Nat) (forms : List Nat) : Nat :=
  if 0 ∈ forms then 0 else if ∀ x ∈ forms, x = forms.headD 0 then forms.headD 0 else mixed

def combine (mixed x y : Nat) : Nat := if x = 0 ∨ y = 0 then 0 else if x = y then x else mixed

theorem aggregate_eq (h : x ∈ forms) : aggregate mixed forms =
    if 0 ∈ forms then 0 else if ∀ y ∈ forms, y = x then x else mixed := by
  obtain ⟨z, rest, rfl⟩ := List.exists_cons_of_ne_nil (List.ne_nil_of_mem h)
  rw [aggregate, List.headD_cons]
  by_cases hall : ∀ y ∈ z :: rest, y = z
  · rw [hall x h]
  have hnone : ¬∀ y ∈ z :: rest, y = x :=
    fun hx => hall fun y hy => (hx y hy).trans (hx z List.mem_cons_self).symm
  rw [if_neg hall, if_neg hnone]

theorem aggregate_append (hmixed : mixed ≠ 0) (hx : x ∈ xs) (hy : y ∈ ys) :
    aggregate mixed (xs ++ ys) = combine mixed (aggregate mixed xs) (aggregate mixed ys) := by
  rw [aggregate_eq (List.mem_append_left ys hx), aggregate_eq hx, aggregate_eq hy, combine]
  simp only [List.mem_append, or_imp, forall_and]
  grind

theorem of_aggregate (h : aggregate mixed forms = form) (hform : form ≠ 0) (hmixed : form ≠ mixed) :
    ∀ x ∈ forms, x = form := by
  subst h
  intro x hx
  rw [aggregate_eq hx] at hform hmixed ⊢
  split at hform
  · exact absurd rfl hform
  rename_i h0
  rw [if_neg h0] at hmixed ⊢
  split at hmixed
  · rename_i hall
    rw [if_pos hall]
  · exact absurd rfl hmixed

-- Facts

/-- A known scalar energy. `physical_frame_bind` gives no energy a frame. -/
structure EnergyFact (p : PhysicalPolicy) (f : PhysicalFact) : Prop where
  scalar : scalarKnown f = true
  kind : f.type.kind = p.findKind "quantity.energy"
  origin : f.type.origin = 0
  unframed : f.declaredContext.frame = 0

structure RatioFact (p : PhysicalPolicy) (f : PhysicalFact) : Prop where
  scalar : scalarKnown f = true
  ratio : isRatio p f = true
  unframed : f.declaredContext.frame = 0

theorem RatioFact.not_energy (h : RatioFact p f) : isEnergy p f = false := by
  have hratio := h.ratio
  simp only [isRatio, Bool.and_eq_true, beq_iff_eq] at hratio
  simp [isEnergy, hratio.2]

/-- The forms of two energies meet in a third. -/
structure Combines (p : PhysicalPolicy) (a b f : PhysicalFact) : Prop where
  fact : EnergyFact p f
  form : f.declaredContext.energyForm =
    combine (mixedForm p) a.declaredContext.energyForm b.declaredContext.energyForm

theorem mergeTrust_known (h : physicalKnown a = true) : physicalKnown (physicalMergeTrust a b) = true := by
  have hkind := kind_ne_zero h
  obtain ⟨_, hmerge⟩ := mergeTrust_eq a b
  simp only [physicalKnown, Bool.and_eq_true, Bool.or_eq_true, bne_iff_ne, beq_iff_eq, hmerge] at h ⊢
  refine ⟨hkind, ?_⟩
  split
  · next hb => exact hb.elim (fun hb => .inr hb.1) fun hb => .inl (.inr hb.1)
  · exact h.2

theorem not_geometric (hscalar : scalarKnown f = true) (hframe : f.declaredContext.frame = 0) :
    frameGeometric p f = false := by
  simp [frameGeometric, (scalarKnown_iff.mp hscalar).2.2, hframe]

theorem frameBinary_unframed (ha : frameGeometric p a = false) (hb : frameGeometric p b = false) :
    physicalFrameBinary p node op a b f = (f, []) := by
  simp [physicalFrameBinary, ha, hb]

theorem EnergyFact.merged (h : EnergyFact p a) (b : PhysicalFact) (reason : String) :
    EnergyFact p { physicalMergeTrust a b with reason := reason } := by
  obtain ⟨hknown, hcarrier, hrepresentation⟩ := scalarKnown_iff.mp h.scalar
  refine ⟨scalarKnown_iff.mpr ⟨mergeTrust_known hknown, ?_, ?_⟩, ?_, ?_, ?_⟩
  · exact (mergeTrust_carrier a b).trans hcarrier
  all_goals simp only [mergeTrust_type, mergeTrust_context, hrepresentation, h.kind, h.origin, h.unframed]

theorem scalarProduct_unframed (ha : a.declaredContext.frame = 0) :
    (scalarProduct p node op resolved a b).declaredContext.frame = 0 := by
  unfold scalarProduct
  dsimp only
  split
  · split
    · split
      · exact (congrArg PhysicalDeclaredContext.frame (mergeTrust_context a b)).trans ha
      · rfl
    · rfl
  · rfl

section
variable (hp : EnergyPolicy p)
include hp

theorem isEnergy_of_kind (h : f.type.kind = p.findKind "quantity.energy") : isEnergy p f = true := by
  have hkind := hp.kind
  simp only [isEnergy, hp.version, h]
  unfold PhysicalPolicy.findKind PhysicalPolicy.findHandle at hkind ⊢
  split at hkind
  · next i k hfind =>
    obtain ⟨hget, hid⟩ := LowerBound.of_find hfind
    simpa [PhysicalPolicy.kindOf, List.getD_eq_getElem?_getD, hget] using hid
  · exact absurd rfl hkind

theorem EnergyFact.combined (ha : EnergyFact p a) (hb : EnergyFact p b) (hf : EnergyFact p f) :
    Combines p a b (physicalEnergyBinary p a b f) := by
  have hknown := known_of_scalarKnown hf.scalar
  simp only [physicalEnergyBinary, isEnergy_of_kind hp ha.kind, isEnergy_of_kind hp hb.kind,
    isEnergy_of_kind hp hf.kind, hknown, Bool.not_true, Bool.or_self, Bool.false_eq_true, if_false]
  exact ⟨⟨hf.scalar, hf.kind, hf.origin, hf.unframed⟩, rfl⟩

theorem EnergyFact.sum (ha : EnergyFact p a) (hb : EnergyFact p b) (hop : op = .add ∨ op = .sub) :
    Combines p a b (physicalBinary p node op resolved a b).1 := by
  have hmul : ¬(op = .mul ∨ op = .div) := by
    rcases hop with rfl | rfl <;> simp
  have hadd : (op == .add || op == .sub) = true := by
    rcases hop with rfl | rfl <;> rfl
  have hlinear : linearBinary p node op a b =
      ({ physicalMergeTrust a b with reason := "same-kind linear operation" }, []) := by
    simp [linearBinary, ha.scalar, hb.scalar, hadd, ha.kind, hb.kind, ha.origin, hb.origin, hp.linear]
  simp only [physicalBinary, if_neg (state_of_scalarKnown ha.scalar), if_neg (state_of_scalarKnown hb.scalar),
    if_neg hmul, if_pos hop, hlinear, andThen_fst,
    frameBinary_unframed (not_geometric ha.scalar ha.unframed) (not_geometric hb.scalar hb.unframed)]
  exact ha.combined hp hb (ha.merged b _)

theorem EnergyFact.conditional (ha : EnergyFact p a) (hb : EnergyFact p b) :
    Combines p a b (physicalConditional p node a b).1 := by
  have hmerged := ha.merged b (physicalMergeTrust a b).reason
  have henergy := (ha.combined hp hb hmerged).fact
  simp only [physicalConditional, known_of_scalarKnown ha.scalar, known_of_scalarKnown hb.scalar, Bool.and_self,
    if_true, hp.version, ha.kind, hb.kind, and_self, andThen_fst, if_pos (state_of_scalarKnown henergy.scalar),
    frameBinary_unframed (not_geometric ha.scalar ha.unframed) (not_geometric hb.scalar hb.unframed)]
  exact ha.combined hp hb hmerged

/-- A product or a quotient of values without frames that is an energy by a rule. -/
theorem EnergyFact.of_rule (ha : scalarKnown a = true) (hb : scalarKnown b = true)
    (hframe : a.declaredContext.frame = 0 ∧ b.declaredContext.frame = 0) (hop : op = .mul ∨ op = .div)
    (hf : (physicalBinary p node op resolved a b).1 = f) (hknown : physicalKnown f = true)
    (hkind : f.type.kind = p.findKind "quantity.energy") :
    EnergyFact p f ∧ f.declaredContext.energyForm =
      if isEnergy p a && isRatio p b then a.declaredContext.energyForm
      else if op == .mul && isRatio p a && isEnergy p b then b.declaredContext.energyForm else 0 := by
  obtain ⟨-, -, -, -, -, r, -, htype, hcarrier⟩ := product_known hop (hf ▸ hknown)
  rw [hf] at htype hcarrier
  have hscalar := scalarKnown_iff.mpr ⟨hknown, hcarrier, congrArg PhysicalType.representation htype⟩
  have horigin := congrArg PhysicalType.origin htype
  have hproduct : f = physicalEnergyScale p op a b (scalarProduct p node op resolved a b) := by
    simp only [← hf, physicalBinary, if_neg (state_of_scalarKnown ha), if_neg (state_of_scalarKnown hb),
      if_pos hop,
      physicalScalarExpression, hp.version, Nat.reduceLT, if_false, physicalFrameScale,
        not_geometric ha hframe.1,
      not_geometric hb hframe.2]
    split <;> rfl
  obtain ⟨hproductKnown, htypes, -⟩ := retains_energyScale (hproduct ▸ hknown)
  have henergy := isEnergy_of_kind hp ((congrArg PhysicalType.kind htypes).symm.trans (hproduct ▸ hkind))
  simp only [physicalEnergyScale, hp.version, hproductKnown, henergy, ne_eq, not_true, Bool.true_eq_false,
    or_self,
    if_false, if_true] at hproduct
  subst hproduct
  exact ⟨⟨hscalar, hkind, horigin, scalarProduct_unframed hframe.1⟩, rfl⟩

end

-- Expressions

/-- Sums, differences, conditionals and admitted scalings of energies, with the forms of
all that contributes. -/
inductive EnergyExpr (p : PhysicalPolicy) (declared : String → PhysicalFact) : PhysicalExpr → List Nat → Prop
  | energy (h : EnergyFact p (physicalExpression p declared e).1) :
      EnergyExpr p declared e [(physicalExpression p declared e).1.declaredContext.energyForm]
  | sum (hop : op = .add ∨ op = .sub) (hl : EnergyExpr p declared l xs) (hr : EnergyExpr p declared r ys) :
      EnergyExpr p declared (.binary node op resolved l r) (xs ++ ys)
  | conditional (hyes : EnergyExpr p declared yes xs) (hno : EnergyExpr p declared no ys) :
      EnergyExpr p declared (.ternary node condition yes no) (xs ++ ys)
  | scaled (hop : op = .mul ∨ op = .div) (he : EnergyExpr p declared e xs)
      (hr : RatioFact p (physicalExpression p declared r).1)
      (hf : (physicalExpression p declared (.binary node op resolved e r)).1 = f)
        (hknown : physicalKnown f = true)
      (hkind : f.type.kind = p.findKind "quantity.energy") :
      EnergyExpr p declared (.binary node op resolved e r) xs
  | scales (hr : RatioFact p (physicalExpression p declared r).1) (he : EnergyExpr p declared e xs)
      (hf : (physicalExpression p declared (.binary node .mul resolved r e)).1 = f)
        (hknown : physicalKnown f = true)
      (hkind : f.type.kind = p.findKind "quantity.energy") :
      EnergyExpr p declared (.binary node .mul resolved r e) xs

structure Aggregates (p : PhysicalPolicy) (f : PhysicalFact) (forms : List Nat) : Prop where
  fact : EnergyFact p f
  some : ∃ x, x ∈ forms
  form : f.declaredContext.energyForm = aggregate (mixedForm p) forms

theorem Combines.aggregates (hp : EnergyPolicy p) (h : Combines p a b f) (ha : Aggregates p a xs)
    (hb : Aggregates p b ys) : Aggregates p f (xs ++ ys) := by
  obtain ⟨x, hx⟩ := ha.some
  obtain ⟨y, hy⟩ := hb.some
  refine ⟨h.fact, ⟨x, List.mem_append_left _ hx⟩, ?_⟩
  rw [aggregate_append hp.mixed hx hy, ← ha.form, ← hb.form]
  exact h.form

theorem EnergyExpr.aggregates (hp : EnergyPolicy p) (h : EnergyExpr p declared e forms) :
    Aggregates p (physicalExpression p declared e).1 forms := by
  induction h with
  | energy h => exact ⟨h, ⟨_, List.mem_singleton_self _⟩, by simp [aggregate, eq_comm]⟩
  | sum hop hl hr ihl ihr => exact (ihl.fact.sum hp ihr.fact hop).aggregates hp ihl ihr
  | conditional hyes hno ihyes ihno => exact (ihyes.fact.conditional hp ihno.fact).aggregates hp ihyes ihno
  | scaled hop he hr hf hknown hkind ih =>
    obtain ⟨hfact, hform⟩ := EnergyFact.of_rule hp ih.fact.scalar hr.scalar ⟨ih.fact.unframed, hr.unframed⟩
        hop hf hknown hkind
    rw [hf]
    refine ⟨hfact, ih.some, hform.trans ?_⟩
    simp [isEnergy_of_kind hp ih.fact.kind, hr.ratio, ih.form]
  | scales hr he hf hknown hkind ih =>
    obtain ⟨hfact, hform⟩ := EnergyFact.of_rule hp hr.scalar ih.fact.scalar ⟨hr.unframed, ih.fact.unframed⟩
        (.inl rfl) hf hknown hkind
    rw [hf]
    refine ⟨hfact, ih.some, hform.trans ?_⟩
    simp [hr.not_energy, hr.ratio, isEnergy_of_kind hp ih.fact.kind, ih.form]

def Concrete (p : PhysicalPolicy) (f : PhysicalFact) : Prop :=
  f.declaredContext.energyForm ≠ 0 ∧ f.declaredContext.energyForm ≠ mixedForm p

/-- The form of an energy is that of its contributions as a set, and what a boundary or a
call lets through for one form has contributions of this form only. -/
theorem energyForm_aggregates (hp : EnergyPolicy p) (h : EnergyExpr p declared e forms) :
    (physicalExpression p declared e).1.declaredContext.energyForm = aggregate (mixedForm p) forms ∧
      (∀ node target f literal, isEnergy p target = true → Concrete p target → physicalKnown f = true →
        (literal && f.state == .literalTrust) = false →
        (physicalEnergyBoundary p node target (physicalExpression p declared e).1 f literal).1.state ≠ .error →
        ∀ x ∈ forms, x = target.declaredContext.energyForm) ∧
      ∀ node args f, isEnergy p f = true → Concrete p f → physicalKnown f = true →
        (physicalExpression p declared e).1 ∈ args → (physicalEnergyCallResult p node args f).1.state ≠ .error →
        ∀ x ∈ forms, x = f.declaredContext.energyForm := by
  obtain ⟨hfact, -, hform⟩ := h.aggregates hp
  refine ⟨hform, ?_, ?_⟩
  · intro node target f literal htarget hconcrete hknown hliteral hpass
    refine of_aggregate (hform.symm.trans ?_) hconcrete.1 hconcrete.2
    by_contra hne
    apply hpass
    simp [physicalEnergyBoundary, htarget, state_of_known hknown, hliteral, hknown, hconcrete.1, hconcrete.2,
      Ne.symm hne, energyRefuse]
  · intro node args f henergy hconcrete hknown hmem hpass
    refine of_aggregate (hform.symm.trans ?_) hconcrete.1 hconcrete.2
    by_contra hne
    apply hpass
    have hany : (args.any fun a => isEnergy p a && a.declaredContext.energyForm !=
        f.declaredContext.energyForm) = true :=
      List.any_eq_true.mpr ⟨_, hmem, by simp [isEnergy_of_kind hp hfact.kind, hne]⟩
    simp only [physicalEnergyCallResult, henergy, hknown, if_neg hconcrete.1, hany]
    rfl

def energyPolicy : PhysicalPolicy :=
  ⟨7, [⟨"quantity.energy", exponents [2, 1, -2]⟩], [⟨.linear, 0⟩], [], [], [],
    ["energy.kinetic", "energy.mixed", "energy.potential"]⟩

/-- `heights` is a potential energy, every other name a kinetic one. -/
def energyDeclared (name : String) : PhysicalFact :=
  ⟨⟨1, 0, 0⟩, .known, { noContext with energyForm := if name = "heights" then 3 else 1 }, false, false,
    none, "", none⟩

theorem energyPolicy_checks : EnergyPolicy energyPolicy := ⟨rfl, by decide, rfl, by decide⟩

/-- `moving ? spin + drift : heights` -/
theorem total_aggregates :
    (physicalExpression energyPolicy energyDeclared (.ternary 0 (.identifier 1 "moving")
      (.binary 2 .add true (.identifier 3 "spin") (.identifier 4 "drift"))
      (.identifier 5 "heights"))).1.declaredContext.energyForm = 2 :=
  (energyForm_aggregates energyPolicy_checks
    (.conditional (.sum (.inl rfl) (.energy ⟨rfl, rfl, rfl, rfl⟩) (.energy ⟨rfl, rfl, rfl, rfl⟩))
      (.energy ⟨rfl, rfl, rfl, rfl⟩))).1

end Fisics.Physical
