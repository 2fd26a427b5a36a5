import Fisics.Extensions.PhysicalExpr

/-!
# What a known fact comes from

One lemma for each operation of the checker: from which operands and by which rule a
known fact is made. Frames and energy forms may lose a fact, but a fact that is still
known has the type it had, or comes from a point operation.
-/

namespace Fisics.Physical

@[simp] theorem andThen_fst (c : Checked) (next : PhysicalFact → Checked) :
    (c.andThen next).1 = (next c.1).1 := rfl

@[simp] theorem andThen_snd (c : Checked) (next : PhysicalFact → Checked) :
    (c.andThen next).2 = c.2 ++ (next c.1).2 := rfl

-- Known facts

@[simp] theorem physicalKnown_unknown (node : Node) (reason : String) :
    physicalKnown (physicalUnknown node reason) = false := rfl

@[simp] theorem physicalKnown_control (reason : String) :
    physicalKnown (physicalControl reason) = false := rfl

theorem not_known_of_error (h : f.state = .error) : physicalKnown f = false := by
  simp [physicalKnown, h]

theorem kind_ne_zero (h : physicalKnown f = true) : f.type.kind ≠ 0 := by
  simp [physicalKnown] at h
  exact h.1

theorem physicalKnown_congr (hkind : f.type.kind = g.type.kind) (hstate : f.state = g.state) :
    physicalKnown f = physicalKnown g := by
  simp [physicalKnown, hkind, hstate]

theorem known_of_scalarKnown (h : scalarKnown f = true) : physicalKnown f = true := by
  simp [scalarKnown] at h
  exact h.1.1

theorem scalarKnown_iff :
    scalarKnown f = true ↔ physicalKnown f = true ∧ f.carrier = false ∧ f.type.representation = 0 := by
  simp [scalarKnown, and_assoc]

theorem state_of_known (h : physicalKnown f = true) : f.state ≠ .error := by
  intro herror
  rw [not_known_of_error herror] at h
  cases h

theorem state_of_scalarKnown (h : scalarKnown f = true) : f.state ≠ .error :=
  state_of_known (known_of_scalarKnown h)

-- Merging trust

theorem mergeTrust_eq (a b : PhysicalFact) : ∃ loss, physicalMergeTrust a b =
    { a with
      state :=
        if b.state = .declaredTrust ∧ a.state ≠ .declaredTrust ∨ b.state = .literalTrust ∧ a.state = .known
        then b.state else a.state
      loss := loss
      storageComponent := a.storageComponent || b.storageComponent } := by
  unfold physicalMergeTrust
  split
  · next h => exact ⟨_, by rw [if_pos (.inl h)]⟩
  rename_i hdeclared
  split
  · next h => exact ⟨_, by rw [if_pos (.inr h)]⟩
  rename_i hliteral
  rw [if_neg (not_or.mpr ⟨hdeclared, hliteral⟩)]
  split <;> exact ⟨_, rfl⟩

@[simp] theorem mergeTrust_type (a b : PhysicalFact) : (physicalMergeTrust a b).type = a.type := by
  obtain ⟨_, h⟩ := mergeTrust_eq a b
  rw [h]

@[simp] theorem mergeTrust_carrier (a b : PhysicalFact) : (physicalMergeTrust a b).carrier = a.carrier := by
  obtain ⟨_, h⟩ := mergeTrust_eq a b
  rw [h]

theorem mergeTrust_context (a b : PhysicalFact) :
    (physicalMergeTrust a b).declaredContext = a.declaredContext := by
  obtain ⟨_, h⟩ := mergeTrust_eq a b
  rw [h]

def FactState.rank : FactState → Nat
  | .known => 0
  | .literalTrust => 1
  | .declaredTrust => 2
  | _ => 3

def Joined (a b f : PhysicalFact) : Prop :=
  f.state = a.state ∧ b.state.rank ≤ a.state.rank ∨ f.state = b.state ∧ a.state.rank ≤ b.state.rank

theorem Joined.congr (h : Joined a b f) (hstate : g.state = f.state) : Joined a b g := by
  simpa only [Joined, hstate] using h

theorem joined_mergeTrust (ha : physicalKnown a = true) (hb : physicalKnown b = true) :
    Joined a b (physicalMergeTrust a b) := by
  obtain ⟨_, h⟩ := mergeTrust_eq a b
  simp only [physicalKnown, Bool.and_eq_true, Bool.or_eq_true, beq_iff_eq] at ha hb
  rw [h]
  obtain ⟨-, (ha | ha) | ha⟩ := ha <;> obtain ⟨-, (hb | hb) | hb⟩ := hb <;>
    simp [Joined, ha, hb, FactState.rank]

-- Affine pairs

theorem affineError_not_known (node : Node) (code : Nat) (op : PhysicalOp) (a b : PhysicalFact) :
    physicalKnown (affineError node code op a b).1 = false :=
  not_known_of_error rfl

inductive AffineResult (p : PhysicalPolicy) (op : PhysicalOp) (a b f : PhysicalFact) : Prop
  | difference (ha : p.role a.type.kind = .absolute) (hb : b.type.kind = a.type.kind)
      (horigin : a.type.origin = b.type.origin) (hop : op = .sub)
      (hf : f.type = ⟨(p.model a.type.kind).pairedKind, 0, a.type.representation⟩)
  | shiftRight (ha : p.role a.type.kind = .absolute) (hb : p.role b.type.kind = .difference)
      (hpair : (p.model a.type.kind).pairedKind = b.type.kind) (hf : f.type = a.type)
  | shiftLeft (ha : p.role a.type.kind = .difference) (hb : p.role b.type.kind = .absolute)
      (hpair : (p.model b.type.kind).pairedKind = a.type.kind) (hop : op ≠ .sub)
      (hf : f.type = b.type)

theorem affine_known (hknowna : physicalKnown a = true) (hknownb : physicalKnown b = true)
    (h : physicalKnown (physicalAffineBinary p node op a b).1 = true) :
    AffineResult p op a b (physicalAffineBinary p node op a b).1 ∧
      ((physicalAffineBinary p node op a b).1.carrier = a.carrier ∨
        (physicalAffineBinary p node op a b).1.carrier = b.carrier) ∧
      Joined a b (physicalAffineBinary p node op a b).1 := by
  revert h
  unfold physicalAffineBinary
  dsimp only
  split
  · rename_i hroles
    obtain ⟨ha, hb⟩ := Bool.and_eq_true_iff.mp hroles
    split
    · intro h
      simp [affineError_not_known] at h
    rename_i hkind
    split
    · intro h
      simp [affineError_not_known] at h
    rename_i horigin
    split
    · intro h
      simp [affineError_not_known] at h
    rename_i hop
    intro _
    refine ⟨.difference (by simpa [PhysicalPolicy.role] using ha) ?_ ?_ ?_ ?_, .inl ?_,
      joined_mergeTrust hknowna hknownb⟩
    · exact (not_not.mp hkind).symm
    · exact not_not.mp horigin
    · exact not_not.mp hop
    all_goals simp
  · split
    · rename_i hshift
      intro _
      simp only [Bool.and_eq_true, beq_iff_eq] at hshift
      obtain ⟨⟨⟨ha, hb⟩, hpair⟩, -⟩ := hshift
      exact ⟨.shiftRight ha hb hpair (by simp), .inl (by simp), joined_mergeTrust hknowna hknownb⟩
    · split
      · rename_i hshift
        intro _
        simp only [Bool.and_eq_true, beq_iff_eq, bne_iff_ne] at hshift
        obtain ⟨⟨⟨⟨hb, hop⟩, ha⟩, hpair⟩, -⟩ := hshift
        exact ⟨.shiftLeft ha hb hpair hop (by simp), .inr (by simp),
          Or.symm (joined_mergeTrust hknownb hknowna)⟩
      · intro h
        simp [affineError_not_known] at h

-- Sums, differences and comparisons

inductive LinearResult (p : PhysicalPolicy) (op : PhysicalOp) (a b f : PhysicalFact) : Prop
  | affine (h : AffineResult p op a b f)
  | same (hrole : p.role a.type.kind = .linear ∨ p.role a.type.kind = .difference)
      (hkind : a.type.kind = b.type.kind) (horigin : a.type.origin = b.type.origin)
      (hf : f.type = a.type)

theorem linear_known (hop : op = .add ∨ op = .sub)
    (h : physicalKnown (linearBinary p node op a b).1 = true) :
    scalarKnown a = true ∧ scalarKnown b = true ∧
      LinearResult p op a b (linearBinary p node op a b).1 ∧
      (linearBinary p node op a b).1.carrier = false ∧ Joined a b (linearBinary p node op a b).1 := by
  have hadd : (op == .add || op == .sub) = true := by
    rcases hop with rfl | rfl <;> rfl
  revert h
  unfold linearBinary
  simp only [hadd, Bool.true_and, Bool.not_true, Bool.false_eq_true, if_false]
  split
  · rename_i hoperands
    obtain ⟨ha, hb⟩ := Bool.and_eq_true_iff.mp hoperands
    obtain ⟨hka, hca, -⟩ := scalarKnown_iff.mp ha
    obtain ⟨hkb, hcb, -⟩ := scalarKnown_iff.mp hb
    split
    · intro h
      obtain ⟨hresult, hcarrier, hjoined⟩ := affine_known hka hkb h
      refine ⟨ha, hb, .affine hresult, ?_, hjoined⟩
      rcases hcarrier with hcarrier | hcarrier
      · exact hcarrier.trans hca
      · exact hcarrier.trans hcb
    · split
      · intro h
        simp at h
      · split
        · intro h
          rw [not_known_of_error rfl] at h
          cases h
        · rename_i hsame
          split
          · rename_i hrole
            intro _
            obtain ⟨hkind, horigin⟩ := not_or.mp hsame
            refine ⟨ha, hb, .same (by simpa using hrole) (not_not.mp hkind) (not_not.mp horigin) ?_, ?_,
              joined_mergeTrust hka hkb⟩
            · simp
            · simpa using hca
          · intro h
            simp at h
  · intro h
    simp at h

theorem linear_compares (hop : op.isComparison = true) (ha : scalarKnown a = true)
    (hb : scalarKnown b = true) (h : (linearBinary p node op a b).2 = []) :
    a.type.kind = b.type.kind ∧ a.type.origin = b.type.origin := by
  have hadd : (op == .add || op == .sub) = false := by
    cases op <;> first | rfl | cases hop
  unfold linearBinary at h
  simp only [ha, hb, hadd, Bool.and_self, if_true, Bool.false_and, Bool.false_eq_true, if_false] at h
  split at h
  · cases h
  rename_i hsame
  obtain ⟨hkind, horigin⟩ := not_or.mp hsame
  exact ⟨not_not.mp hkind, not_not.mp horigin⟩

theorem linear_comparison_lost (hop : op.isComparison = true) :
    physicalKnown (linearBinary p node op a b).1 = false := by
  have hadd : (op == .add || op == .sub) = false := by
    cases op <;> first | rfl | cases hop
  unfold linearBinary
  simp only [hadd, Bool.false_and, Bool.false_eq_true, if_false]
  split
  · split
    · exact not_known_of_error rfl
    · rfl
  · rfl

-- Products and helpers

def FromRule (r : OperationRule) (f : PhysicalFact) : Prop :=
  f.type = ⟨r.kind, 0, 0⟩ ∧ f.carrier = false

theorem scalarProduct_known (h : physicalKnown (scalarProduct p node op resolved a b) = true) :
    scalarKnown a = true ∧ scalarKnown b = true ∧ a.type.origin = 0 ∧ b.type.origin = 0 ∧
      Joined a b (scalarProduct p node op resolved a b) ∧
      ∃ r, scalarRule p (if op = .mul then .multiply else .divide) a.type.kind b.type.kind = some r ∧
        FromRule r (scalarProduct p node op resolved a b) := by
  revert h
  unfold scalarProduct
  dsimp only
  split
  · rename_i hoperands
    simp only [Bool.and_eq_true, beq_iff_eq] at hoperands
    obtain ⟨⟨⟨ha, hb⟩, hoa⟩, hob⟩ := hoperands
    split
    · rename_i r hr
      split
      · intro _
        exact ⟨ha, hb, hoa, hob, joined_mergeTrust (known_of_scalarKnown ha) (known_of_scalarKnown hb), r,
          hr, rfl, rfl⟩
      · intro h
        simp at h
    · intro h
      simp at h
  · intro h
    simp at h

structure MathResult (p : PhysicalPolicy) (op : MathOperation) (a : PhysicalFact)
    (b : Option PhysicalFact) (f : PhysicalFact) : Prop where
  operands : (a :: b.toList).all scalarKnown = true
  same : ∀ b', b = some b' → a.type.kind = b'.type.kind ∧ a.type.origin = b'.type.origin
  rule : ∃ r, mathRule p op a b = some r ∧
    if cosmicMathOperation op then FromRule r f ∧ ∀ g ∈ a :: b.toList, g.type.origin = 0
    else f.type = a.type ∧ f.carrier = a.carrier

theorem mathFact_known (ha : scalarKnown a = true) (h : physicalKnown (mathFact node op r a b) = true) :
    if cosmicMathOperation op then
      FromRule r (mathFact node op r a b) ∧ ∀ g ∈ a :: b.toList, g.type.origin = 0
    else (mathFact node op r a b).type = a.type ∧ (mathFact node op r a b).carrier = a.carrier := by
  have hcarrier : a.carrier = false := (scalarKnown_iff.mp ha).2.1
  have htype : ∀ b : Option PhysicalFact, (b.elim a (physicalMergeTrust a)).type = a.type ∧
      (b.elim a (physicalMergeTrust a)).carrier = a.carrier := by
    intro b
    cases b <;> simp
  revert h
  unfold mathFact
  split
  · split
    · intro h
      have hfalse := physicalKnown_unknown node
        "scalar math requires unframed operands; use a qualified geometric helper"
      exact absurd (h.symm.trans hfalse) (by decide)
    · rename_i hframed
      intro _
      refine ⟨⟨rfl, (htype b).2.trans hcarrier⟩, ?_⟩
      intro g hg
      have hplain := List.any_eq_false.mp (by simpa using hframed) g hg
      simp only [isFramed, Bool.not_eq_true, Bool.or_eq_false_iff, bne_eq_false_iff_eq] at hplain
      exact hplain.1.1.1.1.1.1.1
  · intro _
    exact htype b

theorem mathStart_known (h : physicalKnown (mathStart p node op resolved a b).1 = true) :
    MathResult p op a b (mathStart p node op resolved a b).1 := by
  revert h
  unfold mathStart
  dsimp only
  split
  · intro h
    rw [not_known_of_error rfl] at h
    cases h
  rename_i hagree
  split
  · rename_i f _ hfind
    intro h
    have herror := List.find?_some hfind
    rw [not_known_of_error (by simpa using herror)] at h
    cases h
  · intro h
    simp at h
  · rename_i r _ hrule
    split
    · intro h
      simp at h
    rename_i hall
    have hall : (a :: b.toList).all scalarKnown = true := by simpa using hall
    split
    · intro h
      have ha : scalarKnown a = true := List.all_eq_true.mp hall a List.mem_cons_self
      refine ⟨hall, ?_, r, hrule, mathFact_known ha h⟩
      intro b' hb'
      subst hb'
      have hb : scalarKnown b' = true := List.all_eq_true.mp hall b' (by simp)
      obtain ⟨hka, hca, -⟩ := scalarKnown_iff.mp ha
      obtain ⟨hkb, hcb, -⟩ := scalarKnown_iff.mp hb
      simpa [mathContradicts, hrule, hka, hca, hkb, hcb] using hagree
    · intro h
      simp at h

-- Frames and energy forms

/-- What is known of `g` was known of `f`, with the same type and trust. -/
def Retains (f g : PhysicalFact) : Prop :=
  physicalKnown g = true → physicalKnown f = true ∧ g.type = f.type ∧ g.carrier = f.carrier ∧ g.state = f.state

theorem Retains.refl (f : PhysicalFact) : Retains f f := fun h => ⟨h, rfl, rfl, rfl⟩

theorem Retains.trans (hfg : Retains f g) (hgh : Retains g h) : Retains f h := by
  intro hh
  obtain ⟨hg, htype, hcarrier, hstate⟩ := hgh hh
  obtain ⟨hf, htype', hcarrier', hstate'⟩ := hfg hg
  exact ⟨hf, htype.trans htype', hcarrier.trans hcarrier', hstate.trans hstate'⟩

theorem retains_lost (h : physicalKnown g = false) : Retains f g := by
  intro hg
  simp [h] at hg

theorem retains_same (htype : g.type = f.type) (hstate : g.state = f.state)
    (hcarrier : g.carrier = f.carrier) : Retains f g := by
  intro hg
  have hknown := physicalKnown_congr (by rw [htype]) hstate
  exact ⟨hknown ▸ hg, htype, hcarrier, hstate⟩

theorem retains_frameStore (f : PhysicalFact) (v : PhysicalDeclaredContext) :
    Retains f (frameStore f v) := retains_same rfl rfl rfl

theorem frameRefuse_lost (node : Node) (f : PhysicalFact) (contradiction : Bool)
    (reason : String) : physicalKnown (frameRefuse node f contradiction reason).1 = false := by
  unfold frameRefuse
  split
  · rename_i herror
    exact not_known_of_error herror
  · cases contradiction <;> simp [physicalKnown]

theorem framePair_lost (h : framePair node a b f = some refused) : physicalKnown refused.1 = false := by
  unfold framePair at h
  dsimp only at h
  split at h
  · cases h
    exact frameRefuse_lost ..
  split at h
  · cases h
    exact not_known_of_error rfl
  split at h
  · cases h
    exact frameRefuse_lost ..
  · cases h

theorem retains_frameScale : Retains f (physicalFrameScale p node op a b f).1 := by
  unfold physicalFrameScale
  dsimp only
  generalize (if frameGeometric p a = true then a else b) = vector
  generalize (if frameGeometric p a = true then b else a) = ratio
  split
  · exact .refl f
  split
  · exact .refl f
  split
  · exact retains_lost (frameRefuse_lost ..)
  · split
    · exact retains_lost (frameRefuse_lost ..)
    · split
      · exact .refl f
      · exact retains_frameStore f _

theorem retains_frameSign : Retains f (physicalFrameSign p f) := by
  unfold physicalFrameSign
  split
  · exact retains_frameStore f _
  · exact .refl f

theorem retains_energyStore (f : PhysicalFact) (form : Nat) : Retains f (energyStore f form) :=
  retains_same rfl rfl rfl

theorem retains_energyBinary : Retains f (physicalEnergyBinary p a b f) := by
  unfold physicalEnergyBinary
  split
  · exact .refl f
  · exact retains_same rfl rfl rfl

theorem retains_energyScale : Retains f (physicalEnergyScale p op a b f) := by
  unfold physicalEnergyScale
  split
  · exact .refl f
  split
  · exact retains_energyStore f _
  split
  · exact retains_energyStore f _
  · exact .refl f

theorem pointOperation_known (h : physicalPointOperation p node op a b = some point)
    (hknown : physicalKnown point.1 = true) :
    (op = .add ∨ op = .sub) ∧ physicalKnown a = true ∧ physicalKnown b = true ∧
      AffineResult p op a b point.1 ∧
      (point.1.carrier = a.carrier ∨ point.1.carrier = b.carrier) ∧ Joined a b point.1 := by
  unfold physicalPointOperation at h
  dsimp only at h
  iterate 3
    split at h
    · cases h
  · rename_i hop
    split at h
    · cases h
      simp at hknown
    rename_i hoperands
    split at h
    · cases h
      cases hknown
    simp only [Bool.or_eq_true, not_or, Bool.not_eq_true'] at hoperands
    have ha : physicalKnown a = true := by simpa using hoperands.1.1.1
    have hb : physicalKnown b = true := by simpa using hoperands.1.1.2
    have hsum : op = .add ∨ op = .sub := by
      by_contra hnone
      exact hop (not_or.mp hnone)
    split at h
    · rename_i hlost
      cases h
      simp [hknown] at hlost
    rename_i hkept
    cases h
    obtain ⟨haffine, hsame⟩ := affine_known ha hb (by simpa using hkept)
    refine ⟨hsum, ha, hb, ?_, hsame⟩
    cases haffine with
    | difference h₁ h₂ h₃ h₄ h₅ => exact .difference h₁ h₂ h₃ h₄ h₅
    | shiftRight h₁ h₂ h₃ h₄ => exact .shiftRight h₁ h₂ h₃ h₄
    | shiftLeft h₁ h₂ h₃ h₄ h₅ => exact .shiftLeft h₁ h₂ h₃ h₄ h₅

/-- After the frames the fact is the one before them, or that of a point operation. -/
theorem frameBinary_known (h : physicalKnown (physicalFrameBinary p node op a b f).1 = true) :
    Retains f (physicalFrameBinary p node op a b f).1 ∨
      physicalPointOperation p node op a b = some (physicalFrameBinary p node op a b f) := by
  revert h
  unfold physicalFrameBinary
  dsimp only
  split
  · exact fun _ => .inl (.refl f)
  split
  · exact fun _ => .inl (.refl f)
  split
  · rename_i refused hpair
    exact fun _ => .inl (retains_lost (framePair_lost hpair))
  · split
    · exact fun _ => .inl (.refl f)
    · split
      · rename_i point hpoint
        exact fun _ => .inr hpoint
      · split
        · exact fun _ => .inl (retains_frameStore f _)
        · split
          · exact fun _ => .inl (retains_lost (frameRefuse_lost ..))
          · split
            · exact fun _ => .inl (retains_lost (frameRefuse_lost ..))
            · exact fun _ => .inl (retains_frameStore f _)

-- Operators

theorem LinearResult.congr (h : LinearResult p op a b f) (htype : g.type = f.type) :
    LinearResult p op a b g := by
  cases h with
  | affine h =>
    cases h with
    | difference ha hb horigin hop hf =>
      exact .affine (.difference ha hb horigin hop (htype.trans hf))
    | shiftRight ha hb hpair hf => exact .affine (.shiftRight ha hb hpair (htype.trans hf))
    | shiftLeft ha hb hpair hop hf => exact .affine (.shiftLeft ha hb hpair hop (htype.trans hf))
  | same hrole hkind horigin hf => exact .same hrole hkind horigin (htype.trans hf)

theorem binary_known_op (h : physicalKnown (physicalBinary p node op resolved a b).1 = true) :
    (op = .add ∨ op = .sub) ∨ (op = .mul ∨ op = .div) := by
  revert h
  unfold physicalBinary
  dsimp only
  iterate 2
    split
    · rename_i herror
      intro h
      simp [not_known_of_error herror] at h
  split
  · rename_i hop
    exact fun _ => .inr hop
  · split
    · rename_i hop
      exact fun _ => .inl hop
    · rename_i hsum
      split
      · rename_i hop
        split
        · intro h
          cases h
        intro h
        rcases frameBinary_known h with hretains | hpoint
        · have hlinear := (hretains h).1
          rw [linear_comparison_lost hop] at hlinear
          cases hlinear
        · exact absurd (pointOperation_known hpoint h).1 hsum
      · split
        all_goals
          intro h
          simp at h

theorem sum_known (hop : op = .add ∨ op = .sub)
    (h : physicalKnown (physicalBinary p node op resolved a b).1 = true) :
    physicalKnown a = true ∧ physicalKnown b = true ∧
      LinearResult p op a b (physicalBinary p node op resolved a b).1 ∧
      (a.carrier = false → b.carrier = false → (physicalBinary p node op resolved a b).1.carrier = false) ∧
      Joined a b (physicalBinary p node op resolved a b).1 := by
  revert h
  unfold physicalBinary
  have hmul : ¬(op = .mul ∨ op = .div) := by
    rcases hop with rfl | rfl <;> simp
  dsimp only
  iterate 2
    split
    · rename_i herror
      intro h
      simp [not_known_of_error herror] at h
  intro h
  obtain ⟨hframed, htype, hcarrier, hstate⟩ := retains_energyBinary h
  rcases frameBinary_known hframed with hretains | hpoint
  · obtain ⟨hlinear, htype', hcarrier', hstate'⟩ := hretains hframed
    obtain ⟨ha, hb, hresult, hplain, hjoined⟩ := linear_known hop hlinear
    exact ⟨known_of_scalarKnown ha, known_of_scalarKnown hb, hresult.congr (htype.trans htype'),
      fun _ _ => (hcarrier.trans hcarrier').trans hplain, hjoined.congr (hstate.trans hstate')⟩
  · obtain ⟨-, ha, hb, haffine, hside, hjoined⟩ := pointOperation_known hpoint hframed
    refine ⟨ha, hb, (LinearResult.affine haffine).congr htype, ?_, hjoined.congr hstate⟩
    intro hca hcb
    rcases hside with hside | hside
    · exact (hcarrier.trans hside).trans hca
    · exact (hcarrier.trans hside).trans hcb

theorem product_known (hop : op = .mul ∨ op = .div)
    (h : physicalKnown (physicalBinary p node op resolved a b).1 = true) :
    scalarKnown a = true ∧ scalarKnown b = true ∧ a.type.origin = 0 ∧ b.type.origin = 0 ∧
      Joined a b (physicalBinary p node op resolved a b).1 ∧
      ∃ r, scalarRule p (if op = .mul then .multiply else .divide) a.type.kind b.type.kind = some r ∧
        FromRule r (physicalBinary p node op resolved a b).1 := by
  revert h
  unfold physicalBinary
  iterate 2
    split
    · rename_i herror
      intro h
      simp [not_known_of_error herror] at h
  unfold physicalScalarExpression
  split
  · intro h
    simp at h
  intro h
  have hretains : Retains (scalarProduct p node op resolved a b)
      (physicalEnergyScale p op a b
        (physicalFrameScale p node op a b (scalarProduct p node op resolved a b)).1) :=
    retains_frameScale.trans retains_energyScale
  obtain ⟨hproduct, htype, hcarrier, hstate⟩ := hretains h
  obtain ⟨ha, hb, hoa, hob, hjoined, r, hr, hrule, hplain⟩ := scalarProduct_known hproduct
  exact ⟨ha, hb, hoa, hob, hjoined.congr hstate, r, hr, htype.trans hrule, hcarrier.trans hplain⟩

theorem retains_signed {p : PhysicalPolicy} : Retains a
    (if scalarKnown a then
      if p.role a.type.kind = .linear ∨ p.role a.type.kind = .difference then a
      else physicalUnknown node "point/unprofiled sign operation deferred"
    else a) := by
  split
  · split
    · exact .refl a
    · exact retains_lost rfl
  · exact .refl a

theorem retains_unary (hop : op = .plus ∨ op = .minus) : Retains a (physicalUnary p node op a) := by
  rcases hop with rfl | rfl
  · exact retains_signed
  · exact retains_signed.trans retains_frameSign

theorem signed_role (hop : op = .plus ∨ op = .minus) (h : physicalKnown (physicalUnary p node op a) = true)
    (hscalar : scalarKnown a = true) : p.role a.type.kind = .linear ∨ p.role a.type.kind = .difference := by
  by_contra hrole
  simp only [physicalUnary, if_pos hscalar, if_neg hrole] at h
  rcases hop with rfl | rfl
  · cases h
  · cases (retains_frameSign h).1

theorem frameBoundary_error (h : f.state = .error) :
    physicalFrameBoundary p node a b f literal = (f, []) := by
  simp [physicalFrameBoundary, h]

theorem energyBoundary_error (h : f.state = .error) :
    physicalEnergyBoundary p node a b f literal = (f, []) := by
  simp [physicalEnergyBoundary, h]

theorem boundary_agrees (ha : physicalKnown a = true) (hb : physicalKnown b = true)
    (h : (physicalBoundary p node op a b false).1.state ≠ .error) : a.type = b.type := by
  by_contra hne
  apply h
  have hcontradicts : a.type.kind ≠ 0 ∧ b.type.kind ≠ 0 ∧ a.type ≠ b.type :=
    ⟨kind_ne_zero ha, kind_ne_zero hb, hne⟩
  unfold physicalBoundary
  simp only [state_of_known ha, state_of_known hb, or_self, if_false, Bool.and_false, Bool.false_eq_true,
    hcontradicts,
    and_self, ne_eq, not_false_eq_true, if_true, andThen_fst]
  rw [frameBoundary_error rfl, energyBoundary_error rfl]

theorem conditional_known (h : physicalKnown (physicalConditional p node a b).1 = true) :
    physicalKnown a = true ∧ physicalKnown b = true ∧ a.type.kind = b.type.kind ∧
      (p.schemaVersion ≠ 7 → a.type = b.type) ∧
      (physicalConditional p node a b).1.type = a.type ∧
      (physicalConditional p node a b).1.carrier = a.carrier ∧
        Joined a b (physicalConditional p node a b).1 := by
  revert h
  unfold physicalConditional
  dsimp only
  split
  · rename_i hknown
    obtain ⟨ha, hb⟩ := Bool.and_eq_true_iff.mp hknown
    generalize hmerged : (if p.schemaVersion = 7 ∧ a.type.kind = b.type.kind ∧
        a.type.kind = p.findKind "quantity.energy" then
      (physicalEnergyBinary p a b (physicalMergeTrust a b), [])
      else physicalBoundary p node "conditional merge" a b false) = merged
    have hagree : merged.1.state ≠ .error →
        a.type.kind = b.type.kind ∧ (p.schemaVersion ≠ 7 → a.type = b.type) := by
      intro hstate
      subst hmerged
      split at hstate
      · rename_i henergy
        exact ⟨henergy.2.1, fun hversion => absurd henergy.1 hversion⟩
      · have htype := boundary_agrees ha hb hstate
        exact ⟨by rw [htype], fun _ => htype⟩
    rw [andThen_fst]
    intro h
    obtain ⟨hframed, htype, hcarrier, htrust⟩ := retains_energyBinary h
    revert hframed htype hcarrier htrust
    split
    · rename_i hstate
      intro hframed htype hcarrier htrust
      have hretains : Retains (physicalMergeTrust a b) _ := (frameBinary_known hframed).elim id
        fun hpoint => absurd (pointOperation_known hpoint hframed).1 (by simp)
      obtain ⟨-, htype', hcarrier', htrust'⟩ := hretains hframed
      rw [mergeTrust_type] at htype'
      rw [mergeTrust_carrier] at hcarrier'
      obtain ⟨hkind, hsame⟩ := hagree hstate
      exact ⟨ha, hb, hkind, hsame, htype.trans htype', hcarrier.trans hcarrier',
        (joined_mergeTrust ha hb).congr (htrust.trans htrust')⟩
    · rename_i hstate
      intro hframed
      rw [not_known_of_error (not_not.mp hstate)] at hframed
      cases hframed
  · intro h
    revert h
    split <;> simp [physicalKnown, physicalUnknown]

-- Calls

theorem MathResult.retained (h : MathResult p op a b f) (htype : g.type = f.type)
    (hcarrier : g.carrier = f.carrier) : MathResult p op a b g := by
  obtain ⟨hoperands, hsame, r, hr, hrule⟩ := h
  refine ⟨hoperands, hsame, r, hr, ?_⟩
  by_cases hcosmic : cosmicMathOperation op = true
  · rw [if_pos hcosmic] at hrule ⊢
    exact ⟨⟨htype.trans hrule.1.1, hcarrier.trans hrule.1.2⟩, hrule.2⟩
  · rw [if_neg hcosmic] at hrule ⊢
    exact ⟨htype.trans hrule.1, hcarrier.trans hrule.2⟩

theorem math_known (h : physicalKnown (physicalMathExpression p node op resolved a b).1 = true) :
    b.isSome ≠ mathUnary op ∧ MathResult p op a b (physicalMathExpression p node op resolved a b).1 := by
  revert h
  unfold physicalMathExpression
  dsimp only
  split
  · intro h
    simp at h
  rename_i harity
  split
  · exact fun h => ⟨harity, mathStart_known h⟩
  split
  · rename_i b
    intro h
    obtain ⟨hframed, htype, hcarrier, -⟩ := retains_energyBinary h
    have hstart : Retains (mathStart p node op resolved a (some b)).1 _ :=
      (frameBinary_known hframed).elim id
        fun hpoint => absurd (pointOperation_known hpoint hframed).1 (by simp)
    obtain ⟨hknown, htype', hcarrier', -⟩ := hstart hframed
    exact ⟨harity, (mathStart_known hknown).retained (htype.trans htype') (hcarrier.trans hcarrier')⟩
  · intro h
    obtain ⟨hknown, htype, hcarrier, -⟩ := retains_frameSign h
    exact ⟨harity, (mathStart_known hknown).retained htype hcarrier⟩

theorem uncontractedCall_lost (p : PhysicalPolicy) (node : Node) (args : List (Node × PhysicalFact)) :
    physicalKnown (uncontractedCall p node args).1 = false := by
  unfold uncontractedCall
  split <;> rfl

structure ConstructorResult (r : OperationRule) (a : PhysicalFact) (b : Option PhysicalFact)
    (f : PhysicalFact) : Prop where
  left : physicalKnown a = true ∧ a.type.kind = r.left
  right : ∀ b', b = some b' → physicalKnown b' = true ∧ b'.type.kind = r.right
  result : FromRule r f

theorem derive_known (h : physicalKnown (physicalDerive node resolved r a b) = true) :
    ConstructorResult r a b (physicalDerive node resolved r a b) := by
  revert h
  unfold physicalDerive
  split
  · rename_i hoperands
    intro _
    simp only [Bool.and_eq_true, constructorOperand, beq_iff_eq] at hoperands
    obtain ⟨⟨⟨⟨⟨ha, -⟩, -⟩, hleft⟩, hright⟩, -⟩ := hoperands
    have hb : ∀ b', b = some b' → physicalKnown b' = true ∧ b'.type.kind = r.right := by
      intro b' hb'
      subst hb'
      simp only [Option.all_some, constructorOperand, Bool.and_eq_true, beq_iff_eq] at hright
      exact ⟨known_of_scalarKnown hright.1.1.1, hright.2⟩
    refine ⟨⟨known_of_scalarKnown ha, hleft⟩, hb, rfl, ?_⟩
    cases b with
    | none => exact (scalarKnown_iff.mp ha).2.1
    | some b => exact (mergeTrust_carrier a b).trans (scalarKnown_iff.mp ha).2.1
  · intro h
    simp at h

theorem constructorArgument_known
    (h : physicalKnown (constructorArgument p kind argument actual out).1 = true) :
    (constructorArgument p kind argument actual out).1 = out := by
  revert h
  unfold constructorArgument
  dsimp only
  split
  · exact fun _ => rfl
  rename_i hlost
  exact fun h => absurd h hlost

theorem constructorCall_known {id : String}
    (h : physicalKnown (physicalConstructorCall p node id verified resolved a b).1 = true) :
    ∃ r, constructorRule p id = some r ∧ b.isSome = (r.right != 0) ∧
      ConstructorResult r a.2 (b.map (·.2))
        (physicalConstructorCall p node id verified resolved a b).1 := by
  revert h
  unfold physicalConstructorCall
  split
  · intro h
    rw [uncontractedCall_lost] at h
    cases h
  rename_i r hr
  split
  · intro h
    simp at h
  rename_i hverified
  have hcount : b.isSome = (r.right != 0) := by
    simp only [Bool.or_eq_true, not_or] at hverified
    simpa using hverified.2
  split
  · rw [andThen_fst]
    intro h
    have hsecond := constructorArgument_known h
    rw [hsecond] at h ⊢
    have hfirst := constructorArgument_known h
    rw [hfirst] at h ⊢
    exact ⟨r, hr, hcount, derive_known h⟩
  · intro h
    have hfirst := constructorArgument_known h
    rw [hfirst] at h ⊢
    exact ⟨r, hr, hcount, derive_known h⟩

end Fisics.Physical
