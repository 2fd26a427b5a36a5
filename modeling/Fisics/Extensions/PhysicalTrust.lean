import Fisics.Extensions.EnergyForms

/-!
# Trust is not laundered

A known fact has the greatest of the states of what contributes to the value, and all of
that is known. Sums of swapped operands tell the same, other than the kind of an error.
-/

namespace Fisics.Physical

-- Swapped operands

/-- Two results tell the same, other than the kind of an error. -/
def Alike (f g : PhysicalFact) : Prop := f.state = g.state ∧ (f.state ≠ .error → f.type = g.type)

theorem Alike.errors (hf : f.state = .error) (hg : g.state = .error) : Alike f g :=
  ⟨hf.trans hg.symm, fun h => absurd hf h⟩

theorem affine_alike : Alike (physicalAffineBinary p node .add a b).1
    (physicalAffineBinary p node .add b a).1 := by
  unfold physicalAffineBinary
  have hadd : (PhysicalOp.add != PhysicalOp.sub) = true := rfl
  have hnever : PhysicalOp.add ≠ PhysicalOp.sub := by decide
  cases ha : (p.model a.type.kind).role == .absolute <;> cases hb : (p.model b.type.kind).role == .absolute <;>
    simp only [ha, hb, hadd, Bool.true_and, Bool.false_and, Bool.and_true, Bool.false_eq_true, if_false,
      if_true,
      Bool.and_self, if_pos hnever, apply_ite Prod.fst, ite_self, affineError]
  · exact .errors rfl rfl
  iterate 2
    · split
      · exact ⟨rfl, fun _ => rfl⟩
      · exact .errors rfl rfl
  · exact .errors (by simp) (by simp)

theorem mergeTrust_swap (ha : physicalKnown a = true) (hb : physicalKnown b = true) :
    (physicalMergeTrust a b).state = (physicalMergeTrust b a).state := by
  obtain ⟨_, h⟩ := mergeTrust_eq a b
  obtain ⟨_, h'⟩ := mergeTrust_eq b a
  simp only [physicalKnown, Bool.and_eq_true, Bool.or_eq_true, beq_iff_eq] at ha hb
  rw [h, h']
  obtain ⟨-, (ha | ha) | ha⟩ := ha <;> obtain ⟨-, (hb | hb) | hb⟩ := hb <;> simp [ha, hb]

theorem linear_alike : Alike (linearBinary p node .add a b).1 (linearBinary p node .add b a).1 := by
  unfold linearBinary
  simp only [Bool.and_comm, Bool.or_comm, ne_comm]
  split
  · next hscalar =>
    obtain ⟨ha, hb⟩ := Bool.and_eq_true_iff.mp hscalar
    split
    · exact affine_alike
    split
    · exact ⟨rfl, fun _ => rfl⟩
    split
    · exact .errors rfl rfl
    · next hsame =>
      have htype : a.type = b.type := by
        obtain ⟨hka, -, hra⟩ := scalarKnown_iff.mp ha
        obtain ⟨hkb, -, hrb⟩ := scalarKnown_iff.mp hb
        cases hta : a.type
        cases htb : b.type
        simp_all
      rw [htype]
      split
      · exact ⟨rfl, fun _ => rfl⟩
      split
      · exact ⟨mergeTrust_swap (known_of_scalarKnown ha) (known_of_scalarKnown hb), fun _ => by simp [htype]⟩
      · exact ⟨rfl, fun _ => rfl⟩
  · exact ⟨rfl, fun _ => rfl⟩

theorem Alike.known (h : Alike f g) : physicalKnown f = physicalKnown g := by
  by_cases he : f.state = .error
  · rw [not_known_of_error he, not_known_of_error (h.1 ▸ he)]
  · exact physicalKnown_congr (by rw [h.2 he]) h.1

theorem refuse_alike (h : Alike f g) : Alike (frameRefuse node f c reason).1
    (frameRefuse node g c reason').1 := by
  unfold frameRefuse
  rw [h.1]
  split
  · exact h
  · next hne => exact ⟨rfl, fun _ => h.2 (h.1 ▸ hne)⟩

theorem unframed_comm (a b : PhysicalFact) :
    (!physicalKnown b || !physicalKnown a || b.declaredContext.frame == 0 || a.declaredContext.frame == 0) =
      (!physicalKnown a || !physicalKnown b || a.declaredContext.frame == 0 || b.declaredContext.frame == 0)
        := by
  ac_rfl

theorem framePair_alike (node : Node) (a b : PhysicalFact) (h : Alike f g) :
    Option.Rel (fun c c' : Checked => Alike c.1 c'.1) (framePair node a b f) (framePair node b a g) := by
  unfold framePair
  dsimp only
  rw [unframed_comm]
  simp only [ne_comm]
  split
  · exact .some (refuse_alike h)
  split
  · exact .some (.errors rfl rfl)
  split
  · exact .some (refuse_alike h)
  · exact .none

theorem pointOperation_alike (p : PhysicalPolicy) (node : Node) (a b : PhysicalFact) :
    Option.Rel (fun c c' : Checked => Alike c.1 c'.1)
    (physicalPointOperation p node .add a b) (physicalPointOperation p node .add b a) := by
  unfold physicalPointOperation
  dsimp only
  rw [unframed_comm, Bool.and_comm (!(p.kindOf b.type.kind).id == _)]
  simp only [ne_comm, or_comm]
  iterate 3
    split
    · exact .none
  · split
    · exact .some ⟨rfl, fun _ => rfl⟩
    · split
      · exact .some (.errors rfl rfl)
      · rw [affine_alike.known]
        split
        · exact .some affine_alike
        · exact .some affine_alike

theorem frameBinary_alike (h : Alike f g) :
    Alike (physicalFrameBinary p node .add a b f).1 (physicalFrameBinary p node .add b a g).1 := by
  unfold physicalFrameBinary
  rw [h.1, h.known]
  split
  · exact h
  rename_i hversion
  have htype := h.2 fun he => hversion (.inr (h.1 ▸ he))
  rw [htype, Bool.and_comm (!frameGeometric p b)]
  split
  · exact h
  have hpair := framePair_alike node a b h
  revert hpair
  generalize framePair node a b f = x, framePair node b a g = y
  rintro (⟨hpair⟩ | -)
  · exact hpair
  · dsimp only
    split
    · exact h
    have hpoint := pointOperation_alike p node a b
    revert hpoint
    generalize physicalPointOperation p node .add a b = x, physicalPointOperation p node .add b a = y
    rintro (⟨hpoint⟩ | -)
    · exact hpoint
    · dsimp only
      split
      · exact h
      split
      · exact refuse_alike h
      simp only [ne_comm, Bool.and_comm]
      split
      · exact refuse_alike h
      · exact h

theorem energyBinary_same (p : PhysicalPolicy) (a b f : PhysicalFact) :
    (physicalEnergyBinary p a b f).type = f.type ∧ (physicalEnergyBinary p a b f).state = f.state := by
  unfold physicalEnergyBinary
  split <;> exact ⟨rfl, rfl⟩

theorem add_alike : Alike (physicalBinary p node .add resolved a b).1
    (physicalBinary p node .add resolved b a).1 := by
  simp only [physicalBinary, reduceCtorEq, or_false, if_true, if_false]
  split
  · next ha =>
    split
    · next hb => exact .errors ha hb
    · exact .errors ha ha
  · split
    · next hb => exact .errors hb hb
    · simp only [Alike, energyBinary_same]
      exact frameBinary_alike linear_alike

-- Contributions

/-- The facts of the identifiers, literals and calls that a value is made of. -/
def contributions (p : PhysicalPolicy) (declared : String → PhysicalFact) : PhysicalExpr → List PhysicalFact
  | .cast _ _ operand => contributions p declared operand
  | .unary _ _ operand => contributions p declared operand
  | .binary _ _ _ left right => contributions p declared left ++ contributions p declared right
  | .ternary _ _ yes no => contributions p declared yes ++ contributions p declared no
  | .comma _ _ last => contributions p declared last
  | e => [(physicalExpression p declared e).1]

/-- All of `fs` is known, and `f` has the greatest of its states. -/
structure Joins (f : PhysicalFact) (fs : List PhysicalFact) : Prop where
  known : ∀ g ∈ fs, physicalKnown g = true
  attained : ∃ g ∈ fs, g.state = f.state
  upper : ∀ g ∈ fs, g.state.rank ≤ f.state.rank

theorem joins_singleton (h : physicalKnown f = true) : Joins f [f] :=
  ⟨by simpa using h, ⟨f, List.mem_singleton_self f, rfl⟩, by simp⟩

theorem Joins.congr (h : Joins f fs) (hstate : g.state = f.state) : Joins g fs := by
  obtain ⟨hknown, hattained, hupper⟩ := h
  rw [← hstate] at hattained hupper
  exact ⟨hknown, hattained, hupper⟩

theorem Joined.append (h : Joined a b f) (ha : Joins a xs) (hb : Joins b ys) : Joins f (xs ++ ys) := by
  refine ⟨List.forall_mem_append.mpr ⟨ha.known, hb.known⟩, ?_, List.forall_mem_append.mpr ?_⟩
  · obtain ⟨x, hx, hxa⟩ := ha.attained
    obtain ⟨y, hy, hyb⟩ := hb.attained
    rcases h with ⟨hf, -⟩ | ⟨hf, -⟩
    · exact ⟨x, List.mem_append_left ys hx, hxa.trans hf.symm⟩
    · exact ⟨y, List.mem_append_right xs hy, hyb.trans hf.symm⟩
  · rcases h with ⟨hf, hle⟩ | ⟨hf, hle⟩ <;> rw [hf]
    · exact ⟨ha.upper, fun g hg => (hb.upper g hg).trans hle⟩
    · exact ⟨fun g hg => (ha.upper g hg).trans hle, hb.upper⟩

theorem joins_of_known (h : physicalKnown (physicalExpression p declared e).1 = true) :
    Joins (physicalExpression p declared e).1 (contributions p declared e) := by
  induction e with
  | cast node scalar operand ih =>
    cases scalar with
    | false => cases h
    | true => exact ih h
  | unary node op operand ih =>
    have hop : op = .plus ∨ op = .minus := by
      cases op with
      | plus => exact .inl rfl
      | minus => exact .inr rfl
      | not | other => cases h
    obtain ⟨hknown, -, -, hstate⟩ := retains_unary hop h
    exact (ih hknown).congr hstate
  | binary node op resolved left right ihl ihr =>
    rcases binary_known_op h with hop | hop
    · obtain ⟨hl, hr, -, -, hjoined⟩ := sum_known hop h
      exact hjoined.append (ihl hl) (ihr hr)
    · obtain ⟨hl, hr, -, -, hjoined, -⟩ := product_known hop h
      exact hjoined.append (ihl (known_of_scalarKnown hl)) (ihr (known_of_scalarKnown hr))
  | ternary node condition yes no _ ihyes ihno =>
    obtain ⟨hyes, hno, -, -, -, -, hjoined⟩ := conditional_known h
    exact hjoined.append (ihyes hyes) (ihno hno)
  | comma node first last _ ih => exact ih h
  | identifier | number | call1 | call2 | construct1 | construct2 => exact joins_singleton h

/-- The result of a call with a declared contract, after its frames. -/
def declaredCall (p : PhysicalPolicy) (node : Node) (args : List PhysicalFact) (f : PhysicalFact) :
    PhysicalFact :=
  let f := (physicalEnergyCallResult p node args f).1
  if physicalKnown f then
    { f with state := .declaredTrust, reason := "declared call result; implementation not proved",
             loss := some node }
  else f

/-- What is known is no more trusted than its contributions, results of calls are only
declared, and the order of a sum does not matter. -/
theorem trust_joins (p : PhysicalPolicy) (declared : String → PhysicalFact) :
    (∀ e, physicalKnown (physicalExpression p declared e).1 = true →
      Joins (physicalExpression p declared e).1 (contributions p declared e)) ∧
      (∀ node args f, physicalKnown (declaredCall p node args f) = true →
        (declaredCall p node args f).state = .declaredTrust) ∧
      ∀ node resolved a b,
        Alike (physicalBinary p node .add resolved a b).1 (physicalBinary p node .add resolved b a).1 := by
  refine ⟨fun e h => joins_of_known h, ?_, fun node resolved a b => add_alike⟩
  intro node args f
  unfold declaredCall
  dsimp only
  split
  · exact fun _ => rfl
  · next hlost => exact fun h => absurd h hlost

def plainKnown (kind : Nat) : PhysicalFact := ⟨⟨kind, 0, 0⟩, .known, noContext, false, false, none, "", none⟩

/-- A contradictory sum has the kind of its first operand. -/
theorem sum_keepsFirst : ∃ (p : PhysicalPolicy) (node : Node) (resolved : Bool) (a b : PhysicalFact),
    physicalKnown a = true ∧ physicalKnown b = true ∧
      (physicalBinary p node .add resolved a b).1.type.kind ≠
        (physicalBinary p node .add resolved b a).1.type.kind := by
  refine ⟨⟨2, [⟨"quantity.length", exponents [1]⟩, ⟨"quantity.mass", exponents [0, 1]⟩],
    [⟨.linear, 0⟩, ⟨.linear, 0⟩], [], [], [], []⟩, 0, true, plainKnown 1, plainKnown 2, rfl, rfl, by decide⟩

end Fisics.Physical
