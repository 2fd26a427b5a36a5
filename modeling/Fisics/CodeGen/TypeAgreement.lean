import Fisics.CodeGen.ResolveTypeLaws

/-!
# Agreement of checker and code generator

Over operands that both have right, an operator is right in the checker if and only
if `checkerMisjudges` is false of it, and in the code generator if and only if
`resolverMisjudges` is. So an expression and all within it have the types of C in
both exactly when no operator in it is misjudged.
-/

namespace Fisics

open CInteger (DataModel IntType Unary Binary ArithOp ShiftOp CompareOp BitOp LogicOp)
open CType (common int? isScalar shape_isValue)
open Option (bind_eq_some_iff map_eq_some_iff)
open ScalarExpr (children typeOf)

-- What is resolved

section
variable (m : DataModel) (declared : String → Option CType) (isNull : ScalarExpr → Bool)

def typeAlone (e : ScalarExpr) (st : Slots) : Option ScalarType :=
  match cgResolveExpressionType (dataLayout m) (scopeOf declared) e st with
  | (ref, st) => ref.map (TypeRef.read st)

def operandsUsed (op : Binary) (l r : ScalarExpr) (st : Slots) : Option (ScalarType × ScalarType) :=
  match cgResolveExpressionType (dataLayout m) (scopeOf declared) l st with
  | (left, st) =>
    match left, cgResolveExpressionType (dataLayout m) (scopeOf declared) r st with
    | some left, (some right, st) => some (usedTypes op st left right)
    | _, _ => none

/-- The code generator has the width and the sign of C for the expression, and for
the operands of an operator that computes those it has for each alone, whatever the
slots hold. -/
structure ResolverAgrees (e : ScalarExpr) : Prop where
  type : ∀ st : Slots, st.WellFormed → ∃ s, typeAlone m declared e st = some s ∧
    s.shape.Meets (shapeOf m declared isNull e)
  operands : ∀ op l r, e = .binary op l r → isCompare op = false →
    ∀ st : Slots, st.WellFormed → ∃ s u s' u', operandsUsed m declared op l r st = some (s, u) ∧
      typeAlone m declared l st = some s' ∧ s.shape = s'.shape ∧
      typeAlone m declared r st = some u' ∧ u.shape = u'.shape

def Tracked (e : ScalarExpr) : Prop :=
  ∀ st : Slots, st.WellFormed → ∃ ref st',
    cgResolveExpressionType (dataLayout m) (scopeOf declared) e st = (some ref, st') ∧
      Wrote st st' (fun kind => writes m declared isNull kind e) ∧
      InPlace st' ref (place m declared isNull e)

structure Resolves (e : ScalarExpr) : Prop where
  tracked : Tracked m declared isNull e
  meets : (place m declared isNull e).shape.Meets (shapeOf m declared isNull e)
  lvalue : e.isLvalue = true → (place m declared isNull e).shape = shapeOf m declared isNull e

end

section
variable {m : DataModel} {declared : String → Option CType} {isNull : ScalarExpr → Bool} {e l r : ScalarExpr}
  {st st' : Slots}

theorem shapeOf_eq (h : e.typeOf m declared isNull = some t) : shapeOf m declared isNull e = t.shape m := by
  rw [shapeOf, h]
  rfl

theorem common_isScalar {a b : CType} (h : a.common m b = some t) : t.isScalar = true := by
  cases a <;> cases b <;> simp [common, int?] at h <;> subst h <;> rfl

theorem unaryType_isScalar {a : CType} (h : unaryType op a = some t) : t.isScalar = true := by
  cases op <;> cases a <;> simp [unaryType, int?, isScalar] at h <;> subst h <;> rfl

theorem binaryType_isScalar {op : Binary}
    (h : binaryType m nullLeft nullRight op a b = some t) : t.isScalar = true := by
  cases op with
  | compare op =>
    simp only [binaryType] at h
    split at h
    · cases h
      rfl
    · cases h
  | bit op | shift op =>
    obtain ⟨s, -, h⟩ := bind_eq_some_iff.mp h
    obtain ⟨u, -, rfl⟩ := map_eq_some_iff.mp h
    rfl
  | arith op =>
    cases op <;> cases a <;> cases b <;>
      simp [binaryType, arithType, common, int?] at h <;> grind [isScalar]

theorem condType_isScalar {a b : CType} (h : condType m nullTrue nullFalse a b = some t) :
    t.isScalar = true := by
  unfold condType at h
  split at h
  · grind [isScalar]
  · grind [isScalar]
  · grind [isScalar]
  · exact common_isScalar h

theorem typeOf_isScalar (h : e.typeOf m declared isNull = some t) : t.isScalar = true := by
  induction e generalizing t with
  | identifier name => exact (Option.filter_eq_some_iff.mp h).2
  | number c | sizeofExpr e ih =>
    obtain ⟨s, -, rfl⟩ := map_eq_some_iff.mp h
    rfl
  | floating kind | charLiteral =>
    cases h
    rfl
  | sizeofType s =>
    simp only [typeOf] at h
    split at h
    · cases h
      rfl
    · cases h
  | cast s e ih =>
    obtain ⟨a, -, h⟩ := bind_eq_some_iff.mp h
    obtain ⟨rfl, hs⟩ := castType_eq h
    exact hs
  | unary op e ih =>
    obtain ⟨a, -, h⟩ := bind_eq_some_iff.mp h
    exact unaryType_isScalar h
  | deref e ih =>
    obtain ⟨a, -, h⟩ := bind_eq_some_iff.mp h
    exact (derefType_eq h).2
  | addressOf e ih =>
    simp only [typeOf] at h
    split at h
    · obtain ⟨s, -, rfl⟩ := map_eq_some_iff.mp h
      rfl
    · cases h
  | step isPostfix e ih =>
    simp only [typeOf] at h
    split at h
    · obtain ⟨a, -, h⟩ := bind_eq_some_iff.mp h
      obtain ⟨rfl, -, hscalar⟩ := stepType_eq h
      exact hscalar
    · cases h
  | binary op l r ihl ihr =>
    obtain ⟨a, -, h⟩ := bind_eq_some_iff.mp h
    obtain ⟨b, -, h⟩ := bind_eq_some_iff.mp h
    exact binaryType_isScalar h
  | logic op l r ihl ihr =>
    obtain ⟨a, -, h⟩ := bind_eq_some_iff.mp h
    obtain ⟨b, -, rfl⟩ := map_eq_some_iff.mp h
    rfl
  | cond c a b ihc iha ihb =>
    obtain ⟨v, -, h⟩ := bind_eq_some_iff.mp h
    obtain ⟨s, -, h⟩ := bind_eq_some_iff.mp h
    obtain ⟨u, -, h⟩ := bind_eq_some_iff.mp h
    exact condType_isScalar h
  | comma a b iha ihb =>
    obtain ⟨s, -, h⟩ := bind_eq_some_iff.mp h
    exact ihb h

theorem Resolves.shape_eq (h : Resolves m declared isNull e) (he : e.typeOf m declared isNull = some t)
    (ht : t ≠ .ptr .void) : (place m declared isNull e).shape = t.shape m := by
  rw [← shapeOf_eq he]
  refine (meets_iff_eq ?_).mp h.meets
  rw [shapeOf_eq he]
  exact fun hshape => ht (shape_pointer_void.mp hshape)

theorem Shape.Meets.isValue {s t : Shape} (h : s.Meets t) (ht : t.isValue = true) : s.isValue = true := by
  rcases h with rfl | ⟨-, s, rfl⟩
  · exact ht
  · rfl

theorem tracked_fixed {s : ScalarType}
    (hresolve : ∀ st, cgResolveExpressionType (dataLayout m) (scopeOf declared) e st = (some (.fixed s), st))
    (hwrites : ∀ kind, writes m declared isNull kind e = [])
    (hplace : place m declared isNull e = ⟨none, s.shape⟩) : Tracked m declared isNull e := by
  intro st hst
  refine ⟨.fixed s, st, hresolve st, ?_, ?_⟩
  · simp only [hwrites]
    exact Wrote.refl st
  · rw [hplace]
    exact ⟨rfl, s, rfl⟩

theorem tracked_newSlot (kind : SlotKind) (s : ScalarType)
    (hresolve : ∀ st, cgResolveExpressionType (dataLayout m) (scopeOf declared) e st =
      (newSlot st kind s).map some id)
    (hwrites : ∀ k, writes m declared isNull k e = if k = kind then [s.shape] else [])
    (hplace : place m declared isNull e = ⟨some (kind, slotCount kind - 1), s.shape⟩) :
    Tracked m declared isNull e := by
  intro st hst
  refine ⟨(newSlot st kind s).1, (newSlot st kind s).2, hresolve st, ?_, ?_⟩
  · simp only [hwrites]
    exact wrote_newSlot st kind s
  · rw [hplace]
    exact inPlace_newSlot hst kind s

theorem tracked_same {e' : ScalarExpr} (h : Tracked m declared isNull e')
    (hresolve : ∀ st, cgResolveExpressionType (dataLayout m) (scopeOf declared) e st =
      cgResolveExpressionType (dataLayout m) (scopeOf declared) e' st)
    (hwrites : ∀ kind, writes m declared isNull kind e = writes m declared isNull kind e')
    (hplace : place m declared isNull e = place m declared isNull e') : Tracked m declared isNull e := by
  intro st hst
  simp only [hwrites, hresolve, hplace]
  exact h st hst

theorem cgResolveDeref_eq (st : Slots) {operand : TypeRef}
    (h : (pointedType (operand.read st)).kind ≠ .invalid) :
    cgResolveDeref st operand = newSlot st .pointed (pointedType (operand.read st)) := by
  simp [cgResolveDeref, h]

theorem cgResolveAddressOf_eq (st : Slots) {operand : TypeRef} (h : (operand.read st).kind ≠ .invalid) :
    cgResolveAddressOf st operand = newSlot st .address
      { operand.read st with pointerDepth := (operand.read st).pointerDepth + 1 } := by
  simp [cgResolveAddressOf, h]

theorem tracked_deref (h : Resolves m declared isNull e) (he : e.typeOf m declared isNull = some (.ptr t))
    (ht : t.isScalar = true) : Tracked m declared isNull (.deref e) := by
  intro st hst
  obtain ⟨operand, st', hresolve, hwrote, hin⟩ := h.tracked st hst
  have hne : CType.ptr t ≠ .ptr .void := by
    rintro heq
    obtain rfl := CType.ptr.inj heq
    cases ht
  have hpointed : (pointedType (operand.read st')).shape = t.shape m := by
    refine pointedType_shape ?_
    rw [hin.shape, h.shape_eq he hne]
    rfl
  have hshape : shapeOf m declared isNull (.deref e) = t.shape m :=
    shapeOf_eq (by rw [typeOf, he, Option.bind_some, derefType, if_pos ht])
  have hslot := inPlace_newSlot (hwrote.wellFormed hst) .pointed (pointedType (operand.read st'))
  refine ⟨(newSlot st' .pointed (pointedType (operand.read st'))).1,
    (newSlot st' .pointed (pointedType (operand.read st'))).2, ?_, ?_, ?_⟩
  · rw [cgResolveExpressionType, hresolve]
    dsimp only
    rw [cgResolveDeref_eq st' (kind_ne_invalid hpointed)]
    rfl
  · have hboth := hwrote.trans (wrote_newSlot st' .pointed (pointedType (operand.read st')))
    rw [hpointed] at hboth
    simp only [writes, hshape]
    exact hboth
  · rw [place, hshape, ← hpointed]
    exact hslot

theorem tracked_addressOf (h : Resolves m declared isNull e) (he : e.typeOf m declared isNull = some t)
    (hlvalue : e.isLvalue = true) : Tracked m declared isNull (.addressOf e) := by
  intro st hst
  obtain ⟨operand, st', hresolve, hwrote, hin⟩ := h.tracked st hst
  have hoperand : (operand.read st').shape = t.shape m := by
    rw [hin.shape, h.lvalue hlvalue, shapeOf_eq he]
  have hshape : shapeOf m declared isNull (.addressOf e) = .pointer (operand.read st').shape := by
    rw [shapeOf_eq (t := .ptr t) (by rw [typeOf, if_pos hlvalue, he]; rfl), hoperand]
    rfl
  generalize hpointer : ({ operand.read st' with pointerDepth := (operand.read st').pointerDepth + 1 } :
    ScalarType) = pointer
  have haddress : pointer.shape = shapeOf m declared isNull (.addressOf e) := by
    rw [hshape, ← hpointer]
    rfl
  refine ⟨(newSlot st' .address pointer).1, (newSlot st' .address pointer).2, ?_, ?_, ?_⟩
  · rw [cgResolveExpressionType, hresolve]
    dsimp only
    rw [cgResolveAddressOf_eq st' (kind_ne_invalid hoperand), hpointer]
    rfl
  · have hboth := hwrote.trans (wrote_newSlot st' .address pointer)
    rw [haddress] at hboth
    exact hboth
  · rw [place, ← haddress]
    exact inPlace_newSlot (hwrote.wellFormed hst) .address pointer

theorem writes_isValue (he : e.typeOf m declared isNull = some t) (kind : SlotKind) :
    ∀ s ∈ writes m declared isNull kind e, s.isValue = true := by
  induction e using ScalarExpr.induct_children generalizing t with
  | step e ih =>
    have hown : (shapeOf m declared isNull e).isValue = true := by
      rw [shapeOf_eq he]
      exact shape_isValue (typeOf_isScalar he) m
    have hparts : ∀ p ∈ e.children, ∀ s ∈ writes m declared isNull kind p, s.isValue = true := by
      intro p hp
      obtain ⟨u, hu⟩ := typeOf_children he p hp
      exact ih p hp hu
    intro s hs
    cases e <;> grind [writes, children, Shape.isValue]

theorem Place.after_isValue {p : Place} (h : p.shape.isValue = true)
    (hw : ∀ kind, ∀ s ∈ shapes kind, s.isValue = true) : (p.after shapes).shape.isValue = true := by
  obtain ⟨slot, shape⟩ := p
  match slot with
  | none => exact h
  | some (kind, n) =>
    rcases List.mem_cons.mp (SlotRing.track_mem (slotCount kind) (n, shape) (shapes kind)) with heq | hmem
    · rw [Place.after]
      dsimp only
      rw [heq]
      exact h
    · exact hw kind _ hmem

structure Operands (m : DataModel) (declared : String → Option CType) (isNull : ScalarExpr → Bool)
    (l r : ScalarExpr) (st : Slots) (left right : TypeRef) (st₁ st₂ : Slots) : Prop where
  resolveLeft : cgResolveExpressionType (dataLayout m) (scopeOf declared) l st = (some left, st₁)
  resolveRight : cgResolveExpressionType (dataLayout m) (scopeOf declared) r st₁ = (some right, st₂)
  wroteLeft : Wrote st st₁ fun kind => writes m declared isNull kind l
  wroteRight : Wrote st₁ st₂ fun kind => writes m declared isNull kind r
  inPlaceLeft : InPlace st₂ left
    ((place m declared isNull l).after fun kind => writes m declared isNull kind r)
  inPlaceRight : InPlace st₂ right (place m declared isNull r)

theorem operands_resolve (hl : Tracked m declared isNull l) (hr : Tracked m declared isNull r)
    (hst : st.WellFormed) :
    ∃ left right st₁ st₂, Operands m declared isNull l r st left right st₁ st₂ := by
  obtain ⟨left, st₁, hleft, hwrote, hin⟩ := hl st hst
  obtain ⟨right, st₂, hright, hwrote', hin'⟩ := hr st₁ (hwrote.wellFormed hst)
  exact ⟨left, right, st₁, st₂, hleft, hright, hwrote, hwrote',
    hin.after (hwrote.wellFormed hst) hwrote', hin'⟩

theorem Operands.wrote (h : Operands m declared isNull l r st left right st₁ st₂) :
    Wrote st st₂ fun kind => writes m declared isNull kind l ++ writes m declared isNull kind r :=
  h.wroteLeft.trans h.wroteRight

theorem tracked_cond {a b : ScalarExpr} (ha : Resolves m declared isNull a)
    (hb : Resolves m declared isNull b) (hs : a.typeOf m declared isNull = some s)
    (hu : b.typeOf m declared isNull = some u) (c : ScalarExpr) :
    Tracked m declared isNull (.cond c a b) := by
  intro st hst
  obtain ⟨left, right, st₁, st₂, h⟩ := operands_resolve ha.tracked hb.tracked hst
  have hvalue : (place m declared isNull b).shape.isValue = true := by
    refine hb.meets.isValue ?_
    rw [shapeOf_eq hu]
    exact shape_isValue (typeOf_isScalar hu) m
  have hvalue' : (place m declared isNull a).shape.isValue = true := by
    refine ha.meets.isValue ?_
    rw [shapeOf_eq hs]
    exact shape_isValue (typeOf_isScalar hs) m
  have hafter := Place.after_isValue hvalue' (writes_isValue hu)
  rw [← h.inPlaceLeft.shape] at hafter
  rw [← h.inPlaceRight.shape] at hvalue
  have hpick := pickOperand_picked hafter hvalue
  rw [h.inPlaceLeft.shape, h.inPlaceRight.shape] at hpick
  refine ⟨pickOperand st₂ left right, st₂, ?_, h.wrote, ?_⟩
  · rw [cgResolveExpressionType, h.resolveLeft]
    dsimp only
    rw [h.resolveRight]
  · rw [hpick, place]
    generalize pickedOperand _ _ = picked
    cases picked with
    | left | merged => exact h.inPlaceLeft
    | right => exact h.inPlaceRight

theorem usedTypes_left (op : Binary) (st : Slots) (left right : TypeRef) :
    (usedTypes op st left right).1 = left.read st := by
  unfold usedTypes operandTypes
  split
  · rfl
  · split <;> rfl

section
variable {left right : TypeRef} {st₁ st₂ : Slots} {op : Binary} {a b : CType}

structure OperandTypes (m : DataModel) (declared : String → Option CType) (isNull : ScalarExpr → Bool)
    (op : Binary) (l r : ScalarExpr) (a b : CType) : Prop where
  left : l.typeOf m declared isNull = some a
  right : r.typeOf m declared isNull = some b
  leftShape : (place m declared isNull l).shape = a.shape m
  rightShape : (place m declared isNull r).shape = b.shape m
  leftScalar : a.isScalar = true
  rightScalar : b.isScalar = true
  pointers : resolvesPointer op a.isPtr b.isPtr = true ∨ a.isPtr = false ∧ b.isPtr = false

theorem operandTypes_of_resolves (hop : isCompare op = false) (hl : Resolves m declared isNull l)
    (hr : Resolves m declared isNull r) (ha : l.typeOf m declared isNull = some a)
    (hb : r.typeOf m declared isNull = some b)
    (h : binaryType m nullLeft nullRight op a b = some t) : OperandTypes m declared isNull op l r a b := by
  obtain ⟨hscalar, hscalar', hvoid, hvoid', hptr⟩ := binaryType_operands hop h
  exact ⟨ha, hb, hl.shape_eq ha hvoid, hr.shape_eq hb hvoid', hscalar, hscalar', hptr⟩

theorem Operands.picked (h : Operands m declared isNull l r st left right st₁ st₂)
    (hc : OperandTypes m declared isNull op l r a b)
    (hused : usedLeft m declared isNull l r = shapeOf m declared isNull l) :
    (pickedBinary op (a.shape m) (b.shape m) = .merged ∧
      usedTypes op st₂ left right = (left.read st₂, right.read (st₂.push .merged (left.read st₂))) ∧
      cgResolveBinary op st₂ left right = newSlot st₂ .merged
        (mergeFloat (left.read st₂) (right.read (st₂.push .merged (left.read st₂))))) ∨
    (pickedBinary op (a.shape m) (b.shape m) ≠ .merged ∧
      usedTypes op st₂ left right = (left.read st₂, right.read st₂) ∧
      cgResolveBinary op st₂ left right =
        ((pickedBinary op (a.shape m) (b.shape m)).ref left right, st₂)) := by
  have hleft : (left.read st₂).shape = a.shape m := by
    rw [h.inPlaceLeft.shape, ← shapeOf_eq hc.left]
    exact hused
  have hright : (right.read st₂).shape = b.shape m := by
    rw [h.inPlaceRight.shape, hc.rightShape]
  rw [← hleft, ← hright]
  refine cgResolveBinary_picked ?_ ?_ ?_
  · rw [hleft]
    exact shape_isValue hc.leftScalar m
  · rw [hright]
    exact shape_isValue hc.rightScalar m
  · rw [hleft, hright, CType.shape_isPointer, CType.shape_isPointer]
    exact hc.pointers

theorem Operands.right_used (h : Operands m declared isNull l r st left right st₁ st₂)
    (hst : st.WellFormed) (hc : OperandTypes m declared isNull op l r a b)
    (hused : usedLeft m declared isNull l r = shapeOf m declared isNull l) :
    (usedTypes op st₂ left right).2.shape = usedRight m declared isNull op l r := by
  rw [usedRight, shapeOf_eq hc.left, shapeOf_eq hc.right]
  rcases h.picked hc hused with ⟨hpicked, htypes, -⟩ | ⟨hpicked, htypes, -⟩
  · have hleft : (left.read st₂).shape = a.shape m := by
      rw [h.inPlaceLeft.shape, ← shapeOf_eq hc.left]
      exact hused
    have hwrote := wrote_push st₂ .merged (left.read st₂)
    rw [hleft] at hwrote
    rw [if_pos hpicked, htypes]
    exact (h.inPlaceRight.after (h.wrote.wellFormed hst) hwrote).shape
  · rw [if_neg hpicked, htypes, h.inPlaceRight.shape]
    exact hc.rightShape

theorem floating_of_merged {l r : Shape} (h : pickedBinary op l r = .merged) :
    ∃ k c k' c', l = .floating k c ∧ r = .floating k' c' := by
  have hboth : pickedArithmetic l r = .merged := by
    cases op with
    | arith op => cases op <;> grind [pickedBinary]
    | _ => exact h
  unfold pickedArithmetic at hboth
  split at hboth
  · rename_i hfloating
    cases l <;> cases r <;> simp [Shape.isFloating] at hfloating ⊢
  · exact absurd hboth (pickedOperand_ne_merged l r)

theorem Operands.result (h : Operands m declared isNull l r st left right st₁ st₂)
    (hst : st.WellFormed) (hc : OperandTypes m declared isNull op l r a b)
    (hused : usedLeft m declared isNull l r = shapeOf m declared isNull l)
    (hused' : usedRight m declared isNull op l r = shapeOf m declared isNull r) :
    Wrote st₂ (cgResolveBinary op st₂ left right).2 (fun kind =>
      if kind = .merged ∧ pickedBinary op (a.shape m) (b.shape m) = .merged
      then [mergedShape (a.shape m) (b.shape m)] else []) ∧
    InPlace (cgResolveBinary op st₂ left right).2 (cgResolveBinary op st₂ left right).1
      (match pickedBinary op (a.shape m) (b.shape m) with
      | .left => (place m declared isNull l).after fun kind => writes m declared isNull kind r
      | .right => place m declared isNull r
      | .merged => ⟨some (.merged, 3), mergedShape (a.shape m) (b.shape m)⟩) := by
  have hright := h.right_used hst hc hused
  rcases h.picked hc hused with ⟨hpicked, htypes, hresolve⟩ | ⟨hpicked, htypes, hresolve⟩
  · obtain ⟨k, c, k', c', ha, hb⟩ := floating_of_merged hpicked
    have hleft : (left.read st₂).shape = a.shape m := by
      rw [h.inPlaceLeft.shape, ← shapeOf_eq hc.left]
      exact hused
    rw [htypes, hused', shapeOf_eq hc.right] at hright
    have hmerged : (mergeFloat (left.read st₂) (right.read (st₂.push .merged (left.read st₂)))).shape =
        mergedShape (a.shape m) (b.shape m) := by
      rw [ha, hb]
      exact mergeFloat_shape (hleft.trans ha) (hright.trans hb)
    rw [hpicked, hresolve, ← hmerged]
    simp only [and_true]
    exact ⟨wrote_newSlot st₂ _ _, inPlace_newSlot (h.wrote.wellFormed hst) ..⟩
  · rw [hresolve]
    simp only [hpicked, and_false, if_false]
    refine ⟨Wrote.refl st₂, ?_⟩
    cases hcase : pickedBinary op (a.shape m) (b.shape m) with
    | left => exact h.inPlaceLeft
    | right => exact h.inPlaceRight
    | merged => exact absurd hcase hpicked

theorem cgResolveExpressionType_binary (hop : isCompare op = false)
    (h : Operands m declared isNull l r st left right st₁ st₂) :
    cgResolveExpressionType (dataLayout m) (scopeOf declared) (.binary op l r) st =
      (cgResolveBinary op st₂ left right).map some id := by
  have hne : ∀ compare, op = .compare compare → False := by
    rintro compare rfl
    cases hop
  rw [cgResolveExpressionType, h.resolveLeft]
  · dsimp only
    rw [h.resolveRight]
  · exact hne

theorem tracked_binary (hop : isCompare op = false) (hl : Tracked m declared isNull l)
    (hr : Tracked m declared isNull r) (hc : OperandTypes m declared isNull op l r a b)
    (hjudged : ¬resolverMisjudges m declared isNull (.binary op l r)) :
    Tracked m declared isNull (.binary op l r) ∧
      (place m declared isNull (.binary op l r)).shape = shapeOf m declared isNull (.binary op l r) := by
  simp only [resolverMisjudges, hop, true_and, not_or, not_not] at hjudged
  obtain ⟨hused, hused', hpicked⟩ := hjudged
  have hplace : place m declared isNull (.binary op l r) =
      (match pickedBinary op (a.shape m) (b.shape m) with
      | .left => (place m declared isNull l).after fun kind => writes m declared isNull kind r
      | .right => place m declared isNull r
      | .merged => ⟨some (.merged, 3), mergedShape (a.shape m) (b.shape m)⟩) := by
    rw [place, hop, if_neg Bool.false_ne_true, ← hpicked, shapeOf_eq hc.left, shapeOf_eq hc.right]
    cases pickedBinary op (a.shape m) (b.shape m) <;> rfl
  rw [shapeOf_eq hc.left, shapeOf_eq hc.right] at hpicked
  refine ⟨?_, ?_⟩
  · intro st hst
    obtain ⟨left, right, st₁, st₂, h⟩ := operands_resolve hl hr hst
    obtain ⟨hwrote, hin⟩ := h.result hst hc hused hused'
    refine ⟨_, _, cgResolveExpressionType_binary hop h, ?_, ?_⟩
    · have hall := h.wrote.trans hwrote
      simp only [List.append_assoc] at hall
      simp only [writes, hop, Bool.false_eq_true, if_false, shapeOf_eq hc.left, shapeOf_eq hc.right]
      rw [← hpicked]
      intro kind
      obtain ⟨types, hst', hshapes⟩ := hall kind
      refine ⟨types, hst', ?_⟩
      rw [hshapes]
      by_cases hmerged : pickedBinary op (a.shape m) (b.shape m) = .merged
      · rw [hmerged]
        rfl
      · simp [hmerged]
    · rw [hplace]
      exact hin
  · rw [hplace, ← hpicked]
    cases hcase : pickedBinary op (a.shape m) (b.shape m) with
    | left =>
      rw [← shapeOf_eq hc.left]
      exact hused
    | right => exact hc.rightShape
    | merged => rfl

end

-- One operator

theorem unaryType_shape {a : CType} (hop : op ≠ .logNot) (h : unaryType op a = some t) :
    a.shape m = t.shape m ↔ a.int?.any IntType.isNarrow = false := by
  cases a with
  | int s =>
    cases op <;> cases s <;> simp [unaryType, int?] at h hop <;> subst h <;> cases m <;> decide
  | enum => cases op <;> simp [unaryType, int?] at h hop <;> subst h <;> cases m <;> decide
  | float k c =>
    cases op <;> simp [unaryType, int?] at h hop <;> subst h <;> simp [int?]
  | ptr s | void => cases op <;> simp [unaryType, int?] at h hop

theorem shapeOf_int (h : e.typeOf m declared isNull = some (.int .int)) :
    shapeOf m declared isNull e = cgBuiltinSignedIntType.shape := by
  rw [shapeOf_eq h]
  cases m <;> rfl

theorem resolves_int (h : e.typeOf m declared isNull = some (.int .int))
    (hresolve : ∀ st, cgResolveExpressionType (dataLayout m) (scopeOf declared) e st =
      (some (.fixed cgBuiltinSignedIntType), st))
    (hwrites : ∀ kind, writes m declared isNull kind e = [])
    (hplace : place m declared isNull e = ⟨none, shapeOf m declared isNull e⟩)
    (hlvalue : e.isLvalue = false) : Resolves m declared isNull e := by
  refine ⟨tracked_fixed hresolve hwrites ?_, ?_, ?_⟩
  · rw [hplace, shapeOf_int h]
  · rw [hplace]
    exact .inl rfl
  · intro htrue
    rw [hlvalue] at htrue
    cases htrue

theorem resolves_identifier (ht : (ScalarExpr.identifier name).typeOf m declared isNull = some t)
    (hjudged : ¬resolverMisjudges m declared isNull (.identifier name)) :
    Resolves m declared isNull (.identifier name) := by
  obtain ⟨hdeclared, -⟩ := Option.filter_eq_some_iff.mp ht
  simp only [resolverMisjudges, hdeclared, Option.any_some, Bool.not_eq_true] at hjudged
  have hshape := (parsedTypeOf_shape m t).mpr hjudged
  refine ⟨tracked_fixed (s := parsedTypeOf t) ?_ (fun _ => rfl) ?_, .inl rfl, fun _ => rfl⟩
  · intro st
    rw [cgResolveExpressionType, scopeOf, hdeclared]
    rfl
  · rw [hshape, ← shapeOf_eq ht]
    rfl

theorem resolves_number (ht : (ScalarExpr.number c).typeOf m declared isNull = some t)
    (hjudged : ¬resolverMisjudges m declared isNull (.number c)) :
    Resolves m declared isNull (.number c) := by
  obtain ⟨s, hs, rfl⟩ := map_eq_some_iff.mp ht
  rw [resolverMisjudges, Bool.not_eq_true] at hjudged
  have hshape := (intLiteral_shape hs).mpr hjudged
  rw [← shapeOf_eq ht] at hshape
  refine ⟨tracked_newSlot .intLiteral
    (cgMakeIntLiteralType (dataLayout m) c.spelling.toList) (fun _ => rfl) ?_ ?_, .inl rfl, fun h => by cases h⟩
  · intro kind
    rw [hshape]
    rfl
  · rw [hshape]
    rfl

theorem resolves_floating (ht : (ScalarExpr.floating kind).typeOf m declared isNull = some t) :
    Resolves m declared isNull (.floating kind) := by
  have hshape : (cgMakeFloatLiteralType kind).shape = .floating kind false := by cases kind <;> rfl
  refine ⟨tracked_newSlot .floatLiteral (cgMakeFloatLiteralType kind) (fun _ => rfl) ?_ ?_, .inl rfl,
    fun h => by cases h⟩
  · intro kind
    rw [hshape]
    rfl
  · rw [hshape]
    rfl

theorem resolves_cast (ht : (ScalarExpr.cast s e).typeOf m declared isNull = some t)
    (hjudged : ¬resolverMisjudges m declared isNull (.cast s e)) :
    Resolves m declared isNull (.cast s e) := by
  obtain ⟨a, ha, hcast⟩ := bind_eq_some_iff.mp ht
  obtain ⟨rfl, hs⟩ := castType_eq hcast
  rw [resolverMisjudges, Bool.not_eq_true] at hjudged
  have hshape := (parsedTypeOf_shape m t).mpr hjudged
  refine ⟨tracked_fixed (s := parsedTypeOf t) (fun _ => rfl) (fun _ => rfl) ?_, .inl rfl, fun h => by cases h⟩
  rw [hshape, ← shapeOf_eq ht]
  rfl

theorem resolves_unary (ht : (ScalarExpr.unary op e).typeOf m declared isNull = some t)
    (he : Resolves m declared isNull e) (hjudged : ¬resolverMisjudges m declared isNull (.unary op e)) :
    Resolves m declared isNull (.unary op e) := by
  obtain ⟨a, ha, hunary⟩ := bind_eq_some_iff.mp ht
  by_cases hop : op = .logNot
  · subst hop
    rw [unaryType] at hunary
    split at hunary
    · cases hunary
      exact resolves_int ht (fun _ => rfl) (fun _ => rfl) rfl rfl
    · cases hunary
  · have hplace : place m declared isNull (.unary op e) = place m declared isNull e := if_neg hop
    have hjudged : a.int?.any IntType.isNarrow = false := by
      rw [resolverMisjudges, ha, not_and, Bool.not_eq_true] at hjudged
      exact hjudged hop
    have hvoid : a ≠ .ptr .void := by
      rintro rfl
      cases op <;> simp [unaryType, int?] at hunary hop
    refine ⟨tracked_same he.tracked ?_ (fun _ => if_neg hop) hplace, .inl ?_, fun h => by cases h⟩
    · intro st
      cases op <;> first | rfl | exact absurd rfl hop
    · rw [hplace, he.shape_eq ha hvoid, shapeOf_eq ht]
      exact (unaryType_shape hop hunary).mpr hjudged

theorem resolves_step (ht : (ScalarExpr.step isPostfix e).typeOf m declared isNull = some t)
    (he : Resolves m declared isNull e) : Resolves m declared isNull (.step isPostfix e) := by
  have htype := ht
  simp only [typeOf] at ht
  split at ht
  · obtain ⟨a, ha, hstep⟩ := bind_eq_some_iff.mp ht
    obtain ⟨rfl, -, -⟩ := stepType_eq hstep
    refine ⟨tracked_same he.tracked (fun _ => rfl) (fun _ => rfl) rfl, ?_, fun h => by cases h⟩
    rw [shapeOf_eq htype, ← shapeOf_eq ha]
    exact he.meets
  · cases ht

theorem resolves_binary (ht : (ScalarExpr.binary op l r).typeOf m declared isNull = some t)
    (hl : Resolves m declared isNull l) (hr : Resolves m declared isNull r)
    (hjudged : ¬resolverMisjudges m declared isNull (.binary op l r)) :
    Resolves m declared isNull (.binary op l r) := by
  obtain ⟨a, ha, hbinary⟩ := bind_eq_some_iff.mp ht
  obtain ⟨b, hb, hbinary⟩ := bind_eq_some_iff.mp hbinary
  cases hop : isCompare op with
  | true => ?_
  | false =>
    have hc := operandTypes_of_resolves hop hl hr ha hb hbinary
    obtain ⟨htracked, hshape⟩ := tracked_binary hop hl.tracked hr.tracked hc hjudged
    exact ⟨htracked, .inl hshape, fun h => by cases h⟩
  cases op with
  | compare op =>
    rw [binaryType] at hbinary
    split at hbinary
    · cases hbinary
      exact resolves_int ht (fun _ => rfl) (fun _ => rfl) rfl rfl
    · cases hbinary
  | _ => cases hop

theorem resolves_of_judged (ht : e.typeOf m declared isNull = some t)
    (hparts : ∀ p ∈ e.children, Resolves m declared isNull p)
    (hjudged : ¬resolverMisjudges m declared isNull e) : Resolves m declared isNull e := by
  cases e with
  | identifier name => exact resolves_identifier ht hjudged
  | number c => exact resolves_number ht hjudged
  | floating kind => exact resolves_floating ht
  | charLiteral => exact resolves_int rfl (fun _ => rfl) (fun _ => rfl) rfl rfl
  | sizeofType s | sizeofExpr e => exact absurd trivial hjudged
  | cast s e => exact resolves_cast ht hjudged
  | unary op e => exact resolves_unary ht (hparts e List.mem_cons_self) hjudged
  | deref e =>
    obtain ⟨a, ha, hderef⟩ := bind_eq_some_iff.mp ht
    obtain ⟨rfl, hs⟩ := derefType_eq hderef
    exact ⟨tracked_deref (hparts e List.mem_cons_self) ha hs, .inl rfl, fun _ => rfl⟩
  | addressOf e =>
    simp only [typeOf] at ht
    split at ht
    · rename_i hlvalue
      obtain ⟨a, ha, rfl⟩ := map_eq_some_iff.mp ht
      exact ⟨tracked_addressOf (hparts e List.mem_cons_self) ha hlvalue, .inl rfl, fun h => by cases h⟩
    · cases ht
  | step isPostfix e => exact resolves_step ht (hparts e List.mem_cons_self)
  | binary op l r =>
    exact resolves_binary ht (hparts l (by simp [children])) (hparts r (by simp [children])) hjudged
  | logic op l r =>
    have htype := ht
    obtain ⟨a, -, ht⟩ := bind_eq_some_iff.mp ht
    obtain ⟨b, -, rfl⟩ := map_eq_some_iff.mp ht
    exact resolves_int htype (fun _ => rfl) (fun _ => rfl) rfl rfl
  | cond c a b =>
    obtain ⟨v, -, hcond⟩ := bind_eq_some_iff.mp ht
    obtain ⟨s, hs, hcond⟩ := bind_eq_some_iff.mp hcond
    obtain ⟨u, hu, hcond⟩ := bind_eq_some_iff.mp hcond
    have ha := hparts a (by simp [children])
    have hb := hparts b (by simp [children])
    exact ⟨tracked_cond ha hb hs hu c, not_not.mp hjudged, fun h => by cases h⟩
  | comma a b =>
    have hb := hparts b (by simp [children])
    have htype := ht
    obtain ⟨s, -, ht⟩ := bind_eq_some_iff.mp ht
    refine ⟨tracked_same hb.tracked (fun _ => rfl) (fun _ => rfl) rfl, ?_, fun h => by cases h⟩
    rw [shapeOf_eq htype, ← shapeOf_eq ht]
    exact hb.meets

theorem typeAlone_tracked (h : Tracked m declared isNull e) (hst : st.WellFormed) :
    ∃ s, typeAlone m declared e st = some s ∧ s.shape = (place m declared isNull e).shape := by
  obtain ⟨ref, st', hresolve, -, hin⟩ := h st hst
  refine ⟨ref.read st', ?_, hin.shape⟩
  rw [typeAlone, hresolve]
  rfl

theorem operandsUsed_eq {left right : TypeRef} (op : Binary)
    (h : Operands m declared isNull l r st left right st₁ st₂) :
    operandsUsed m declared op l r st = some (usedTypes op st₂ left right) := by
  rw [operandsUsed, h.resolveLeft]
  dsimp only
  rw [h.resolveRight]

def emptySlots : Slots := fun _ => ⟨0, fun _ => invalidScalar⟩

theorem emptySlots_wellFormed : emptySlots.WellFormed := slotCount_pos

theorem agrees_of_judged (ht : e.typeOf m declared isNull = some t)
    (hparts : ∀ p ∈ e.children, Resolves m declared isNull p)
    (hjudged : ¬resolverMisjudges m declared isNull e) : ResolverAgrees m declared isNull e := by
  have he := resolves_of_judged ht hparts hjudged
  constructor
  · intro st hst
    obtain ⟨s, hs, hshape⟩ := typeAlone_tracked he.tracked hst
    refine ⟨s, hs, ?_⟩
    rw [hshape]
    exact he.meets
  · rintro op l r rfl hop st hst
    obtain ⟨a, ha, hbinary⟩ := bind_eq_some_iff.mp ht
    obtain ⟨b, hb, hbinary⟩ := bind_eq_some_iff.mp hbinary
    have hl := hparts l (by simp [children])
    have hr := hparts r (by simp [children])
    have hc := operandTypes_of_resolves hop hl hr ha hb hbinary
    simp only [resolverMisjudges, hop, true_and, not_or, not_not] at hjudged
    obtain ⟨hused, hused', -⟩ := hjudged
    obtain ⟨left, right, st₁, st₂, h⟩ := operands_resolve hl.tracked hr.tracked hst
    obtain ⟨s, hs, hshape⟩ := typeAlone_tracked hl.tracked hst
    obtain ⟨u, hu, hshape'⟩ := typeAlone_tracked hr.tracked hst
    refine ⟨(usedTypes op st₂ left right).1, (usedTypes op st₂ left right).2, s, u,
      operandsUsed_eq op h, hs, ?_, hu, ?_⟩
    · rw [usedTypes_left, h.inPlaceLeft.shape, hshape, hc.leftShape, ← shapeOf_eq ha]
      exact hused
    · rw [h.right_used hst hc hused, hused', hshape', hc.rightShape, shapeOf_eq hb]

theorem widensLong_of_meets {t : CType} (h : (parsedTypeOf t).shape.Meets (t.shape m)) :
    widensLong m t = false := by
  by_cases ht : t = .ptr .void
  · subst ht
    cases m <;> rfl
  · refine (parsedTypeOf_shape m t).mp ((meets_iff_eq ?_).mp h)
    exact fun hshape => ht (shape_pointer_void.mp hshape)

theorem judged_of_agrees_binary {op : Binary} (hop : isCompare op = false)
    (hl : Resolves m declared isNull l) (hr : Resolves m declared isNull r)
    (hc : OperandTypes m declared isNull op l r a b)
    (hvoid : shapeOf m declared isNull (.binary op l r) ≠ .pointer .void)
    (h : ResolverAgrees m declared isNull (.binary op l r)) :
    ¬resolverMisjudges m declared isNull (.binary op l r) := by
  have hst := emptySlots_wellFormed
  obtain ⟨left, right, st₁, st₂, hoperands⟩ := operands_resolve hl.tracked hr.tracked hst
  obtain ⟨s, u, s', u', hused, hs', hsame, hu', hsame'⟩ := h.operands op l r rfl hop emptySlots hst
  rw [operandsUsed_eq op hoperands] at hused
  have hs : (usedTypes op st₂ left right).1 = s := congrArg Prod.fst (Option.some.inj hused)
  have hu : (usedTypes op st₂ left right).2 = u := congrArg Prod.snd (Option.some.inj hused)
  obtain ⟨alone, halone, hplace⟩ := typeAlone_tracked hl.tracked hst
  obtain ⟨alone', halone', hplace'⟩ := typeAlone_tracked hr.tracked hst
  obtain rfl := Option.some.inj (hs'.symm.trans halone)
  obtain rfl := Option.some.inj (hu'.symm.trans halone')
  have hleft : usedLeft m declared isNull l r = shapeOf m declared isNull l := by
    rw [usedLeft, ← hoperands.inPlaceLeft.shape, ← usedTypes_left op st₂ left right, hs, hsame, hplace,
      hc.leftShape, shapeOf_eq hc.left]
  have hright : usedRight m declared isNull op l r = shapeOf m declared isNull r := by
    rw [← hoperands.right_used hst hc hleft, hu, hsame', hplace', hc.rightShape, shapeOf_eq hc.right]
  obtain ⟨-, hin⟩ := hoperands.result hst hc hleft hright
  obtain ⟨v, hv, hmeets⟩ := h.type emptySlots hst
  rw [typeAlone, cgResolveExpressionType_binary hop hoperands] at hv
  have hread : (cgResolveBinary op st₂ left right).1.read (cgResolveBinary op st₂ left right).2 = v :=
    Option.some.inj hv
  rw [← hread, hin.shape, meets_iff_eq hvoid] at hmeets
  simp only [resolverMisjudges, hop, true_and, not_or, not_not]
  refine ⟨hleft, hright, ?_⟩
  rw [← hmeets, shapeOf_eq hc.left, shapeOf_eq hc.right]
  cases pickedBinary op (a.shape m) (b.shape m) with
  | left =>
    rw [← shapeOf_eq hc.left]
    exact hleft.symm
  | right => exact hc.rightShape.symm
  | merged => rfl

theorem binaryType_not_void {op : Binary} :
    binaryType m nullLeft nullRight op a b ≠ some (.ptr .void) := by
  intro h
  cases op with
  | compare op =>
    rw [binaryType] at h
    split at h <;> cases h
  | bit op | shift op => cases a <;> cases b <;> simp [binaryType, int?] at h
  | arith op =>
    cases op <;> cases a <;> cases b <;>
      simp [binaryType, arithType, common, int?] at h

theorem not_meets_size (m : DataModel) :
    ¬cgBuiltinUnsignedIntType.shape.Meets ((CType.int (sizeType m)).shape m) := by
  rw [meets_iff_eq (fun h => by cases h)]
  cases m <;> decide

theorem judged_of_agrees (ht : e.typeOf m declared isNull = some t)
    (hparts : ∀ p ∈ e.children, Resolves m declared isNull p)
    (h : ResolverAgrees m declared isNull e) : ¬resolverMisjudges m declared isNull e := by
  obtain ⟨s, hs, hmeets⟩ := h.type emptySlots emptySlots_wellFormed
  rw [shapeOf_eq ht] at hmeets
  cases e with
  | identifier name =>
    obtain ⟨hdeclared, -⟩ := Option.filter_eq_some_iff.mp ht
    have hs : s = parsedTypeOf t := by
      rw [typeAlone, cgResolveExpressionType, scopeOf, hdeclared] at hs
      exact (Option.some.inj hs).symm
    subst hs
    simp [resolverMisjudges, hdeclared, widensLong_of_meets hmeets]
  | number c =>
    obtain ⟨u, hu, rfl⟩ := map_eq_some_iff.mp ht
    have hs : cgMakeIntLiteralType (dataLayout m) c.spelling.toList = s := by
      rw [← read_newSlot emptySlots .intLiteral (cgMakeIntLiteralType (dataLayout m) c.spelling.toList)]
      exact Option.some.inj hs
    subst hs
    have hshape := (intLiteral_shape hu).mp ((meets_iff_eq (fun h => by cases h)).mp hmeets)
    simp [resolverMisjudges, hshape]
  | floating kind | charLiteral | deref e | addressOf e | step isPostfix e | logic op l r | comma a b =>
    exact not_false
  | sizeofType u =>
    simp only [typeOf] at ht
    split at ht
    · cases ht
      cases hs
      exact absurd hmeets (not_meets_size m)
    · cases ht
  | sizeofExpr e =>
    obtain ⟨u, -, rfl⟩ := map_eq_some_iff.mp ht
    cases hs
    exact absurd hmeets (not_meets_size m)
  | cast u e =>
    obtain ⟨a, ha, hcast⟩ := bind_eq_some_iff.mp ht
    obtain ⟨rfl, -⟩ := castType_eq hcast
    cases hs
    simp [resolverMisjudges, widensLong_of_meets hmeets]
  | unary op e =>
    rintro ⟨hop, hnarrow⟩
    obtain ⟨a, ha, hunary⟩ := bind_eq_some_iff.mp ht
    have he := hparts e List.mem_cons_self
    obtain ⟨alone, halone, hplace⟩ := typeAlone_tracked he.tracked emptySlots_wellFormed
    have hsame : typeAlone m declared (.unary op e) emptySlots = typeAlone m declared e emptySlots := by
      cases op <;> first | rfl | exact absurd rfl hop
    obtain rfl := Option.some.inj (hs.symm.trans (hsame.trans halone))
    rw [ha, Option.any_some] at hnarrow
    have hint : a ≠ .ptr .void ∧ t.shape m ≠ .pointer .void := by
      cases a <;> cases op <;> simp [unaryType, int?, isScalar] at hunary hnarrow <;>
        subst hunary <;> simp [CType.shape]
    rw [hplace, he.shape_eq ha hint.1, meets_iff_eq hint.2, unaryType_shape hop hunary, hnarrow] at hmeets
    cases hmeets
  | binary op l r =>
    obtain ⟨a, ha, hbinary⟩ := bind_eq_some_iff.mp ht
    obtain ⟨b, hb, hbinary⟩ := bind_eq_some_iff.mp hbinary
    have hl := hparts l (by simp [children])
    have hr := hparts r (by simp [children])
    cases hop : isCompare op with
    | true => simp [resolverMisjudges, hop]
    | false => ?_
    refine judged_of_agrees_binary hop hl hr (operandTypes_of_resolves hop hl hr ha hb hbinary) ?_ h
    rw [shapeOf_eq ht]
    intro hshape
    obtain rfl := shape_pointer_void.mp hshape
    exact binaryType_not_void hbinary
  | cond c a b =>
    obtain ⟨v, -, hcond⟩ := bind_eq_some_iff.mp ht
    obtain ⟨s', hs', hcond⟩ := bind_eq_some_iff.mp hcond
    obtain ⟨u, hu, hcond⟩ := bind_eq_some_iff.mp hcond
    have ha := hparts a (by simp [children])
    have hb := hparts b (by simp [children])
    obtain ⟨alone, halone, hplace⟩ :=
      typeAlone_tracked (tracked_cond ha hb hs' hu c) emptySlots_wellFormed
    obtain rfl := Option.some.inj (hs.symm.trans halone)
    rw [resolverMisjudges, not_not, ← hplace, shapeOf_eq ht]
    exact hmeets

end

-- Expressions

section
variable (target host : Target) (declared : String → Option CType) (isNull : ScalarExpr → Bool)

/-- Checker and code generator both have the type of C. -/
structure TypesAgree (e : ScalarExpr) : Prop where
  checker : ∃ t, e.typeOf target.model declared isNull = some t ∧
    (analyzeExpression target host (scopeOf declared) isNull e).Has target t
  resolver : ResolverAgrees target.model declared isNull e

structure Judged (e : ScalarExpr) : Prop where
  checker : checkerMisjudges target host declared isNull e = false
  resolver : ¬resolverMisjudges target.model declared isNull e

structure Known (e : ScalarExpr) : Prop where
  checked : ∀ t, e.typeOf target.model declared isNull = some t →
    Checked target host declared isNull e t
  resolves : Resolves target.model declared isNull e

variable {target host declared isNull} {e : ScalarExpr}

section
variable (ht : e.typeOf target.model declared isNull = some t)

include ht

theorem known_of_judged (hparts : ∀ p ∈ e.children, Known target host declared isNull p)
    (h : Judged target host declared isNull e) : Known target host declared isNull e := by
  have hchecked := fun p hp => (hparts p hp).checked
  refine ⟨?_, resolves_of_judged ht (fun p hp => (hparts p hp).resolves) h.resolver⟩
  intro t' ht'
  exact checked_of_has ht' hchecked ((analyzeExpression_has ht' hchecked).mpr h.checker)

theorem typesAgree_iff_judged (hparts : ∀ p ∈ e.children, Known target host declared isNull p) :
    TypesAgree target host declared isNull e ↔ Judged target host declared isNull e := by
  have hhas := analyzeExpression_has ht fun p hp => (hparts p hp).checked
  have hresolves := fun p hp => (hparts p hp).resolves
  constructor
  · rintro ⟨⟨t', ht', h⟩, hresolver⟩
    obtain rfl := Option.some.inj (ht.symm.trans ht')
    exact ⟨hhas.mp h, judged_of_agrees ht hresolves hresolver⟩
  · rintro ⟨hchecker, hresolver⟩
    exact ⟨⟨t, ht, hhas.mpr hchecker⟩, agrees_of_judged ht hresolves hresolver⟩

theorem known_of_parts (h : ∀ s ∈ e.parts, Judged target host declared isNull s) :
    Known target host declared isNull e := by
  induction e using ScalarExpr.induct_children generalizing t with
  | step e ih =>
    rw [ScalarExpr.parts_eq] at h
    refine known_of_judged ht ?_ (h e List.mem_cons_self)
    intro p hp
    obtain ⟨s, hs⟩ := typeOf_children ht p hp
    refine ih p hp hs ?_
    intro q hq
    exact h q (List.mem_cons_of_mem _ (List.mem_flatMap.mpr ⟨p, hp, hq⟩))

end

/-- An expression that has a type, and all within it, have the types of C in both
exactly when no operator in it is misjudged. -/
theorem typesAgree_iff (ht : e.typeOf target.model declared isNull = some t) :
    (∀ s ∈ e.parts, TypesAgree target host declared isNull s) ↔
      ∀ s ∈ e.parts, Judged target host declared isNull s := by
  induction e using ScalarExpr.induct_children generalizing t with
  | step e ih =>
    have hparts : (∀ s ∈ e.children.flatMap ScalarExpr.parts, TypesAgree target host declared isNull s) ↔
        ∀ s ∈ e.children.flatMap ScalarExpr.parts, Judged target host declared isNull s := by
      simp only [List.mem_flatMap, forall_exists_index, and_imp]
      have hchild : ∀ p ∈ e.children, (∀ s ∈ p.parts, TypesAgree target host declared isNull s) ↔
          ∀ s ∈ p.parts, Judged target host declared isNull s := by
        intro p hp
        obtain ⟨s, hs⟩ := typeOf_children ht p hp
        exact ih p hp hs
      constructor
      · intro h s p hp hs
        exact (hchild p hp).mp (fun s hs => h s p hp hs) s hs
      · intro h s p hp hs
        exact (hchild p hp).mpr (fun s hs => h s p hp hs) s hs
    rw [ScalarExpr.parts_eq, List.forall_mem_cons, List.forall_mem_cons, hparts]
    refine and_congr_left fun h => ?_
    refine typesAgree_iff_judged ht ?_
    intro p hp
    obtain ⟨s, hs⟩ := typeOf_children ht p hp
    refine known_of_parts hs ?_
    intro q hq
    exact h q (List.mem_flatMap.mpr ⟨p, hp, hq⟩)

end

/-- `unsigned *p; int *q; int i;` -/
def exampleScope (name : String) : Option CType :=
  if name = "p" then some (.ptr (.int .uint))
  else if name = "q" then some (.ptr (.int .int))
  else if name = "i" then some (.int .int)
  else none

/-- `*p + *q` -/
def derefSum : ScalarExpr := .binary (.arith .add) (.deref (.identifier "p")) (.deref (.identifier "q"))

/-- The slot with the type of `*p` is overwritten with that of `*q`, so `*p + *q` is an
`int` where C has an `unsigned`. -/
theorem typesAgree_fails_derefSum :
    derefSum.typeOf .lp64 exampleScope (fun _ => false) = some (.int .uint) ∧
      ¬TypesAgree .lp64Fp80 .lp64Fp80 exampleScope (fun _ => false) derefSum := by
  refine ⟨by decide, ?_⟩
  rintro ⟨-, hresolver⟩
  obtain ⟨s, hs, hmeets⟩ := hresolver.type emptySlots emptySlots_wellFormed
  have hint : s = primitiveScalar .int false false false false :=
    Option.some.inj (hs.symm.trans (by decide))
  subst hint
  have hshape : shapeOf .lp64 exampleScope (fun _ => false) derefSum = .integer 32 true := by decide
  rcases hmeets with h | ⟨h, -⟩
  · exact nomatch h.trans hshape
  · exact nomatch hshape.symm.trans h

/-- `*q + i` -/
def derefPlus : ScalarExpr := .binary (.arith .add) (.deref (.identifier "q")) (.identifier "i")

theorem typesAgree_derefPlus :
    derefPlus.typeOf Target.lp64Fp80.model exampleScope (fun _ => false) = some (.int .int) ∧
      ∀ s ∈ derefPlus.parts, TypesAgree .lp64Fp80 .lp64Fp80 exampleScope (fun _ => false) s := by
  have ht : derefPlus.typeOf Target.lp64Fp80.model exampleScope (fun _ => false) = some (.int .int) := by decide
  refine ⟨ht, (typesAgree_iff ht).mpr ?_⟩
  simp only [derefPlus, ScalarExpr.parts, List.cons_append, List.nil_append, List.forall_mem_cons]
  refine ⟨⟨by decide, ?_⟩, ⟨by decide, ?_⟩, ⟨by decide, ?_⟩, ⟨by decide, ?_⟩, fun _ h => by cases h⟩
  all_goals
    simp only [resolverMisjudges]
    decide

end Fisics
