import Fisics.CodeGen.ResolveType
import Fisics.Syntax.AnalyzeExprLaws

/-!
# Resolved types by their shapes

The code generator resolves an operator to the type of one of its operands, the
first that is unsigned or else the left one, without promoting; only two floating
operands are merged. The pointer it holds to the type of the left operand may by
then point to a type of the right one: a slot for dereferences is overwritten by the
next dereference, one for literals by the fourth literal after it. `place` follows
the slot in which the type of an expression is left.
-/

namespace Fisics

open CInteger (DataModel IntType Unary Binary ArithOp ShiftOp CompareOp BitOp LogicOp)

-- Types by their shapes

def Shape.isUnsigned : Shape → Bool
  | .integer _ isUnsigned => isUnsigned
  | _ => false

def Shape.isFloating : Shape → Bool
  | .floating _ _ => true
  | _ => false

def Shape.isPointer : Shape → Bool
  | .pointer _ => true
  | _ => false

/-- The shapes of values. -/
def Shape.isValue : Shape → Bool
  | .integer _ _ | .floating _ _ | .pointer _ => true
  | .void | .invalid => false

section
variable {t s : ScalarType}

theorem shape_of_depth (h : t.pointerDepth = 0) : t.shape = baseShape t := by
  rw [ScalarType.shape, h]
  rfl

theorem shape_of_pointer (h : 0 < t.pointerDepth) :
    t.shape = .pointer (pointerTo (t.pointerDepth - 1) (baseShape t)) := by
  rw [ScalarType.shape]
  cases hdepth : t.pointerDepth with
  | zero => exact absurd h (by rw [hdepth]; decide)
  | succ n => rfl

theorem baseShape_not_pointer (t : ScalarType) : (baseShape t).isPointer = false := by
  unfold baseShape
  repeat' split
  all_goals rfl

theorem isPointer_shape (t : ScalarType) : cgParsedTypeIsPointer t = t.shape.isPointer := by
  unfold cgParsedTypeIsPointer
  by_cases h : 0 < t.pointerDepth
  · rw [shape_of_pointer h, decide_eq_true h]
    rfl
  · rw [shape_of_depth (by omega), baseShape_not_pointer, decide_eq_false h]

theorem isUnsigned_shape (h : t.shape.isValue = true) : cgIsUnsigned t = t.shape.isUnsigned := by
  unfold cgIsUnsigned cgClassifyParsedType
  by_cases hdepth : 0 < t.pointerDepth
  · rw [shape_of_pointer hdepth, if_pos hdepth]
    rfl
  rw [if_neg hdepth]
  rw [shape_of_depth (by omega)] at h ⊢
  obtain ⟨kind, primitive, isUnsigned, isShort, isLong, isComplex, pointerDepth, derivations⟩ := t
  cases kind with
  | invalid => cases h
  | enum => rfl
  | primitive =>
    cases primitive with
    | void => cases h
    | float => cases isLong <;> rfl
    | bool | double | unsigned => rfl
    | char | short | int | long => cases isUnsigned <;> rfl

theorem isFloatLike_shape (h : t.shape.isValue = true) (hptr : t.shape.isPointer = false) :
    cgParsedTypeIsFloatLike t = t.shape.isFloating := by
  have hdepth : t.pointerDepth = 0 := by
    rw [← isPointer_shape, cgParsedTypeIsPointer, decide_eq_false_iff_not] at hptr
    omega
  rw [shape_of_depth hdepth] at h ⊢
  obtain ⟨kind, primitive, isUnsigned, isShort, isLong, isComplex, pointerDepth, derivations⟩ := t
  cases kind with
  | invalid => cases h
  | enum => rfl
  | primitive =>
    cases primitive with
    | void => cases h
    | float => cases isLong <;> first | rfl | cases h
    | _ => rfl

def mergedKind (left right : FloatKind) : FloatKind :=
  if right = .longDouble then .longDouble
  else if left ≠ .longDouble ∧ (right = .double ∨ left = .double) then .double
  else .float

def mergedShape : Shape → Shape → Shape
  | .floating k c, .floating k' c' =>
    -- a long type that is made `float` is no type of C
    if k = .longDouble ∧ k' ≠ .longDouble then .invalid else .floating (mergedKind k k') (c || c')
  | _, _ => .invalid

def floatMarks : FloatKind → PrimitiveType × Bool
  | .float => (.float, false)
  | .double => (.double, false)
  | .longDouble => (.double, true)

theorem marks_of_floating (h : t.shape = .floating kind isComplex) :
    t.pointerDepth = 0 ∧ t.kind = .primitive ∧ (t.primitiveType, t.isLong) = floatMarks kind ∧
      t.isComplex = isComplex := by
  have hdepth : t.pointerDepth = 0 := by
    by_contra hne
    rw [shape_of_pointer (Nat.pos_of_ne_zero hne)] at h
    cases h
  rw [shape_of_depth hdepth] at h
  refine ⟨hdepth, ?_⟩
  cases hkind : t.kind with
  | enum | invalid =>
    rw [baseShape, hkind] at h
    cases h
  | primitive => ?_
  refine ⟨rfl, ?_⟩
  cases hprimitive : t.primitiveType with
  | float =>
    cases hlong : t.isLong with
    | true => simp [baseShape, hkind, hprimitive, hlong] at h
    | false =>
      simp only [baseShape, hkind, hprimitive, hlong, Bool.false_eq_true, ↓reduceIte] at h
      obtain ⟨rfl, rfl⟩ := Shape.floating.inj h
      exact ⟨rfl, rfl⟩
  | double =>
    simp only [baseShape, hkind, hprimitive] at h
    obtain ⟨rfl, rfl⟩ := Shape.floating.inj h
    cases t.isLong <;> exact ⟨rfl, rfl⟩
  | _ => simp [baseShape, hkind, hprimitive] at h

theorem mergeFloat_shape (hl : t.shape = .floating k c) (hr : s.shape = .floating k' c') :
    (mergeFloat t s).shape = mergedShape (.floating k c) (.floating k' c') := by
  obtain ⟨hldepth, hlkind, hlmarks, hlcomplex⟩ := marks_of_floating hl
  obtain ⟨-, -, hrmarks, hrcomplex⟩ := marks_of_floating hr
  obtain ⟨hlprimitive, hllong⟩ := Prod.mk.inj hlmarks
  obtain ⟨hrprimitive, hrlong⟩ := Prod.mk.inj hrmarks
  have hdepth : (mergeFloat t s).pointerDepth = 0 := by
    unfold mergeFloat
    repeat' split
    all_goals exact hldepth
  rw [shape_of_depth hdepth]
  unfold mergeFloat
  rw [hlprimitive, hrprimitive, hllong, hrlong, hlcomplex, hrcomplex]
  cases k <;> cases k' <;> cases c <;> cases c' <;>
    simp [baseShape, mergedShape, mergedKind, hlkind]

theorem parsedTypeOf_shape (m : DataModel) (t : CType) :
    (parsedTypeOf t).shape = t.shape m ↔ widensLong m t = false := by
  induction t with
  | int t => cases m <;> cases t <;> decide
  | enum | void => cases m <;> exact iff_of_true rfl rfl
  | float kind isComplex => cases m <;> cases kind <;> exact iff_of_true rfl rfl
  | ptr t ih =>
    rw [widensLong_ptr, ← ih]
    exact ⟨Shape.pointer.inj, congrArg Shape.pointer⟩

theorem CType.shape_isValue {t : CType} (ht : t.isScalar = true) (m : DataModel) :
    (t.shape m).isValue = true := by
  cases t <;> first | rfl | cases ht

theorem intLiteral_shape {c : IntConstant} {s : IntType} (hs : c.type? m = some s) :
    (cgMakeIntLiteralType (dataLayout m) c.spelling.toList).shape = (CType.int s).shape m ↔
      c.missesUnsignedLong m = false := by
  obtain ⟨range, hparse⟩ := c.parse (dataLayout m)
  rw [c.choose hs] at hparse
  rw [cgMakeIntLiteralType, hparse]
  have hint : (dataLayout m).intBits = 32 := by cases m <;> rfl
  cases hmiss : c.missesUnsignedLong m with
  | true =>
    obtain ⟨rfl, rfl⟩ := c.ulong_of_misses hs hmiss
    refine iff_of_false ?_ Bool.true_eq_false.mp
    intro h
    cases h
  | false =>
    have hwide := c.types_not_narrow s (List.mem_of_find?_eq_some hs)
    refine iff_of_true ?_ rfl
    revert hwide
    cases m <;> cases s <;> first | exact fun _ => rfl | exact nofun

theorem pointedType_shape (h : t.shape = .pointer p) : (pointedType t).shape = p := by
  have hdepth : 0 < t.pointerDepth := by
    by_contra hne
    rw [shape_of_depth (by omega)] at h
    have hnot := baseShape_not_pointer t
    rw [h] at hnot
    cases hnot
  rw [shape_of_pointer hdepth] at h
  obtain rfl := Shape.pointer.inj h
  unfold pointedType parsedTypePointerTargetType
  split
  · rfl
  · rfl

theorem CType.shape_ne_invalid (m : DataModel) (c : CType) (n : Nat) :
    c.shape m ≠ pointerTo n .invalid := by
  induction c generalizing n with
  | ptr c ih =>
    cases n with
    | zero => exact nofun
    | succ n => exact fun h => ih n (Shape.pointer.inj h)
  | _ => cases n <;> exact nofun

theorem kind_ne_invalid {c : CType} (h : t.shape = c.shape m) : t.kind ≠ .invalid := by
  intro hkind
  refine CType.shape_ne_invalid m c t.pointerDepth ?_
  rw [← h, ScalarType.shape, baseShape, hkind]

end

-- What is written and what is read

inductive Picked
  | left | right | merged
  deriving DecidableEq

def pickedOperand (l r : Shape) : Picked :=
  if l.isUnsigned then .left else if r.isUnsigned then .right else .left

def pickedArithmetic (l r : Shape) : Picked :=
  if l.isFloating && r.isFloating then .merged else pickedOperand l r

def pickedBinary (op : Binary) (l r : Shape) : Picked :=
  match op with
  | .arith .add =>
    if l.isPointer then .left else if r.isPointer then .right else pickedArithmetic l r
  | .arith .sub => if l.isPointer then .left else pickedArithmetic l r
  | _ => pickedArithmetic l r

def pickedShape (l r : Shape) : Picked → Shape
  | .left => l
  | .right => r
  | .merged => mergedShape l r

def isCompare : Binary → Bool
  | .compare _ => true
  | _ => false

/-- Where the type of an expression is left: the slot with the number of writes that
it survives, or none, and the shape that is read there. -/
structure Place where
  slot : Option (SlotKind × Nat)
  shape : Shape

def Place.after (p : Place) (writes : SlotKind → List Shape) : Place :=
  match p.slot with
  | none => p
  | some (kind, n) =>
    let (n, shape) := SlotRing.track (slotCount kind) (n, p.shape) (writes kind)
    ⟨some (kind, n), shape⟩

section
variable (m : DataModel) (declared : String → Option CType) (isNull : ScalarExpr → Bool)

def shapeOf (e : ScalarExpr) : Shape :=
  ((e.typeOf m declared isNull).map (CType.shape m)).getD .invalid

@[grind] def writes (kind : SlotKind) : ScalarExpr → List Shape
  | .number c => if kind = .intLiteral then [shapeOf m declared isNull (.number c)] else []
  | .floating k => if kind = .floatLiteral then [.floating k false] else []
  | .unary op e => if op = .logNot then [] else writes kind e
  | .deref e =>
    writes kind e ++ if kind = .pointed then [shapeOf m declared isNull (.deref e)] else []
  | .addressOf e =>
    writes kind e ++ if kind = .address then [shapeOf m declared isNull (.addressOf e)] else []
  | .step _ e => writes kind e
  | .binary op l r =>
    if isCompare op then []
    else
      writes kind l ++ (writes kind r ++
        if kind = .merged ∧
          pickedBinary op (shapeOf m declared isNull l) (shapeOf m declared isNull r) = .merged
        then [shapeOf m declared isNull (.binary op l r)] else [])
  | .cond _ a b => writes kind a ++ writes kind b
  | .comma _ b => writes kind b
  | .identifier _ | .charLiteral | .sizeofType _ | .sizeofExpr _ | .cast _ _ | .logic _ _ _ => []

@[grind] def place : ScalarExpr → Place
  | .number c => ⟨some (.intLiteral, 3), shapeOf m declared isNull (.number c)⟩
  | .floating k => ⟨some (.floatLiteral, 3), .floating k false⟩
  | .unary op e => if op = .logNot then ⟨none, shapeOf m declared isNull (.unary op e)⟩ else place e
  | .deref e => ⟨some (.pointed, 0), shapeOf m declared isNull (.deref e)⟩
  | .addressOf e => ⟨some (.address, 0), shapeOf m declared isNull (.addressOf e)⟩
  | .step _ e => place e
  | .binary op l r =>
    if isCompare op then ⟨none, shapeOf m declared isNull (.binary op l r)⟩
    else
      match pickedBinary op (shapeOf m declared isNull l) (shapeOf m declared isNull r) with
      | .left => (place l).after fun kind => writes m declared isNull kind r
      | .right => place r
      | .merged => ⟨some (.merged, 3), shapeOf m declared isNull (.binary op l r)⟩
  | .cond _ a b =>
    let left := (place a).after fun kind => writes m declared isNull kind b
    match pickedOperand left.shape (place b).shape with
    | .right => place b
    | _ => left
  | .comma _ b => place b
  | e => ⟨none, shapeOf m declared isNull e⟩

def usedLeft (l r : ScalarExpr) : Shape :=
  ((place m declared isNull l).after fun kind => writes m declared isNull kind r).shape

def usedRight (op : Binary) (l r : ScalarExpr) : Shape :=
  if pickedBinary op (shapeOf m declared isNull l) (shapeOf m declared isNull r) = .merged then
    ((place m declared isNull r).after fun kind =>
      if kind = .merged then [shapeOf m declared isNull l] else []).shape
  else shapeOf m declared isNull r

/-- The code generator resolves the operator at the top, or one of its operands, to
another width or sign than C. -/
@[grind] def resolverMisjudges : ScalarExpr → Prop
  | .identifier name => (declared name).any (widensLong m) = true
  | .number c => c.missesUnsignedLong m = true
  | .cast t _ => widensLong m t = true
  | .sizeofType _ | .sizeofExpr _ => True
  | .unary op e =>
    op ≠ .logNot ∧ ((e.typeOf m declared isNull).any fun a => a.int?.any IntType.isNarrow) = true
  | .binary op l r =>
    isCompare op = false ∧
      (usedLeft m declared isNull l r ≠ shapeOf m declared isNull l ∨
        usedRight m declared isNull op l r ≠ shapeOf m declared isNull r ∨
        pickedShape (shapeOf m declared isNull l) (shapeOf m declared isNull r)
          (pickedBinary op (shapeOf m declared isNull l) (shapeOf m declared isNull r)) ≠
          shapeOf m declared isNull (.binary op l r))
  | .cond c a b =>
    ¬(place m declared isNull (.cond c a b)).shape.Meets (shapeOf m declared isNull (.cond c a b))
  | .floating _ | .charLiteral | .deref _ | .addressOf _ | .step _ _ | .logic _ _ _ | .comma _ _ => False

end

-- Following a slot

def Slots.WellFormed (st : Slots) : Prop := ∀ kind, (st kind).WellFormed (slotCount kind)

/-- The second state is left by writes of types with these shapes. -/
def Wrote (st st' : Slots) (shapes : SlotKind → List Shape) : Prop :=
  ∀ kind, ∃ types : List ScalarType,
    st' kind = types.foldl (SlotRing.push (slotCount kind)) (st kind) ∧
      types.map ScalarType.shape = shapes kind

structure InPlace (st : Slots) (ref : TypeRef) (p : Place) : Prop where
  shape : (ref.read st).shape = p.shape
  slot : match p.slot with
    | none => ∃ t, ref = .fixed t
    | some (kind, n) => ∃ i, ref = .slot kind i ∧
      SlotRing.Holds (slotCount kind) (st kind) i (n, ref.read st)

section
variable {st st₁ st₂ : Slots} {ref : TypeRef} {p : Place}

theorem slotCount_pos (kind : SlotKind) : 0 < slotCount kind := by cases kind <;> decide

theorem Wrote.refl (st : Slots) : Wrote st st fun _ => [] := fun _ => ⟨[], rfl, rfl⟩

theorem Wrote.trans (h : Wrote st st₁ a) (h' : Wrote st₁ st₂ b) :
    Wrote st st₂ fun kind => a kind ++ b kind := by
  intro kind
  obtain ⟨types, hst, ha⟩ := h kind
  obtain ⟨types', hst', hb⟩ := h' kind
  refine ⟨types ++ types', ?_, ?_⟩
  · rw [hst', hst, List.foldl_append]
  · rw [List.map_append, ha, hb]

theorem wrote_push (st : Slots) (kind : SlotKind) (t : ScalarType) :
    Wrote st (st.push kind t) fun k => if k = kind then [t.shape] else [] := by
  intro k
  by_cases hk : k = kind
  · subst hk
    exact ⟨[t], if_pos rfl, by simp⟩
  · exact ⟨[], if_neg hk, by simp [hk]⟩

theorem Wrote.wellFormed (h : Wrote st st₁ shapes) (hst : st.WellFormed) : st₁.WellFormed := by
  intro kind
  obtain ⟨types, hst₁, -⟩ := h kind
  rw [hst₁]
  exact SlotRing.foldl_push_wellFormed (slotCount_pos kind) (hst kind) types

theorem InPlace.after (h : InPlace st ref p) (hst : st.WellFormed) (hw : Wrote st st₁ shapes) :
    InPlace st₁ ref (p.after shapes) := by
  obtain ⟨slot, shape⟩ := p
  obtain ⟨hshape, hslot⟩ := h
  match slot with
  | none =>
    obtain ⟨t, rfl⟩ := hslot
    exact ⟨hshape, t, rfl⟩
  | some (kind, n) =>
    obtain ⟨i, rfl, hholds⟩ := hslot
    obtain ⟨types, hst₁, hshapes⟩ := hw kind
    have hafter := hholds.foldl_push (hst kind) types
    rw [← hst₁] at hafter
    have htrack := SlotRing.track_map (slotCount kind) ScalarType.shape
      (n, (TypeRef.slot kind i).read st) types
    rw [hshapes] at htrack
    dsimp only at htrack hshape
    have hread : (TypeRef.slot kind i).read st₁ =
        (SlotRing.track (slotCount kind) (n, (TypeRef.slot kind i).read st) types).2 := hafter.value
    have hplace : Place.after ⟨some (kind, n), shape⟩ shapes =
        ⟨some (kind, (SlotRing.track (slotCount kind) (n, (TypeRef.slot kind i).read st) types).1),
          ((TypeRef.slot kind i).read st₁).shape⟩ := by
      rw [Place.after]
      dsimp only
      rw [← hshape, htrack, hread]
    rw [hplace]
    refine ⟨rfl, i, rfl, ?_⟩
    rw [hread]
    exact hafter

theorem read_newSlot (st : Slots) (kind : SlotKind) (t : ScalarType) :
    (newSlot st kind t).1.read (newSlot st kind t).2 = t := by
  simp [newSlot, TypeRef.read, Slots.push, SlotRing.get, SlotRing.push]

theorem inPlace_newSlot (hst : st.WellFormed) (kind : SlotKind) (t : ScalarType) :
    InPlace (newSlot st kind t).2 (newSlot st kind t).1 ⟨some (kind, slotCount kind - 1), t.shape⟩ := by
  have hholds : SlotRing.Holds (slotCount kind) (st.push kind t kind) (st kind).next
      (slotCount kind - 1, t) := by
    rw [Slots.push, if_pos rfl]
    exact SlotRing.holds_push (hst kind) t
  refine ⟨congrArg ScalarType.shape (read_newSlot st kind t), (st kind).next, rfl, ?_⟩
  rw [read_newSlot]
  exact hholds

theorem wrote_newSlot (st : Slots) (kind : SlotKind) (t : ScalarType) :
    Wrote st (newSlot st kind t).2 fun k => if k = kind then [t.shape] else [] := wrote_push st kind t

end

-- Operators

theorem meets_iff_eq {s t : Shape} (ht : t ≠ .pointer .void) : s.Meets t ↔ s = t :=
  ⟨fun h => h.resolve_right fun hptr => ht hptr.1, Or.inl⟩

theorem shape_pointer_void {c : CType} : c.shape m = .pointer .void ↔ c = .ptr .void := by
  constructor
  · intro h
    cases c with
    | ptr c => cases c <;> first | rfl | exact nomatch Shape.pointer.inj h
    | _ => cases h
  · rintro rfl
    rfl

theorem CType.shape_isPointer (m : DataModel) (c : CType) : (c.shape m).isPointer = c.isPtr := by
  cases c <;> rfl

def resolvesPointer (op : Binary) (left right : Bool) : Bool :=
  match op with
  | .arith .add => left || right
  | .arith .sub => left
  | _ => false

def usedTypes (op : Binary) (st : Slots) (left right : TypeRef) : ScalarType × ScalarType :=
  if resolvesPointer op (cgParsedTypeIsPointer (left.read st)) (cgParsedTypeIsPointer (right.read st)) then
    (left.read st, right.read st)
  else operandTypes st left right

/-- An operator that computes is not applied to pointers to `void`, and to pointers
only where it is resolved to one. -/
theorem binaryType_operands (hop : isCompare op = false)
    (h : binaryType m nullLeft nullRight op a b = some t) :
    a.isScalar = true ∧ b.isScalar = true ∧ a ≠ .ptr .void ∧ b ≠ .ptr .void ∧
      (resolvesPointer op a.isPtr b.isPtr = true ∨ a.isPtr = false ∧ b.isPtr = false) := by
  cases op with
  | compare op => cases hop
  | bit op | shift op =>
    cases a <;> cases b <;> simp [binaryType, CType.int?, CType.isPtr, CType.isScalar] at h ⊢
  | arith op =>
    cases op <;> cases a <;> cases b <;>
      simp [binaryType, arithType, CType.common, CType.int?, CType.isPtr, CType.isScalar,
        resolvesPointer] at h ⊢ <;> grind

section
variable {st : Slots} {left right : TypeRef}

def Picked.ref (left right : TypeRef) : Picked → TypeRef
  | .right => right
  | _ => left

theorem pickOperand_picked (hl : (left.read st).shape.isValue = true)
    (hr : (right.read st).shape.isValue = true) :
    pickOperand st left right =
      (pickedOperand (left.read st).shape (right.read st).shape).ref left right := by
  rw [pickOperand, pickedOperand, isUnsigned_shape hl, isUnsigned_shape hr]
  split
  · rfl
  · split <;> rfl

theorem pickedOperand_ne_merged (l r : Shape) : pickedOperand l r ≠ .merged := by
  unfold pickedOperand
  split
  · exact nofun
  · split <;> exact nofun

theorem cgResolveArithmeticBinaryType_picked (hl : (left.read st).shape.isValue = true)
    (hr : (right.read st).shape.isValue = true) (hlptr : (left.read st).shape.isPointer = false)
    (hrptr : (right.read st).shape.isPointer = false) :
    (pickedArithmetic (left.read st).shape (right.read st).shape = .merged ∧
      operandTypes st left right = (left.read st, right.read (st.push .merged (left.read st))) ∧
      cgResolveArithmeticBinaryType st left right = newSlot st .merged
        (mergeFloat (left.read st) (right.read (st.push .merged (left.read st))))) ∨
    (pickedArithmetic (left.read st).shape (right.read st).shape ≠ .merged ∧
      operandTypes st left right = (left.read st, right.read st) ∧
      cgResolveArithmeticBinaryType st left right =
        ((pickedArithmetic (left.read st).shape (right.read st).shape).ref left right, st)) := by
  rw [pickedArithmetic, operandTypes, cgResolveArithmeticBinaryType, operandTypes,
    isFloatLike_shape hl hlptr, isFloatLike_shape hr hrptr]
  cases (left.read st).shape.isFloating with
  | false => exact .inr ⟨pickedOperand_ne_merged _ _, rfl, by simp [pickOperand_picked hl hr]⟩
  | true =>
    cases (right.read st).shape.isFloating with
    | false => exact .inr ⟨pickedOperand_ne_merged _ _, rfl, by simp [pickOperand_picked hl hr]⟩
    | true => exact .inl ⟨rfl, rfl, rfl⟩

/-- What is read for the operands of an operator that computes, and what its type is. -/
theorem cgResolveBinary_picked (hl : (left.read st).shape.isValue = true)
    (hr : (right.read st).shape.isValue = true)
    (hptr : resolvesPointer op (left.read st).shape.isPointer (right.read st).shape.isPointer = true ∨
      (left.read st).shape.isPointer = false ∧ (right.read st).shape.isPointer = false) :
    (pickedBinary op (left.read st).shape (right.read st).shape = .merged ∧
      usedTypes op st left right = (left.read st, right.read (st.push .merged (left.read st))) ∧
      cgResolveBinary op st left right = newSlot st .merged
        (mergeFloat (left.read st) (right.read (st.push .merged (left.read st))))) ∨
    (pickedBinary op (left.read st).shape (right.read st).shape ≠ .merged ∧
      usedTypes op st left right = (left.read st, right.read st) ∧
      cgResolveBinary op st left right =
        ((pickedBinary op (left.read st).shape (right.read st).shape).ref left right, st)) := by
  rcases hptr with hptr | ⟨hlptr, hrptr⟩
  · refine .inr ?_
    cases op with
    | arith op =>
      cases op with
      | add =>
        rw [usedTypes, isPointer_shape, isPointer_shape, if_pos hptr]
        simp only [cgResolveBinary, pickedBinary, isPointer_shape]
        cases hlptr : (left.read st).shape.isPointer with
        | true => exact ⟨(fun h => by cases h), trivial, rfl⟩
        | false =>
          rw [resolvesPointer, hlptr, Bool.false_or] at hptr
          rw [hptr]
          exact ⟨(fun h => by cases h), trivial, rfl⟩
      | sub =>
        rw [usedTypes, isPointer_shape, isPointer_shape, if_pos hptr]
        simp only [cgResolveBinary, pickedBinary, isPointer_shape]
        rw [resolvesPointer] at hptr
        rw [hptr]
        exact ⟨(fun h => by cases h), trivial, rfl⟩
      | _ => cases hptr
    | _ => cases hptr
  · have hnone : resolvesPointer op false false = false :=
      by cases op <;> first | rfl | (rename_i op; cases op <;> rfl)
    have hpicked : pickedBinary op (left.read st).shape (right.read st).shape =
        pickedArithmetic (left.read st).shape (right.read st).shape := by
      cases op with
      | arith op => cases op <;> simp [pickedBinary, hlptr, hrptr]
      | _ => rfl
    have hresolve : cgResolveBinary op st left right = cgResolveArithmeticBinaryType st left right := by
      cases op with
      | arith op => cases op <;> simp [cgResolveBinary, isPointer_shape, hlptr, hrptr]
      | _ => rfl
    rw [hpicked, hresolve, usedTypes, isPointer_shape, isPointer_shape, hlptr, hrptr, hnone]
    exact cgResolveArithmeticBinaryType_picked hl hr hlptr hrptr

end

end Fisics
