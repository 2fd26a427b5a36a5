import Fisics.CodeGen.IntegerExpr
import Fisics.CodeGen.ResolveTypeLaws

/-!
# Widths and signs of generated code

The width of the value of an expression depends on the tree alone, and so does the
sign that is resolved for it: only literals are written to slots, and `TypeAt`
follows the slot of a literal through the types that are written after it. With
that each operator is generated from its operands and from signs that do not depend
on what the slots hold.
-/

namespace Fisics

open CInteger (DataModel IntType Expr Unary Binary ArithOp ShiftOp CompareOp BitOp LogicOp)
open Llvm (Value)

/-- What a pointer to a type points to: the type, and for a slot the number of writes
that the type survives. -/
structure TypeAt where
  turns : Option Nat
  type : ScalarType

def TypeAt.after (p : TypeAt) (types : List ScalarType) : TypeAt :=
  match p.turns with
  | none => p
  | some n =>
    let (n, t) := SlotRing.track (slotCount .intLiteral) (n, p.type) types
    ⟨some n, t⟩

def pickType (left right : TypeAt) : TypeAt :=
  if cgIsUnsigned left.type then left else if cgIsUnsigned right.type then right else left

section
variable (m : DataModel) (type : String → IntType)

def scopeOfTypes (name : String) : Option ScalarType := some (scalarOfInt (type name))

def literalType (c : IntConstant) : ScalarType :=
  cgMakeIntLiteralType (dataLayout m) c.spelling.toList

/-- The types that are written to slots when the type of an expression is resolved. -/
@[grind] def literals : Expr ConstLeaf → List ScalarType
  | .leaf (.number c) => [literalType m c]
  | .leaf (.identifier _) | .cast _ _ | .logic _ _ _ => []
  | .unary op e => if op = .logNot then [] else literals e
  | .binary op l r => if isCompare op then [] else literals l ++ literals r
  | .cond _ a b => literals a ++ literals b

@[grind] def typeAt : Expr ConstLeaf → TypeAt
  | .leaf (.number c) => ⟨some 3, literalType m c⟩
  | .leaf (.identifier name) => ⟨none, scalarOfInt (type name)⟩
  | .cast t _ => ⟨none, scalarOfInt t⟩
  | .unary op e => if op = .logNot then ⟨none, cgBuiltinSignedIntType⟩ else typeAt e
  | .binary op l r =>
    if isCompare op then ⟨none, cgBuiltinSignedIntType⟩
    else pickType ((typeAt l).after (literals m r)) (typeAt r)
  | .logic _ _ _ => ⟨none, cgBuiltinSignedIntType⟩
  | .cond _ a b => pickType ((typeAt a).after (literals m b)) (typeAt b)

def signOf (e : Expr ConstLeaf) : Bool := cgIsUnsigned (typeAt m type e).type

@[grind] def widthOf : Expr ConstLeaf → Nat
  | .leaf (.number c) => llvmBits (literalType m c)
  | .leaf (.identifier name) => llvmBits (scalarOfInt (type name))
  | .cast t _ => llvmBits (scalarOfInt t)
  | .unary op e => if op = .logNot then 32 else widthOf e
  | .binary op l r => if isCompare op then 32 else promotedBits (widthOf l) (widthOf r)
  | .logic _ _ _ => 32
  | .cond _ a b => cgMergeTypesForPhi (widthOf a) (widthOf b)

@[grind] def written : Expr ConstLeaf → List ScalarType
  | .leaf (.number c) => [literalType m c, literalType m c]
  | .leaf (.identifier _) => []
  | .cast t e =>
    written e ++ if widthOf m type e = llvmBits (scalarOfInt t) then [] else literals m e
  | .unary _ e => literals m e ++ written e
  | .binary _ l r =>
    written l ++ (written r ++ (literals m l ++ (literals m r ++ (literals m l ++ literals m r))))
  | .logic _ l r => written l ++ written r
  | .cond c a b => written c ++ (written a ++ (literals m a ++ (written b ++ literals m b)))

/-- The sign that is used for the left operand: the one that is resolved, or else that
of the pointer from before, to a slot that may have been written since. -/
def lhsUnsigned (l r : Expr ConstLeaf) : Bool :=
  signOf m type l || cgIsUnsignedParsed (some ((typeAt m type l).after
    (literals m r ++ (literals m l ++ literals m r))).type) (widthOf m type l)

def rhsUnsigned (l r : Expr ConstLeaf) : Bool :=
  signOf m type r || cgIsUnsignedParsed (some ((typeAt m type r).after
    (literals m l ++ literals m r)).type) (widthOf m type r)

def trueUnsigned (a b : Expr ConstLeaf) : Bool :=
  cgIsUnsigned ((typeAt m type a).after (written m type b ++ literals m b)).type

end

-- Slots

def Slots.pushLiterals (st : Slots) (types : List ScalarType) : Slots :=
  types.foldl (fun st t => st.push .intLiteral t) st

structure PointsTo (st : Slots) (ref : TypeRef) (p : TypeAt) : Prop where
  type : ref.read st = p.type
  turns : match p.turns with
    | none => ∃ t, ref = .fixed t
    | some n => ∃ i, ref = .slot .intLiteral i ∧
      SlotRing.Holds (slotCount .intLiteral) (st .intLiteral) i (n, p.type)

section
variable {st : Slots} {ref : TypeRef} {p : TypeAt}

theorem pushLiterals_append (st : Slots) (types types' : List ScalarType) :
    st.pushLiterals (types ++ types') = (st.pushLiterals types).pushLiterals types' :=
  List.foldl_append

theorem push_wellFormed (h : st.WellFormed) (kind : SlotKind) (t : ScalarType) :
    (st.push kind t).WellFormed := (wrote_push st kind t).wellFormed h

theorem pushLiterals_wellFormed (h : st.WellFormed) (types : List ScalarType) :
    (st.pushLiterals types).WellFormed := by
  induction types generalizing st with
  | nil => exact h
  | cons t types ih => exact ih (push_wellFormed h .intLiteral t)

theorem pushLiterals_slot (st : Slots) (types : List ScalarType) :
    st.pushLiterals types .intLiteral =
      types.foldl (SlotRing.push (slotCount .intLiteral)) (st .intLiteral) := by
  induction types generalizing st with
  | nil => rfl
  | cons t types ih => exact ih (st.push .intLiteral t)

theorem PointsTo.after (h : PointsTo st ref p) (hst : st.WellFormed) (types : List ScalarType) :
    PointsTo (st.pushLiterals types) ref (p.after types) := by
  obtain ⟨turns, type⟩ := p
  obtain ⟨htype, hturns⟩ := h
  match turns with
  | none =>
    obtain ⟨t, rfl⟩ := hturns
    exact ⟨htype, t, rfl⟩
  | some n =>
    obtain ⟨i, rfl, hholds⟩ := hturns
    have hafter := hholds.foldl_push (hst .intLiteral) types
    rw [← pushLiterals_slot] at hafter
    exact ⟨hafter.value, i, rfl, hafter⟩

def IsInteger (t : ScalarType) : Prop :=
  cgParsedTypeIsPointer t = false ∧ cgParsedTypeIsFloatLike t = false

theorem isInteger_of_int (t : IntType) : IsInteger (scalarOfInt t) := by
  cases t <;> exact ⟨rfl, rfl⟩

theorem isInteger_literalType (m : DataModel) (c : IntConstant) : IsInteger (literalType m c) := by
  unfold literalType cgMakeIntLiteralType
  split
  · refine ⟨rfl, ?_⟩
    split
    · split <;> rfl
    · split <;> rfl
  · exact ⟨rfl, rfl⟩

theorem after_isInteger (hp : IsInteger p.type) (hall : ∀ t ∈ types, IsInteger t) :
    IsInteger (p.after types).type := by
  obtain ⟨turns, type⟩ := p
  match turns with
  | none => exact hp
  | some n =>
    have hmem := SlotRing.track_mem (slotCount .intLiteral) (n, type) types
    rw [TypeAt.after]
    rcases List.mem_cons.mp hmem with h | h
    · dsimp only
      rw [h]
      exact hp
    · exact hall _ h

theorem pickType_isInteger (hl : IsInteger left.type) (hr : IsInteger right.type) :
    IsInteger (pickType left right).type := by
  unfold pickType
  split
  · exact hl
  split
  · exact hr
  · exact hl

theorem pickOperand_pointsTo (hl : PointsTo st left p) (hr : PointsTo st right q) :
    PointsTo st (pickOperand st left right) (pickType p q) := by
  unfold pickOperand pickType
  rw [hl.type, hr.type]
  split
  · exact hl
  split
  · exact hr
  · exact hl

theorem cgResolveBinary_isInteger (op : Binary) (hl : IsInteger (left.read st))
    (hr : IsInteger (right.read st)) :
    cgResolveBinary op st left right = (pickOperand st left right, st) := by
  have harith : cgResolveArithmeticBinaryType st left right = (pickOperand st left right, st) := by
    simp [cgResolveArithmeticBinaryType, hl.2]
  cases op with
  | arith op => cases op <;> simp [cgResolveBinary, hl.1, hr.1, harith]
  | _ => exact harith

end

-- Resolving

section
variable {m : DataModel} {type : String → IntType} {st : Slots}

theorem literals_isInteger (e : Expr ConstLeaf) : ∀ t ∈ literals m e, IsInteger t := by
  induction e with
  | leaf a =>
    cases a with
    | number c => simpa [literals] using isInteger_literalType m c
    | identifier name => simp [literals]
  | cast t e ih | logic op l r ihl ihr => simp [literals]
  | unary op e ih =>
    rw [literals]
    split
    · simp
    · exact ih
  | binary op l r ihl ihr =>
    rw [literals]
    split
    · simp
    · exact List.forall_mem_append.mpr ⟨ihl, ihr⟩
  | cond c a b ihc iha ihb => exact List.forall_mem_append.mpr ⟨iha, ihb⟩

theorem typeAt_isInteger (e : Expr ConstLeaf) : IsInteger (typeAt m type e).type := by
  induction e with
  | leaf a =>
    cases a with
    | number c => exact isInteger_literalType m c
    | identifier name => exact isInteger_of_int (type name)
  | cast t e ih => exact isInteger_of_int t
  | unary op e ih =>
    rw [typeAt]
    split
    · exact ⟨rfl, rfl⟩
    · exact ih
  | binary op l r ihl ihr =>
    rw [typeAt]
    split
    · exact ⟨rfl, rfl⟩
    · exact pickType_isInteger (after_isInteger ihl (literals_isInteger r)) ihr
  | logic op l r ihl ihr => exact ⟨rfl, rfl⟩
  | cond c a b ihc iha ihb =>
    exact pickType_isInteger (after_isInteger iha (literals_isInteger b)) ihb

/-- Resolving writes the literals and leaves a pointer to the type. -/
theorem cgResolve_eq (m : DataModel) (type : String → IntType) (e : Expr ConstLeaf)
    (hst : st.WellFormed) : ∃ ref,
      cgResolve (dataLayout m) (scopeOfTypes type) e st = (some ref, st.pushLiterals (literals m e)) ∧
        PointsTo (st.pushLiterals (literals m e)) ref (typeAt m type e) := by
  induction e generalizing st with
  | leaf a =>
    cases a with
    | number c => ?_
    | identifier name => exact ⟨_, rfl, rfl, _, rfl⟩
    have hplace := inPlace_newSlot hst .intLiteral (literalType m c)
    obtain ⟨-, i, hi, hholds⟩ := hplace
    rw [read_newSlot] at hholds
    exact ⟨_, rfl, read_newSlot st .intLiteral (literalType m c), i, hi, hholds⟩
  | cast t e ih | logic op l r ihl ihr => exact ⟨_, rfl, rfl, _, rfl⟩
  | unary op e ih =>
    cases op with
    | logNot => exact ⟨_, rfl, rfl, _, rfl⟩
    | _ => exact ih hst
  | binary op l r ihl ihr =>
    cases hop : isCompare op with
    | true =>
      cases op with
      | compare op => exact ⟨_, rfl, rfl, _, rfl⟩
      | _ => cases hop
    | false => ?_
    obtain ⟨left, hleft, hl⟩ := ihl hst
    have hst₁ := pushLiterals_wellFormed hst (literals m l)
    obtain ⟨right, hright, hr⟩ := ihr hst₁
    have hlate := hl.after hst₁ (literals m r)
    rw [literals, typeAt, hop, if_neg Bool.false_ne_true, if_neg Bool.false_ne_true, pushLiterals_append]
    have hresolve : cgResolve (dataLayout m) (scopeOfTypes type) (.binary op l r) st =
        (cgResolveBinary op ((st.pushLiterals (literals m l)).pushLiterals (literals m r)) left
          right).map some id := by
      rw [cgResolve] at hleft hright ⊢
      cases op with
      | compare op => cases hop
      | _ => simp only [scalarOfExpr, cgResolveExpressionType, hleft, hright]
    rw [hresolve, cgResolveBinary_isInteger op
      (hlate.type ▸ after_isInteger (typeAt_isInteger l) (literals_isInteger r))
      (hr.type ▸ typeAt_isInteger r)]
    exact ⟨_, rfl, pickOperand_pointsTo hlate hr⟩
  | cond c a b ihc iha ihb =>
    obtain ⟨left, hleft, hl⟩ := iha hst
    have hst₁ := pushLiterals_wellFormed hst (literals m a)
    obtain ⟨right, hright, hr⟩ := ihb hst₁
    have hlate := hl.after hst₁ (literals m b)
    rw [literals, typeAt, pushLiterals_append]
    refine ⟨_, ?_, pickOperand_pointsTo hlate hr⟩
    rw [cgResolve] at hleft hright ⊢
    simp only [scalarOfExpr, cgResolveExpressionType, hleft, hright]

theorem cgExpressionIsUnsigned_eq (m : DataModel) (type : String → IntType) (e : Expr ConstLeaf)
    (hst : st.WellFormed) :
    cgExpressionIsUnsigned (dataLayout m) (scopeOfTypes type) e st =
      (signOf m type e, st.pushLiterals (literals m e)) := by
  obtain ⟨ref, hresolve, h⟩ := cgResolve_eq m type e hst
  simp [cgExpressionIsUnsigned, hresolve, h.type, signOf]

end

-- Generating

section
variable {m : DataModel} {type : String → IntType} {st : Slots}

theorem codegenUnary_width (op : Unary) (parsedType : Option ScalarType) (v : Emitted) :
    (codegenUnary op parsedType v).1 = if op = .logNot then 32 else v.1 := by
  cases op <;> rfl

theorem codegenBinary_width (tl : TargetLayout) (op : Binary) (l r : Emitted) (u u' : Bool) :
    (codegenBinary tl op l r u u').1 = if isCompare op then 32 else promotedBits l.1 r.1 := by
  cases op <;> rfl

theorem codegenNumberLiteral_eq (c : IntConstant) (hst : st.WellFormed) :
    codegenNumberLiteral (dataLayout m) (scopeOfTypes type) c st =
      (⟨llvmBits (literalType m c),
        .const ((literalValue (dataLayout m) c).setWidth (llvmBits (literalType m c)))⟩,
        st.pushLiterals [literalType m c, literalType m c]) := by
  obtain ⟨ref, hresolve, -⟩ := cgResolve_eq m type (.leaf (.number c)) hst
  have hst₁ := pushLiterals_wellFormed hst (literals m (.leaf (.number c)))
  obtain ⟨ref', hresolve', h⟩ := cgResolve_eq m type (.leaf (.number c)) hst₁
  rw [codegenNumberLiteral, hresolve]
  dsimp only
  rw [hresolve']
  dsimp only [Option.map_some, Option.getD_some]
  rw [h.type]
  rfl

/-- A value of the width of the expression, with the types written that belong to it. -/
structure Generates (m : DataModel) (type : String → IntType) (e : Expr ConstLeaf) (st : Slots)
    (v : Emitted) : Prop where
  code : codegenNode (dataLayout m) (scopeOfTypes type) e st = (v, st.pushLiterals (written m type e))
  width : v.1 = widthOf m type e

theorem castInteger_self (v : Emitted) (h : v.1 = k) (u : Bool) :
    (⟨k, castInteger v.2 k u⟩ : Emitted) = v := by
  subst h
  rw [castInteger, dif_pos rfl]

theorem generates_cast (hst : st.WellFormed) (h : Generates m type e st v) (t : IntType) :
    Generates m type (.cast t e) st
      ⟨llvmBits (scalarOfInt t), castInteger v.2 (llvmBits (scalarOfInt t)) (signOf m type e)⟩ := by
  refine ⟨?_, rfl⟩
  have hst₁ := pushLiterals_wellFormed hst (written m type e)
  obtain ⟨ref, hresolve, href⟩ := cgResolve_eq m type e hst₁
  rw [codegenNode, h.code, written, ← h.width]
  dsimp only [parsedTypeOf]
  split
  · rename_i heq
    rw [castInteger_self v heq, List.append_nil]
  rw [hresolve, pushLiterals_append]
  dsimp only [Option.map_some]
  rw [href.type]
  rfl

theorem generates_unary (hst : st.WellFormed)
    (h : Generates m type e (st.pushLiterals (literals m e)) v) (op : Unary) :
    Generates m type (.unary op e) st (codegenUnary op (some (typeAt m type e).type) v) := by
  obtain ⟨ref, hresolve, href⟩ := cgResolve_eq m type e hst
  constructor
  · simp only [codegenNode, hresolve, h.code, Option.map_some, href.type, written, pushLiterals_append]
  · rw [codegenUnary_width, widthOf, h.width]

theorem generates_binary (hst : st.WellFormed) (hl : Generates m type l st v)
    (hr : Generates m type r (st.pushLiterals (written m type l)) v') (op : Binary) :
    Generates m type (.binary op l r) st (codegenBinary (dataLayout m) op v v'
      (lhsUnsigned m type l r) (rhsUnsigned m type l r)) := by
  have hst₁ := pushLiterals_wellFormed hst (written m type l)
  have hst₂ := pushLiterals_wellFormed hst₁ (written m type r)
  obtain ⟨left, hleft, hleftAt⟩ := cgResolve_eq m type l hst₂
  have hst₃ := pushLiterals_wellFormed hst₂ (literals m l)
  obtain ⟨right, hright, hrightAt⟩ := cgResolve_eq m type r hst₃
  have hst₄ := pushLiterals_wellFormed hst₃ (literals m r)
  have hst₅ := pushLiterals_wellFormed hst₄ (literals m l)
  have hleftLate := hleftAt.after hst₃ (literals m r ++ (literals m l ++ literals m r))
  have hrightLate := hrightAt.after hst₄ (literals m l ++ literals m r)
  simp only [pushLiterals_append] at hleftLate hrightLate
  constructor
  · simp only [codegenNode, hl.code, hr.code, hleft, hright,
      cgExpressionIsUnsigned_eq m type l hst₄, cgExpressionIsUnsigned_eq m type r hst₅,
      Option.map_some, hleftLate.type, hrightLate.type, hl.width, hr.width, written,
      pushLiterals_append, lhsUnsigned, rhsUnsigned]
  · rw [codegenBinary_width, widthOf, hl.width, hr.width]

theorem generates_logic (hl : Generates m type l st v)
    (hr : Generates m type r (st.pushLiterals (written m type l)) v') (op : LogicOp) :
    Generates m type (.logic op l r) st (codegenLogicalAndOr op v v') := by
  refine ⟨?_, rfl⟩
  simp only [codegenNode, hl.code, hr.code, written, pushLiterals_append]

def ternaryValue (condition trueValue falseValue : Emitted) (trueUnsigned falseUnsigned : Bool) :
    Emitted :=
  let mergedType := cgMergeTypesForPhi trueValue.1 falseValue.1
  ⟨mergedType, .branch (cgBuildTruthy condition.2 none)
    (castInteger trueValue.2 mergedType trueUnsigned)
    (castInteger falseValue.2 mergedType falseUnsigned)⟩

theorem generates_cond (hst : st.WellFormed) (hc : Generates m type c st v)
    (ha : Generates m type a (st.pushLiterals (written m type c)) v')
    (hb : Generates m type b ((st.pushLiterals (written m type c)).pushLiterals
      (written m type a ++ literals m a)) v'') :
    Generates m type (.cond c a b) st
      (ternaryValue v v' v'' (trueUnsigned m type a b) (signOf m type b)) := by
  have hst₁ := pushLiterals_wellFormed hst (written m type c)
  have hst₂ := pushLiterals_wellFormed hst₁ (written m type a)
  obtain ⟨left, hleft, hleftAt⟩ := cgResolve_eq m type a hst₂
  have hst₃ := pushLiterals_wellFormed hst₂ (literals m a)
  have hst₄ := pushLiterals_wellFormed hst₃ (written m type b)
  obtain ⟨right, hright, hrightAt⟩ := cgResolve_eq m type b hst₄
  have hleftLate := hleftAt.after hst₃ (written m type b ++ literals m b)
  have hcode := hb.code
  simp only [pushLiterals_append] at hleftLate hcode
  constructor
  · simp only [codegenNode, hc.code, ha.code, hleft, hcode, hright, Option.map_some, hleftLate.type,
      hrightAt.type, written, pushLiterals_append]
    rfl
  · show cgMergeTypesForPhi v'.1 v''.1 = _
    rw [widthOf, ha.width, hb.width]

theorem generates_number (c : IntConstant) (hst : st.WellFormed) :
    Generates m type (.leaf (.number c)) st ⟨llvmBits (literalType m c),
      .const ((literalValue (dataLayout m) c).setWidth (llvmBits (literalType m c)))⟩ where
  code := codegenNumberLiteral_eq c hst
  width := rfl

theorem generates (m : DataModel) (type : String → IntType) (e : Expr ConstLeaf)
    (hst : st.WellFormed) : ∃ v, Generates m type e st v := by
  induction e generalizing st with
  | leaf a =>
    cases a with
    | number c => exact ⟨_, generates_number c hst⟩
    | identifier name => exact ⟨_, rfl, rfl⟩
  | cast t e ih =>
    obtain ⟨v, h⟩ := ih hst
    exact ⟨_, generates_cast hst h t⟩
  | unary op e ih =>
    obtain ⟨v, h⟩ := ih (pushLiterals_wellFormed hst (literals m e))
    exact ⟨_, generates_unary hst h op⟩
  | binary op l r ihl ihr =>
    obtain ⟨v, hl⟩ := ihl hst
    obtain ⟨v', hr⟩ := ihr (pushLiterals_wellFormed hst (written m type l))
    exact ⟨_, generates_binary hst hl hr op⟩
  | logic op l r ihl ihr =>
    obtain ⟨v, hl⟩ := ihl hst
    obtain ⟨v', hr⟩ := ihr (pushLiterals_wellFormed hst (written m type l))
    exact ⟨_, generates_logic hl hr op⟩
  | cond c a b ihc iha ihb =>
    obtain ⟨v, hc⟩ := ihc hst
    have hst₁ := pushLiterals_wellFormed hst (written m type c)
    obtain ⟨v', ha⟩ := iha hst₁
    obtain ⟨v'', hb⟩ := ihb (pushLiterals_wellFormed hst₁ (written m type a ++ literals m a))
    exact ⟨_, generates_cond hst hc ha hb⟩

end

end Fisics
