import Fisics.Syntax.FoldingHost

/-!
# Canonical constants

Every constant that the evaluator gives is the sign or zero extension of its width:
a result is made from a truncated value or truncated when it is finished, and
truncating twice is truncating once. What a result is computed from does not matter.
-/

namespace Fisics

open CInteger (Unary Binary LogicOp)

section
variable (tl : TargetLayout)

def defaultPointerBits : Nat := if tl.pointerBits = 0 then 64 else tl.pointerBits

/-- The category of a pointer type is not one of an integer. -/
def bitsFromTypeInfo (info : TypeInfo) : Option (Nat × Bool) :=
  if typeInfoIsInteger info then
    some (if info.bitWidth = 0 then defaultIntBits tl else info.bitWidth, !info.isSigned)
  else if info.category = .pointer then some (defaultPointerBits tl, true)
  else none

def numberLiteral (text : List Char) : Option ConstEvalResult :=
  (parseIntegerLiteralInfo text tl).map fun info =>
    makeConstTyped info.value info.bits info.isUnsigned

/-- `wcharType` is what `lookupWCharType` finds. -/
def charLiteral (wcharType : TypeInfo) (payload : List Char) (wide : Bool) : Option ConstEvalResult :=
  let parsed := parseIntegerLiteralInfo payload tl
  let firstByte := BitVec.ofNat 64 ((payload.headD '\x00').toNat % 256)
  let chVal := parsed.elim firstByte (·.value)
  let litType := if wide then wcharType else makeIntegerType (defaultIntBits tl) true
  let bits := if litType.bitWidth = 0 then parsed.elim (defaultIntBits tl) (·.bits) else litType.bitWidth
  if wide ∧ 0x10FFFF < chVal.toNat then none
  else if bits < 63 ∧ (chVal.toInt < 0 ∨ 2 ^ bits - 1 < chVal.toNat) then none
  else some (makeConstTyped chVal bits (!litType.isSigned))

/-- The nodes that the evaluator looks at. -/
inductive ConstNode
  /-- With the value of the spelling as a floating literal, truncated. -/
  | number (text : List Char) (floating : Option (BitVec 64))
  | char (payload : List Char) (wide : Bool)
  | identifier (name : String)
  /-- `sizeof`, `alignof` and `offsetof`. -/
  | size (value : Option (BitVec 64))
  | cast (target : TypeInfo) (e : ConstNode)
  | unary (op : Unary) (e : ConstNode)
  | binary (op : Binary) (l r : ConstNode)
  | logic (op : LogicOp) (l r : ConstNode)
  | cond (c a b : ConstNode)
  /-- Longer lists are nested to the right. -/
  | comma (a b : ConstNode)
  | other

variable (wcharType : TypeInfo) (scope : Scope) (allowEnumRefs : Bool)

/-- A floating literal is a constant right under a cast to an integer type. -/
def castOperand (target : TypeInfo) (e : ConstNode) (tree : FoldTree) : FoldTree :=
  match e with
  | .number _ floating =>
    .leaf (tree.eval tl <|> if typeInfoIsInteger target then floating.map makeConst else none)
  | _ => tree

def ConstNode.fold : ConstNode → FoldTree
  | number text _ => .leaf (numberLiteral tl text)
  | char payload wide => .leaf (charLiteral tl wcharType payload wide)
  | identifier name =>
    .leaf ((evalIdentifier scope name allowEnumRefs).map fun v => finalizeWithExprType tl (makeConst v))
  | size value => .leaf (value.map fun v => makeConstTyped v (defaultPointerBits tl) true)
  | cast target e => .cast (bitsFromTypeInfo tl target) (castOperand tl target e e.fold)
  | unary op e => .unary op e.fold
  | binary op l r => .binary op l.fold r.fold
  | logic op l r => .logic op l.fold r.fold
  | cond c a b => .cond c.fold a.fold b.fold
  | comma a b => .comma a.fold b.fold
  | other => .leaf none

/-- The stored value of a constant is the one that its width and sign leave. -/
def Canonical : Option ConstEvalResult → Prop
  | some res => truncateToWidth res.value res.bitWidth res.isUnsigned = res.value
  | none => True

theorem truncateToWidth_idem (v : BitVec 64) (bits : Nat) (u : Bool) :
    truncateToWidth (truncateToWidth v bits u) bits u = truncateToWidth v bits u := by
  by_cases h : bits = 0 ∨ 64 ≤ bits
  · simp only [truncateToWidth, if_pos h]
  obtain ⟨hpos, hlt⟩ := not_or.mp h
  have hle : bits ≤ 64 := by omega
  rw [truncateToWidth_eq (Nat.pos_of_ne_zero hpos) hle, truncateToWidth_eq (Nat.pos_of_ne_zero hpos) hle,
    Word.setWidth_ofInt hle, Word.ofInt_read]

theorem canonical_typed (v : BitVec 64) (bits : Nat) (u : Bool) :
    Canonical (some (makeConstTyped v bits u)) := truncateToWidth_idem v bits u

theorem canonical_finalized (res : ConstEvalResult) : Canonical (some (finalizeWithExprType tl res)) :=
  truncateToWidth_idem _ _ _

theorem canonical_map {f : α → ConstEvalResult} (h : ∀ a, Canonical (some (f a))) (o : Option α) :
    Canonical (o.map f) := by
  cases o with
  | none => trivial
  | some a => exact h a

theorem canonical_bind {f : α → Option ConstEvalResult} (h : ∀ a, Canonical (f a)) (o : Option α) :
    Canonical (o.bind f) := by
  cases o with
  | none => trivial
  | some a => exact h a

theorem canonical_unary (res : ConstEvalResult) (op : Unary) : Canonical (some (evalUnaryOp tl res op)) := by
  cases op <;> exact canonical_finalized tl _

theorem canonical_binary (lhs rhs : ConstEvalResult) (op : Binary) :
    Canonical (evalBinaryOp tl lhs rhs op) := by
  cases op with
  | bit op => exact canonical_finalized tl _
  | compare op => exact canonical_finalized tl _
  | shift op =>
    dsimp only [evalBinaryOp, evalShift]
    split
    · trivial
    · exact canonical_finalized tl _
  | arith op =>
    dsimp only [evalBinaryOp, evalArithmetic]
    split
    · trivial
    · exact canonical_finalized tl _

theorem canonical_char (payload : List Char) (wide : Bool) :
    Canonical (charLiteral tl wcharType payload wide) := by
  unfold charLiteral
  extract_lets parsed firstByte chVal litType bits
  split
  · trivial
  split
  · trivial
  · exact canonical_typed _ _ _

/-- Every constant, of whatever node in whatever scope, is canonical. -/
theorem constEval_canonical (n : ConstNode) :
    Canonical ((n.fold tl wcharType scope allowEnumRefs).eval tl) := by
  cases n with
  | number text floating => exact canonical_map (fun _ => canonical_typed _ _ _) _
  | char payload wide => exact canonical_char tl wcharType payload wide
  | identifier name => exact canonical_map (fun _ => canonical_finalized tl _) _
  | size value => exact canonical_map (fun _ => canonical_typed _ _ _) _
  | cast target e =>
    exact canonical_bind (fun _ => canonical_map (fun _ => canonical_typed _ _ _) _) _
  | unary op e => exact canonical_map (fun _ => canonical_unary tl _ op) _
  | binary op l r => exact canonical_bind (fun _ => canonical_bind (fun _ => canonical_binary tl _ _ op) _) _
  | logic op l r =>
    refine canonical_bind (fun lhs => ?_) _
    split
    · exact canonical_typed _ _ _
    · exact canonical_map (fun _ => canonical_finalized tl _) _
  | cond c a b => exact canonical_bind (fun _ => canonical_map (fun _ => canonical_finalized tl _) _) _
  | comma a b => exact canonical_bind (fun _ => canonical_map (fun _ => canonical_finalized tl _) _) _
  | other => trivial

end

end Fisics
