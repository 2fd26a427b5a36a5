import Fisics.Library.HostArith
import Fisics.Syntax.ConstEvalCorrect

/-!
# Host arithmetic in constant folding

The evaluator computes with the 64-bit integers of its host. Its guards look at the
operands before they are converted to the common type, and only at a zero divisor and
at the count of a shift. So the host's signed arithmetic overflows where the exact
result of 64-bit operands does, and a result that C leaves undefined in a narrower type
is folded like any other.
-/

namespace Fisics

open CInteger (Expr Unary Binary ArithOp ShiftOp LogicOp)
open HostArith (HostOp InRange exact divides)
open Word (read)

-- Operators and their operands

inductive Folding
  | unary (op : Unary) (operand : ConstEvalResult)
  | binary (op : Binary) (lhs rhs : ConstEvalResult)

section
variable (tl : TargetLayout)

def commonOperands (lhs rhs : ConstEvalResult) : BitVec 64 × BitVec 64 :=
  let (bits, isUnsigned) := commonIntegerType tl lhs rhs
  (truncateToWidth lhs.value bits isUnsigned, truncateToWidth rhs.value bits isUnsigned)

def shiftOperand (lhs : ConstEvalResult) : BitVec 64 :=
  truncateToWidth lhs.value (operandBits tl lhs) lhs.isUnsigned

def arithmeticHostOps (op : ArithOp) (lhs rhs : ConstEvalResult) : List (HostOp 64) :=
  if divides op ∧ rhs.value = 0 then []
  else
    let (l, r) := commonOperands tl lhs rhs
    -- `r == 0 ? 0 : l / r`
    if divides op ∧ r = 0 then [] else [.arith op (commonIntegerType tl lhs rhs).2 l r]

def shiftHostOps (op : ShiftOp) (lhs rhs : ConstEvalResult) : List (HostOp 64) :=
  let shiftAmt := rhs.value.toInt
  if shiftAmt < 0 ∨ operandBits tl lhs ≤ shiftAmt then []
  else match op with
    -- to the left a `uint64_t` is shifted, whatever the sign of the type
    | .shl => [.shl true (shiftOperand tl lhs) shiftAmt]
    | .shr => [.shr lhs.isUnsigned (shiftOperand tl lhs) shiftAmt]

namespace Folding

def hostOps : Folding → List (HostOp 64)
  | unary .minus operand => [.neg operand.value]
  | unary _ _ => []
  | binary (.arith op) lhs rhs => arithmeticHostOps tl op lhs rhs
  | binary (.shift op) lhs rhs => shiftHostOps tl op lhs rhs
  | binary _ _ _ => []

def result : Folding → Option ConstEvalResult
  | unary op operand => some (evalUnaryOp tl operand op)
  | binary op lhs rhs => evalBinaryOp tl lhs rhs op

end Folding

-- What C defines

def promotedType (operand : ConstEvalResult) : Nat × Bool :=
  let info := integerPromote (makeIntegerType (operandBits tl operand) (!operand.isUnsigned))
  (info.bitWidth, !info.isSigned)

def operandValue (operand : ConstEvalResult) : Int :=
  read operand.isUnsigned (truncateToWidth operand.value (operandBits tl operand) operand.isUnsigned)

namespace Folding

def CDefined : Folding → Prop
  | unary .minus operand =>
    (promotedType tl operand).2 = false → InRange (promotedType tl operand).1 (-operandValue tl operand)
  | unary _ _ => True
  | binary (.arith op) lhs rhs =>
    let (bits, isUnsigned) := commonIntegerType tl lhs rhs
    let (l, r) := commonOperands tl lhs rhs
    (divides op → r ≠ 0) ∧ (isUnsigned = false → InRange bits (exact l.toInt r.toInt op))
  | binary (.shift op) lhs rhs =>
    let (bits, isUnsigned) := promotedType tl lhs
    let shiftAmt := rhs.value.toInt
    (0 ≤ shiftAmt ∧ shiftAmt < bits) ∧
      (op = .shl → isUnsigned = false → 0 ≤ operandValue tl lhs ∧
        InRange bits (operandValue tl lhs * 2 ^ shiftAmt.toNat))
  | binary _ _ _ => True

def Guarded : Folding → Prop
  | unary .minus operand =>
    operand.value.toInt ≠ -2 ^ 63 ∧
      ((promotedType tl operand).2 = false →
        operandValue tl operand ≠ -2 ^ ((promotedType tl operand).1 - 1))
  | unary _ _ => True
  | binary (.arith op) lhs rhs =>
    let (bits, isUnsigned) := commonIntegerType tl lhs rhs
    let (l, r) := commonOperands tl lhs rhs
    (divides op ∧ rhs.value = 0) ∨
      ((divides op → r ≠ 0) ∧ (isUnsigned = false → InRange (min bits 64) (exact l.toInt r.toInt op)))
  | binary (.shift op) lhs rhs =>
    let (bits, isUnsigned) := promotedType tl lhs
    let shiftAmt := rhs.value.toInt
    (shiftAmt < 0 ∨ operandBits tl lhs ≤ shiftAmt) ∨
      (shiftAmt < 64 ∧
        (op = .shl → isUnsigned = false → 0 ≤ operandValue tl lhs ∧
          operandValue tl lhs * 2 ^ shiftAmt.toNat < 2 ^ (bits - 1)))
  | binary _ _ _ => True

end Folding

end

-- Trees

/-- A tree that the evaluator goes through. A leaf is any node without one of its
operators: a literal, a name, `sizeof`, `alignof`, `offsetof`, or what is not constant. A
cast has no target where its type is neither an integer nor a pointer type. -/
inductive FoldTree
  | leaf (res : Option ConstEvalResult)
  | cast (target : Option (Nat × Bool)) (e : FoldTree)
  | unary (op : Unary) (e : FoldTree)
  | binary (op : Binary) (l r : FoldTree)
  | logic (op : LogicOp) (l r : FoldTree)
  | cond (c a b : FoldTree)
  | comma (a b : FoldTree)

namespace FoldTree

variable (tl : TargetLayout)

def eval : FoldTree → Option ConstEvalResult
  | leaf res => res
  | cast target e =>
    e.eval.bind fun inner => target.map fun (bits, isUnsigned) =>
      makeConstTyped (truncateToWidth inner.value bits isUnsigned) bits isUnsigned
  | unary op e => e.eval.map fun res => evalUnaryOp tl res op
  | binary op l r => l.eval.bind fun lhs => r.eval.bind fun rhs => evalBinaryOp tl lhs rhs op
  | logic op l r =>
    l.eval.bind fun lhs =>
      if shortCircuits lhs.value op then some (makeConst (if lhs.value = 0 then 0 else 1))
      else r.eval.map fun rhs =>
        finalizeWithExprType tl (makeConstTyped (if rhs.value = 0 then 0 else 1) (defaultIntBits tl) false)
  | cond c a b =>
    c.eval.bind fun condRes =>
      (if condRes.value ≠ 0 then a.eval else b.eval).map (finalizeWithExprType tl)
  | comma a b => a.eval.bind fun _ => b.eval.map (finalizeWithExprType tl)

def foldings : FoldTree → List Folding
  | leaf _ => []
  | cast _ e => e.foldings
  | unary op e => e.foldings ++ (e.eval tl).toList.map (.unary op)
  | binary op l r =>
    -- both operands are evaluated before either is looked at
    l.foldings ++ (r.foldings ++ match l.eval tl, r.eval tl with
      | some lhs, some rhs => [.binary op lhs rhs]
      | _, _ => [])
  | logic op l r =>
    l.foldings ++ match l.eval tl with
      | some lhs => if shortCircuits lhs.value op then [] else r.foldings
      | none => []
  | cond c a b =>
    c.foldings ++ match c.eval tl with
      | some condRes => if condRes.value ≠ 0 then a.foldings else b.foldings
      | none => []
  | comma a b => a.foldings ++ if (a.eval tl).isSome then b.foldings else []

/-- The evaluation stays within what the host defines, and where C leaves an operator
undefined the operator and the whole tree are reported as not constant. -/
structure DefinedOnHost (t : FoldTree) : Prop where
  host : ∀ f ∈ t.foldings tl, ∀ o ∈ f.hostOps tl, o.Defined
  reported : ∀ f ∈ t.foldings tl, ¬f.CDefined tl → f.result tl = none
  notConstant : (∃ f ∈ t.foldings tl, ¬f.CDefined tl) → t.eval tl = none

end FoldTree

-- Ranges of operands

theorem defaultIntBits_pos (tl : TargetLayout) : 0 < defaultIntBits tl := by
  unfold defaultIntBits
  split <;> omega

theorem operandBits_pos (tl : TargetLayout) (res : ConstEvalResult) : 0 < operandBits tl res := by
  unfold operandBits
  split
  · exact defaultIntBits_pos tl
  rename_i hne
  exact Nat.pos_of_ne_zero hne

theorem truncate_inRange (hpos : 0 < bits) (v : BitVec 64) :
    InRange (min bits 64) (truncateToWidth v bits false).toInt := by
  obtain hle | hlt := Nat.le_total bits 64
  · have hnarrow : InRange bits (v.setWidth bits).toInt := HostArith.inRange_toInt _
    have hwide : InRange 64 (v.setWidth bits).toInt := hnarrow.mono hle
    have hread : (BitVec.ofInt 64 (v.setWidth bits).toInt).toInt = (v.setWidth bits).toInt :=
      BitVec.toInt_ofInt_eq_self (by decide) hwide.1 hwide.2
    rw [truncateToWidth_eq hpos hle, Nat.min_eq_left hle, Word.read, if_neg Bool.false_ne_true, hread]
    exact hnarrow
  · rw [Nat.min_eq_right hlt]
    exact HostArith.inRange_toInt _

theorem truncate_toNat_lt (hpos : 0 < bits) (hle : bits ≤ 64) (v : BitVec 64) :
    (truncateToWidth v bits true).toNat < 2 ^ bits := by
  have hpow : 2 ^ bits ≤ 2 ^ 64 := Nat.pow_le_pow_right (by decide) hle
  have hlt := (v.setWidth bits).isLt
  rw [truncateToWidth_eq hpos hle, Word.read, if_pos rfl, BitVec.ofInt_natCast, BitVec.toNat_ofNat,
    Nat.mod_eq_of_lt (Nat.lt_of_lt_of_le hlt hpow)]
  exact hlt

section
variable (tl : TargetLayout)

theorem promotedType_eq (res : ConstEvalResult) :
    promotedType tl res =
      if 32 ≤ operandBits tl res then (operandBits tl res, res.isUnsigned) else (32, false) := by
  unfold promotedType integerPromote
  by_cases h : 32 ≤ operandBits tl res
  · simp [makeIntegerType, h]
  · simp [makeIntegerType, typeInfoIsInteger, h]

theorem operandBits_le_promoted (res : ConstEvalResult) : operandBits tl res ≤ (promotedType tl res).1 := by
  rw [promotedType_eq]
  split
  · exact Nat.le_refl _
  rename_i h
  exact Nat.le_of_not_le h

theorem operandValue_inRange (res : ConstEvalResult) (h : (promotedType tl res).2 = false) :
    InRange (promotedType tl res).1 (operandValue tl res) := by
  have hpos := operandBits_pos tl res
  have hle := operandBits_le_promoted tl res
  unfold operandValue
  cases hu : res.isUnsigned with
  | false =>
    exact (truncate_inRange hpos res.value).mono (Nat.le_trans (Nat.min_le_left _ _) hle)
  | true => ?_
  rw [promotedType_eq, hu] at h ⊢
  have hnarrow : operandBits tl res < 32 := by
    by_contra hwide
    rw [if_pos (Nat.le_of_not_lt hwide)] at h
    cases h
  have hlt := truncate_toNat_lt hpos (by omega) res.value
  have hpow : 2 ^ operandBits tl res ≤ 2 ^ 31 := Nat.pow_le_pow_right (by decide) (by omega)
  rw [if_neg (Nat.not_le_of_lt hnarrow), Word.read, if_pos rfl]
  refine ⟨Int.le_trans (by decide) (Int.natCast_nonneg _), ?_⟩
  exact_mod_cast Nat.lt_of_lt_of_le hlt hpow

-- One operator

namespace Folding

def Sound (f : Folding) : Prop :=
  (∀ o ∈ f.hostOps tl, o.Defined) ∧ (¬f.CDefined tl → f.result tl = none)

theorem minus_sound_iff (operand : ConstEvalResult) :
    (unary .minus operand).Sound tl ↔ (unary .minus operand).Guarded tl := by
  have hrange := operandValue_inRange tl operand
  have hhost : (∀ o ∈ (unary .minus operand).hostOps tl, o.Defined) ↔ operand.value.toInt ≠ -2 ^ 63 := by
    rw [hostOps, List.forall_mem_singleton]
    exact HostArith.neg_defined_iff operand.value
  rw [Sound, hhost, Guarded]
  refine and_congr_right fun _ => ?_
  simp only [result, reduceCtorEq, imp_false, not_not, CDefined]
  exact imp_congr_right fun hsigned => HostArith.inRange_neg_iff (hrange hsigned)

theorem arith_sound_iff (op : ArithOp) (lhs rhs : ConstEvalResult) :
    (binary (.arith op) lhs rhs).Sound tl ↔ (binary (.arith op) lhs rhs).Guarded tl := by
  have hresult : (binary (.arith op) lhs rhs).result tl = none ↔ divides op ∧ rhs.value = 0 := by
    have hdivides : (op = .div ∨ op = .mod) ↔ divides op = true := by cases op <;> decide
    simp [result, evalBinaryOp, evalArithmetic, hdivides]
  unfold Sound Guarded CDefined
  rw [hresult]
  simp only [hostOps, arithmeticHostOps]
  generalize commonOperands tl lhs rhs = operands
  generalize commonIntegerType tl lhs rhs = common
  obtain ⟨l, r⟩ := operands
  obtain ⟨bits, isUnsigned⟩ := common
  by_cases hzero : divides op ∧ rhs.value = 0
  · simp [hzero]
  have hmin : InRange (min bits 64) (exact l.toInt r.toInt op) ↔
      InRange 64 (exact l.toInt r.toInt op) ∧ InRange bits (exact l.toInt r.toInt op) := by
    constructor
    · intro h
      exact ⟨h.mono (Nat.min_le_right _ _), h.mono (Nat.min_le_left _ _)⟩
    · rintro ⟨hhost, hc⟩
      rw [Nat.min_def]
      split
      · exact hc
      · exact hhost
  by_cases hr : divides op ∧ r = 0
  · simp [hr]
  have hdivisor : divides op → r ≠ 0 := fun hd hr0 => hr ⟨hd, hr0⟩
  rw [if_neg hzero, if_neg hr, List.forall_mem_singleton, hmin]
  simp only [hzero, false_or, imp_false, not_not, HostOp.Defined]
  constructor
  · rintro ⟨⟨-, hhost⟩, -, hc⟩
    exact ⟨hdivisor, fun hs => ⟨hhost hs, hc hs⟩⟩
  · rintro ⟨-, h⟩
    exact ⟨⟨hdivisor, fun hs => (h hs).1⟩, hdivisor, fun hs => (h hs).2⟩

theorem shift_sound_iff (op : ShiftOp) (lhs rhs : ConstEvalResult) :
    (binary (.shift op) lhs rhs).Sound tl ↔ (binary (.shift op) lhs rhs).Guarded tl := by
  have hresult : (binary (.shift op) lhs rhs).result tl = none ↔
      rhs.value.toInt < 0 ∨ operandBits tl lhs ≤ rhs.value.toInt := by
    simp only [result, evalBinaryOp, evalShift]
    split
    · rename_i h
      exact iff_of_true rfl h
    · rename_i h
      exact iff_of_false (Option.some_ne_none _) h
  have hpromoted := operandBits_le_promoted tl lhs
  unfold Sound Guarded CDefined
  rw [hresult]
  simp only [hostOps, shiftHostOps]
  generalize promotedType tl lhs = promoted at hpromoted ⊢
  generalize operandValue tl lhs = x
  generalize rhs.value.toInt = amount
  obtain ⟨bits, isUnsigned⟩ := promoted
  by_cases hreported : amount < 0 ∨ operandBits tl lhs ≤ amount
  · simp [hreported]
  have hcount : 0 ≤ amount ∧ amount < bits := by
    omega
  have hhost : (∀ o ∈ (match op with
        | .shl => [HostOp.shl true (shiftOperand tl lhs) amount]
        | .shr => [HostOp.shr lhs.isUnsigned (shiftOperand tl lhs) amount]), o.Defined) ↔
      amount < 64 := by
    cases op <;> simp [HostOp.Defined, hcount.1]
  have hrange : 0 ≤ x → (InRange bits (x * 2 ^ amount.toNat) ↔ x * 2 ^ amount.toNat < 2 ^ (bits - 1)) :=
    fun hx => HostArith.inRange_shl_iff hx amount.toNat
  rw [if_neg hreported, hhost]
  simp only [hreported, false_or, imp_false, not_not, hcount, and_self, true_and]
  refine and_congr_right fun _ => imp_congr_right fun _ => imp_congr_right fun _ => ?_
  exact and_congr_right fun hx => hrange hx

theorem sound_iff (f : Folding) : f.Sound tl ↔ f.Guarded tl := by
  cases f with
  | unary op operand =>
    cases op with
    | minus => exact minus_sound_iff tl operand
    | _ => simp [Sound, Guarded, hostOps, CDefined]
  | binary op lhs rhs => ?_
  cases op with
  | arith op => exact arith_sound_iff tl op lhs rhs
  | shift op => exact shift_sound_iff tl op lhs rhs
  | _ => simp [Sound, Guarded, hostOps, CDefined]

end Folding

-- Trees

namespace FoldTree

variable {tl}

theorem eval_of_reported {t : FoldTree} (h : f ∈ t.foldings tl) (hreported : f.result tl = none) :
    t.eval tl = none := by
  induction t with
  | leaf res => cases h
  | cast target e ih => simp [eval, ih h]
  | unary op e ih =>
    obtain h | h := List.mem_append.mp h
    · simp [eval, ih h]
    · obtain ⟨res, -, rfl⟩ := List.mem_map.mp h
      cases hreported
  | binary op l r ihl ihr =>
    rw [foldings, List.mem_append, List.mem_append] at h
    rcases h with h | h | h
    · simp [eval, ihl h]
    · simp [eval, ihr h]
    · split at h
      · rename_i lhs rhs hl hr
        obtain rfl := List.mem_singleton.mp h
        rw [eval, hl, hr]
        exact hreported
      · cases h
  | logic op l r ihl ihr =>
    rw [foldings, List.mem_append] at h
    rcases h with h | h
    · simp [eval, ihl h]
    · split at h
      · rename_i lhs hl
        split at h
        · cases h
        rename_i hshort
        simp [eval, hl, hshort, ihr h]
      · cases h
  | cond c a b ihc iha ihb =>
    rw [foldings, List.mem_append] at h
    rcases h with h | h
    · simp [eval, ihc h]
    · split at h
      · rename_i condRes hc
        split at h
        · rename_i hne
          rw [eval, hc, Option.bind_some, if_pos hne, iha h]
          rfl
        · rename_i hzero
          rw [eval, hc, Option.bind_some, if_neg hzero, ihb h]
          rfl
      · cases h
  | comma a b iha ihb =>
    rw [foldings, List.mem_append] at h
    rcases h with h | h
    · simp [eval, iha h]
    · split at h
      · simp [eval, ihb h]
      · cases h

def ofExpr (tl : TargetLayout) (scope : Scope) (allowEnumRefs : Bool) : Expr ConstLeaf → FoldTree
  | .leaf a => leaf (constEvalInternal tl scope allowEnumRefs (.leaf a))
  | .cast t e =>
    let target := evalCast tl 0 t
    cast (some (target.bitWidth, target.isUnsigned)) (ofExpr tl scope allowEnumRefs e)
  | .unary op e => unary op (ofExpr tl scope allowEnumRefs e)
  | .binary op l r => binary op (ofExpr tl scope allowEnumRefs l) (ofExpr tl scope allowEnumRefs r)
  | .logic op l r => logic op (ofExpr tl scope allowEnumRefs l) (ofExpr tl scope allowEnumRefs r)
  | .cond c a b =>
    cond (ofExpr tl scope allowEnumRefs c) (ofExpr tl scope allowEnumRefs a)
      (ofExpr tl scope allowEnumRefs b)

theorem eval_ofExpr (scope : Scope) (allowEnumRefs : Bool) (e : Expr ConstLeaf) :
    (ofExpr tl scope allowEnumRefs e).eval tl = constEvalInternal tl scope allowEnumRefs e := by
  induction e with
  | leaf a => rfl
  | cast t e ih =>
    rw [ofExpr, eval, ih, constEvalInternal_cast]
    cases constEvalInternal tl scope allowEnumRefs e <;> rfl
  | unary op e ih => rw [ofExpr, eval, ih, constEvalInternal_unary]
  | binary op l r ihl ihr => rw [ofExpr, eval, ihl, ihr, constEvalInternal_binary]
  | logic op l r ihl ihr => rw [ofExpr, eval, ihl, ihr, constEvalInternal_logic]
  | cond c a b ihc iha ihb => rw [ofExpr, eval, ihc, iha, ihb, constEvalInternal_cond]

end FoldTree

/-- Folding a tree is defined on the host, and what C leaves undefined is reported,
exactly when every operator that is applied has operands that the guards cover. -/
theorem constEval_definedOnHost_iff (t : FoldTree) :
    t.DefinedOnHost tl ↔ ∀ f ∈ t.foldings tl, f.Guarded tl := by
  constructor
  · rintro ⟨hhost, hreported, -⟩ f hf
    rw [← f.sound_iff]
    exact ⟨hhost f hf, hreported f hf⟩
  · intro h
    have hsound : ∀ f ∈ t.foldings tl, f.Sound tl := fun f hf => (f.sound_iff tl).mpr (h f hf)
    refine ⟨fun f hf => (hsound f hf).1, fun f hf => (hsound f hf).2, ?_⟩
    rintro ⟨f, hf, hc⟩
    exact FoldTree.eval_of_reported hf ((hsound f hf).2 hc)

end

def literalLeaf (tl : TargetLayout) (text : String) : FoldTree :=
  .leaf ((parseIntegerLiteralInfo text.toList tl).map fun info =>
    makeConstTyped info.value info.bits info.isUnsigned)

def greatestPlusOne : FoldTree :=
  .binary (.arith .add) (literalLeaf layoutLp64 "9223372036854775807") (literalLeaf layoutLp64 "1")

theorem greatestPlusOne_overflows :
    greatestPlusOne.eval layoutLp64 = some ⟨BitVec.intMin 64, 64, false⟩ ∧
      ¬greatestPlusOne.DefinedOnHost layoutLp64 := by
  have hfoldings : greatestPlusOne.foldings layoutLp64 =
      [.binary (.arith .add) ⟨BitVec.intMax 64, 64, false⟩ ⟨1, 32, false⟩] := by
    have hl : (literalLeaf layoutLp64 "9223372036854775807").eval layoutLp64 =
        some ⟨BitVec.intMax 64, 64, false⟩ := by decide
    have hr : (literalLeaf layoutLp64 "1").eval layoutLp64 = some ⟨1, 32, false⟩ := by decide
    simp only [greatestPlusOne, FoldTree.foldings, hl, hr]
    rfl
  refine ⟨by decide, fun h => ?_⟩
  have hhost := h.host _ (hfoldings ▸ List.mem_singleton_self _) _ (List.mem_singleton_self _)
  exact absurd hhost (by decide)

end Fisics
