import Fisics.CodeGen.ConstInitializers

/-!
# Static initializers against C

The evaluator on doubles gives the value of C where every operator has its exact result on
rationals: no division of integers with a remainder, no `%`, no cast that changes a value,
no octal digits. The evaluator on integers gives it where every operator has its result in
the type that the evaluator knows. An integer object keeps the low bits, and `_Bool` the
lowest.
-/

namespace Fisics.Initializers

open CInteger (DataModel IntType ArithOp CompareOp ofBool)
open BitVec (ofInt)
open Option (bind_eq_some_iff bind_some isSome_some map_eq_none_iff map_eq_some_iff)
open CArith.Expr (isTrue_of_value value_binary value_cast value_cond value_of_valueAs value_unary)
open CArith (FloatType ArithType Operator Sign Leaves compareRationals truncate)
open Llvm (Ty Scalar)
open Word (wrap)

-- When initializers are right

section
variable (m : DataModel) (wchar : IntType)

def valueOf (e : InitExpr) : Option Rat := e.value m (literals m wchar)

def armOf (c a b : InitExpr) : InitExpr := c.arm m (literals m wchar) a b

def floatDepth : InitExpr → Option Nat
  | .leaf a => (readLiteral a).map fun _ => 0
  | .cast _ e => (floatDepth e).map (· + 1)
  | .unary _ e => (floatDepth e).map (· + 1)
  | .binary op l r =>
    if op = .arith .mod then none
    else (floatDepth l).bind fun dl => (floatDepth r).map fun dr => max dl dr + 1
  | .cond c a b =>
    (floatDepth c).bind fun dc =>
      (if c.isTrue m (literals m wchar) then floatDepth a else floatDepth b).map fun d =>
        max dc d + 1

def FloatFolds (e : InitExpr) : Prop := (floatDepth m wchar e).any (· ≤ 64) = true

/-- Each operator that is evaluated gives on rationals what it gives in C. -/
def FloatExact : InitExpr → Prop
  | .leaf a => ∀ v, valueOf m wchar (.leaf a) = some v → readLiteral a = some v
  | .cast t e =>
    FloatExact e ∧ ∀ x v, valueOf m wchar e = some x → valueOf m wchar (.cast t e) = some v → x = v
  | .unary op e =>
    FloatExact e ∧ ∀ x v, valueOf m wchar e = some x → valueOf m wchar (.unary op e) = some v → op.on x = v
  | .binary op l r =>
    FloatExact l ∧ FloatExact r ∧ ∀ x y v, valueOf m wchar l = some x → valueOf m wchar r = some y →
      valueOf m wchar (.binary op l r) = some v → floatOperator x y op = some v
  | .cond c a b =>
    FloatExact c ∧ (if c.isTrue m (literals m wchar) then FloatExact a else FloatExact b) ∧
      ∀ x v, valueOf m wchar (armOf m wchar c a b) = some x → valueOf m wchar (.cond c a b) = some v → x = v

/-- The same for the conditions alone that are evaluated on the way to what is not known. -/
def BranchesExact : InitExpr → Prop
  | .leaf _ => True
  | .cast _ e => BranchesExact e
  | .unary _ e => BranchesExact e
  | .binary _ l r => BranchesExact l ∧ BranchesExact r
  | .cond c a b =>
    (if (floatDepth m wchar c).isSome then FloatExact m wchar c else BranchesExact c) ∧
      (if c.isTrue m (literals m wchar) then BranchesExact a else BranchesExact b)

/-- The type whose width and sign the evaluator on integers has for a type of C: a table of
its own for literals, and `long` always of 64 bits for casts. -/
def lp64Type (t : IntType) : IntType :=
  match m, t with
  | .llp64, .long => .int
  | .llp64, .ulong => .uint
  | _, t => t

def codeType : InitExpr → IntType
  | .leaf (.number c) =>
    if c.missesUnsignedLong m then .llong else lp64Type m ((c.type? m).getD .int)
  | .leaf (.char c) => c.type wchar
  | .leaf (.floating _ _) => .int
  | .cast (.int t) _ => t
  | .cast (.float _) _ => .int
  | .unary _ e => codeType e
  | .binary (.arith _) l r => (codeType l).usual .lp64 (codeType r)
  | .binary (.compare _) _ _ => .int
  | .cond c a b => if c.isTrue m (literals m wchar) then codeType a else codeType b

def integerOperator (t : IntType) (x y : Int) : Operator → Int
  | .arith op =>
    wrap (t.bits .lp64) t.isUnsigned (exactArith (t.convert .lp64 x) (t.convert .lp64 y) op)
  | .compare op => ofBool (op.apply (t.convert .lp64 x) (t.convert .lp64 y))

/-- Each operator that is evaluated gives in the type of the evaluator what it gives in C.
A floating literal right under a cast goes through a `long long`. -/
def IntegerExact : InitExpr → Prop
  | .leaf _ => True
  | .cast t e =>
    IntegerExact e ∧ ∀ x v, valueOf m wchar e = some x → valueOf m wchar (.cast t e) = some v →
      ((floatingOperand t e).isSome → InLongLong (truncate x)) ∧
        ∀ k, t = .int k → wrap (k.bits .lp64) k.isUnsigned (truncate x) = v
  | .unary op e =>
    IntegerExact e ∧ ∀ (x : Int) v, valueOf m wchar e = some (x : Rat) →
      valueOf m wchar (.unary op e) = some v →
        wrap ((codeType m wchar e).bits .lp64) (codeType m wchar e).isUnsigned (op.on x) = v
  | .binary op l r =>
    IntegerExact l ∧ IntegerExact r ∧ ∀ (x y : Int) v, valueOf m wchar l = some (x : Rat) →
      valueOf m wchar r = some (y : Rat) → valueOf m wchar (.binary op l r) = some v →
        integerOperator ((codeType m wchar l).usual .lp64 (codeType m wchar r)) x y op = v
  | .cond c a b =>
    IntegerExact c ∧ (if c.isTrue m (literals m wchar) then IntegerExact a else IntegerExact b) ∧
      ∀ x v, valueOf m wchar (armOf m wchar c a b) = some x → valueOf m wchar (.cond c a b) = some v → x = v

def LowBits (t : IntType) (e : InitExpr) : Prop :=
  ∀ (q : Rat) (v : Int), valueOf m wchar e = some q → e.valueAs m (literals m wchar) (.int t) = some v →
    BitVec.ofInt (t.bits .lp64) (truncate q) = BitVec.ofInt _ v

/-- Neither evaluator folds the expression, and the checker sees that it is no constant. -/
def Refused (e : InitExpr) : Prop :=
  (if (floatDepth m wchar e).isSome then FloatExact m wchar e else BranchesExact m wchar e) ∧
    isReported (dataLayout m) wchar e = true

instance (e : InitExpr) : Decidable (FloatFolds m wchar e) := inferInstanceAs (Decidable (_ = true))

def ScalarFine (t : ArithType) (e : InitExpr) : Prop :=
  match t, e with
  | .float _, .leaf a => ∀ v, valueOf m wchar (.leaf a) = some v → (readLiteral a).getD 0 = v
  | .float _, e => if FloatFolds m wchar e then FloatExact m wchar e else Refused m wchar e
  | .int t, e =>
    if (constEval (dataLayout m) wchar e).isSome then IntegerExact m wchar e ∧ LowBits m wchar t e
    else if FloatFolds m wchar e then
      FloatExact m wchar e ∧ LowBits m wchar t e ∧ ∀ q, valueOf m wchar e = some q → InLongLong (truncate q)
    else Refused m wchar e

/-- The arm of a condition that is an integer constant stands for the whole expression,
and must not lose its common type. -/
def Fine (t : ArithType) : InitExpr → Prop
  | .cond c a b =>
    if (constEval (dataLayout m) wchar c).isSome then
      IntegerExact m wchar c ∧ (if c.isTrue m (literals m wchar) then Fine t a else Fine t b) ∧
        ∀ v, (CArith.Expr.cond c a b).valueAs m (literals m wchar) t = some v →
          (armOf m wchar c a b).valueAs m (literals m wchar) t = some v
    else ScalarFine m wchar t (.cond c a b)
  | e => ScalarFine m wchar t e

end

-- The evaluator on doubles

section
variable {m : DataModel} {wchar : IntType} {e : InitExpr}

theorem deeper (depth d : Nat) (h : x = if depth + 1 + d ≤ 64 then some v else none) :
    (if 64 < depth then none else x) = if depth + (d + 1) ≤ 64 then some v else none := by
  rw [h]
  split
  · rw [if_neg (by omega)]
  · exact if_congr (by omega) rfl rfl

theorem floatExpr_exact (hexact : FloatExact m wchar e) (hd : floatDepth m wchar e = some d)
    (hv : valueOf m wchar e = some v) (depth : Nat) :
    cgEvalConstFloatExprDepth e depth = if depth + d ≤ 64 then some v else none := by
  induction e generalizing d v depth with
  | leaf a =>
    obtain ⟨-, -, rfl⟩ := map_eq_some_iff.mp hd
    rw [cgEvalConstFloatExprDepth, hexact v hv]
    split
    · rw [if_neg (by omega)]
    · rw [if_pos (by omega)]
  | cast t e ih =>
    obtain ⟨hexact, hnode⟩ := hexact
    obtain ⟨d, hde, rfl⟩ := map_eq_some_iff.mp hd
    obtain ⟨x, hx⟩ := value_cast hv
    obtain rfl := hnode x v hx hv
    exact deeper depth d (ih hexact hde hx (depth + 1))
  | unary op e ih =>
    obtain ⟨hexact, hnode⟩ := hexact
    obtain ⟨d, hde, rfl⟩ := map_eq_some_iff.mp hd
    obtain ⟨x, hx⟩ := value_unary hv
    obtain rfl := hnode x v hx hv
    refine deeper depth d ?_
    rw [ih hexact hde hx (depth + 1)]
    split <;> rfl
  | binary op l r ihl ihr =>
    obtain ⟨hl, hr, hnode⟩ := hexact
    rw [floatDepth] at hd
    split at hd
    · cases hd
    obtain ⟨dl, hdl, hd⟩ := bind_eq_some_iff.mp hd
    obtain ⟨dr, hdr, rfl⟩ := map_eq_some_iff.mp hd
    obtain ⟨x, y, hx, hy⟩ := value_binary hv
    refine deeper depth (max dl dr) ?_
    rw [ihl hl hdl hx (depth + 1), ihr hr hdr hy (depth + 1)]
    have hboth : depth + 1 + max dl dr ≤ 64 ↔ depth + 1 + dl ≤ 64 ∧ depth + 1 + dr ≤ 64 := by
      omega
    by_cases hleft : depth + 1 + dl ≤ 64 <;> by_cases hright : depth + 1 + dr ≤ 64 <;>
      simp [hboth, hleft, hright, hnode x y v hx hy hv]
  | cond c a b ihc iha ihb =>
    obtain ⟨hc, harm, hnode⟩ := hexact
    obtain ⟨dc, hdc, hd⟩ := bind_eq_some_iff.mp hd
    obtain ⟨d, hdarm, rfl⟩ := map_eq_some_iff.mp hd
    obtain ⟨z, x, hz, hx⟩ := value_cond hv
    obtain rfl := hnode x v hx hv
    have htrue := isTrue_of_value hz
    have hboth : depth + 1 + max dc d ≤ 64 ↔ depth + 1 + dc ≤ 64 ∧ depth + 1 + d ≤ 64 := by
      omega
    refine deeper depth (max dc d) ?_
    rw [ihc hc hdc hz (depth + 1)]
    by_cases hzero : z = 0
    · have hfalse : ¬c.isTrue m (literals m wchar) = true := by
        simp [htrue, hzero]
      rw [CArith.Expr.arm, if_neg hfalse] at hx
      rw [if_neg hfalse] at harm hdarm
      by_cases hcond : depth + 1 + dc ≤ 64 <;>
        simp [hboth, hcond, hzero, ihb harm hdarm hx (depth + 1)]
    · have htaken := htrue.mpr hzero
      rw [CArith.Expr.arm, if_pos htaken] at hx
      rw [if_pos htaken] at harm hdarm
      by_cases hcond : depth + 1 + dc ≤ 64 <;>
        simp [hboth, hcond, hzero, iha harm hdarm hx (depth + 1)]

theorem floatExpr_unknown (hbranches : BranchesExact m wchar e) (hd : floatDepth m wchar e = none)
    (hv : valueOf m wchar e = some v) (depth : Nat) : cgEvalConstFloatExprDepth e depth = none := by
  induction e generalizing v depth with
  | leaf a =>
    rw [cgEvalConstFloatExprDepth, map_eq_none_iff.mp hd]
    exact ite_self _
  | cast t e ih =>
    obtain ⟨x, hx⟩ := value_cast hv
    rw [cgEvalConstFloatExprDepth, ih hbranches (map_eq_none_iff.mp hd) hx]
    exact ite_self _
  | unary op e ih =>
    obtain ⟨x, hx⟩ := value_unary hv
    rw [cgEvalConstFloatExprDepth, ih hbranches (map_eq_none_iff.mp hd) hx]
    exact ite_self _
  | binary op l r ihl ihr =>
    obtain ⟨hl, hr⟩ := hbranches
    obtain ⟨x, y, hx, hy⟩ := value_binary hv
    have hoperands : (cgEvalConstFloatExprDepth l (depth + 1)).bind (fun lhs =>
        (cgEvalConstFloatExprDepth r (depth + 1)).bind fun rhs => floatOperator lhs rhs op) = none := by
      rw [floatDepth] at hd
      split at hd
      · next hop =>
        subst hop
        cases cgEvalConstFloatExprDepth l (depth + 1) <;>
          cases cgEvalConstFloatExprDepth r (depth + 1) <;> rfl
      cases hdl : floatDepth m wchar l with
      | none => rw [ihl hl hdl hx, Option.bind_none]
      | some dl =>
        rw [hdl, bind_some] at hd
        rw [ihr hr (map_eq_none_iff.mp hd) hy]
        exact Option.bind_fun_none _
    rw [cgEvalConstFloatExprDepth, hoperands]
    exact ite_self _
  | cond c a b ihc iha ihb =>
    obtain ⟨hc, harm⟩ := hbranches
    obtain ⟨z, x, hz, hx⟩ := value_cond hv
    have htrue := isTrue_of_value hz
    have hchosen : (cgEvalConstFloatExprDepth c (depth + 1)).bind (fun cond =>
        if cond ≠ 0 then cgEvalConstFloatExprDepth a (depth + 1)
        else cgEvalConstFloatExprDepth b (depth + 1)) = none := by
      rw [floatDepth] at hd
      cases hdc : floatDepth m wchar c with
      | none =>
        rw [hdc, if_neg (by simp)] at hc
        rw [ihc hc hdc hz, Option.bind_none]
      | some dc =>
        rw [hdc, if_pos (isSome_some)] at hc
        rw [hdc, bind_some] at hd
        have hdarm := map_eq_none_iff.mp hd
        rw [floatExpr_exact hc hdc hz]
        split
        · rw [bind_some]
          by_cases hzero : z = 0
          · have hfalse : ¬c.isTrue m (literals m wchar) = true := by
              simp [htrue, hzero]
            rw [CArith.Expr.arm, if_neg hfalse] at hx
            rw [if_neg hfalse] at harm hdarm
            rw [if_neg (not_not.mpr hzero)]
            exact ihb harm hdarm hx (depth + 1)
          · have htaken := htrue.mpr hzero
            rw [CArith.Expr.arm, if_pos htaken] at hx
            rw [if_pos htaken] at harm hdarm
            rw [if_pos hzero]
            exact iha harm hdarm hx (depth + 1)
        · rfl
    rw [cgEvalConstFloatExprDepth, hchosen]
    exact ite_self _

end

-- The evaluator on integers

section
variable {t a b : IntType} {x y : Int} {lhs rhs r : ConstEvalResult}

theorem arithWords_exact (hx : t.Holds .lp64 x) (hy : t.Holds .lp64 y) (op : ArithOp)
    (hmod : op = .mod → y ≠ 0) :
    arithWords t.isUnsigned (ofInt 64 x) (ofInt 64 y) op =
      ofInt 64 (exactArith x y op) := by
  have hrx := read_ofInt hx
  have hry := read_ofInt hy
  have hinstr := arithInstruction_apply op t.isUnsigned (ofInt 64 x) (ofInt 64 y)
  rw [hrx, hry] at hinstr
  rw [← hinstr]
  have hzero := ofInt_eq_zero hy
  cases op with
  | add | sub | mul => rfl
  | div =>
    rw [arithWords]
    by_cases hy0 : y = 0
    · subst hy0
      rw [if_pos (hzero.mpr rfl), hinstr]
      simp [exactArith]
    · rw [if_neg (mt hzero.mp hy0)]
      cases t.isUnsigned <;> rfl
  | mod =>
    rw [arithWords, if_neg (mt hzero.mp (hmod rfl))]
    cases t.isUnsigned <;> rfl

theorem convert_usual_ne_zero (hy : b.Holds .lp64 y) (hne : y ≠ 0) (a : IntType) :
    (a.usual .lp64 b).convert .lp64 y ≠ 0 := by
  have hbits : b.bits .lp64 ≤ (a.usual .lp64 b).bits .lp64 := by
    cases a <;> cases b <;> decide
  have hpow : (2 : Int) ^ b.bits .lp64 ≤ 2 ^ (a.usual .lp64 b).bits .lp64 :=
    pow_le_pow_right₀ (by decide) hbits
  have habs : |y| < 2 ^ b.bits .lp64 := by
    rw [abs_lt]
    cases b <;> simp [IntType.Holds, IntType.least, IntType.limit, IntType.bits, IntType.isUnsigned] at hy ⊢ <;>
      omega
  rw [convert_usual, Word.wrap_eq_read]
  intro hzero
  have hword : ofInt ((a.usual .lp64 b).bits .lp64) y = ofInt _ 0 := by
    rw [Word.read_eq_zero] at hzero
    exact hzero.trans rfl
  rw [Word.ofInt_eq_iff, Int.sub_zero] at hword
  exact hne (Int.eq_zero_of_abs_lt_dvd hword (lt_of_lt_of_le habs hpow))

theorem evalArithmetic_exact (hl : lhs.HasValue .lp64 a x) (hr : rhs.HasValue .lp64 b y)
    (hy : b.Holds .lp64 y) (op : ArithOp) (tl : TargetLayout)
    (h : evalArithmetic tl op lhs rhs = some r) :
    r.HasValue .lp64 (a.usual .lp64 b) (integerOperator (a.usual .lp64 b) x y (.arith op)) := by
  rw [evalArithmetic] at h
  split at h
  · cases h
  rename_i hzero
  have hmod : op = .mod → (a.usual .lp64 b).convert .lp64 y ≠ 0 := by
    rintro rfl
    refine convert_usual_ne_zero hy ?_ a
    rintro rfl
    exact hzero ⟨.inr rfl, hr.2.trans rfl⟩
  rw [commonIntegerType_eq hl hr] at h
  simp only [truncate_operand hl .lp64 a b, truncate_operand hr .lp64 a b] at h
  cases h
  have hwords := arithWords_exact (IntType.convert_holds .lp64 (a.usual .lp64 b) x)
    (IntType.convert_holds .lp64 (a.usual .lp64 b) y) op hmod
  rw [IntType.shape, hwords]
  exact finalize_make_hasValue rfl tl

theorem evalComparison_exact (hl : lhs.HasValue .lp64 a x) (hr : rhs.HasValue .lp64 b y)
    (op : CompareOp) (m : DataModel) :
    (evalComparison (dataLayout m) op lhs rhs).HasValue .lp64 .int
      (integerOperator (a.usual .lp64 b) x y (.compare op)) := by
  have hlayout : evalComparison (dataLayout m) op lhs rhs = evalComparison (dataLayout .lp64) op lhs rhs := by
    cases m <;> rfl
  rw [hlayout]
  exact evalComparison_eq hl hr op rfl

theorem evalUnary_exact (h : r.HasValue .lp64 t x) (op : Sign) (tl : TargetLayout) :
    (evalUnaryOp tl r op.unary).HasValue .lp64 t (wrap (t.bits .lp64) t.isUnsigned (op.on x)) := by
  obtain ⟨-, hu⟩ := Prod.mk.inj h.1
  cases op with
  | plus =>
    rw [Sign.unary, evalUnaryOp, h.operandBits_eq, hu, h.2]
    exact finalize_make_hasValue rfl tl
  | minus =>
    rw [Sign.unary, evalUnaryOp, h.operandBits_eq, hu, h.2, ← BitVec.ofInt_neg]
    exact finalize_make_hasValue rfl tl

end

-- Trees of the evaluator on integers

theorem lp64Type_shape (m : DataModel) (t : IntType) : (lp64Type m t).shape .lp64 = t.shape m := by
  cases m <;> cases t <;> rfl

theorem lp64Type_holds (m : DataModel) (t : IntType) (z : Int) :
    (lp64Type m t).Holds .lp64 z ↔ t.Holds m z := by
  cases m <;> cases t <;> rfl

def EvaluatesTo (m : DataModel) (wchar : IntType) (e : InitExpr) (r : ConstEvalResult) (v : Rat) : Prop :=
  ∃ z : Int, v = z ∧ r.HasValue .lp64 (codeType m wchar e) z ∧ (codeType m wchar e).Holds .lp64 z

section
variable {m : DataModel} {wchar : IntType} {e : InitExpr}

theorem constEval_number (hv : valueOf m wchar (.leaf (.number c)) = some v)
    (hr : constEval (dataLayout m) wchar (.leaf (.number c)) = some r) :
    EvaluatesTo m wchar (.leaf (.number c)) r v := by
  obtain ⟨z, hz, rfl⟩ := map_eq_some_iff.mp hv
  obtain ⟨t, ht, rfl⟩ := map_eq_some_iff.mp hz
  have hholds := IntConstant.type?_holds ht
  refine ⟨c.value, rfl, ?_⟩
  obtain ⟨range, hparse⟩ := c.parse (dataLayout m)
  rw [c.choose ht] at hparse
  rw [constEval, hparse] at hr
  rw [codeType, ht, Option.getD_some]
  cases hmiss : c.missesUnsignedLong m with
  | true =>
    obtain ⟨rfl, rfl⟩ := c.ulong_of_misses ht hmiss
    simp only [hmiss, ↓reduceIte] at hr ⊢
    cases hr
    have hllong : IntType.llong.Holds .lp64 c.value := by
      simp only [IntType.Holds, IntType.least, IntType.limit, IntType.isUnsigned, IntType.bits,
        ↓reduceIte, Bool.false_eq_true] at hholds ⊢
      omega
    have hmake := make_hasValue .lp64 .llong c.value
    rw [IntType.wrap_of_holds hllong, BitVec.ofInt_natCast] at hmake
    exact ⟨hmake, hllong⟩
  | false =>
    simp only [hmiss, Bool.false_eq_true, ↓reduceIte] at hr ⊢
    cases hr
    have hmake := make_hasValue m t c.value
    rw [IntType.wrap_of_holds hholds, BitVec.ofInt_natCast] at hmake
    have hmasked : literalMasked c.value (t.shape m).1 (t.shape m).2 false = c.value :=
      literalMasked_of_holds hholds
    rw [hmasked]
    exact ⟨⟨hmake.1.trans (lp64Type_shape m t).symm, hmake.2⟩, (lp64Type_holds m t _).mpr hholds⟩

theorem charType_shape (c : CharConstant) :
    let litType := if c.wide then typeInfoOfIntType wchar
      else makeIntegerType (defaultIntBits (dataLayout m)) true
    (litType.bitWidth, !litType.isSigned) = (c.type wchar).shape .lp64 := by
  rw [CharConstant.type]
  cases c.wide with
  | true => exact typeInfoOfIntType_eq wchar
  | false => cases m <;> rfl

theorem constEval_char (hv : valueOf m wchar (.leaf (.char c)) = some v)
    (hr : constEval (dataLayout m) wchar (.leaf (.char c)) = some r) :
    EvaluatesTo m wchar (.leaf (.char c)) r v := by
  obtain ⟨z, hz, rfl⟩ := map_eq_some_iff.mp hv
  have hz : (if (c.type wchar).Holds m c.value then some (c.value : Int) else none) = some z := hz
  split at hz
  · next hholds =>
    cases hz
    refine ⟨c.value, rfl, ?_⟩
    have hholds := holds_lp64 hholds
    obtain ⟨hbits, hu⟩ := Prod.mk.inj (@charType_shape m wchar c)
    rw [constEval, evalChar] at hr
    simp only [hbits, hu] at hr
    split at hr
    · cases hr
    split at hr
    · cases hr
    cases hr
    have hmake := make_hasValue .lp64 (c.type wchar) c.value
    rw [IntType.wrap_of_holds hholds, BitVec.ofInt_natCast] at hmake
    exact ⟨hmake, hholds⟩
  · cases hz

theorem floatingOperand_value (h : floatingOperand (.int t) e = some value)
    (hx : valueOf m wchar e = some x) : value = toLongLong x := by
  cases e with
  | leaf a =>
    cases a with
    | floating k y =>
      cases h
      exact congrArg toLongLong (Option.some.inj hx)
    | number | char => cases h
  | cast | unary | binary | cond => cases h

theorem constEval_exact (hexact : IntegerExact m wchar e) (hv : valueOf m wchar e = some v)
    (hr : constEval (dataLayout m) wchar e = some r) : EvaluatesTo m wchar e r v := by
  induction e generalizing v r with
  | leaf a =>
    cases a with
    | number c => exact constEval_number hv hr
    | char c => exact constEval_char hv hr
    | floating k x => cases hr
  | cast t e ih =>
    obtain ⟨hexact, hnode⟩ := hexact
    obtain ⟨x, hx⟩ := value_cast hv
    obtain ⟨hlong, hcast⟩ := hnode x v hx hv
    obtain ⟨value, hinner, hr⟩ := bind_eq_some_iff.mp hr
    cases t with
    | float k => cases hr
    | int t =>
      cases hr
      have hvalue : value = ofInt 64 (truncate x) := by
        cases he : constEval (dataLayout m) wchar e with
        | some r =>
          obtain ⟨z, rfl, hz, -⟩ := ih hexact hx he
          rw [he] at hinner
          cases hinner
          rw [CArith.truncate_intCast]
          exact hz.2
        | none =>
          rw [he] at hinner
          have hlong := hlong (Option.isSome_iff_exists.mpr ⟨value, hinner⟩)
          rw [floatingOperand_value hinner hx]
          exact if_pos hlong
      subst hvalue
      refine ⟨_, (hcast t rfl).symm, ?_, IntType.wrap_holds .lp64 t _⟩
      rw [evalCast_eq]
      exact make_hasValue .lp64 t _
  | unary op e ih =>
    obtain ⟨hexact, hnode⟩ := hexact
    obtain ⟨x, hx⟩ := value_unary hv
    obtain ⟨res, hres, rfl⟩ := map_eq_some_iff.mp hr
    obtain ⟨z, rfl, hz, -⟩ := ih hexact hx hres
    exact ⟨_, (hnode z v hx hv).symm, evalUnary_exact hz op _, IntType.wrap_holds .lp64 _ _⟩
  | binary op l r ihl ihr =>
    obtain ⟨hl, hr', hnode⟩ := hexact
    obtain ⟨x, y, hx, hy⟩ := value_binary hv
    obtain ⟨lhs, hlhs, hr⟩ := bind_eq_some_iff.mp hr
    obtain ⟨rhs, hrhs, hr⟩ := bind_eq_some_iff.mp hr
    obtain ⟨x, rfl, hxl, -⟩ := ihl hl hx hlhs
    obtain ⟨y, rfl, hyr, hholds⟩ := ihr hr' hy hrhs
    refine ⟨_, (hnode x y v hx hy hv).symm, ?_⟩
    cases op with
    | arith op =>
      exact ⟨evalArithmetic_exact hxl hyr hholds op _ hr, IntType.wrap_holds .lp64 _ _⟩
    | compare op =>
      cases hr
      exact ⟨evalComparison_exact hxl hyr op m, IntType.int_holds_ofBool .lp64 _⟩
  | cond c a b ihc iha ihb =>
    obtain ⟨hc, harm, hnode⟩ := hexact
    obtain ⟨z, x, hz, hx⟩ := value_cond hv
    obtain rfl := hnode x v hx hv
    have htrue := isTrue_of_value hz
    obtain ⟨condRes, hcond, hr⟩ := bind_eq_some_iff.mp hr
    obtain ⟨res, hres, rfl⟩ := map_eq_some_iff.mp hr
    obtain ⟨z, rfl, hzc, hholds⟩ := ihc hc hz hcond
    have hzero : condRes.value ≠ 0 ↔ c.isTrue m (literals m wchar) = true := by
      rw [htrue, hzc.2, Ne, ofInt_eq_zero hholds]
      simp
    rw [EvaluatesTo, codeType]
    by_cases htaken : c.isTrue m (literals m wchar) = true
    · rw [CArith.Expr.arm, if_pos htaken] at hx
      rw [if_pos htaken] at harm ⊢
      rw [if_pos (hzero.mpr htaken)] at hres
      obtain ⟨y, rfl, hy, hholds⟩ := iha harm hx hres
      rw [finalize_of_hasValue hy hholds]
      exact ⟨y, rfl, hy, hholds⟩
    · rw [CArith.Expr.arm, if_neg htaken] at hx
      rw [if_neg htaken] at harm ⊢
      rw [if_neg (mt hzero.mp htaken)] at hres
      obtain ⟨y, rfl, hy, hholds⟩ := ihb harm hx hres
      rw [finalize_of_hasValue hy hholds]
      exact ⟨y, rfl, hy, hholds⟩

end

-- Initializers

theorem constInt_eq (t : IntType) (z : Int) :
    constInt t (ofInt 64 z) = .int (t.bits .lp64) (ofInt _ z) := by
  rw [constInt, llvmBits_int, Word.setWidth_ofInt (t.bits_le .lp64)]

section
variable {m : DataModel} {wchar : IntType} {e : InitExpr} {t : ArithType}

theorem floatExpr_folds (hexact : FloatExact m wchar e) (hfolds : FloatFolds m wchar e)
    (hv : valueOf m wchar e = some v) : cgEvalConstFloatExpr e = some v := by
  rw [FloatFolds] at hfolds
  cases hd : floatDepth m wchar e with
  | none =>
    rw [hd] at hfolds
    cases hfolds
  | some d =>
    rw [hd, Option.any_some, decide_eq_true_eq] at hfolds
    rw [cgEvalConstFloatExpr, floatExpr_exact hexact hd hv, if_pos (by omega)]

theorem floatExpr_refused (hrefused : Refused m wchar e) (hfolds : ¬FloatFolds m wchar e)
    (hv : valueOf m wchar e = some v) : cgEvalConstFloatExpr e = none := by
  rw [cgEvalConstFloatExpr]
  cases hd : floatDepth m wchar e with
  | none =>
    have hbranches := hrefused.1
    rw [hd, if_neg (by simp)] at hbranches
    exact floatExpr_unknown hbranches hd hv 0
  | some d =>
    have hexact := hrefused.1
    rw [hd, if_pos isSome_some] at hexact
    rw [FloatFolds, hd, Option.any_some, decide_eq_true_eq] at hfolds
    rw [floatExpr_exact hexact hd hv, if_neg (by omega)]

def Built (m : DataModel) (wchar : IntType) (t : ArithType) (e : InitExpr) (built : Option (Scalar Rat)) :
    Prop :=
  ∀ v, e.valueAs m (literals m wchar) t = some v →
    built = some (scalarOf t v) ∨ built = none ∧ isReported (dataLayout m) wchar e = true

theorem buildScalar_float (k : FloatType) (h : ScalarFine m wchar (.float k) e) :
    Built m wchar (.float k) e (buildScalar (dataLayout m) wchar (.float k) e) := by
  rintro v hv
  obtain ⟨q, hq⟩ := value_of_valueAs hv
  obtain rfl := CArith.Expr.valueAs_float hq hv
  cases e with
  | leaf a =>
    left
    rw [buildScalar, h v hq]
    rfl
  | cast | unary | binary | cond =>
    rw [ScalarFine] at h
    · split at h
      · next hfolds =>
        left
        rw [buildScalar, floatExpr_folds h hfolds hq]
        · rfl
        · rintro _ ⟨⟩
      · next hfolds =>
        right
        rw [buildScalar, floatExpr_refused h hfolds hq]
        · exact ⟨rfl, h.2⟩
        · rintro _ ⟨⟩
    · rintro _ ⟨⟩

theorem buildScalar_int (t : IntType) (h : ScalarFine m wchar (.int t) e) :
    Built m wchar (.int t) e (buildScalar (dataLayout m) wchar (.int t) e) := by
  rintro v hv
  obtain ⟨q, hq⟩ := value_of_valueAs hv
  rw [ScalarFine] at h
  rw [buildScalar]
  cases hconst : constEval (dataLayout m) wchar e with
  | some r =>
    left
    rw [hconst, if_pos isSome_some] at h
    obtain ⟨hexact, hlow⟩ := h
    obtain ⟨z, rfl, hz, -⟩ := constEval_exact hexact hq hconst
    have hlow := hlow _ v hq hv
    rw [CArith.truncate_intCast] at hlow
    dsimp only
    rw [hz.2, constInt_eq, hlow, intScalar_of]
  | none =>
    rw [hconst, if_neg (by simp)] at h
    split at h
    · next hfolds =>
      left
      obtain ⟨hexact, hlow, hlong⟩ := h
      have hword : toLongLong q = ofInt 64 (truncate q) := if_pos (hlong q hq)
      rw [floatExpr_folds hexact hfolds hq, Option.map_some, hword, constInt_eq, hlow q v hq hv,
        intScalar_of]
    · next hfolds =>
      right
      rw [floatExpr_refused h hfolds hq]
      exact ⟨rfl, h.2⟩

theorem buildScalar_built (h : ScalarFine m wchar t e) :
    Built m wchar t e (buildScalar (dataLayout m) wchar t e) := by
  cases t with
  | int t => exact buildScalar_int t h
  | float k => exact buildScalar_float k h

theorem isSimple_higher (tl : TargetLayout) (depth : Nat)
    (h : isSimpleFloatingConstExpr tl wchar e (depth + 1) = true) :
    isSimpleFloatingConstExpr tl wchar e depth = true := by
  induction e generalizing depth with
  | leaf a =>
    cases a with
    | number c =>
      simp only [isSimpleFloatingConstExpr, Bool.and_eq_true, Bool.not_eq_true', decide_eq_false_iff_not]
        at h ⊢
      exact ⟨by omega, h.2⟩
    | char c => cases h
    | floating k x =>
      simp only [isSimpleFloatingConstExpr, Bool.not_eq_true', decide_eq_false_iff_not] at h ⊢
      omega
  | cast t e ih | unary op e ih =>
    simp only [isSimpleFloatingConstExpr, Bool.and_eq_true, Bool.not_eq_true', decide_eq_false_iff_not]
      at h ⊢
    exact ⟨by omega, ih _ h.2⟩
  | binary op l r ihl ihr =>
    simp only [isSimpleFloatingConstExpr, Bool.and_eq_true, Bool.not_eq_true', decide_eq_false_iff_not]
      at h ⊢
    exact ⟨by omega, h.2.1, ihl _ h.2.2.1, ihr _ h.2.2.2⟩
  | cond c a b ihc iha ihb =>
    simp only [isSimpleFloatingConstExpr, Bool.and_eq_true, Bool.not_eq_true', decide_eq_false_iff_not]
      at h ⊢
    refine ⟨by omega, ?_⟩
    cases hcond : constEval tl wchar c with
    | none =>
      rw [hcond] at h
      cases h.2
    | some condition =>
      rw [hcond] at h
      dsimp only at h ⊢
      split
      · next htaken =>
        rw [if_pos htaken] at h
        exact iha _ h.2
      · next hskipped =>
        rw [if_neg hskipped] at h
        exact ihb _ h.2

theorem isReported_cond (hcond : constEval tl wchar c = some condition)
    (h : isReported tl wchar (if condition.value ≠ 0 then a else b) = true) :
    isReported tl wchar (.cond c a b) = true := by
  simp only [isReported, Bool.and_eq_true, Bool.not_eq_true', Option.isNone_iff_eq_none] at h ⊢
  obtain ⟨hsimple, hconst⟩ := h
  have hsimple := mt (isSimple_higher tl 0) (ne_true_of_eq_false hsimple)
  rw [isSimpleFloatingConstExpr, constEval, hcond, bind_some]
  by_cases htaken : condition.value ≠ 0
  · rw [if_pos htaken] at hsimple hconst
    have hne : ¬condition.value = 0#64 := htaken
    simp [hne, hconst, eq_false_of_ne_true hsimple]
  · rw [if_neg htaken] at hsimple hconst
    have heq : condition.value = 0#64 := not_not.mp htaken
    simp [heq, hconst, eq_false_of_ne_true hsimple]

theorem cgBuildConstInitializer_built (h : Fine m wchar t e) :
    Built m wchar t e (cgBuildConstInitializer (dataLayout m) wchar t e) := by
  induction e with
  | leaf | cast | unary | binary => exact buildScalar_built h
  | cond c a b ihc iha ihb =>
    rw [Fine] at h
    rw [cgBuildConstInitializer]
    cases hcond : constEval (dataLayout m) wchar c with
    | none =>
      rw [hcond, if_neg (by simp)] at h
      exact buildScalar_built h
    | some condition =>
      rw [hcond, if_pos isSome_some] at h
      obtain ⟨hc, harm, hsame⟩ := h
      intro v hv
      have hv' := hsame v hv
      obtain ⟨q, hq⟩ := value_of_valueAs hv
      obtain ⟨z, x, hz, -⟩ := value_cond hq
      have htrue := isTrue_of_value hz
      obtain ⟨z, rfl, hzc, hholds⟩ := constEval_exact hc hz hcond
      have hzero : condition.value ≠ 0 ↔ c.isTrue m (literals m wchar) = true := by
        rw [htrue, hzc.2, Ne, ofInt_eq_zero hholds]
        simp
      rw [armOf] at hv'
      dsimp only
      by_cases htaken : c.isTrue m (literals m wchar) = true
      · rw [CArith.Expr.arm, if_pos htaken] at hv'
        rw [if_pos htaken] at harm
        rw [if_pos (hzero.mpr htaken)]
        refine (iha harm v hv').imp_right ?_
        rintro ⟨hnone, hreported⟩
        exact ⟨hnone, isReported_cond hcond (by rwa [if_pos (hzero.mpr htaken)])⟩
      · rw [CArith.Expr.arm, if_neg htaken] at hv'
        rw [if_neg htaken] at harm
        rw [if_neg (mt hzero.mp htaken)]
        refine (ihb harm v hv').imp_right ?_
        rintro ⟨hnone, hreported⟩
        exact ⟨hnone, isReported_cond hcond (by rwa [if_neg (mt hzero.mp htaken)])⟩

theorem initialized_of_fine (h : Fine m wchar t e) : Initialized m wchar t e where
  constant := by
    intro v s hv hs
    rcases cgBuildConstInitializer_built h v hv with hbuilt | ⟨hnone, -⟩
    · exact Option.some.inj (hs.symm.trans hbuilt)
    · cases hs.symm.trans hnone
  reported := by
    intro hv hnone
    obtain ⟨v, hv⟩ := Option.isSome_iff_exists.mp hv
    rcases cgBuildConstInitializer_built h v hv with hbuilt | ⟨-, hreported⟩
    · cases hnone.symm.trans hbuilt
    · exact hreported

end

-- The last operator

section
variable (m : DataModel) (wchar : IntType)

/-- The last operator on rationals, on the values that C gives its operands. -/
def lastOperator : InitExpr → Option Rat
  | .leaf a => readLiteral a
  | .cast _ e => valueOf m wchar e
  | .unary op e => (valueOf m wchar e).map op.on
  | .binary op l r =>
    (valueOf m wchar l).bind fun x => (valueOf m wchar r).bind fun y => floatOperator x y op
  | .cond _ _ _ => none

/-- No operator but the last loses the value of C. -/
def OperandsExact : InitExpr → Prop
  | .leaf _ => True
  | .cast _ e => FloatExact m wchar e
  | .unary _ e => FloatExact m wchar e
  | .binary _ l r => FloatExact m wchar l ∧ FloatExact m wchar r
  | .cond _ _ _ => False

/-- At most the last operator of an initializer loses its value: on doubles the operator
itself, on integers the conversion to the object. -/
def InnerExact (t : ArithType) (e : InitExpr) : Prop :=
  match t, e with
  | _, .cond _ _ _ => False
  | .float _, e => OperandsExact m wchar e ∧ ∀ d, floatDepth m wchar e = some d → d ≤ 64
  | .int _, e => IntegerExact m wchar e ∧ (constEval (dataLayout m) wchar e).isSome

end

section
variable {m : DataModel} {wchar : IntType} {e : InitExpr} {t : ArithType}

theorem branches_of_exact (h : FloatExact m wchar e) : BranchesExact m wchar e := by
  induction e with
  | leaf a => trivial
  | cast t e ih | unary op e ih => exact ih h.1
  | binary op l r ihl ihr => exact ⟨ihl h.1, ihr h.2.1⟩
  | cond c a b ihc iha ihb =>
    obtain ⟨hc, harm, -⟩ := h
    constructor
    · split
      · exact hc
      · exact ihc hc
    · by_cases htaken : c.isTrue m (literals m wchar) = true
      · rw [if_pos htaken] at harm ⊢
        exact iha harm
      · rw [if_neg htaken] at harm ⊢
        exact ihb harm

theorem branches_of_operands (h : OperandsExact m wchar e) : BranchesExact m wchar e := by
  cases e with
  | leaf a => trivial
  | cast t e | unary op e => exact branches_of_exact (e := e) h
  | binary op l r => exact h.imp branches_of_exact branches_of_exact
  | cond => exact h.elim

theorem floatExpr_last (hparts : OperandsExact m wchar e) (hd : floatDepth m wchar e = some d)
    (hdeep : d ≤ 64) (hv : valueOf m wchar e = some v) :
    cgEvalConstFloatExpr e = lastOperator m wchar e := by
  rw [cgEvalConstFloatExpr]
  cases e with
  | leaf a => rfl
  | cast t e =>
    obtain ⟨d, hde, rfl⟩ := map_eq_some_iff.mp hd
    obtain ⟨x, hx⟩ := value_cast hv
    rw [cgEvalConstFloatExprDepth, if_neg (by omega), floatExpr_exact hparts hde hx, if_pos (by omega)]
    exact hx.symm
  | unary op e =>
    obtain ⟨d, hde, rfl⟩ := map_eq_some_iff.mp hd
    obtain ⟨x, hx⟩ := value_unary hv
    rw [cgEvalConstFloatExprDepth, if_neg (by omega), floatExpr_exact hparts hde hx, if_pos (by omega)]
    exact congrArg (Option.map op.on) (Eq.symm hx)
  | binary op l r =>
    obtain ⟨hl, hr⟩ := hparts
    rw [floatDepth] at hd
    split at hd
    · cases hd
    obtain ⟨dl, hdl, hd⟩ := bind_eq_some_iff.mp hd
    obtain ⟨dr, hdr, rfl⟩ := map_eq_some_iff.mp hd
    obtain ⟨x, y, hx, hy⟩ := value_binary hv
    rw [cgEvalConstFloatExprDepth, if_neg (by omega), floatExpr_exact hl hdl hx, if_pos (by omega),
      floatExpr_exact hr hdr hy, if_pos (by omega)]
    rw [lastOperator, valueOf, valueOf, hx, hy]
  | cond => exact hparts.elim

theorem lastOperator_known (hparts : OperandsExact m wchar e) (hd : floatDepth m wchar e = some d)
    (hv : valueOf m wchar e = some v) : ∃ w, lastOperator m wchar e = some w := by
  cases e with
  | leaf a =>
    obtain ⟨w, hw, -⟩ := map_eq_some_iff.mp hd
    exact ⟨w, hw⟩
  | cast t e => exact value_cast hv
  | unary op e =>
    obtain ⟨x, hx⟩ := value_unary hv
    exact ⟨op.on x, congrArg (Option.map op.on) hx⟩
  | binary op l r =>
    obtain ⟨x, y, hx, hy⟩ := value_binary hv
    rw [lastOperator, valueOf, valueOf, hx, hy, bind_some, bind_some]
    cases op with
    | compare op => exact ⟨_, rfl⟩
    | arith op =>
      cases op with
      | mul | add | sub => exact ⟨_, rfl⟩
      | div => exact ⟨_, if_neg (CArith.Expr.divisor_ne_zero hv hy)⟩
      | mod =>
        cases hd
  | cond => exact hparts.elim

theorem exact_of_last (hparts : OperandsExact m wchar e) (hv : valueOf m wchar e = some v)
    (h : lastOperator m wchar e = some v) : FloatExact m wchar e := by
  cases e with
  | leaf a =>
    rintro w hw
    obtain rfl := Option.some.inj (hv.symm.trans hw)
    exact h
  | cast t e =>
    refine ⟨hparts, ?_⟩
    rintro x w hx hw
    obtain rfl := Option.some.inj (hv.symm.trans hw)
    exact Option.some.inj (hx.symm.trans h)
  | unary op e =>
    refine ⟨hparts, ?_⟩
    rintro x w hx hw
    obtain rfl := Option.some.inj (hv.symm.trans hw)
    rw [lastOperator, hx] at h
    exact Option.some.inj h
  | binary op l r =>
    refine ⟨hparts.1, hparts.2, ?_⟩
    rintro x y w hx hy hw
    obtain rfl := Option.some.inj (hv.symm.trans hw)
    rwa [lastOperator, hx, hy] at h
  | cond => exact hparts.elim

theorem exact_of_folded (hv : valueOf m wchar e = some v) (hparts : OperandsExact m wchar e)
    (hdeep : ∀ d, floatDepth m wchar e = some d → d ≤ 64)
    (hconst : ∀ w, cgEvalConstFloatExpr e = some w → w = v)
    (hreported : cgEvalConstFloatExpr e = none → isReported (dataLayout m) wchar e = true) :
    if FloatFolds m wchar e then FloatExact m wchar e else Refused m wchar e := by
  cases hd : floatDepth m wchar e with
  | none =>
    have hbranches := branches_of_operands hparts
    have hfolds : ¬FloatFolds m wchar e := by
      simp [FloatFolds, hd]
    rw [if_neg hfolds, Refused, hd, if_neg (by simp)]
    exact ⟨hbranches, hreported (floatExpr_unknown hbranches hd hv 0)⟩
  | some d =>
    have hdeep := hdeep d hd
    have hfolds : FloatFolds m wchar e := by
      simp [FloatFolds, hd, hdeep]
    obtain ⟨w, hw⟩ := lastOperator_known hparts hd hv
    obtain rfl := hconst w ((floatExpr_last hparts hd hdeep hv).trans hw)
    rw [if_pos hfolds]
    exact exact_of_last hparts hv hw

/-- Behind the choice of an arm, a floating object has what the evaluator on doubles folds. -/
theorem cgBuildConstInitializer_float (tl : TargetLayout) (k : FloatType) (hleaf : ∀ a, e ≠ .leaf a)
    (hcond : ∀ c a b, e ≠ .cond c a b) :
    cgBuildConstInitializer tl wchar (.float k) e = (cgEvalConstFloatExpr e).map (.float k) := by
  rw [cgBuildConstInitializer, buildScalar]
  · exact hleaf
  · exact hcond

theorem fine_of_float (k : FloatType) (hv : valueOf m wchar e = some v) (hparts : OperandsExact m wchar e)
    (hdeep : ∀ d, floatDepth m wchar e = some d → d ≤ 64) (h : Initialized m wchar (.float k) e) :
    Fine m wchar (.float k) e := by
  have hvalue : e.valueAs m (literals m wchar) (.float k) = some v := by
    obtain ⟨x, hx, rfl⟩ := map_eq_some_iff.mp hv
    rw [CArith.Expr.valueAs, hx, bind_some, CArith.convert_toFloat]
  have hsome : (e.valueAs m (literals m wchar) (.float k)).isSome := Option.isSome_of_eq_some hvalue
  cases e with
  | leaf a =>
    rintro w hw
    obtain rfl := Option.some.inj (hv.symm.trans hw)
    exact (Scalar.float.inj (h.constant v _ hvalue rfl)).2
  | cast | unary | binary =>
    refine exact_of_folded hv hparts hdeep ?_ ?_
    · rintro w hw
      refine (Scalar.float.inj (h.constant v (.float k w) hvalue ?_)).2
      rw [cgBuildConstInitializer_float, hw, Option.map_some]
      · rintro _ ⟨⟩
      · rintro _ _ _ ⟨⟩
    · rintro hnone
      refine h.reported hsome ?_
      rw [cgBuildConstInitializer_float, hnone, Option.map_none]
      · rintro _ ⟨⟩
      · rintro _ _ _ ⟨⟩
  | cond => exact hparts.elim

theorem lowBits_of_constant (t : IntType) (hexact : IntegerExact m wchar e)
    (hr : constEval (dataLayout m) wchar e = some r)
    (h : ∀ v s, e.valueAs m (literals m wchar) (.int t) = some v →
      buildScalar (dataLayout m) wchar (.int t) e = some s → s = scalarOf (.int t) v) :
    LowBits m wchar t e := by
  rintro q v hq hv
  obtain ⟨z, rfl, hz, -⟩ := constEval_exact hexact hq hr
  have hbuilt : buildScalar (dataLayout m) wchar (.int t) e = some (constInt t r.value) := by
    rw [buildScalar, hr]
  have hsame := h v _ hv hbuilt
  rw [hz.2, constInt_eq, intScalar_of] at hsame
  rw [CArith.truncate_intCast]
  exact eq_of_heq (Scalar.int.inj hsame).2

theorem fine_of_int (t : IntType) (hcond : ∀ c a b, e ≠ .cond c a b) (hexact : IntegerExact m wchar e)
    (hr : constEval (dataLayout m) wchar e = some r) (h : Initialized m wchar (.int t) e) :
    Fine m wchar (.int t) e := by
  have hscalar : ScalarFine m wchar (.int t) e := by
    rw [ScalarFine, hr, if_pos isSome_some]
    refine ⟨hexact, lowBits_of_constant t hexact hr ?_⟩
    rintro v s hv hs
    refine h.constant v s hv ?_
    rw [cgBuildConstInitializer]
    · exact hs
    · exact hcond
  rw [Fine]
  · exact hscalar
  · exact hcond

/-- Where only the last operator can lose the value, the initializer is right just when it
does not. -/
theorem fine_of_initialized (hinner : InnerExact m wchar t e) (hv : valueOf m wchar e = some v)
    (h : Initialized m wchar t e) : Fine m wchar t e := by
  cases t with
  | float k =>
    cases e with
    | leaf | cast | unary | binary => exact fine_of_float k hv hinner.1 hinner.2 h
    | cond => exact hinner.elim
  | int t =>
    cases e with
    | leaf | cast | unary | binary =>
      obtain ⟨r, hr⟩ := Option.isSome_iff_exists.mp hinner.2
      exact fine_of_int t nofun hinner.1 hr h
    | cond => exact hinner.elim

end

-- Initializers in C

section
variable {m : DataModel} {wchar : IntType} {e : InitExpr} {t : ArithType}

theorem fine_initialized :
    (Fine m wchar t e → Initialized m wchar t e) ∧
      (InnerExact m wchar t e → (valueOf m wchar e).isSome →
        (Initialized m wchar t e ↔ Fine m wchar t e)) := by
  refine ⟨initialized_of_fine, ?_⟩
  rintro hinner hsome
  obtain ⟨v, hv⟩ := Option.isSome_iff_exists.mp hsome
  exact ⟨fine_of_initialized hinner hv, initialized_of_fine⟩

end

/-- `double d = 1 / 2.0;` is 0.5. -/
theorem half_initialized :
    let one : InitExpr := .leaf (.number
      ⟨.decimal, [], ['1'], [], by decide, List.forall_mem_singleton.mpr (by decide), by decide, by decide,
        by decide⟩)
    Initialized .lp64 .int (.float .double) (.binary (.arith .div) one (.leaf (.floating .double 2))) := by
  intro one
  have hone : valueOf .lp64 .int one = some 1 := by decide
  have hread : cgEvalConstFloatExpr one = some 1 := by decide
  refine fine_initialized.1 ?_
  rw [Fine, ScalarFine, if_pos (by decide)]
  · refine ⟨?_, ?_, ?_⟩
    · rintro v hv
      obtain rfl := Option.some.inj (hone.symm.trans hv)
      exact hread
    · rintro v hv
      exact hv
    · rintro x y v hx hy hv
      obtain rfl := Option.some.inj (hone.symm.trans hx)
      obtain rfl : 2 = y := Option.some.inj hy
      obtain rfl : 1 / 2 = v := Option.some.inj ((by decide +kernel : _ = some (1 / 2 : Rat)).symm.trans hv)
      decide +kernel
  all_goals nofun

/-- `double d = 1 / 2;` is 0.5, `double d = 1 % 2;` is zero without a report, and
`_Bool b = 2;` is false. -/
theorem initializers_miss :
    let one : InitExpr := .leaf (.number
      ⟨.decimal, [], ['1'], [], by decide, List.forall_mem_singleton.mpr (by decide), by decide, by decide,
        by decide⟩)
    let two : InitExpr := .leaf (.number
      ⟨.decimal, [], ['2'], [], by decide, List.forall_mem_singleton.mpr (by decide), by decide, by decide,
        by decide⟩)
    ¬Initialized .lp64 .int (.float .double) (.binary (.arith .div) one two) ∧
      ¬Initialized .lp64 .int (.float .double) (.binary (.arith .mod) one two) ∧
        ¬Initialized .lp64 .int (.int .bool) two := by
  intro one two
  refine ⟨?_, ?_, ?_⟩
  · intro h
    have hfolds : cgEvalConstFloatExpr (.binary (.arith .div) one two) = some (1 / 2) := by decide +kernel
    have hbuilt : cgBuildConstInitializer (dataLayout .lp64) .int (.float .double)
        (.binary (.arith .div) one two) = some (.float .double (1 / 2)) := by
      rw [cgBuildConstInitializer_float, hfolds, Option.map_some]
      all_goals nofun
    have hsame := h.constant (0 : Rat) _ (by decide) hbuilt
    exact absurd (Scalar.float.inj hsame).2 (by decide +kernel)
  · intro h
    have hfolds : cgEvalConstFloatExpr (.binary (.arith .mod) one two) = none := by decide
    have hbuilt : cgBuildConstInitializer (dataLayout .lp64) .int (.float .double)
        (.binary (.arith .mod) one two) = none := by
      rw [cgBuildConstInitializer_float, hfolds, Option.map_none]
      all_goals nofun
    exact absurd (h.reported (by decide) hbuilt) (by decide)
  · intro h
    have hconst : constEval (dataLayout .lp64) .int two = some ⟨BitVec.ofInt 64 2, 32, false⟩ := by
      decide
    have hbuilt : cgBuildConstInitializer (dataLayout .lp64) .int (.int .bool) two =
        some (constInt .bool (BitVec.ofInt 64 2)) := by
      rw [cgBuildConstInitializer, buildScalar, hconst]
      nofun
    have hsame := h.constant (1 : Int) _ (by decide) hbuilt
    have hbits : BitVec.ofInt 1 2 = BitVec.ofInt 1 1 := eq_of_heq (Scalar.int.inj hsame).2
    exact absurd hbits (by decide)

end Fisics.Initializers
