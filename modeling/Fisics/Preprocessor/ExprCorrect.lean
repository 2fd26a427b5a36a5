import Fisics.Preprocessor.ExprParse

/-!
# The evaluator against the C semantics

Operator by operator the code computes what the reference says, so the two
agree on every expression whose evaluated parts avoid three defects: a `?:`
takes its type from the selected arm alone, a signed division of the least
value by minus one stops the process, and a reserved word is refused where C
reads it as an identifier.
-/

namespace Fisics

open Word (read wrap)
open Option (bind_some isSome_iff_exists isSome_of_eq_some)

/-- The value stands for the integer, in the signed or the unsigned type. -/
def Represents (v : PPValue) (isUnsigned : Bool) (z : Int) : Prop :=
  v.isUnsigned = isUnsigned ∧ read isUnsigned v.bits = z

theorem represents_signed_zero : Represents (ppValueSigned 0) false 0 := ⟨rfl, by decide⟩

theorem represents_bool (p : Prop) [Decidable p] : Represents (ppValueBool (decide p)) false (truth p) := by
  by_cases h : p
  · simp only [h, decide_true, truth, ↓reduceIte]
    exact ⟨rfl, by decide⟩
  · simp only [h, decide_false, truth, ↓reduceIte]
    exact ⟨rfl, by decide⟩

theorem Represents.truthy (h : Represents v u z) : ppValueTruthy v = decide (z ≠ 0) := by
  obtain ⟨-, rfl⟩ := h
  simp [ppValueTruthy, bne, Word.read_eq_zero, beq_eq_decide]

-- Operators

theorem UnaryOp.apply_represents (op : UnaryOp) (h : Represents v u z) :
    Represents (op.apply v) (op.isUnsigned u) (op.denote u z) := by
  have htruthy := h.truthy
  obtain ⟨bits, isUnsigned⟩ := v
  obtain ⟨rfl, rfl⟩ := h
  cases op with
  | plus => exact ⟨rfl, rfl⟩
  | minus =>
    cases isUnsigned
    · exact ⟨rfl, Word.read_neg⟩
    · refine ⟨rfl, ?_⟩
      show read true (0#64 - bits) = _
      exact Word.read_neg
  | logicalNot =>
    have := represents_bool (read isUnsigned bits = 0)
    simpa [UnaryOp.apply, htruthy, UnaryOp.denote, UnaryOp.isUnsigned] using this
  | bitwiseNot => cases isUnsigned <;> exact ⟨rfl, Word.read_not⟩

/-- The one pair of operands whose quotient the host cannot compute. -/
def BinaryOp.overflows (op : BinaryOp) (u v : Bool) (x y : Int) : Bool :=
  (op == .div || op == .mod) && !u && !v && x == -2 ^ 63 && y == -1

def BinaryOp.Agrees (op : BinaryOp) (u u' : Bool) (x y : Int) (v w : PPValue) : Prop :=
  match op.denote u u' x y with
  | some z => ∃ value, op.rules.apply op.token v w = some (value, op.overflows u u' x y) ∧
      Represents value (op.isUnsigned u u') z
  | none => op.rules.apply op.token v w = none

theorem read_least : read false b = -2 ^ 63 ↔ b = BitVec.intMin 64 := by
  have h : (read false (BitVec.intMin 64)) = -2 ^ 63 := by decide
  rw [← h, Word.read_inj]

theorem read_minus_one : read false b = -1 ↔ b = (-1 : BitVec 64) := by
  have h : (read false (-1 : BitVec 64)) = -1 := by decide
  rw [← h, Word.read_inj]

section
variable (u u' : Bool) (b c : BitVec 64)

theorem traps_eq_overflows (hop : op = .div ∨ op = .mod) :
    (b == BitVec.intMin 64 && c == -1) =
      BinaryOp.overflows op false false (read false b) (read false c) := by
  rcases hop with rfl | rfl <;>
    simp only [BinaryOp.overflows, beq_eq_decide, read_least, read_minus_one] <;> rfl

theorem overflows_unsigned (h : (u || u') = true) (op : BinaryOp) (x y : Int) :
    op.overflows u u' x y = false := by
  cases u <;> cases u' <;> simp_all [BinaryOp.overflows]

theorem mul_agrees : BinaryOp.mul.Agrees u u' (read u b) (read u' c) ⟨b, u⟩ ⟨c, u'⟩ := by
  simp only [BinaryOp.Agrees, BinaryOp.denote, Word.wrap_read]
  exact ⟨_, rfl, rfl, Word.read_mul⟩

theorem divide_by_zero (hop : op = .divide ∨ op = .modulo) :
    applyMultiplicative op ⟨b, u⟩ ⟨0, u'⟩ = none := by
  simp [applyMultiplicative, hop, ppValueTruthy]

theorem divide_nonzero (hc : c ≠ 0) :
    applyMultiplicative .divide ⟨b, u⟩ ⟨c, u'⟩ =
      some (if u || u' then (ppValueUnsigned (b / c), false)
        else (ppValueSigned (b.sdiv c), b == BitVec.intMin 64 && c == -1)) := by
  have hc' : ¬ c = 0#64 := hc
  cases hu : (u || u') <;> simp [applyMultiplicative, ppValueTruthy, hc', ppValueUseUnsigned, hu]

theorem modulo_nonzero (hc : c ≠ 0) :
    applyMultiplicative .modulo ⟨b, u⟩ ⟨c, u'⟩ =
      some (if u || u' then (ppValueUnsigned (b % c), false)
        else (ppValueSigned (b.srem c), b == BitVec.intMin 64 && c == -1)) := by
  have hc' : ¬ c = 0#64 := hc
  cases hu : (u || u') <;> simp [applyMultiplicative, ppValueTruthy, hc', ppValueUseUnsigned, hu]

theorem div_agrees : BinaryOp.div.Agrees u u' (read u b) (read u' c) ⟨b, u⟩ ⟨c, u'⟩ := by
  simp only [BinaryOp.Agrees, BinaryOp.denote, Word.wrap_read, Word.read_eq_zero]
  by_cases hc : c = 0
  · simp only [hc, ↓reduceIte]
    exact divide_by_zero u u' b (.inl rfl)
  simp only [hc, ↓reduceIte]
  change ∃ value, applyMultiplicative .divide ⟨b, u⟩ ⟨c, u'⟩ = some (value, _) ∧
    Represents value (u || u') _
  rw [divide_nonzero u u' b c hc]
  cases hu : (u || u')
  · obtain ⟨rfl, rfl⟩ : u = false ∧ u' = false := by simpa using hu
    exact ⟨_, by rw [traps_eq_overflows b c (.inl rfl)]; rfl, rfl, Word.read_sdiv⟩
  · exact ⟨_, by rw [overflows_unsigned u u' hu]; rfl, rfl, Word.read_udiv⟩

theorem mod_agrees : BinaryOp.mod.Agrees u u' (read u b) (read u' c) ⟨b, u⟩ ⟨c, u'⟩ := by
  simp only [BinaryOp.Agrees, BinaryOp.denote, Word.wrap_read, Word.read_eq_zero]
  by_cases hc : c = 0
  · simp only [hc, ↓reduceIte]
    exact divide_by_zero u u' b (.inr rfl)
  simp only [hc, ↓reduceIte]
  change ∃ value, applyMultiplicative .modulo ⟨b, u⟩ ⟨c, u'⟩ = some (value, _) ∧
    Represents value (u || u') _
  rw [modulo_nonzero u u' b c hc]
  cases hu : (u || u')
  · obtain ⟨rfl, rfl⟩ : u = false ∧ u' = false := by simpa using hu
    exact ⟨_, by rw [traps_eq_overflows b c (.inr rfl)]; rfl, rfl, Word.read_srem⟩
  · exact ⟨_, by rw [overflows_unsigned u u' hu]; rfl, rfl, Word.read_umod⟩

theorem shift_amount : (c &&& 63).toNat = (read u' c % 64).toNat := by
  have h := Word.read_emod (u := u') (b := c) (k := 6) (by decide)
  have hand : (c &&& 63).toNat = c.toNat % 2 ^ 6 := by
    exact Nat.and_two_pow_sub_one_eq_mod c.toNat 6
  norm_num at h
  rw [h, hand]
  rfl

theorem shl_agrees : BinaryOp.shl.Agrees u u' (read u b) (read u' c) ⟨b, u⟩ ⟨c, u'⟩ := by
  simp only [BinaryOp.Agrees, BinaryOp.denote, ← shift_amount]
  exact ⟨_, rfl, rfl, Word.read_shiftLeft _⟩

theorem shr_agrees : BinaryOp.shr.Agrees u u' (read u b) (read u' c) ⟨b, u⟩ ⟨c, u'⟩ := by
  simp only [BinaryOp.Agrees, BinaryOp.denote, ← shift_amount]
  cases u
  · exact ⟨_, rfl, rfl, Word.read_sshiftRight _⟩
  · exact ⟨_, rfl, rfl, Word.read_ushiftRight _⟩

def BinaryOp.compares : BinaryOp → Int → Int → Bool
  | .lt, x, y => decide (x < y)
  | .le, x, y => decide (x ≤ y)
  | .gt, x, y => decide (y < x)
  | .ge, x, y => decide (y ≤ x)
  | .eq, x, y => decide (x = y)
  | _, x, y => decide (x ≠ y)

theorem relational_apply (hop : op ∈ [BinaryOp.lt, .le, .gt, .ge]) :
    applyRelational op.token ⟨b, u⟩ ⟨c, u'⟩ =
      some (ppValueBool (op.compares (read (u || u') b) (read (u || u') c)), false) := by
  simp only [List.mem_cons, List.not_mem_nil, or_false] at hop
  rcases hop with rfl | rfl | rfl | rfl <;>
    simp only [applyRelational, BinaryOp.token, BinaryOp.compares, Word.less_eq, Word.lessEqual_eq] <;> rfl

theorem relational_agrees (hop : op ∈ [BinaryOp.lt, .le, .gt, .ge]) :
    op.Agrees u u' (read u b) (read u' c) ⟨b, u⟩ ⟨c, u'⟩ := by
  have happly := relational_apply u u' b c hop
  simp only [List.mem_cons, List.not_mem_nil, or_false] at hop
  rcases hop with rfl | rfl | rfl | rfl <;>
    simp only [BinaryOp.Agrees, BinaryOp.denote, Word.wrap_read] <;>
    exact ⟨_, happly, represents_bool _⟩

theorem equality_apply (hop : op ∈ [BinaryOp.eq, .ne]) :
    applyEquality op.token ⟨b, u⟩ ⟨c, u'⟩ =
      some (ppValueBool (op.compares (read (u || u') b) (read (u || u') c)), false) := by
  simp only [List.mem_cons, List.not_mem_nil, or_false] at hop
  rcases hop with rfl | rfl <;>
    simp [applyEquality, BinaryOp.token, BinaryOp.compares, Word.read_inj, beq_eq_decide]

theorem equality_agrees (hop : op ∈ [BinaryOp.eq, .ne]) :
    op.Agrees u u' (read u b) (read u' c) ⟨b, u⟩ ⟨c, u'⟩ := by
  have happly := equality_apply u u' b c hop
  simp only [List.mem_cons, List.not_mem_nil, or_false] at hop
  rcases hop with rfl | rfl <;>
    simp only [BinaryOp.Agrees, BinaryOp.denote, Word.wrap_read] <;>
    exact ⟨_, happly, represents_bool _⟩

theorem read_wrap_bits (u : Bool) (d : BitVec 64) : wrap 64 u d.toInt = read u d := by
  exact Word.wrap_read false u d

end

theorem BinaryOp.agrees (op : BinaryOp) (hand : op ≠ .logAnd) (hor : op ≠ .logOr)
    (hl : Represents v u x) (hr : Represents w u' y) : op.Agrees u u' x y v w := by
  obtain ⟨b, i⟩ := v
  obtain ⟨c, j⟩ := w
  obtain ⟨rfl, rfl⟩ := hl
  obtain ⟨rfl, rfl⟩ := hr
  cases op with
  | mul => exact mul_agrees i j b c
  | div => exact div_agrees i j b c
  | mod => exact mod_agrees i j b c
  | add =>
    simp only [BinaryOp.Agrees, BinaryOp.denote, Word.wrap_read]
    exact ⟨_, rfl, rfl, Word.read_add⟩
  | sub =>
    simp only [BinaryOp.Agrees, BinaryOp.denote, Word.wrap_read]
    exact ⟨_, rfl, rfl, Word.read_sub⟩
  | shl => exact shl_agrees i j b c
  | shr => exact shr_agrees i j b c
  | lt | le | gt | ge => exact relational_agrees i j b c (by decide)
  | eq | ne => exact equality_agrees i j b c (by decide)
  | bitAnd | bitXor | bitOr =>
    simp only [BinaryOp.Agrees, BinaryOp.denote, Word.ofInt_read, read_wrap_bits]
    exact ⟨_, rfl, rfl, rfl⟩
  | logAnd => exact absurd rfl hand
  | logOr => exact absurd rfl hor

-- The defects

def CondExpr.wordsOk : CondExpr → Bool
  | .const _ => true
  | .ident name _ => identifierTokenType name == .identifier
  | .defined name => isMacroWord name
  | .unary _ e => e.wordsOk
  | .binary _ l r => l.wordsOk && r.wordsOk
  | .cond c a b => c.wordsOk && a.wordsOk && b.wordsOk

section
variable (isDefined : String → Bool)

/-- A `?:` whose selected arm is signed while the other one is unsigned. -/
def CondExpr.selectsSignedArm : CondExpr → Bool
  | .cond c a b =>
    match c.denote isDefined with
    | some x =>
      let chosen := if x ≠ 0 then a else b
      let other := if x ≠ 0 then b else a
      (chosen.denote isDefined).isSome && !chosen.isUnsigned && other.isUnsigned
    | none => false
  | _ => false

def CondExpr.overflowsDivision : CondExpr → Bool
  | .binary op l r =>
    match l.denote isDefined, r.denote isDefined with
    | some x, some y => op.overflows l.isUnsigned r.isUnsigned x y
    | _, _ => false
  | _ => false

structure CondExpr.Clean (e : CondExpr) : Prop where
  arms : e.selectsSignedArm isDefined = false
  quotient : e.overflowsDivision isDefined = false
  words : (e.denote isDefined).isSome = true → e.wordsOk = true

end

def isDefinedIn (table : MacroTable) (name : String) : Bool := (macroTableLookup table name).isSome

section
variable {table : MacroTable}

theorem outcome_wordsOk (e : CondExpr) (h : (e.outcome table eval).isSome = true) : e.wordsOk = true := by
  induction e generalizing eval with
  | const c => rfl
  | ident name hn | defined name =>
    simp only [CondExpr.outcome] at h
    split at h <;> simp_all [CondExpr.wordsOk]
  | unary op e ih =>
    simp only [CondExpr.outcome, Option.isSome_map] at h
    exact ih h
  | binary op l r ihl ihr =>
    obtain ⟨x, hx⟩ := isSome_iff_exists.mp h
    simp only [CondExpr.outcome, Option.bind_eq_some_iff] at hx
    obtain ⟨⟨v, t⟩, hl, ⟨w, t'⟩, hr, -⟩ := hx
    have hl' := ihl (isSome_of_eq_some hl)
    have hr' := ihr (isSome_of_eq_some hr)
    simp [CondExpr.wordsOk, hl', hr']
  | cond c a b ihc iha ihb =>
    obtain ⟨x, hx⟩ := isSome_iff_exists.mp h
    simp only [CondExpr.outcome, Option.bind_eq_some_iff, Option.map_eq_some_iff] at hx
    obtain ⟨⟨v, t⟩, hc, ⟨w, t'⟩, ha, ⟨y, t''⟩, hb, -⟩ := hx
    have hc' := ihc (isSome_of_eq_some hc)
    have ha' := iha (isSome_of_eq_some ha)
    have hb' := ihb (isSome_of_eq_some hb)
    simp [CondExpr.wordsOk, hc', ha', hb']

theorem outcome_skipped (table : MacroTable) (e : CondExpr) (h : e.wordsOk = true) :
    e.outcome table false = some (ppValueSigned 0, false) := by
  induction e with
  | const c => rfl
  | ident name hn | defined name => simp_all [CondExpr.wordsOk, CondExpr.outcome]
  | unary op e ih => simp [CondExpr.outcome, ih h]
  | binary op l r ihl ihr =>
    simp only [CondExpr.wordsOk, Bool.and_eq_true] at h
    simp [CondExpr.outcome, ihl h.1, evalRight_false, ihr h.2]
  | cond c a b ihc iha ihb =>
    simp only [CondExpr.wordsOk, Bool.and_eq_true] at h
    simp [CondExpr.outcome, ihc h.1.1, iha h.1.2, ihb h.2]

-- Agreement on trees

def CondExpr.Sound (table : MacroTable) (e : CondExpr) : Prop :=
  match e.denote (isDefinedIn table) with
  | some z => ∃ v, e.outcome table true = some (v, false) ∧ Represents v e.isUnsigned z
  | none => e.outcome table true = none

theorem IntConstant.represents (c : IntConstant) : Represents c.ppValue c.isUnsigned c.value := by
  refine ⟨rfl, Word.read_ofNat c.fits fun hu => ?_⟩
  simp only [IntConstant.isUnsigned, Bool.or_eq_false_iff, decide_eq_false_iff_not] at hu
  exact Nat.lt_of_not_le hu.2

open CondExpr (denote)

theorem CondExpr.Sound.unary (h : e.Sound table) : (CondExpr.unary op e).Sound table := by
  unfold CondExpr.Sound at h ⊢
  simp only [denote, CondExpr.outcome]
  cases hd : e.denote (isDefinedIn table) with
  | none =>
    simp only [hd] at h
    simp [h]
  | some z =>
    simp only [hd] at h
    obtain ⟨v, ho, hv⟩ := h
    exact ⟨op.apply v, by simp [ho], op.apply_represents hv⟩

theorem CondExpr.Sound.binary (hand : op ≠ .logAnd) (hor : op ≠ .logOr) (hl : l.Sound table)
    (hr : r.Sound table)
    (hq : (CondExpr.binary op l r).overflowsDivision (isDefinedIn table) = false) :
    (CondExpr.binary op l r).Sound table := by
  have heval : ∀ v, op.rules.evalRight true v = true := by
    intro v
    cases op <;> first | rfl | contradiction
  have hden : (CondExpr.binary op l r).denote (isDefinedIn table) =
      (l.denote (isDefinedIn table)).bind fun x => (r.denote (isDefinedIn table)).bind fun y =>
        op.denote l.isUnsigned r.isUnsigned x y := by
    cases op <;> first | rfl | contradiction
  unfold CondExpr.Sound at hl hr ⊢
  rw [hden]
  simp only [CondExpr.outcome, CondExpr.overflowsDivision] at hq ⊢
  cases hdl : l.denote (isDefinedIn table) with
  | none =>
    simp only [hdl] at hl
    simp [hl]
  | some x => ?_
  simp only [hdl] at hl hq
  obtain ⟨v, hol, hv⟩ := hl
  cases hdr : r.denote (isDefinedIn table) with
  | none =>
    simp only [hdr] at hr
    simp [hol, heval, hr]
  | some y => ?_
  simp only [hdr] at hr hq
  obtain ⟨w, hor', hw⟩ := hr
  have hagrees := op.agrees hand hor hv hw
  unfold BinaryOp.Agrees at hagrees
  simp only [bind_some, hol, heval, hor']
  cases hop : op.denote l.isUnsigned r.isUnsigned x y with
  | none =>
    simp only [hop] at hagrees
    simp [hagrees]
  | some z =>
    simp only [hop, hq] at hagrees
    obtain ⟨value, happly, hrep⟩ := hagrees
    exact ⟨value, by simp [happly], hrep⟩

theorem logical_decided (ho : l.outcome table true = some (v, false)) (hw : r.wordsOk = true)
    (heval : op.rules.evalRight true v = false)
    (happly : op.rules.apply op.token v (ppValueSigned 0) = some (value, false)) :
    (CondExpr.binary op l r).outcome table true = some (value, false) := by
  simp only [CondExpr.outcome, ho, bind_some, heval, outcome_skipped table r hw, happly]
  rfl

theorem logical_undecided (ho : l.outcome table true = some (v, false)) (hr : r.Sound table)
    (heval : op.rules.evalRight true v = true)
    (happly : ∀ w, op.rules.apply op.token v w = some (ppValueBool (ppValueTruthy w), false)) :
    match (r.denote (isDefinedIn table)).map fun y => truth (y ≠ 0) with
    | some z => ∃ value, (CondExpr.binary op l r).outcome table true = some (value, false) ∧
        Represents value false z
    | none => (CondExpr.binary op l r).outcome table true = none := by
  unfold CondExpr.Sound at hr
  cases hd : r.denote (isDefinedIn table) with
  | none =>
    simp only [hd] at hr
    simp [CondExpr.outcome, ho, heval, hr]
  | some y => ?_
  simp only [hd] at hr
  obtain ⟨w, hor, hw⟩ := hr
  refine ⟨ppValueBool (ppValueTruthy w), by simp [CondExpr.outcome, ho, heval, hor, happly], ?_⟩
  rw [hw.truthy]
  exact represents_bool (y ≠ 0)

theorem CondExpr.Sound.logAnd (hl : l.Sound table)
    (hr : ∀ x, l.denote (isDefinedIn table) = some x → x ≠ 0 → r.Sound table)
    (hw : ((CondExpr.binary .logAnd l r).denote (isDefinedIn table)).isSome = true →
      r.wordsOk = true) : (CondExpr.binary .logAnd l r).Sound table := by
  unfold CondExpr.Sound at hl ⊢
  cases hdl : l.denote (isDefinedIn table) with
  | none =>
    simp only [hdl] at hl
    simp [denote, CondExpr.outcome, hdl, hl]
  | some x => ?_
  simp only [hdl] at hl
  obtain ⟨v, hol, hv⟩ := hl
  have htruthy := hv.truthy
  simp only [denote, hdl, bind_some] at hw ⊢
  by_cases hx : x = 0
  · simp only [hx, ↓reduceIte] at hw ⊢
    refine ⟨ppValueBool false, ?_, represents_bool False⟩
    refine logical_decided hol (hw rfl) ?_ ?_
    · show (true && ppValueTruthy v) = _
      simp [htruthy, hx]
    · show some (ppValueBool (ppValueTruthy v && _), false) = _
      simp [htruthy, hx]
  · simp only [hx, ↓reduceIte]
    refine logical_undecided hol (hr x hdl hx) ?_ fun w => ?_
    · show (true && ppValueTruthy v) = _
      simp [htruthy, hx]
    · show some (ppValueBool (ppValueTruthy v && _), false) = _
      simp [htruthy, hx]

theorem CondExpr.Sound.logOr (hl : l.Sound table)
    (hr : ∀ x, l.denote (isDefinedIn table) = some x → x = 0 → r.Sound table)
    (hw : ((CondExpr.binary .logOr l r).denote (isDefinedIn table)).isSome = true →
      r.wordsOk = true) : (CondExpr.binary .logOr l r).Sound table := by
  unfold CondExpr.Sound at hl ⊢
  cases hdl : l.denote (isDefinedIn table) with
  | none =>
    simp only [hdl] at hl
    simp [denote, CondExpr.outcome, hdl, hl]
  | some x => ?_
  simp only [hdl] at hl
  obtain ⟨v, hol, hv⟩ := hl
  have htruthy := hv.truthy
  simp only [denote, hdl, bind_some] at hw ⊢
  by_cases hx : x = 0
  · simp only [hx, ne_eq, not_true_eq_false, ↓reduceIte]
    refine logical_undecided hol (hr x hdl hx) ?_ fun w => ?_
    · show (true && !ppValueTruthy v) = true
      simp [htruthy, hx]
    · show some (ppValueBool (ppValueTruthy v || _), false) = _
      simp [htruthy, hx]
  · simp only [ne_eq, hx, not_false_eq_true, ↓reduceIte] at hw ⊢
    refine ⟨ppValueBool true, ?_, represents_bool True⟩
    refine logical_decided hol (hw rfl) ?_ ?_
    · show (true && !ppValueTruthy v) = false
      simp [htruthy, hx]
    · show some (ppValueBool (ppValueTruthy v || _), false) = _
      simp [htruthy, hx]

/-- The selected arm, and the type of the whole expression. -/
theorem Represents.widen (h : Represents v u z) (u' : Bool) (hu : u = false → u' = false) :
    Represents v (u || u') (wrap 64 (u || u') z) := by
  obtain ⟨rfl, rfl⟩ := h
  cases hv : v.isUnsigned with
  | false => simp [Represents, hv, hu hv]
  | true => simp [Represents, hv]

theorem CondExpr.Sound.cond (hc : c.Sound table)
    (ha : ∀ x, c.denote (isDefinedIn table) = some x → x ≠ 0 → a.Sound table)
    (hb : ∀ x, c.denote (isDefinedIn table) = some x → x = 0 → b.Sound table)
    (hclean : (CondExpr.cond c a b).Clean (isDefinedIn table)) :
    (CondExpr.cond c a b).Sound table := by
  obtain ⟨harms, -, hwords⟩ := hclean
  unfold CondExpr.Sound at hc ⊢
  cases hdc : c.denote (isDefinedIn table) with
  | none =>
    simp only [hdc] at hc
    simp [denote, CondExpr.outcome, hdc, hc]
  | some x => ?_
  simp only [hdc] at hc
  obtain ⟨v, hoc, hv⟩ := hc
  have htruthy := hv.truthy
  simp only [denote, CondExpr.selectsSignedArm, CondExpr.wordsOk, hdc, bind_some,
    Option.isSome_map, Bool.and_eq_true] at harms hwords ⊢
  by_cases hx : x = 0
  · have hsound := hb x hdc hx
    unfold CondExpr.Sound at hsound
    simp only [hx, ne_eq, not_true_eq_false, ↓reduceIte, decide_false] at harms hwords htruthy ⊢
    cases hdb : b.denote (isDefinedIn table) with
    | none =>
      simp only [hdb] at hsound
      simp [CondExpr.outcome, hoc, htruthy, hsound]
    | some y => ?_
    simp only [hdb] at hsound harms hwords
    obtain ⟨w, hob, hw⟩ := hsound
    have hskip := outcome_skipped table a (hwords rfl).1.2
    refine ⟨w, by simp [CondExpr.outcome, hoc, htruthy, hskip, hob], ?_⟩
    have := hw.widen a.isUnsigned (by simpa using harms)
    rwa [Bool.or_comm] at this
  · have hsound := ha x hdc hx
    unfold CondExpr.Sound at hsound
    simp only [hx, ne_eq, not_false_eq_true, ↓reduceIte, decide_true] at harms hwords htruthy ⊢
    cases hda : a.denote (isDefinedIn table) with
    | none =>
      simp only [hda] at hsound
      simp [CondExpr.outcome, hoc, htruthy, hsound]
    | some y => ?_
    simp only [hda] at hsound harms hwords
    obtain ⟨w, hoa, hw⟩ := hsound
    have hskip := outcome_skipped table b (hwords rfl).2
    refine ⟨w, by simp [CondExpr.outcome, hoc, htruthy, hskip, hoa], ?_⟩
    exact hw.widen b.isUnsigned (by simpa using harms)

/-- Where every evaluated part is free of the defects, the code is sound. -/
theorem CondExpr.sound_of_clean (e : CondExpr)
    (h : ∀ e' ∈ e.evaluated (isDefinedIn table), e'.Clean (isDefinedIn table)) : e.Sound table := by
  induction e with
  | const c => exact ⟨c.ppValue, rfl, c.represents⟩
  | ident name hn =>
    have hw := (h _ List.mem_cons_self).words rfl
    refine ⟨ppValueSigned 0, ?_, represents_signed_zero⟩
    simp_all [CondExpr.wordsOk, CondExpr.outcome]
  | defined name =>
    have hw := (h _ List.mem_cons_self).words rfl
    refine ⟨ppValueBool (isDefinedIn table name), ?_, ?_⟩
    · simp_all [CondExpr.wordsOk, CondExpr.outcome, isDefinedIn]
    · simpa [CondExpr.isUnsigned] using represents_bool (isDefinedIn table name = true)
  | unary op e ih =>
    exact CondExpr.Sound.unary (ih fun e' he => h e' (List.mem_cons_of_mem _ he))
  | binary op l r ihl ihr =>
    have hself := h _ List.mem_cons_self
    have hl := ihl fun e' he => h e' (List.mem_cons_of_mem _ (List.mem_append_left _ he))
    by_cases hand : op = .logAnd
    · subst hand
      refine hl.logAnd (fun x hx hx0 => ihr fun e' he => h e' ?_) fun hs => ?_
      · simp [CondExpr.evaluated, hx, hx0, he]
      · have := hself.words hs
        simp_all [CondExpr.wordsOk]
    · by_cases hor : op = .logOr
      · subst hor
        refine hl.logOr (fun x hx hx0 => ihr fun e' he => h e' ?_) fun hs => ?_
        · simp [CondExpr.evaluated, hx, hx0, he]
        · have := hself.words hs
          simp_all [CondExpr.wordsOk]
      · refine hl.binary hand hor (ihr fun e' he => h e' ?_) hself.quotient
        unfold CondExpr.evaluated
        cases op <;> first | contradiction | simp [he]
  | cond c a b ihc iha ihb =>
    have hc := ihc fun e' he => h e' (List.mem_cons_of_mem _ (List.mem_append_left _ he))
    refine hc.cond (fun x hx hx0 => iha fun e' he => h e' ?_)
      (fun x hx hx0 => ihb fun e' he => h e' ?_) (h _ List.mem_cons_self)
    all_goals simp [CondExpr.evaluated, hx, hx0, he]

-- The defects do show

/-- The outcome that the grammar's C semantics asks for: success exactly when no
zero divisor is evaluated, with the reference value and type. -/
def CondExpr.Meets (table : MacroTable) (e : CondExpr) : Prop :=
  match e.denote (isDefinedIn table) with
  | some z => ∃ v, e.outcome table true = some (v, false) ∧ Represents v e.isUnsigned z
  | none => ∀ v, e.outcome table true ≠ some (v, false)

theorem CondExpr.Sound.meets {e : CondExpr} (h : e.Sound table) : e.Meets table := by
  unfold CondExpr.Sound at h
  unfold CondExpr.Meets
  cases hd : e.denote (isDefinedIn table) with
  | none =>
    simp only [hd] at h
    simp [h]
  | some z => simpa [hd] using h

theorem CondExpr.Meets.value {e : CondExpr} (h : e.Meets table)
    (hd : e.denote (isDefinedIn table) = some z) :
    ∃ v, e.outcome table true = some (v, false) ∧ Represents v e.isUnsigned z := by
  simpa [CondExpr.Meets, hd] using h

theorem CondExpr.mem_evaluated_self (e : CondExpr) : e ∈ e.evaluated isDefined := by
  cases e <;> simp [CondExpr.evaluated]

theorem CondExpr.evaluated_trans (e : CondExpr) (h' : e' ∈ e.evaluated isDefined)
    (h'' : e'' ∈ e'.evaluated isDefined) : e'' ∈ e.evaluated isDefined := by
  induction e with
  | const c | ident name hn | defined name =>
    rw [List.mem_singleton.mp h'] at h''
    exact h''
  | unary op e ih =>
    rcases List.mem_cons.mp h' with rfl | h'
    · exact h''
    · exact List.mem_cons_of_mem _ (ih h')
  | binary op l r ihl ihr =>
    rcases List.mem_cons.mp h' with rfl | h'
    · exact h''
    · refine List.mem_cons_of_mem _ ?_
      rcases List.mem_append.mp h' with h' | h'
      · exact List.mem_append_left _ (ihl h')
      · refine List.mem_append_right _ ?_
        revert h'
        split
        · split <;> simp_all
        · split <;> simp_all
        · simp
        · simp
        · exact ihr
  | cond c a b ihc iha ihb =>
    rcases List.mem_cons.mp h' with rfl | h'
    · exact h''
    · refine List.mem_cons_of_mem _ ?_
      rcases List.mem_append.mp h' with h' | h'
      · exact List.mem_append_left _ (ihc h')
      · refine List.mem_append_right _ ?_
        revert h'
        split
        · split <;> simp_all
        · simp

theorem outcome_cond (hoc : c.outcome table true = some (v, t))
    (ho : (CondExpr.cond c a b).outcome table true = some (v', t'))
    (harm : (if ppValueTruthy v then a else b).outcome table true = some (w, t'')) : v' = w := by
  simp only [CondExpr.outcome, hoc, bind_some, Option.bind_eq_some_iff,
    Option.map_eq_some_iff, Prod.exists, Prod.mk.injEq] at ho
  obtain ⟨x, ta, ha, y, tb, hb, hv, -⟩ := ho
  cases h : ppValueTruthy v with
  | true =>
    simp only [h, ↓reduceIte, Bool.and_self] at harm ha hv
    rw [harm] at ha
    cases ha
    exact hv.symm
  | false =>
    simp only [h, Bool.false_eq_true, ↓reduceIte, Bool.not_false, Bool.and_self] at harm hb hv
    rw [harm] at hb
    cases hb
    exact hv.symm

theorem CondExpr.Meets.not_selectsSignedArm (e : CondExpr)
    (h : ∀ e' ∈ e.evaluated (isDefinedIn table), e'.Meets table) :
    e.selectsSignedArm (isDefinedIn table) = false := by
  cases e with
  | cond c a b =>
    have hself := h _ List.mem_cons_self
    simp only [CondExpr.selectsSignedArm]
    cases hdc : c.denote (isDefinedIn table) with
    | none => rfl
    | some x => ?_
    obtain ⟨v, hoc, hv⟩ := (h c (by simp [CondExpr.evaluated, c.mem_evaluated_self])).value hdc
    have htruthy := hv.truthy
    by_contra hbad
    by_cases hx : x = 0
    · simp only [hx, ne_eq, not_true_eq_false, ↓reduceIte, Bool.not_eq_false, Bool.and_eq_true,
        Bool.not_eq_true'] at hbad
      obtain ⟨⟨hsome, hsigned⟩, hother⟩ := hbad
      obtain ⟨y, hdb⟩ := isSome_iff_exists.mp hsome
      obtain ⟨w, hob, hw⟩ :=
        (h b (by simp [CondExpr.evaluated, hdc, hx, b.mem_evaluated_self])).value hdb
      obtain ⟨v', ho, hv'⟩ := hself.value (z := wrap 64 (a.isUnsigned || b.isUnsigned) y)
        (by simp [denote, hdc, hx, hdb])
      have hsame : v' = w := outcome_cond hoc ho (by simpa [htruthy, hx] using hob)
      have h1 := hw.1
      have h2 := hv'.1
      simp [hsame, h1, CondExpr.isUnsigned, hsigned, hother] at h2
    · simp only [ne_eq, hx, not_false_eq_true, ↓reduceIte, Bool.not_eq_false, Bool.and_eq_true,
        Bool.not_eq_true'] at hbad
      obtain ⟨⟨hsome, hsigned⟩, hother⟩ := hbad
      obtain ⟨y, hda⟩ := isSome_iff_exists.mp hsome
      obtain ⟨w, hoa, hw⟩ :=
        (h a (by simp [CondExpr.evaluated, hdc, hx, a.mem_evaluated_self])).value hda
      obtain ⟨v', ho, hv'⟩ := hself.value (z := wrap 64 (a.isUnsigned || b.isUnsigned) y)
        (by simp [denote, hdc, hx, hda])
      have hsame : v' = w := outcome_cond hoc ho (by simpa [htruthy, hx] using hoa)
      have h1 := hw.1
      have h2 := hv'.1
      simp [hsame, h1, CondExpr.isUnsigned, hsigned, hother] at h2
  | _ => rfl

theorem CondExpr.Meets.not_overflowsDivision (e : CondExpr)
    (h : ∀ e' ∈ e.evaluated (isDefinedIn table), e'.Meets table) :
    e.overflowsDivision (isDefinedIn table) = false := by
  cases e with
  | binary op l r =>
    simp only [CondExpr.overflowsDivision]
    split
    · rename_i x y hdl hdr
      by_contra hbad
      have hover : op.overflows l.isUnsigned r.isUnsigned x y = true := by simpa using hbad
      have hop : op = .div ∨ op = .mod := by
        simp only [BinaryOp.overflows, Bool.and_eq_true, Bool.or_eq_true, beq_iff_eq] at hover
        exact hover.1.1.1.1
      obtain ⟨hand, hor⟩ : op ≠ .logAnd ∧ op ≠ .logOr := by
        rcases hop with rfl | rfl <;> decide
      obtain ⟨v, hol, hv⟩ := (h l (by simp [CondExpr.evaluated, l.mem_evaluated_self])).value hdl
      obtain ⟨w, hor', hw⟩ := (h r (by
        rcases hop with rfl | rfl <;> simp [CondExpr.evaluated, r.mem_evaluated_self])).value hdr
      have hagrees := op.agrees hand hor hv hw
      have hself := h _ List.mem_cons_self
      have hdenote : (CondExpr.binary op l r).denote (isDefinedIn table) =
          op.denote l.isUnsigned r.isUnsigned x y := by
        rcases hop with rfl | rfl <;> simp [denote, hdl, hdr]
      unfold BinaryOp.Agrees at hagrees
      cases hz : op.denote l.isUnsigned r.isUnsigned x y with
      | none =>
        -- minus one is no zero divisor
        simp only [BinaryOp.overflows, Bool.and_eq_true, beq_iff_eq, Bool.not_eq_true'] at hover
        obtain ⟨⟨⟨⟨-, hu⟩, hu'⟩, -⟩, rfl⟩ := hover
        rcases hop with rfl | rfl <;> simp [BinaryOp.denote, hu, hu', Word.wrap] at hz
      | some z =>
        simp only [hz, hover] at hagrees
        obtain ⟨value, happly, -⟩ := hagrees
        obtain ⟨v', ho, -⟩ := hself.value (hdenote.trans hz)
        have heval : op.rules.evalRight true v = true := by
          rcases hop with rfl | rfl <;> rfl
        simp [CondExpr.outcome, hol, heval, hor', happly] at ho
    · rfl
  | _ => rfl

theorem CondExpr.Meets.words {e : CondExpr} (h : e.Meets table)
    (hd : (e.denote (isDefinedIn table)).isSome = true) : e.wordsOk = true := by
  obtain ⟨z, hz⟩ := isSome_iff_exists.mp hd
  obtain ⟨v, ho, -⟩ := h.value hz
  exact outcome_wordsOk e (isSome_of_eq_some ho)

theorem CondExpr.meets_iff_clean (table : MacroTable) (e : CondExpr) :
    (∀ e' ∈ e.evaluated (isDefinedIn table), e'.Meets table) ↔
      ∀ e' ∈ e.evaluated (isDefinedIn table), e'.Clean (isDefinedIn table) := by
  constructor
  · intro h e' he'
    have hparts := fun e'' he'' => h e'' (CondExpr.evaluated_trans e he' he'')
    exact ⟨CondExpr.Meets.not_selectsSignedArm e' hparts,
      CondExpr.Meets.not_overflowsDivision e' hparts, (h e' he').words⟩
  · intro h e' he'
    exact (e'.sound_of_clean fun e'' he'' => h e'' (CondExpr.evaluated_trans e he' he'')).meets

end

-- Spellings

theorem Derives.mono (h : Derives l e ts) (hlm : l ≤ m) (hm : m ≤ 12) : Derives m e ts := by
  induction hlm with
  | refl => exact h
  | step _ ih => exact .lift (ih (by omega)) (by omega)

theorem isWord_word (name : String) : IsWord name (word name) := ⟨rfl, rfl⟩

theorem CondExpr.level_le (e : CondExpr) : e.level ≤ 12 := by
  cases e with
  | binary op _ _ => exact Nat.le_succ_of_le op.level_range.2
  | _ => simp [CondExpr.level]

/-- A tree spelled at its own level may stand at any level, in parentheses if
need be. -/
theorem Derives.place (h : Derives e.level e ts) (full : Bool) (hl : l ≤ 12) :
    Derives l e (if l < e.level ∨ (full ∧ 0 < e.level) then
      punctuator .lparen :: (ts ++ [punctuator .rparen]) else ts) := by
  split
  · exact (Derives.paren rfl (h.mono e.level_le (Nat.le_refl _)) rfl).mono (Nat.zero_le l) hl
  · exact h.mono (by omega) hl

/-- The printed tokens derive the tree, with or without extra parentheses. -/
theorem CondExpr.derives_tokens (full : Bool) (e : CondExpr) (l : Nat) (hl : l ≤ 12) :
    Derives l e (e.tokens full l) := by
  induction e generalizing l with
  | const c =>
    refine Derives.place ?_ full hl
    exact .const rfl rfl
  | ident name hn =>
    refine Derives.place ?_ full hl
    exact .ident (isWord_word name)
  | defined name =>
    refine Derives.place ?_ full hl
    exact .definedParen (isWord_word _) rfl (isWord_word name) rfl
  | unary op e ih =>
    refine Derives.place ?_ full hl
    exact .unary rfl (ih 1 (by omega))
  | binary op a b iha ihb =>
    have hrange := op.level_range
    obtain ⟨k, hk⟩ : ∃ k, op.level = k + 1 := ⟨op.level - 1, by omega⟩
    have hb := ihb (op.level - 1) (by omega)
    have ha := iha op.level (by omega)
    refine Derives.place ?_ full hl
    simp only [CondExpr.level]
    rw [hk] at ha hb ⊢
    exact .binary hk ha rfl hb
  | cond c a b ihc iha ihb =>
    refine Derives.place ?_ full hl
    exact .cond (ihc 11 (by omega)) rfl (iha 12 (by omega)) rfl (ihb 12 (by omega))

theorem CondExpr.spells_tokens (full : Bool) (e : CondExpr) : Spells e (e.tokens full 12) :=
  e.derives_tokens full 12 (Nat.le_refl _)

-- Evaluating a spelling

def Succeeds (r : PPValue × PPExprParser) : Prop :=
  r.2.error = false ∧ r.2.trapped = false ∧ r.2.tokens = []

/-- Evaluating the tokens succeeds exactly when no division or remainder by
zero is evaluated, and then gives the reference value in the reference type. -/
structure MeetsReference (table : MacroTable) (e : CondExpr) (ts : List Token) : Prop where
  succeeds : Succeeds (parseConditional table ⟨ts, false, false⟩ true) ↔
    (e.denote (isDefinedIn table)).isSome = true
  value : ∀ z, e.denote (isDefinedIn table) = some z →
    Represents (parseConditional table ⟨ts, false, false⟩ true).1 e.isUnsigned z

theorem meetsReference_iff (table : MacroTable) (h : Spells e ts) :
    MeetsReference table e ts ↔ e.Meets table := by
  have hparse := parseConditional_spelling table h true
  have hfields : MeetsReference table e ts ↔ _ ∧ _ := ⟨fun h => ⟨h.1, h.2⟩, fun h => ⟨h.1, h.2⟩⟩
  rw [hfields]
  generalize parseConditional table ⟨ts, false, false⟩ true = r at hparse ⊢
  unfold Yields at hparse
  unfold CondExpr.Meets Succeeds
  cases ho : e.outcome table true with
  | none =>
    simp only [ho] at hparse
    cases e.denote (isDefinedIn table) <;> simp [hparse]
  | some o => ?_
  obtain ⟨v, t⟩ := o
  simp only [ho] at hparse
  subst hparse
  cases t <;> cases e.denote (isDefinedIn table) <;> simp

/-- The evaluator meets the reference on every part that is evaluated, whatever
its spelling, exactly when none of these parts has one of the three defects. -/
theorem parseConditional_meets_reference_iff (table : MacroTable) (e : CondExpr) :
    (∀ e' ∈ e.evaluated (isDefinedIn table), ∀ ts, Spells e' ts → MeetsReference table e' ts) ↔
      ∀ e' ∈ e.evaluated (isDefinedIn table), e'.Clean (isDefinedIn table) := by
  rw [← CondExpr.meets_iff_clean]
  constructor
  · intro h e' he'
    have hs := e'.spells_tokens true
    rw [← meetsReference_iff table hs]
    exact h e' he' _ hs
  · intro h e' he' ts hs
    rw [meetsReference_iff table hs]
    exact h e' he'

/-- The expression `1 ? -1 : 0u`. -/
def signedArmExpr : CondExpr :=
  let one : IntConstant :=
    ⟨.decimal, [], ['1'], [], by decide, List.forall_mem_singleton.mpr (by decide), by decide, by decide,
      by decide⟩
  let zero : IntConstant :=
    ⟨.octal, ['0'], [], ['u'], by decide, List.forall_mem_nil _, by decide, by decide, by decide⟩
  .cond (.const one) (.unary .minus (.const one)) (.const zero)

theorem signedArmExpr_not_meets_reference :
    ¬ ∀ (table : MacroTable) (e : CondExpr) (ts : List Token), Spells e ts → MeetsReference table e ts := by
  intro h
  have hbad := h macroTableCreate signedArmExpr _ (signedArmExpr.spells_tokens false)
  rw [meetsReference_iff macroTableCreate (signedArmExpr.spells_tokens false)] at hbad
  obtain ⟨v, ho, hv⟩ := hbad.value (z := 2 ^ 64 - 1) (by decide)
  have hout : signedArmExpr.outcome macroTableCreate true = some (ppValueSigned (-1), false) := by
    decide
  cases ho
  exact absurd hv.1 (by decide)

end Fisics
