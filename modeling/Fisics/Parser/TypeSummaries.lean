import Fisics.Parser.TypeName

/-!
# What a type records of its derivations

Beside the list of derivations a type has `pointerDepth` and `isVLA`. The depth is the number
of pointers after any operations, and where the first derivation is taken off the others are
left. `isVLA` is not computed again when an array is taken off, and is not set for a variable
array that is appended without the mark. The kind of the base and the array that a parameter
was declared with are left out.
-/

namespace Fisics.Declarators

def parsedTypeClone (t : DeclaredType E P) : DeclaredType E P :=
  { t with fpParams := if t.derivations.any TypeDerivation.isFunction then [] else t.fpParams }

def parsedTypeRefreshFunctionFlags (t : DeclaredType E P) : DeclaredType E P :=
  match t.derivations.dropWhile (!·.isFunction) with
  | .function signature :: _ =>
    { t with
      isFunctionPointer := (t.derivations.takeWhile (!·.isFunction)).any TypeDerivation.isPointer
      directlyDeclaresFunction := true
      isVariadicFunction := signature.isVariadic }
  | _ => { t with isFunctionPointer := false, directlyDeclaresFunction := false, isVariadicFunction := false }

def parsedTypeArrayElementType (t : DeclaredType E P) : DeclaredType E P :=
  match t.derivations with
  | .array _ :: rest => parsedTypeRefreshFunctionFlags { parsedTypeClone t with derivations := rest }
  | _ => parsedTypeClone t

/-- Nothing is left of a type without pointers. -/
def parsedTypePointerTargetType (t : DeclaredType E P) : DeclaredType E P :=
  let lower := { parsedTypeClone t with pointerDepth := t.pointerDepth - 1 }
  match t.derivations.dropWhile (!·.isPointer) with
  | _ :: after => parsedTypeRefreshFunctionFlags
      { lower with derivations := t.derivations.takeWhile (!·.isPointer) ++ after }
  | [] => if 0 < t.pointerDepth then parsedTypeRefreshFunctionFlags lower else .base

def parsedTypeFunctionReturnType (t : DeclaredType E P) : DeclaredType E P :=
  match t.derivations.dropWhile (!·.isFunction) with
  | _ :: after => parsedTypeRefreshFunctionFlags { parsedTypeClone t with
      derivations := after
      pointerDepth := t.pointerDepth -
        (t.derivations.takeWhile (!·.isFunction)).countP TypeDerivation.isPointer }
  | [] => parsedTypeClone t

section
variable (isLiteral : E → Bool)

/-- No array is flexible here. -/
def TypeDerivation.isVariable : TypeDerivation E P → Bool
  | .array info => info.isVLA || info.constantSize.isNone && info.sizeExpr.any (!isLiteral ·)
  | _ => false

def parsedTypeHasVLA (t : DeclaredType E P) : Bool := t.derivations.any (·.isVariable isLiteral)

def parsedTypeAdjustArrayParameter (t : DeclaredType E P) : DeclaredType E P :=
  match t.derivations with
  | .array info :: rest =>
    let t := { t with
      derivations := .pointer ⟨info.qualConst, info.qualVolatile, info.qualRestrict⟩ :: rest
      pointerDepth := t.pointerDepth + 1 }
    { t with isVLA := parsedTypeHasVLA isLiteral t }
  | _ => t

def parsedTypeAdjustFunctionParameter (t : DeclaredType E P) : DeclaredType E P :=
  let t := parsedTypeAdjustArrayParameter isLiteral t
  match t.derivations with
  | .function signature :: rest =>
    parsedTypeNormalizeFunctionPointer { t with
      derivations := .pointer ⟨false, false, false⟩ :: .function signature :: rest
      pointerDepth := t.pointerDepth + 1
      directlyDeclaresFunction := false
      isFunctionPointer := true }
  | _ => t

inductive TypeOp (E P : Type)
  | appendPointer
  | appendArray (sizeExpr : Option E) (isVLA : Bool)
  | appendFunction (signature : FunctionSignature P)
  | adjustArrayParameter
  | adjustFunctionParameter
  | arrayElementType
  | pointerTargetType
  | functionReturnType

def appendedArray (sizeExpr : Option E) (isVLA : Bool) : ArrayInfo E :=
  ⟨sizeExpr, isVLA, none, false, false, false, false⟩

def TypeOp.apply (t : DeclaredType E P) : TypeOp E P → DeclaredType E P
  | appendPointer => parsedTypeAppendPointer t ⟨false, false, false⟩
  | appendArray sizeExpr isVLA => parsedTypeAppendArray t (appendedArray sizeExpr isVLA)
  | appendFunction signature => parsedTypeAppendFunction t signature
  | adjustArrayParameter => parsedTypeAdjustArrayParameter isLiteral t
  | adjustFunctionParameter => parsedTypeAdjustFunctionParameter isLiteral t
  | arrayElementType => parsedTypeArrayElementType t
  | pointerTargetType => parsedTypePointerTargetType t
  | functionReturnType => parsedTypeFunctionReturnType t

/-- An array is marked as it is, or another is variable; no last variable array is taken off. -/
def TypeOp.KeepsVLA (t : DeclaredType E P) : TypeOp E P → Prop
  | appendArray sizeExpr isVLA => parsedTypeHasVLA isLiteral t = true ∨
      isVLA = (TypeDerivation.array (appendedArray sizeExpr isVLA) : TypeDerivation E P).isVariable isLiteral
  | arrayElementType => t.derivations.tail.any (·.isVariable isLiteral) = parsedTypeHasVLA isLiteral t
  | functionReturnType => t.derivations.any TypeDerivation.isFunction = true →
      (t.derivations.dropWhile (!·.isFunction)).any (·.isVariable isLiteral) = parsedTypeHasVLA isLiteral t
  | _ => True

def run (t : DeclaredType E P) (ops : List (TypeOp E P)) :
    DeclaredType E P := ops.foldl (TypeOp.apply isLiteral) t

def KeepsAll : DeclaredType E P → List (TypeOp E P) → Prop
  | _, [] => True
  | t, op :: ops => op.KeepsVLA isLiteral t ∧ KeepsAll (op.apply isLiteral t) ops

variable {isLiteral} {t : DeclaredType E P}

@[simp] theorem refresh_summary (t : DeclaredType E P) :
    (parsedTypeRefreshFunctionFlags t).derivations = t.derivations ∧
      (parsedTypeRefreshFunctionFlags t).pointerDepth = t.pointerDepth ∧
      (parsedTypeRefreshFunctionFlags t).isVLA = t.isVLA := by
  unfold parsedTypeRefreshFunctionFlags
  split <;> exact ⟨rfl, rfl, rfl⟩

theorem normalize_of_head (h : headIsPointer t.derivations = true) :
    parsedTypeNormalizeFunctionPointer t = t := by
  rw [parsedTypeNormalizeFunctionPointer, movePointersBeforeFunction_of_head h, ite_self]

def CountsPointers (t : DeclaredType E P) : Prop :=
  t.pointerDepth = t.derivations.countP TypeDerivation.isPointer

def MarksVLA (isLiteral : E → Bool) (t : DeclaredType E P) : Prop := t.isVLA = parsedTypeHasVLA isLiteral t

variable (isLiteral) in
theorem adjustArray_summary (h : CountsPointers t) :
    CountsPointers (parsedTypeAdjustArrayParameter isLiteral t) ∧
      (MarksVLA isLiteral t → MarksVLA isLiteral (parsedTypeAdjustArrayParameter isLiteral t)) := by
  unfold parsedTypeAdjustArrayParameter
  split
  · rename_i hd
    exact ⟨by simpa [CountsPointers, hd] using h, fun _ => rfl⟩
  · exact ⟨h, id⟩

variable (isLiteral) in
theorem apply_summary (op : TypeOp E P) (h : CountsPointers t) :
    CountsPointers (op.apply isLiteral t) ∧
      (MarksVLA isLiteral t → (MarksVLA isLiteral (op.apply isLiteral t) ↔ op.KeepsVLA isLiteral t)) := by
  simp only [CountsPointers, MarksVLA, parsedTypeHasVLA] at *
  cases op with
  | appendPointer | appendFunction _ =>
    simp [TypeOp.apply, parsedTypeAppendPointer, parsedTypeAppendFunction, h, TypeOp.KeepsVLA,
      TypeDerivation.isVariable]
  | appendArray sizeExpr isVLA =>
    refine ⟨by simp [TypeOp.apply, parsedTypeAppendArray, h], fun hvla => ?_⟩
    simp only [TypeOp.apply, parsedTypeAppendArray, TypeOp.KeepsVLA, parsedTypeHasVLA, List.any_append,
      List.any_cons, List.any_nil, Bool.or_false, hvla, appendedArray]
    cases t.derivations.any (·.isVariable isLiteral) <;> simp
  | adjustArrayParameter =>
    obtain ⟨hdepth, hvla⟩ := adjustArray_summary isLiteral h
    exact ⟨hdepth, fun h => iff_of_true (hvla h) trivial⟩
  | adjustFunctionParameter =>
    obtain ⟨hdepth, hvla⟩ := adjustArray_summary isLiteral h
    simp only [TypeOp.apply, parsedTypeAdjustFunctionParameter]
    split
    · rename_i hd
      rw [normalize_of_head rfl]
      simp only [CountsPointers, MarksVLA, parsedTypeHasVLA, hd] at hdepth hvla
      exact ⟨by simpa using hdepth, fun h => iff_of_true (hvla h) trivial⟩
    · exact ⟨hdepth, fun h => iff_of_true (hvla h) trivial⟩
  | arrayElementType =>
    simp only [TypeOp.apply, parsedTypeArrayElementType, TypeOp.KeepsVLA, parsedTypeHasVLA]
    split
    · rename_i hd
      refine ⟨by simpa [parsedTypeClone, hd] using h, fun hvla => ?_⟩
      simp only [refresh_summary, parsedTypeClone, hvla, hd, List.tail_cons]
      exact eq_comm
    · rename_i hno
      refine ⟨h, fun hvla => iff_of_true hvla ?_⟩
      cases hd : t.derivations with
      | nil => rfl
      | cons d _ =>
        cases d with
        | array _ => exact absurd hd (hno _ _)
        | pointer _ | function _ => rfl
  | pointerTargetType =>
    simp only [TypeOp.apply, parsedTypePointerTargetType, TypeOp.KeepsVLA, iff_true]
    split
    · rename_i found after hd
      obtain ⟨hl, hfound⟩ := dropWhile_split hd
      have hplain : found.isVariable isLiteral = false := by cases found <;> first | rfl | cases hfound
      rw [hl] at h
      refine ⟨by simp [h, hfound, ← Nat.add_assoc], fun hvla => ?_⟩
      rw [hl] at hvla
      simpa [parsedTypeClone, hplain] using hvla
    · rename_i hd
      have hnone : t.pointerDepth = 0 := by
        rw [h, List.countP_eq_zero]
        simpa using hd
      rw [if_neg (by omega)]
      exact ⟨rfl, fun _ => rfl⟩
  | functionReturnType =>
    simp only [TypeOp.apply, parsedTypeFunctionReturnType, TypeOp.KeepsVLA, parsedTypeHasVLA]
    split
    · rename_i found after hd
      obtain ⟨hl, hfound⟩ := dropWhile_split hd
      have hplain : found.isVariable isLiteral = false := by cases found <;> first | rfl | cases hfound
      have hany : t.derivations.any TypeDerivation.isFunction = true := by
        rw [hl]
        simp [hfound]
      rw [hl] at h
      refine ⟨by simp [h, isPointer_of_isFunction hfound], fun hvla => ?_⟩
      simp only [refresh_summary, parsedTypeClone, hvla, hany, true_implies, hd, List.any_cons, hplain,
        Bool.false_or]
      exact eq_comm
    · rename_i hd
      refine ⟨h, fun hvla => iff_of_true hvla fun hany => ?_⟩
      rw [List.dropWhile_eq_nil_iff] at hd
      obtain ⟨d, hmem, hfunction⟩ := List.any_eq_true.mp hany
      simpa [hfunction] using hd d hmem

theorem run_countsPointers (ops : List (TypeOp E P)) (h : CountsPointers t) :
    CountsPointers (run isLiteral t ops) := by
  induction ops generalizing t with
  | nil => exact h
  | cons op ops ih => exact ih (apply_summary isLiteral op h).1

theorem marksVLA_iff (ops : List (TypeOp E P)) (h : CountsPointers t) (hvla : MarksVLA isLiteral t) :
    (∀ n, MarksVLA isLiteral (run isLiteral t (ops.take n))) ↔ KeepsAll isLiteral t ops := by
  induction ops generalizing t with
  | nil => exact iff_of_true (fun n => by rwa [List.take_nil]) trivial
  | cons op ops ih =>
    obtain ⟨hdepth, hkeeps⟩ := apply_summary isLiteral op h
    rw [KeepsAll, ← hkeeps hvla]
    constructor
    · intro hall
      exact ⟨hall 1, (ih hdepth (hall 1)).mp fun n => hall (n + 1)⟩
    · rintro ⟨hnext, hkept⟩ n
      cases n with
      | zero => exact hvla
      | succ n => exact (ih hdepth hnext).mpr hkept n

end

/-- The type that the first derivation of `t` stands for, without it. -/
def TypeDerivation.takenOff (t : DeclaredType E P) : TypeDerivation E P → DeclaredType E P
  | .pointer _ => parsedTypePointerTargetType t
  | .array _ => parsedTypeArrayElementType t
  | .function _ => parsedTypeFunctionReturnType t

theorem takenOff_derivations {t : DeclaredType E P} (h : t.derivations = d :: rest) :
    (d.takenOff t).derivations = rest := by
  cases d <;> simp [TypeDerivation.takenOff, parsedTypePointerTargetType, parsedTypeArrayElementType,
    parsedTypeFunctionReturnType, h]

/-- In any run the depth is exact, and `isVLA` is as long as every step keeps it. -/
theorem summaries_of_run (isLiteral : E → Bool) (ops : List (TypeOp E P)) :
    CountsPointers (run isLiteral .base ops) ∧
      ((∀ n, MarksVLA isLiteral (run isLiteral .base (ops.take n))) ↔ KeepsAll isLiteral .base ops) ∧
      ∀ d rest, (run isLiteral .base ops).derivations = d :: rest →
        (d.takenOff (run isLiteral .base ops)).derivations = rest :=
  ⟨run_countsPointers ops rfl, marksVLA_iff ops rfl rfl, fun _ _ => takenOff_derivations⟩

theorem element_marked :
    ¬MarksVLA (fun _ : Unit => false) (run (fun _ => false) (.base : DeclaredType Unit Unit)
      [.appendArray (some ()) true, .arrayElementType]) :=
  Bool.noConfusion

end Fisics.Declarators
