import Fisics.Parser.DeclaratorCorrect
import Fisics.Parser.TypeStructure

/-!
# When structural equality is an equivalence

Among types whose function pointers keep no second copy of their parameters, two types
are equal exactly when what is compared of them is the same, and a copy is equal to its
original. A copy drops the second copy of the parameters, so a type that has one differs
from its copy.
-/

namespace Fisics.Types

open Declarators (DeclaredType Environment Options DeclaratorState parserParseDeclarator
  ReadsParameters KeptBySteps finishType appendFunctionSuffix spine spine_array spine_function
  spine_finishType)

-- Inside the bounds

@[simp] theorem andThen_eq_true : andThen x y = some true ↔ x = some true ∧ y = some true := by
  rcases x with _ | _ | _ <;> simp [andThen]

theorem andThen_isSome_of (hx : x.isSome = true) (hy : x = some true → y.isSome = true) :
    (andThen x y).isSome = true := by
  rcases x with _ | _ | _
  · cases hx
  · rfl
  · exact hy rfl

theorem effective_params
    (h : parsedTypeGetEffectiveFunctionPointerSignature (.mk head fpParams derivations) = some signature) :
    if fpParams.isEmpty then findFirstFunctionDerivation derivations = some signature
    else signature.params = fpParams := by
  rw [parsedTypeGetEffectiveFunctionPointerSignature] at h
  split at h
  · cases h
  cases fpParams with
  | nil => exact h
  | cons p ps =>
    cases h
    rfl

theorem sameSignature_length (h : ¬ (!sameSignature a b) = true) : a.params.length = b.params.length := by
  simp only [sameSignature, Bool.not_eq_true', Bool.not_eq_false, Bool.and_eq_true, beq_iff_eq] at h
  exact h.1.1

def signaturesEqual (a b : ParsedType E) : Option Bool :=
  match parsedTypeGetEffectiveFunctionPointerSignature a,
      parsedTypeGetEffectiveFunctionPointerSignature b with
  | some lhs, some rhs =>
    if !sameSignature lhs rhs then some false
    else if a.fpParams.isEmpty then firstParamsEqual a.derivations rhs.params
    else paramsEqual a.fpParams rhs.params
  | none, none => some (a.fpParams.length == b.fpParams.length)
  | some _, none => some false
  | none, some _ => some false

/-- The second copies are compared up to the end of both. -/
theorem fpParams_length (h : signaturesEqual a b = some true)
    (hb : ¬ b.fpParams.isEmpty = true) : a.fpParams.length ≤ b.fpParams.length := by
  obtain ⟨head, fpParams, derivations⟩ := a
  obtain ⟨head', fpParams', derivations'⟩ := b
  rw [signaturesEqual] at h
  split at h
  next lhs rhs hlhs hrhs =>
    have hright := effective_params hrhs
    rw [if_neg (show ¬ fpParams'.isEmpty = true from hb)] at hright
    split at h
    · cases h
    next hsame =>
      have hlength := sameSignature_length hsame
      have hleft := effective_params hlhs
      split at hleft
      next hempty => simp [ParsedType.fpParams, List.isEmpty_iff.mp hempty]
      next => exact Nat.le_of_eq (by simpa [ParsedType.fpParams, hleft, hright] using hlength)
  · simp only [Option.some.injEq, beq_iff_eq] at h
    exact Nat.le_of_eq h
  all_goals cases h

mutual

theorem structurallyEqual_isSome (a b : ParsedType E) :
    (parsedTypesStructurallyEqual a b).isSome = true := by
  cases a with
  | mk head fpParams derivations =>
    rw [parsedTypesStructurallyEqual]
    split
    · rfl
    split
    · rfl
    refine andThen_isSome_of ?_ fun _ => ?_
    · split
      next hpointer =>
        refine andThen_isSome_of ?_ fun hsignature => ?_
        · split
          next lhs rhs hlhs hrhs =>
            split
            · rfl
            next hsame =>
              have hlength := sameSignature_length hsame
              have hparams := effective_params hlhs
              split
              next hempty =>
                rw [if_pos hempty] at hparams
                refine firstParamsEqual_isSome derivations _ fun signature hfirst => ?_
                obtain rfl := Option.some.inj (hparams.symm.trans hfirst)
                exact Nat.le_of_eq hlength
              next hempty =>
                rw [if_neg hempty] at hparams
                exact paramsEqual_isSome fpParams _ (Nat.le_of_eq (by rw [← hlength, hparams]))
          all_goals rfl
        · split
          · rfl
          next hb => exact paramsEqual_isSome fpParams _ (fpParams_length hsignature hb)
      · rfl
    · split
      · rfl
      next hlength => exact derivationsEqual_isSome derivations _ (Nat.le_of_eq (not_not.mp hlength))

theorem paramsEqual_isSome (as bs : List (ParsedType E)) (h : as.length ≤ bs.length) :
    (paramsEqual as bs).isSome = true := by
  cases as with
  | nil => rfl
  | cons a as => ?_
  cases bs with
  | nil => cases h
  | cons b bs =>
    exact andThen_isSome_of (structurallyEqual_isSome a b) fun _ =>
      paramsEqual_isSome as bs (Nat.le_of_succ_le_succ h)

theorem firstParamsEqual_isSome (derivations : List (TypeDerivation E)) (rhs : List (ParsedType E))
    (h : ∀ signature, findFirstFunctionDerivation derivations = some signature →
      signature.params.length ≤ rhs.length) :
    (firstParamsEqual derivations rhs).isSome = true := by
  cases derivations with
  | nil => rfl
  | cons d rest => ?_
  cases d with
  | function hasPrototype isVariadic params =>
    exact paramsEqual_isSome params rhs (h ⟨hasPrototype, isVariadic, params⟩ rfl)
  | pointer layer | array info => exact firstParamsEqual_isSome rest rhs h

theorem derivationsEqual_isSome (as bs : List (TypeDerivation E)) (h : as.length ≤ bs.length) :
    (derivationsEqual as bs).isSome = true := by
  cases as with
  | nil => rfl
  | cons a as => ?_
  cases bs with
  | nil => cases h
  | cons b bs =>
    exact andThen_isSome_of (derivationEqual_isSome a b) fun _ =>
      derivationsEqual_isSome as bs (Nat.le_of_succ_le_succ h)

theorem derivationEqual_isSome (a b : TypeDerivation E) : (derivationEqual a b).isSome = true := by
  cases a with
  | pointer layer | array info => cases b <;> rfl
  | function hasPrototype isVariadic params => ?_
  cases b with
  | pointer layer => rfl
  | array info => rfl
  | function hasPrototype' isVariadic' params' =>
    rw [derivationEqual]
    split
    · rfl
    next hsame =>
      refine paramsEqual_isSome params params' (Nat.le_of_eq ?_)
      simp only [Bool.or_eq_true, bne_iff_ne, not_or, not_not] at hsame
      exact hsame.2

end

theorem structurallyEqual_iff (a b : ParsedType E) :
    parsedTypesStructurallyEqual a b = some true ↔
      a.head.specifiers = b.head.specifiers ∧ a.head.pointerDepth = b.head.pointerDepth ∧
        ((a.head.isFunctionPointer || b.head.isFunctionPointer) = true →
          signaturesEqual a b = some true ∧
            (if b.fpParams.isEmpty then some a.fpParams.isEmpty else paramsEqual a.fpParams b.fpParams) =
              some true) ∧
        a.derivations.length = b.derivations.length ∧
          derivationsEqual a.derivations b.derivations = some true := by
  have hunfold : parsedTypesStructurallyEqual a b =
      if a.head.specifiers ≠ b.head.specifiers then some false
      else if a.head.pointerDepth ≠ b.head.pointerDepth then some false
      else
        andThen
          (if a.head.isFunctionPointer || b.head.isFunctionPointer then
            andThen (signaturesEqual a b)
              (if b.fpParams.isEmpty then some a.fpParams.isEmpty
              else paramsEqual a.fpParams b.fpParams)
          else some true)
          (if a.derivations.length ≠ b.derivations.length then some false
          else derivationsEqual a.derivations b.derivations) := by
    cases a
    rw [parsedTypesStructurallyEqual]
    rfl
  rw [hunfold]
  split
  next hne => simp [hne]
  next hspecifiers =>
    split
    next hne => simp [hne]
    next hdepth =>
      rw [andThen_eq_true]
      refine ⟨fun ⟨hpointer, hderivations⟩ => ?_, fun ⟨_, _, hpointer, hlength, hderivations⟩ => ?_⟩
      · refine ⟨not_not.mp hspecifiers, not_not.mp hdepth, fun hfp => ?_, ?_⟩
        · rwa [if_pos hfp, andThen_eq_true] at hpointer
        · split at hderivations
          · cases hderivations
          next hlength => exact ⟨not_not.mp hlength, hderivations⟩
      · refine ⟨?_, by rwa [if_neg (not_not_intro hlength)]⟩
        split
        next hfp => exact andThen_eq_true.mpr (hpointer hfp)
        next => rfl

-- Types as the parser makes them

mutual

/-- The flags fit the derivations: only a function pointer keeps parameters, and it has a
function derivation. -/
def Formed : ParsedType E → Prop
  | .mk head fpParams derivations =>
    (fpParams ≠ [] → head.isFunctionPointer = true) ∧
      (head.isFunctionPointer = true → (findFirstFunctionDerivation derivations).isSome = true) ∧
      FormedDerivations derivations

def FormedAll : List (ParsedType E) → Prop
  | [] => True
  | t :: rest => Formed t ∧ FormedAll rest

def FormedDerivation : TypeDerivation E → Prop
  | .function _ _ params => FormedAll params
  | .pointer _ => True
  | .array _ => True

def FormedDerivations : List (TypeDerivation E) → Prop
  | [] => True
  | d :: rest => FormedDerivation d ∧ FormedDerivations rest

end

mutual

/-- No function pointer in the type keeps its parameters a second time. -/
def Unmirrored : ParsedType E → Prop
  | .mk _ fpParams derivations => fpParams = [] ∧ UnmirroredDerivations derivations

def UnmirroredAll : List (ParsedType E) → Prop
  | [] => True
  | t :: rest => Unmirrored t ∧ UnmirroredAll rest

def UnmirroredDerivation : TypeDerivation E → Prop
  | .function _ _ params => UnmirroredAll params
  | .pointer _ => True
  | .array _ => True

def UnmirroredDerivations : List (TypeDerivation E) → Prop
  | [] => True
  | d :: rest => UnmirroredDerivation d ∧ UnmirroredDerivations rest

end

-- What is compared

mutual

def compared : ParsedType E → ParsedType Unit
  | .mk head _ derivations =>
    .mk ⟨head.specifiers, ⟨false, false, false, false, false, false⟩, head.pointerDepth,
      head.isFunctionPointer, false, false, false, none⟩ [] (comparedDerivations derivations)

def comparedAll : List (ParsedType E) → List (ParsedType Unit)
  | [] => []
  | t :: rest => compared t :: comparedAll rest

def comparedDerivation : TypeDerivation E → TypeDerivation Unit
  | .pointer layer => .pointer layer
  | .array info => .array ⟨none, info.isVLA, none, false, false, false, false, false⟩
  | .function hasPrototype isVariadic params => .function hasPrototype isVariadic (comparedAll params)

def comparedDerivations : List (TypeDerivation E) → List (TypeDerivation Unit)
  | [] => []
  | d :: rest => comparedDerivation d :: comparedDerivations rest

end

theorem first_of_derivationsEqual
    (hlength : ds.length = ds'.length) (h : derivationsEqual ds ds' = some true) :
    (findFirstFunctionDerivation ds = none ∧ findFirstFunctionDerivation ds' = none) ∨
      ∃ lhs rhs, findFirstFunctionDerivation ds = some lhs ∧ findFirstFunctionDerivation ds' = some rhs ∧
        sameSignature lhs rhs = true ∧ firstParamsEqual ds rhs.params = some true := by
  induction ds generalizing ds' with
  | nil =>
    obtain rfl := List.eq_nil_of_length_eq_zero hlength.symm
    exact .inl ⟨rfl, rfl⟩
  | cons d ds ih =>
    cases ds' with
    | nil => cases hlength
    | cons d' ds' => ?_
    rw [derivationsEqual, andThen_eq_true] at h
    have hrest := ih (Nat.succ.inj hlength) h.2
    cases d <;> cases d' <;> try exact hrest
    case function.function hasPrototype isVariadic params hasPrototype' isVariadic' params' =>
      have hsame := h.1
      rw [derivationEqual] at hsame
      split at hsame
      · cases hsame
      next hflags =>
        simp only [Bool.or_eq_true, bne_iff_ne, not_or, not_not] at hflags
        exact .inr ⟨⟨hasPrototype, isVariadic, params⟩, ⟨hasPrototype', isVariadic', params'⟩, rfl, rfl,
          by simp [sameSignature, hflags], hsame⟩
    all_goals exact absurd h.1 (by simp [derivationEqual])

/-- Without second copies the flags decide for the signatures. -/
theorem signaturesEqual_iff (a b : ParsedType E) (ha : a.fpParams = []) (hb : b.fpParams = [])
    (hfa : a.head.isFunctionPointer = true → (findFirstFunctionDerivation a.derivations).isSome = true)
    (hfb : b.head.isFunctionPointer = true → (findFirstFunctionDerivation b.derivations).isSome = true)
    (hlength : a.derivations.length = b.derivations.length)
    (hderivations : derivationsEqual a.derivations b.derivations = some true) :
    ((a.head.isFunctionPointer || b.head.isFunctionPointer) = true → signaturesEqual a b = some true) ↔
      a.head.isFunctionPointer = b.head.isFunctionPointer := by
  have heffective : ∀ t : ParsedType E, t.fpParams = [] → parsedTypeGetEffectiveFunctionPointerSignature t =
      if t.head.isFunctionPointer then findFirstFunctionDerivation t.derivations else none := by
    intro t ht
    rw [parsedTypeGetEffectiveFunctionPointerSignature, ht]
    cases t.head.isFunctionPointer <;> rfl
  rw [signaturesEqual, heffective a ha, heffective b hb, ha, hb]
  cases hpa : a.head.isFunctionPointer <;> cases hpb : b.head.isFunctionPointer
  · simp
  · obtain ⟨rhs, hrhs⟩ := Option.isSome_iff_exists.mp (hfb hpb)
    simp [hrhs]
  · obtain ⟨lhs, hlhs⟩ := Option.isSome_iff_exists.mp (hfa hpa)
    simp [hlhs]
  · rcases first_of_derivationsEqual hlength hderivations with ⟨hnone, -⟩ | ⟨lhs, rhs, hlhs, hrhs, hsame,
      hparams⟩
    · have hsome := hfa hpa
      rw [hnone] at hsome
      cases hsome
    · simp [hlhs, hrhs, hsame, hparams]

mutual

theorem structurallyEqual_compared (a b : ParsedType E) (ha : Formed a) (hb : Formed b)
    (ha' : Unmirrored a) (hb' : Unmirrored b) :
    parsedTypesStructurallyEqual a b = some true ↔ compared a = compared b := by
  cases a with
  | mk head fpParams derivations =>
    cases b with
    | mk head' fpParams' derivations' =>
      obtain ⟨rfl, ha'⟩ := ha'
      obtain ⟨rfl, hb'⟩ := hb'
      obtain ⟨-, hfa, ha⟩ := ha
      obtain ⟨-, hfb, hb⟩ := hb
      have hderivations := derivationsEqual_compared derivations derivations' ha hb ha' hb'
      rw [structurallyEqual_iff, compared, compared]
      simp only [ParsedType.mk.injEq, TypeHead.mk.injEq, and_true, true_and, ← hderivations]
      constructor
      · rintro ⟨hspecifiers, hdepth, hpointer, hequal⟩
        have hflags := signaturesEqual_iff (.mk head [] derivations) (.mk head' [] derivations') rfl rfl
          hfa hfb hequal.1 hequal.2
        exact ⟨⟨hspecifiers, hdepth, hflags.mp fun h => (hpointer h).1⟩, hequal⟩
      · rintro ⟨⟨hspecifiers, hdepth, hfp⟩, hequal⟩
        have hflags := signaturesEqual_iff (.mk head [] derivations) (.mk head' [] derivations') rfl rfl
          hfa hfb hequal.1 hequal.2
        exact ⟨hspecifiers, hdepth, fun h => ⟨hflags.mpr hfp h, rfl⟩, hequal⟩

theorem paramsEqual_compared (as bs : List (ParsedType E)) (ha : FormedAll as) (hb : FormedAll bs)
    (ha' : UnmirroredAll as) (hb' : UnmirroredAll bs) :
    (as.length = bs.length ∧ paramsEqual as bs = some true) ↔ comparedAll as = comparedAll bs := by
  cases as with
  | nil => cases bs <;> simp [paramsEqual, comparedAll]
  | cons a as => ?_
  cases bs with
  | nil => simp [comparedAll]
  | cons b bs => ?_
  rw [paramsEqual, andThen_eq_true, comparedAll, comparedAll, List.cons.injEq,
    ← structurallyEqual_compared a b ha.1 hb.1 ha'.1 hb'.1,
    ← paramsEqual_compared as bs ha.2 hb.2 ha'.2 hb'.2, List.length_cons, List.length_cons,
    Nat.add_right_cancel_iff]
  exact and_left_comm

theorem derivationsEqual_compared (as bs : List (TypeDerivation E)) (ha : FormedDerivations as)
    (hb : FormedDerivations bs) (ha' : UnmirroredDerivations as) (hb' : UnmirroredDerivations bs) :
    (as.length = bs.length ∧ derivationsEqual as bs = some true) ↔
      comparedDerivations as = comparedDerivations bs := by
  cases as with
  | nil => cases bs <;> simp [derivationsEqual, comparedDerivations]
  | cons a as => ?_
  cases bs with
  | nil => simp [comparedDerivations]
  | cons b bs => ?_
  rw [derivationsEqual, andThen_eq_true, comparedDerivations, comparedDerivations, List.cons.injEq,
    ← derivationEqual_compared a b ha.1 hb.1 ha'.1 hb'.1,
    ← derivationsEqual_compared as bs ha.2 hb.2 ha'.2 hb'.2, List.length_cons, List.length_cons,
    Nat.add_right_cancel_iff]
  exact and_left_comm

theorem derivationEqual_compared (a b : TypeDerivation E) (ha : FormedDerivation a)
    (hb : FormedDerivation b) (ha' : UnmirroredDerivation a) (hb' : UnmirroredDerivation b) :
    derivationEqual a b = some true ↔ comparedDerivation a = comparedDerivation b := by
  cases a with
  | pointer layer | array info => cases b <;> simp [derivationEqual, comparedDerivation]
  | function hasPrototype isVariadic params => ?_
  cases b with
  | pointer layer | array info => simp [derivationEqual, comparedDerivation]
  | function hasPrototype' isVariadic' params' => ?_
  rw [comparedDerivation, comparedDerivation, TypeDerivation.function.injEq,
    ← paramsEqual_compared params params' ha hb ha' hb', derivationEqual]
  split
  next hflags =>
    refine iff_of_false (by rintro ⟨⟩) ?_
    rintro ⟨rfl, rfl, hlength, -⟩
    simp [hlength] at hflags
  next hflags =>
    simp only [Bool.or_eq_true, bne_iff_ne, not_or, not_not] at hflags
    simp [hflags]

end

-- Copies

theorem findFirst_cloneDerivations (ds : List (TypeDerivation E)) :
    (findFirstFunctionDerivation (cloneDerivations ds)).isSome =
      (findFirstFunctionDerivation ds).isSome := by
  induction ds with
  | nil => rfl
  | cons d ds ih =>
    cases d with
    | function hasPrototype isVariadic params => rfl
    | pointer layer | array info => exact ih

mutual

theorem compared_clone (t : ParsedType E) : compared (parsedTypeClone t) = compared t := by
  cases t with
  | mk head fpParams derivations =>
    rw [parsedTypeClone, compared, compared, comparedDerivations_clone derivations]

theorem comparedAll_clone (ts : List (ParsedType E)) :
    comparedAll (cloneParsedTypeArray ts) = comparedAll ts := by
  cases ts with
  | nil => rfl
  | cons t ts => rw [cloneParsedTypeArray, comparedAll, comparedAll, compared_clone t, comparedAll_clone ts]

theorem comparedDerivation_clone (d : TypeDerivation E) :
    comparedDerivation (cloneDerivation d) = comparedDerivation d := by
  cases d with
  | pointer layer => rfl
  | array info => rfl
  | function hasPrototype isVariadic params =>
    rw [cloneDerivation, comparedDerivation, comparedDerivation, comparedAll_clone params]

theorem comparedDerivations_clone (ds : List (TypeDerivation E)) :
    comparedDerivations (cloneDerivations ds) = comparedDerivations ds := by
  cases ds with
  | nil => rfl
  | cons d ds =>
    rw [cloneDerivations, comparedDerivations, comparedDerivations, comparedDerivation_clone d,
      comparedDerivations_clone ds]

end

mutual

/-- A copy keeps no parameters a second time: where they are cloned there are none. -/
theorem clone_formed (t : ParsedType E) (h : Formed t) :
    Formed (parsedTypeClone t) ∧ Unmirrored (parsedTypeClone t) := by
  cases t with
  | mk head fpParams derivations =>
    obtain ⟨hparams, hfirst, hderivations⟩ := h
    obtain ⟨hformed, hunmirrored⟩ := cloneDerivations_formed derivations hderivations
    refine ⟨⟨fun hne => hparams ?_, fun hfp => ?_, hformed⟩, ?_, hunmirrored⟩
    · rintro rfl
      simp [cloneParsedTypeArray] at hne
    · rw [findFirst_cloneDerivations]
      exact hfirst hfp
    · split
      next hnone =>
        cases fpParams with
        | nil => rfl
        | cons p ps =>
          have hsome := hfirst (hparams (List.cons_ne_nil p ps))
          simp [Option.isNone_iff_eq_none.mp hnone] at hsome
      next => rfl

theorem cloneAll_formed (ts : List (ParsedType E)) (h : FormedAll ts) :
    FormedAll (cloneParsedTypeArray ts) ∧ UnmirroredAll (cloneParsedTypeArray ts) := by
  cases ts with
  | nil => exact ⟨trivial, trivial⟩
  | cons t ts => exact and_and_and_comm.mp ⟨clone_formed t h.1, cloneAll_formed ts h.2⟩

theorem cloneDerivation_formed (d : TypeDerivation E) (h : FormedDerivation d) :
    FormedDerivation (cloneDerivation d) ∧ UnmirroredDerivation (cloneDerivation d) := by
  cases d with
  | pointer layer => exact ⟨trivial, trivial⟩
  | array info => exact ⟨trivial, trivial⟩
  | function hasPrototype isVariadic params => exact cloneAll_formed params h

theorem cloneDerivations_formed (ds : List (TypeDerivation E)) (h : FormedDerivations ds) :
    FormedDerivations (cloneDerivations ds) ∧ UnmirroredDerivations (cloneDerivations ds) := by
  cases ds with
  | nil => exact ⟨trivial, trivial⟩
  | cons d ds => exact and_and_and_comm.mp ⟨cloneDerivation_formed d h.1, cloneDerivations_formed ds h.2⟩

end

mutual

theorem unmirrored_of_equal (t : ParsedType E) (h : Formed t)
    (hequal : parsedTypesStructurallyEqual t (parsedTypeClone t) = some true) : Unmirrored t := by
  cases t with
  | mk head fpParams derivations =>
    obtain ⟨hparams, hfirst, hderivations⟩ := h
    obtain ⟨-, -, hpointer, -, hrest⟩ := (structurallyEqual_iff _ _).mp hequal
    refine ⟨?_, unmirroredDerivations_of_equal derivations hderivations hrest⟩
    cases fpParams with
    | nil => rfl
    | cons p ps => ?_
    have hfp := hparams (List.cons_ne_nil p ps)
    have hsome := hfirst hfp
    have hclone : (parsedTypeClone (.mk head (p :: ps) derivations)).fpParams = [] := by
      rw [parsedTypeClone, if_neg fun hnone => Option.isSome_iff_ne_none.mp hsome
        (Option.isNone_iff_eq_none.mp hnone)]
      rfl
    have hlost := (hpointer (by simp [ParsedType.head, hfp])).2
    rw [hclone] at hlost
    cases hlost

theorem unmirroredAll_of_equal (ts : List (ParsedType E)) (h : FormedAll ts)
    (hequal : paramsEqual ts (cloneParsedTypeArray ts) = some true) : UnmirroredAll ts := by
  cases ts with
  | nil => trivial
  | cons t ts =>
    rw [cloneParsedTypeArray, paramsEqual, andThen_eq_true] at hequal
    exact ⟨unmirrored_of_equal t h.1 hequal.1, unmirroredAll_of_equal ts h.2 hequal.2⟩

theorem unmirroredDerivation_of_equal (d : TypeDerivation E) (h : FormedDerivation d)
    (hequal : derivationEqual d (cloneDerivation d) = some true) : UnmirroredDerivation d := by
  cases d with
  | pointer layer => trivial
  | array info => trivial
  | function hasPrototype isVariadic params =>
    rw [cloneDerivation, derivationEqual] at hequal
    split at hequal
    · cases hequal
    · exact unmirroredAll_of_equal params h hequal

theorem unmirroredDerivations_of_equal (ds : List (TypeDerivation E)) (h : FormedDerivations ds)
    (hequal : derivationsEqual ds (cloneDerivations ds) = some true) : UnmirroredDerivations ds := by
  cases ds with
  | nil => trivial
  | cons d ds =>
    rw [cloneDerivations, derivationsEqual, andThen_eq_true] at hequal
    exact ⟨unmirroredDerivation_of_equal d h.1 hequal.1, unmirroredDerivations_of_equal ds h.2 hequal.2⟩

end

-- Types of declarators

def ofDerivation : Declarators.TypeDerivation E (ParsedType E) → TypeDerivation E
  | .pointer layer => .pointer layer
  | .array info =>
    .array ⟨info.sizeExpr, info.isVLA, info.constantSize, false, info.hasStatic, info.qualConst,
      info.qualVolatile, info.qualRestrict⟩
  | .function signature =>
    .function signature.hasPrototype signature.isVariadic (cloneParsedTypeArray signature.params)

def ofDeclared (specifiers : Specifiers) (storage : StorageSpecifiers)
    (t : DeclaredType E (ParsedType E)) : ParsedType E :=
  .mk ⟨specifiers, storage, t.pointerDepth, t.isFunctionPointer, t.isVLA, t.directlyDeclaresFunction,
      t.isVariadicFunction, none⟩
    (cloneParsedTypeArray t.fpParams) (t.derivations.map ofDerivation)

structure FormedDeclared (t : DeclaredType E (ParsedType E)) : Prop where
  kept : t.fpParams ≠ [] → t.isFunctionPointer = true
  function : t.isFunctionPointer = true → ∃ signature, .function signature ∈ spine t
  params : ∀ signature, .function signature ∈ spine t → FormedAll signature.params

theorem mem_spine :
    .function signature ∈ spine t ↔ .function signature ∈ t.derivations := by
  simp [spine]

theorem FormedDeclared.keptBySteps {env : Environment E (ParsedType E)}
    (henv : ∀ signature, ReadsParameters env signature → FormedAll signature.params) :
    KeptBySteps env FormedDeclared := by
  refine ⟨fun t tokens h => ?_, fun grouped t signature hreads h => ?_, fun chain grouped sawArray t h => ?_⟩
  · refine ⟨h.kept, fun hfp => ?_, fun signature hsignature => ?_⟩
    · obtain ⟨signature, hmem⟩ := h.function hfp
      exact ⟨signature, by rw [spine_array]; exact List.mem_append_left _ hmem⟩
    · rw [spine_array] at hsignature
      exact h.params signature (by simpa using hsignature)
  · have hmem : .function signature ∈ spine (appendFunctionSuffix grouped t signature) := by
      rw [spine_function]
      exact List.mem_append_right _ (List.mem_singleton_self _)
    refine ⟨fun hne => ?_, fun _ => ⟨signature, hmem⟩, fun signature' hsignature => ?_⟩
    · simp only [appendFunctionSuffix] at hne ⊢
      split at hne
      next hgrouped => rw [if_pos hgrouped]; rfl
      next hgrouped =>
        rw [if_neg hgrouped]
        exact h.kept hne
    · rw [spine_function] at hsignature
      rcases List.mem_append.mp hsignature with hsignature | hsignature
      · exact h.params signature' hsignature
      · obtain rfl : signature' = signature := by simpa using hsignature
        exact henv _ hreads
  · have hflags : (finishType chain grouped sawArray t).fpParams = t.fpParams ∧
        (finishType chain grouped sawArray t).isFunctionPointer = t.isFunctionPointer := by
      have hchain : ∀ (layers : List Declarators.PointerDeclaratorLayer) (t : DeclaredType E (ParsedType E)),
          (layers.foldl Declarators.parsedTypeAppendPointer t).fpParams = t.fpParams ∧
          (layers.foldl Declarators.parsedTypeAppendPointer t).isFunctionPointer = t.isFunctionPointer := by
        intro layers
        induction layers with
        | nil => exact fun t => ⟨rfl, rfl⟩
        | cons layer layers ih => exact fun t => ih _
      simp only [finishType, Declarators.parsedTypeNormalizeFunctionPointer,
        Declarators.applyPointerChainToType]
      split <;> split <;> exact hchain _ _
    exact ⟨by rw [hflags.1, hflags.2]; exact h.kept, by rw [hflags.2, spine_finishType]; exact h.function,
      by rw [spine_finishType]; exact h.params⟩

theorem ofDerivations_formed {ds : List (Declarators.TypeDerivation E (ParsedType E))}
    (h : ∀ signature, .function signature ∈ ds → FormedAll signature.params) :
    FormedDerivations (ds.map ofDerivation) := by
  induction ds with
  | nil => trivial
  | cons d ds ih =>
    refine ⟨?_, ih fun signature hmem => h signature (List.mem_cons_of_mem _ hmem)⟩
    cases d with
    | pointer layer => trivial
    | array info => trivial
    | function signature => exact (cloneAll_formed _ (h signature List.mem_cons_self)).1

theorem findFirst_ofDerivations {ds : List (Declarators.TypeDerivation E (ParsedType E))}
    (h : .function signature ∈ ds) : (findFirstFunctionDerivation (ds.map ofDerivation)).isSome = true := by
  induction ds with
  | nil => cases h
  | cons d ds ih =>
    cases d with
    | function signature => rfl
    | pointer layer | array info => exact ih ((List.mem_cons.mp h).resolve_left (by rintro ⟨⟩))

theorem ofDeclared_formed {env : Environment E (ParsedType E)}
    (henv : ∀ signature, ReadsParameters env signature → FormedAll signature.params)
    (h : parserParseDeclarator env opts .base tokens = .ok s) (specifiers : Specifiers)
    (storage : StorageSpecifiers) : Formed (ofDeclared specifiers storage s.type) := by
  have hbase : FormedDeclared (.base : DeclaredType E (ParsedType E)) :=
    ⟨fun hne => absurd rfl hne, by rintro ⟨⟩, by rintro signature ⟨⟩⟩
  have hkept := (FormedDeclared.keptBySteps henv).parse h hbase
  refine ⟨fun hne => hkept.kept ?_, fun hfp => ?_, ?_⟩
  · intro hnil
    exact hne (by rw [hnil]; rfl)
  · obtain ⟨signature, hmem⟩ := hkept.function hfp
    exact findFirst_ofDerivations (mem_spine.mp hmem)
  · exact ofDerivations_formed fun signature hmem => hkept.params signature (mem_spine.mpr hmem)

-- An equivalence

/-- Among these types equality is an equivalence that copies respect, and no array is
read behind its end. -/
structure EqualityLawful (S : ParsedType E → Prop) : Prop where
  bounded : ∀ a b, S a → S b → parsedTypesStructurallyEqual a b ≠ none
  refl : ∀ a, S a → parsedTypesStructurallyEqual a a = some true
  symm : ∀ a b, S a → S b → parsedTypesStructurallyEqual a b = some true →
    parsedTypesStructurallyEqual b a = some true
  trans : ∀ a b c, S a → S b → S c → parsedTypesStructurallyEqual a b = some true →
    parsedTypesStructurallyEqual b c = some true → parsedTypesStructurallyEqual a c = some true
  clone : ∀ a, S a → parsedTypesStructurallyEqual a (parsedTypeClone a) = some true ∧
    parsedTypesStructurallyEqual (parsedTypeClone a) a = some true

/-- The laws hold among types exactly when none of them keeps parameters a second time. -/
theorem equalityLawful_iff (S : ParsedType E → Prop) (hformed : ∀ t, S t → Formed t) :
    EqualityLawful S ↔ ∀ t, S t → Unmirrored t := by
  refine ⟨fun h t ht => unmirrored_of_equal t (hformed t ht) (h.clone t ht).1, fun h => ?_⟩
  have hcompared : ∀ a b, S a → S b →
      (parsedTypesStructurallyEqual a b = some true ↔ compared a = compared b) :=
    fun a b ha hb => structurallyEqual_compared a b (hformed a ha) (hformed b hb) (h a ha) (h b hb)
  refine ⟨fun a b _ _ => ?_, fun a ha => (hcompared a a ha ha).mpr rfl, fun a b ha hb hab => ?_,
    fun a b c ha hb hc hab hbc => ?_, fun a ha => ?_⟩
  · exact Option.isSome_iff_ne_none.mp (structurallyEqual_isSome a b)
  · exact (hcompared b a hb ha).mpr ((hcompared a b ha hb).mp hab).symm
  · exact (hcompared a c ha hc).mpr (((hcompared a b ha hb).mp hab).trans ((hcompared b c hb hc).mp hbc))
  · obtain ⟨hclone, hclone'⟩ := clone_formed a (hformed a ha)
    exact ⟨(structurallyEqual_compared a _ (hformed a ha) hclone (h a ha) hclone').mpr (compared_clone a).symm,
      (structurallyEqual_compared _ a hclone (hformed a ha) hclone' (h a ha)).mpr (compared_clone a)⟩

/-- `int` -/
def intSpecifiers : Specifiers :=
  ⟨.primitive, .none, .kwInt, none, false, false, false, false, false, false, false, false, false⟩

def noStorage : StorageSpecifiers := ⟨false, false, false, false, false, false⟩

def intType : ParsedType Token := ofDeclared intSpecifiers noStorage .base

/-- Every parameter list is `int`. -/
def intEnvironment : Environment Token (ParsedType Token) where
  blockPointers := false
  captureFunctionParams := false
  parseAssignmentExpression tokens := (none, tokens)
  numberLiteral _ := none
  parseParameterList tokens := some (⟨true, false, [intType]⟩, tokens.tail)
  parseFunctionTypeParameterList tokens := some (⟨true, false, [intType]⟩, tokens.tail)

def punct (type : TokenType) : Token := { (default : Token) with type := type }

/-- `(*f)(int)` -/
def callback : List Token :=
  [punct .lparen, punct .asterisk, punct .identifier, punct .rparen, punct .lparen, punct .kwInt,
    punct .rparen]

def callbackType : DeclaredType Token (ParsedType Token) where
  derivations := [.pointer ⟨false, false, false⟩, .function ⟨true, false, [intType]⟩]
  pointerDepth := 1
  isFunctionPointer := true
  fpParams := []
  isVLA := false
  directlyDeclaresFunction := true
  isVariadicFunction := false

theorem callback_declared : parserParseDeclarator intEnvironment ⟨false, true⟩ .base callback =
    .ok ⟨[], callbackType, some (punct .identifier), none, false⟩ := by
  rfl

/-- `int (*)(int)` with a storage class. -/
def callbackIn (storage : StorageSpecifiers) : ParsedType Token :=
  ofDeclared intSpecifiers storage callbackType

def staticStorage : StorageSpecifiers := { noStorage with isStatic := true }

/-- `static int (*(*)[3])(int (*)(int))` -/
def callbackTable : ParsedType Token :=
  .mk ⟨intSpecifiers, staticStorage, 2, true, false, false, false, none⟩ []
    [.pointer ⟨false, false, false⟩, .array ⟨none, false, some 3, false, false, false, false, false⟩,
      .pointer ⟨false, false, false⟩, .function true false [callbackIn noStorage]]

def derivedTypes : List (ParsedType Token) :=
  [intType, callbackIn noStorage, callbackIn staticStorage, callbackTable, parsedTypeClone callbackTable]

theorem callback_formed (storage : StorageSpecifiers) : Formed (callbackIn storage) := by
  refine ofDeclared_formed ?_ callback_declared intSpecifiers storage
  rintro signature ⟨tokens, rest, h | h⟩
  all_goals
    cases h
    exact ⟨⟨absurd rfl, by rintro ⟨⟩, trivial⟩, trivial⟩

/-- Types that differ only in their storage class are equal. -/
theorem derived_equality_lawful : EqualityLawful (· ∈ derivedTypes) ∧
    parsedTypesStructurallyEqual (callbackIn noStorage) (callbackIn staticStorage) = some true ∧
    parsedTypesStructurallyEqual (callbackIn noStorage) callbackTable = some false := by
  have hint : Formed intType ∧ Unmirrored intType := ⟨⟨absurd rfl, by rintro ⟨⟩, trivial⟩, rfl, trivial⟩
  have hcallback (storage : StorageSpecifiers) :
      Formed (callbackIn storage) ∧ Unmirrored (callbackIn storage) :=
    ⟨callback_formed storage, rfl, trivial, ⟨hint.2, trivial⟩, trivial⟩
  have htable : Formed callbackTable ∧ Unmirrored callbackTable :=
    ⟨⟨absurd rfl, fun _ => rfl, trivial, trivial, trivial, ⟨(hcallback noStorage).1, trivial⟩, trivial⟩,
      rfl, trivial, trivial, trivial, ⟨(hcallback noStorage).2, trivial⟩, trivial⟩
  have hall : ∀ t ∈ derivedTypes, Formed t ∧ Unmirrored t := by
    simp only [derivedTypes, List.forall_mem_cons]
    exact ⟨hint, hcallback _, hcallback _, htable, clone_formed _ htable.1, by simp⟩
  exact ⟨(equalityLawful_iff _ fun t ht => (hall t ht).1).mpr fun t ht => (hall t ht).2, rfl, rfl⟩

/-- `(*(*f)(int))(int)` -/
def functionReturningPointer : List Token :=
  [punct .lparen, punct .asterisk, punct .lparen, punct .asterisk, punct .identifier, punct .rparen,
    punct .lparen, punct .kwInt, punct .rparen, punct .rparen, punct .lparen, punct .kwInt, punct .rparen]

/-- Both functions take an `int`; the parameters of the second are kept twice. -/
def functionReturningPointerType : DeclaredType Token (ParsedType Token) where
  derivations := [.pointer ⟨false, false, false⟩, .function ⟨true, false, [intType]⟩,
    .pointer ⟨false, false, false⟩, .function ⟨true, false, [intType]⟩]
  pointerDepth := 2
  isFunctionPointer := true
  fpParams := [intType]
  isVLA := false
  directlyDeclaresFunction := true
  isVariadicFunction := false

theorem functionReturningPointer_declared :
    parserParseDeclarator intEnvironment ⟨false, true⟩ .base functionReturningPointer =
      .ok ⟨[], functionReturningPointerType, some (punct .identifier), none, false⟩ := by
  rfl

/-- `int (*(*f)(int))(int)` -/
def doublyCallable : ParsedType Token :=
  ofDeclared intSpecifiers noStorage functionReturningPointerType

theorem declared_equality_unlawful :
    ¬ EqualityLawful fun t => ∃ s,
      parserParseDeclarator intEnvironment ⟨false, true⟩ .base functionReturningPointer = .ok s ∧
        t = ofDeclared intSpecifiers noStorage s.type := by
  intro h
  have hclone := (h.clone doublyCallable ⟨_, functionReturningPointer_declared, rfl⟩).1
  cases hclone

end Fisics.Types
