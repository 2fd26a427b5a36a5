import Fisics.Syntax.CompositeTypes

/-!
# When composite types do not depend on the order

The merge of two types has the merged details of both. Two types can be merged in either
order exactly when at every place they have the same bound, or one a constant and the
other none. The merge is then associative and keeps every constant; it does not replace a
variable bound by a constant.
-/

namespace Fisics.Types

open Overlay

-- Details of copies and merges

theorem detailsAll_eq (ts : List (ParsedType E)) : detailsAll ts = ts.map details := by
  induction ts with
  | nil => rfl
  | cons t ts ih => rw [detailsAll, ih, List.map_cons]

theorem partsOf_eq (ds : List (TypeDerivation E)) : partsOf ds = ds.map partOf := by
  induction ds with
  | nil => rfl
  | cons d ds ih => rw [partsOf, ih, List.map_cons]

mutual

theorem details_clone (t : ParsedType E) : details (parsedTypeClone t) = details t := by
  cases t with
  | mk head fpParams derivations => rw [parsedTypeClone, details, details, partsOf_clone]

theorem detailsAll_clone (ts : List (ParsedType E)) :
    detailsAll (cloneParsedTypeArray ts) = detailsAll ts := by
  cases ts with
  | nil => rfl
  | cons t ts => rw [cloneParsedTypeArray, detailsAll, detailsAll, details_clone, detailsAll_clone]

theorem partOf_clone (d : TypeDerivation E) : partOf (cloneDerivation d) = partOf d := by
  cases d with
  | pointer layer => rfl
  | array info => rfl
  | function hasPrototype isVariadic params => rw [cloneDerivation, partOf, partOf, detailsAll_clone]

theorem partsOf_clone (ds : List (TypeDerivation E)) : partsOf (cloneDerivations ds) = partsOf ds := by
  cases ds with
  | nil => rfl
  | cons d ds => rw [cloneDerivations, partsOf, partsOf, partOf_clone, partsOf_clone]

end

theorem bound_incomplete (info : ParsedArrayInfo E) :
    arrayDerivationIsIncomplete info = true ↔ bound info = .incomplete := by
  rcases info with ⟨_ | _, _ | _, _ | _, _ | _⟩ <;> simp [arrayDerivationIsIncomplete, bound]

theorem bound_known (info : ParsedArrayInfo E) :
    arrayDerivationHasKnownBound info = true ↔ ∃ n, bound info = .known n := by
  rcases info with ⟨_ | _, _ | _, _ | _, _ | _⟩ <;> simp [arrayDerivationHasKnownBound, bound]

theorem mergeBound_kept (h : ¬ (a = .incomplete ∧ ∃ n, b = .known n)) :
    mergeBound a b = a := by
  cases a <;> cases b <;> simp_all [mergeBound]

theorem bound_mergeArrayInfo (current next : ParsedArrayInfo E) :
    bound (mergeArrayInfo current next) = mergeBound (bound current) (bound next) := by
  rw [mergeArrayInfo]
  split
  next h =>
    rw [Bool.and_eq_true, bound_incomplete, bound_known] at h
    obtain ⟨hcurrent, n, hnext⟩ := h
    rw [hcurrent, hnext, mergeBound]
  next h =>
    rw [Bool.and_eq_true, bound_incomplete, bound_known] at h
    rw [mergeBound_kept h]

theorem mergeBound_self (a : Bound) : mergeBound a a = a := by
  cases a <;> rfl

theorem mergePart_self (h : ∀ d, m d d = d) (p : Part) :
    mergePart m p p = p := by
  cases p with
  | pointer => rfl
  | array a => rw [mergePart, mergeBound_self]
  | oldFunction => rfl
  | function isVariadic params => rw [mergePart, if_pos rfl, overlay_self h]

theorem mergeParamBound_self (a : Option Bound) : mergeParamBound a a = a := by
  cases a with
  | none => rfl
  | some a => rw [mergeParamBound, mergeBound_self]

theorem mergeDetails_self (room : Nat) (d : Details) : mergeDetails room d d = d := by
  induction room generalizing d with
  | zero => rfl
  | succ room ih =>
    obtain ⟨paramBound, parts⟩ := d
    rw [mergeDetails, mergeParamBound_self, overlay_self (mergePart_self ih)]

section
variable {m : ParsedType E → ParsedType E → ParsedType E} {m' : Details → Details → Details}

theorem signaturePart_mergeSignature (h : ∀ a b, details (m a b) = m' (details a) (details b))
    (current next : FunctionSignature E) (hprototype : current.hasPrototype = true) :
    signaturePart (mergeSignature m current next) =
      mergePart m' (signaturePart current) (signaturePart next) := by
  obtain ⟨hasPrototype, isVariadic, params⟩ := current
  obtain ⟨hasPrototype', isVariadic', params'⟩ := next
  cases hprototype
  cases hasPrototype' with
  | false => rfl
  | true =>
    by_cases hlength : params.length = params'.length
    · simp [mergeSignature, signaturePart, partOf, mergePart, detailsAll_eq, hlength, map_overlay h]
    · simp [mergeSignature, signaturePart, partOf, mergePart, detailsAll_eq, hlength]

theorem partOf_mergeDerivation (h : ∀ a b, details (m a b) = m' (details a) (details b))
    (self : ∀ d, m' d d = d) (current next : TypeDerivation E) :
    partOf (mergeDerivation m current next) = mergePart m' (partOf current) (partOf next) := by
  cases current with
  | pointer layer => cases next <;> rfl
  | array info =>
    cases next with
    | pointer layer => rfl
    | array info' => rw [mergeDerivation, partOf, bound_mergeArrayInfo, partOf, partOf, mergePart]
    | function hasPrototype' isVariadic' params' => cases hasPrototype' <;> rfl
  | function hasPrototype isVariadic params =>
    cases next with
    | pointer layer | array info => cases hasPrototype <;> rfl
    | function hasPrototype' isVariadic' params' => ?_
    refine (?_ : signaturePart _ = _)
    cases hasPrototype with
    | true => exact signaturePart_mergeSignature h _ _ rfl
    | false => ?_
    cases hasPrototype' with
    | false => rfl
    | true => ?_
    -- what is adopted is merged with itself
    have hadopted : signaturePart (⟨true, isVariadic', cloneParsedTypeArray params'⟩ : FunctionSignature E) =
        partOf (.function true isVariadic' params') := by
      simp [signaturePart, partOf, detailsAll_clone]
    refine (signaturePart_mergeSignature h _ _ rfl).trans ?_
    exact (congrArg (mergePart m' · _) hadopted).trans (mergePart_self self _)

end

theorem details_merge (room : Nat) (a b : ParsedType E) :
    details (mergeCompatibleParsedTypeDetails room a b) = mergeDetails room (details a) (details b) := by
  induction room generalizing a b with
  | zero => rfl
  | succ room ih =>
    obtain ⟨head, fpParams, derivations⟩ := a
    obtain ⟨head', fpParams', derivations'⟩ := b
    rw [mergeCompatibleParsedTypeDetails, details, details, details, mergeDetails, partsOf_eq, partsOf_eq,
      partsOf_eq, map_overlay (partOf_mergeDerivation ih (mergeDetails_self room))]
    congr 1
    obtain ⟨_, _, _, _, _, _, _, _ | info⟩ := head
    · rfl
    obtain ⟨_, _, _, _, _, _, _, _ | info'⟩ := head'
    · rfl
    · exact congrArg some (bound_mergeArrayInfo info info')

theorem signaturePart_merge (f g : FunctionSignature E) :
    signaturePart (mergeCompatibleFunctionSignatures f g) =
      mergePart (mergeDetails maxMergeRoom) (signaturePart f) (signaturePart g) := by
  obtain ⟨hasPrototype, isVariadic, params⟩ := f
  cases hasPrototype with
  | true => exact signaturePart_mergeSignature (details_merge maxMergeRoom) _ _ rfl
  | false =>
    obtain ⟨hasPrototype', isVariadic', params'⟩ := g
    cases hasPrototype' <;> rfl

-- A type merged with itself

theorem mergeArrayInfo_self (info : ParsedArrayInfo E) : mergeArrayInfo info info = info := by
  rw [mergeArrayInfo, ite_self]

theorem mergeSignature_self {m : ParsedType E → ParsedType E → ParsedType E} (h : ∀ a, m a a = a)
    (signature : FunctionSignature E) : mergeSignature m signature signature = signature := by
  rw [mergeSignature, overlay_self h, ite_self]

theorem adopt_self (signature : FunctionSignature E) :
    adoptNestedFunctionPrototype signature signature = signature := by
  rw [adoptNestedFunctionPrototype, Bool.not_and_self]
  rfl

theorem mergeDerivation_self {m : ParsedType E → ParsedType E → ParsedType E} (h : ∀ a, m a a = a)
    (d : TypeDerivation E) : mergeDerivation m d d = d := by
  cases d with
  | pointer layer => rfl
  | array info => rw [mergeDerivation, mergeArrayInfo_self]
  | function hasPrototype isVariadic params => simp only [mergeDerivation, adopt_self, mergeSignature_self h]

theorem merge_details_self (room : Nat) (a : ParsedType E) :
    mergeCompatibleParsedTypeDetails room a a = a := by
  induction room generalizing a with
  | zero => rfl
  | succ room ih =>
    obtain ⟨head, fpParams, derivations⟩ := a
    obtain ⟨_, _, _, _, _, _, _, _ | info⟩ := head
    · simp only [mergeCompatibleParsedTypeDetails, ParsedType.derivations, mergeParamArrayInfo,
        overlay_self (mergeDerivation_self ih)]
    · simp only [mergeCompatibleParsedTypeDetails, ParsedType.derivations, ParsedType.head,
        mergeParamArrayInfo, mergeArrayInfo_self, overlay_self (mergeDerivation_self ih)]

theorem mergeSignatures_self (f : FunctionSignature E) : mergeCompatibleFunctionSignatures f f = f := by
  rw [mergeCompatibleFunctionSignatures, Bool.not_and_self]
  exact mergeSignature_self (merge_details_self maxMergeRoom) f

-- Either order

theorem mergeBound_comm_iff (a b : Bound) : mergeBound a b = mergeBound b a ↔ BoundsAgree a b := by
  cases a <;> cases b <;> simp [mergeBound, BoundsAgree, eq_comm]

theorem mergeParamBound_comm_iff (a b : Option Bound) :
    mergeParamBound a b = mergeParamBound b a ↔ ParamBoundsAgree a b := by
  cases a <;> cases b <;> simp [mergeParamBound, ParamBoundsAgree, mergeBound_comm_iff]

theorem mergePart_comm_iff
    (h : ∀ d e, m d e = m e d ↔ R d e) (p q : Part) :
    mergePart m p q = mergePart m q p ↔ PartsAgree R p q := by
  cases p with
  | pointer | oldFunction => cases q <;> simp [mergePart, PartsAgree]
  | array a => cases q <;> simp [mergePart, PartsAgree, mergeBound_comm_iff]
  | function isVariadic params =>
    cases q with
    | pointer | array b | oldFunction => simp [mergePart, PartsAgree]
    | function isVariadic' params' => ?_
    rw [mergePart, mergePart, PartsAgree, Part.function.injEq]
    by_cases hlength : params.length = params'.length
    · rw [if_pos hlength, if_pos hlength.symm, overlay_comm_iff]
      simp only [h]
    rw [if_neg hlength, if_neg (Ne.symm hlength)]
    refine and_congr_right fun _ => iff_of_false ?_ fun hparams => hlength hparams.length_eq
    rintro rfl
    exact hlength rfl

/-- Two types can be merged in either order exactly when they agree. -/
theorem mergeDetails_comm_iff (room : Nat) (a b : Details) :
    mergeDetails room a b = mergeDetails room b a ↔ DetailsAgree room a b := by
  induction room generalizing a b with
  | zero => rfl
  | succ room ih =>
    obtain ⟨paramBound, parts⟩ := a
    obtain ⟨paramBound', parts'⟩ := b
    rw [mergeDetails, mergeDetails, DetailsAgree, Details.mk.injEq, mergeParamBound_comm_iff,
      overlay_comm_iff]
    simp only [mergePart_comm_iff ih]

-- Three types

theorem mergeBound_assoc (hab : BoundsAgree a b) (hbc : BoundsAgree b c) :
    mergeBound (mergeBound a b) c = mergeBound a (mergeBound b c) := by
  obtain rfl | ⟨rfl, n, rfl⟩ | ⟨⟨n, rfl⟩, rfl⟩ := hab
  · obtain rfl | ⟨rfl, n, rfl⟩ | ⟨⟨n, rfl⟩, rfl⟩ := hbc
    · simp only [mergeBound_self]
    · rfl
    · rfl
  · obtain rfl | ⟨⟨⟩, _⟩ | ⟨_, rfl⟩ := hbc <;> rfl
  · obtain rfl | ⟨_, m, rfl⟩ | ⟨⟨_, ⟨⟩⟩, _⟩ := hbc <;> rfl

theorem mergeParamBound_assoc (hab : ParamBoundsAgree a b)
    (hbc : ParamBoundsAgree b c) :
    mergeParamBound (mergeParamBound a b) c = mergeParamBound a (mergeParamBound b c) := by
  cases hab with
  | none => rfl
  | some hab =>
    cases hbc with
    | some hbc => exact congrArg some (mergeBound_assoc hab hbc)

theorem mergePart_assoc
    (h : ∀ a b c, R a b → R b c → R a c → m (m a b) c = m a (m b c)) (p q r : Part)
    (hpq : PartsAgree R p q) (hqr : PartsAgree R q r) (hpr : PartsAgree R p r) :
    mergePart m (mergePart m p q) r = mergePart m p (mergePart m q r) := by
  cases p with
  | pointer => cases q <;> rfl
  | array a =>
    cases q with
    | array b =>
      cases r with
      | array c => exact congrArg Part.array (mergeBound_assoc hpq hqr)
      | _ => cases hqr
    | _ => cases hpq
  | oldFunction =>
    cases q with
    | oldFunction => cases r <;> rfl
    | function isVariadic params => cases r <;> rfl
    | _ => cases hpq
  | function isVariadic params =>
    cases q with
    | oldFunction => cases r <;> rfl
    | function isVariadic' params' =>
      cases r with
      | oldFunction => rfl
      | function isVariadic'' params'' =>
        have hab := hpq.2.length_eq
        have hbc := hqr.2.length_eq
        have hac : params.length = params''.length := hab.trans hbc
        simp only [mergePart, if_pos hab, if_pos hbc, overlay_length, if_pos hac,
          overlay_assoc h hpq.2 hqr.2 hpr.2]
      | _ => cases hqr
    | _ => cases hpq

theorem mergeDetails_assoc (room : Nat) (a b c : Details) (hab : DetailsAgree room a b)
    (hbc : DetailsAgree room b c) (hac : DetailsAgree room a c) :
    mergeDetails room (mergeDetails room a b) c = mergeDetails room a (mergeDetails room b c) := by
  induction room generalizing a b c with
  | zero => rfl
  | succ room ih =>
    obtain ⟨paramBound, parts⟩ := a
    obtain ⟨paramBound', parts'⟩ := b
    obtain ⟨paramBound'', parts''⟩ := c
    rw [mergeDetails, mergeDetails, mergeDetails, mergeDetails, mergeParamBound_assoc hab.1 hbc.1,
      overlay_assoc (mergePart_assoc ih) hab.2 hbc.2 hac.2]

-- What is known stays

theorem keepsParts_of (h : List.Forall₂ KeepsPart ps qs) : KeepsParts ps qs := by
  induction h with
  | nil => exact .nil
  | cons hpart _ ih => exact .cons hpart ih

theorem keepsAll_of (h : List.Forall₂ KeepsKnown ds es) : KeepsAll ds es := by
  induction h with
  | nil => exact .nil
  | cons hd _ ih => exact .cons hd ih

mutual

theorem keepsKnown_refl (d : Details) : KeepsKnown d d := by
  cases d with
  | mk paramBound parts => exact .mk (fun _ => id) (keepsParts_refl parts)

theorem keepsParts_refl (ps : List Part) : KeepsParts ps ps := by
  cases ps with
  | nil => exact .nil
  | cons p ps => exact .cons (keepsPart_refl p) (keepsParts_refl ps)

theorem keepsPart_refl (p : Part) : KeepsPart p p := by
  cases p with
  | pointer => exact .pointer
  | array a => exact .array fun _ => id
  | oldFunction => exact .oldFunction
  | function isVariadic params => exact .function (keepsAll_refl params)

theorem keepsAll_refl (ds : List Details) : KeepsAll ds ds := by
  cases ds with
  | nil => exact .nil
  | cons d ds => exact .cons (keepsKnown_refl d) (keepsAll_refl ds)

end

theorem mergeBound_left (h : BoundsAgree a b) (ha : a = .known n) : mergeBound a b = .known n := by
  subst ha
  rfl

theorem mergeBound_right (h : BoundsAgree a b) (hb : b = .known n) : mergeBound a b = .known n := by
  subst hb
  obtain rfl | ⟨rfl, -⟩ | ⟨-, ⟨⟩⟩ := h <;> rfl

theorem mergeParamBound_left (h : ParamBoundsAgree a b) (ha : a = some (.known n)) :
    mergeParamBound a b = some (.known n) := by
  cases h with
  | none => cases ha
  | some h => exact congrArg some (mergeBound_left h (Option.some.inj ha))

theorem mergeParamBound_right (h : ParamBoundsAgree a b) (hb : b = some (.known n)) :
    mergeParamBound a b = some (.known n) := by
  cases h with
  | none => cases hb
  | some h => exact congrArg some (mergeBound_right h (Option.some.inj hb))

section
variable {m : Details → Details → Details} {R : Details → Details → Prop}

theorem keepsPart_left (h : ∀ d e, R d e → KeepsKnown d (m d e)) (p q : Part)
    (hpq : PartsAgree R p q) : KeepsPart p (mergePart m p q) := by
  cases p with
  | pointer => cases q <;> exact .pointer
  | array a =>
    cases q with
    | array b => exact .array fun n => mergeBound_left hpq
    | _ => cases hpq
  | oldFunction => cases q <;> first | exact .oldFunction | exact .adopted
  | function isVariadic params =>
    cases q with
    | oldFunction => exact keepsPart_refl _
    | function isVariadic' params' =>
      rw [mergePart, if_pos hpq.2.length_eq]
      exact .function (keepsAll_of (overlay_keeps_left h hpq.2))
    | _ => cases hpq

theorem keepsPart_right (h : ∀ d e, R d e → KeepsKnown e (m d e)) (p q : Part)
    (hpq : PartsAgree R p q) : KeepsPart q (mergePart m p q) := by
  cases q with
  | pointer => cases p <;> first | exact .pointer | cases hpq
  | array b =>
    cases p with
    | array a => exact .array fun n => mergeBound_right hpq
    | _ => cases hpq
  | oldFunction => cases p <;> first | exact .oldFunction | exact .adopted | cases hpq
  | function isVariadic' params' =>
    cases p with
    | oldFunction => exact keepsPart_refl _
    | function isVariadic params =>
      rw [mergePart, if_pos hpq.2.length_eq]
      obtain ⟨rfl, hparams⟩ := hpq
      exact .function (keepsAll_of (overlay_keeps_right h hparams))
    | _ => cases hpq

end

theorem mergeDetails_keeps (room : Nat) (a b : Details) (h : DetailsAgree room a b) :
    KeepsKnown a (mergeDetails room a b) ∧ KeepsKnown b (mergeDetails room a b) := by
  induction room generalizing a b with
  | zero =>
    obtain rfl : a = b := h
    exact ⟨keepsKnown_refl a, keepsKnown_refl a⟩
  | succ room ih =>
    obtain ⟨paramBound, parts⟩ := a
    obtain ⟨paramBound', parts'⟩ := b
    refine ⟨.mk (fun n => mergeParamBound_left h.1) (keepsParts_of ?_),
      .mk (fun n => mergeParamBound_right h.1) (keepsParts_of ?_)⟩
    · exact overlay_keeps_left (keepsPart_left fun d e hde => (ih d e hde).1) h.2
    · exact overlay_keeps_right (keepsPart_right fun d e hde => (ih d e hde).2) h.2

-- The laws

def TypesAgree (a b : ParsedType E) : Prop := DetailsAgree maxMergeRoom (details a) (details b)

def SignaturesAgree (f g : FunctionSignature E) : Prop :=
  PartsAgree (DetailsAgree maxMergeRoom) (signaturePart f) (signaturePart g)

theorem merge_comm_iff (a b : ParsedType E) :
    details (merge a b) = details (merge b a) ↔ TypesAgree a b := by
  rw [merge, merge, details_merge, details_merge, mergeDetails_comm_iff, TypesAgree]

theorem mergeSignatures_comm_iff (f g : FunctionSignature E) :
    signaturePart (mergeCompatibleFunctionSignatures f g) =
      signaturePart (mergeCompatibleFunctionSignatures g f) ↔ SignaturesAgree f g := by
  rw [signaturePart_merge, signaturePart_merge, mergePart_comm_iff (mergeDetails_comm_iff _),
    SignaturesAgree]

theorem mergeLawful_of (h : ∀ a b, S a → S b → TypesAgree a b) :
    MergeLawful S where
  idem a _ := merge_details_self maxMergeRoom a
  comm a b ha hb := (merge_comm_iff a b).mpr (h a b ha hb)
  assoc a b c ha hb hc := by
    simp only [merge, details_merge]
    exact mergeDetails_assoc _ _ _ _ (h a b ha hb) (h b c hb hc) (h a c ha hc)
  known a b ha hb := by
    simp only [merge, details_merge]
    exact mergeDetails_keeps _ _ _ (h a b ha hb)

theorem signatureMergeLawful_of
    (h : ∀ f g, F f → F g → SignaturesAgree f g) : SignatureMergeLawful F where
  idem f _ := mergeSignatures_self f
  comm f g hf hg := (mergeSignatures_comm_iff f g).mpr (h f g hf hg)
  assoc f g k hf hg hk := by
    simp only [signaturePart_merge]
    exact mergePart_assoc (mergeDetails_assoc _) _ _ _ (h f g hf hg) (h g k hg hk) (h f k hf hk)
  known f g hf hg := by
    simp only [signaturePart_merge]
    exact ⟨keepsPart_left (fun d e hde => (mergeDetails_keeps _ d e hde).1) _ _ (h f g hf hg),
      keepsPart_right (fun d e hde => (mergeDetails_keeps _ d e hde).2) _ _ (h f g hf hg)⟩

/-- Composite types do not depend on the order exactly when all the types agree. -/
theorem mergesLawful_iff (S : ParsedType E → Prop) (F : FunctionSignature E → Prop) :
    (MergeLawful S ∧ SignatureMergeLawful F) ↔
      (∀ a b, S a → S b → TypesAgree a b) ∧ (∀ f g, F f → F g → SignaturesAgree f g) := by
  constructor
  · rintro ⟨htypes, hsignatures⟩
    exact ⟨fun a b ha hb => (merge_comm_iff a b).mp (htypes.comm a b ha hb),
      fun f g hf hg => (mergeSignatures_comm_iff f g).mp (hsignatures.comm f g hf hg)⟩
  · rintro ⟨htypes, hsignatures⟩
    exact ⟨mergeLawful_of htypes, signatureMergeLawful_of hsignatures⟩

-- A variable bound and a constant

/-- `int (*)[…]` -/
def rows (info : ParsedArrayInfo E) : ParsedType E :=
  .mk ⟨⟨.primitive, .none, .kwInt, none, false, false, false, false, false, false, false, false, false⟩,
    ⟨false, false, false, false, false, false⟩, 1, false, info.isVLA, false, false, none⟩ []
    [.pointer ⟨false, false, false⟩, .array info]

def variableRows : ParsedType String :=
  rows ⟨some "n", true, none, false, false, false, false, false⟩

def threeRows : ParsedType String :=
  rows ⟨some "3", false, some 3, false, false, false, false, false⟩

/-- `void f(int (*)[n]);` and `void f(int (*)[3]);` -/
theorem composite_types_ordered :
    (parsedArrayBoundsCompatible variableRows threeRows = true ∧
      parsedArrayBoundsCompatible threeRows variableRows = true) ∧
    ¬ (MergeLawful (fun t => t = variableRows ∨ t = threeRows) ∧
      SignatureMergeLawful fun f => f = ⟨true, false, [variableRows]⟩ ∨ f = ⟨true, false, [threeRows]⟩) := by
  refine ⟨⟨rfl, rfl⟩, ?_⟩
  rintro ⟨h, -⟩
  have hcomm : Details.mk none [.pointer, .array .variableLength] = .mk none [.pointer, .array (.known 3)] :=
    h.comm variableRows threeRows (.inl rfl) (.inr rfl)
  simp at hcomm

end Fisics.Types
