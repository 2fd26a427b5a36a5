import Fisics.Extensions.UnitsExpr

/-!
# What the walk records

A tree alone tells what is recorded or reported for each of its nodes: the table
gives every operand back as its own node left it.
-/

namespace Fisics

open CInteger (CompareOp)
open List (map_append mem_append mem_append_left mem_append_right mem_singleton mem_singleton_self nodup_append)
open KeyTable (get)

/-- Induction over expressions, with the list of a comma. -/
theorem UnitsNode.induct {motive : UnitsNode → Prop} (literal : ∀ id value, motive (.literal id value))
    (identifier : ∀ id name, motive (.identifier id name))
    (unary : ∀ id op e, motive e → motive (.unary id op e))
    (binary : ∀ id op l r, motive l → motive r → motive (.binary id op l r))
    (ternary : ∀ id c t f, motive c → motive t → motive f → motive (.ternary id c t f))
    (comma : ∀ id es, (∀ e ∈ es, motive e) → motive (.comma id es))
    (cast : ∀ id e, motive e → motive (.cast id e))
    (assignment : ∀ id op target name value, motive value →
      motive (.assignment id op target name value)) (e : UnitsNode) : motive e :=
  @UnitsNode.rec motive (fun es => ∀ e ∈ es, motive e) literal identifier unary binary ternary comma
    cast assignment nofun
    (fun _ _ he hes x hx => (List.mem_cons.mp hx).elim (fun h => h ▸ he) (hes x)) e

theorem UnitsNode.subexpressionsAll_eq (es : List UnitsNode) :
    UnitsNode.subexpressionsAll es = es.flatMap UnitsNode.subexpressions := by
  induction es with
  | nil => rfl
  | cons e es ih => rw [UnitsNode.subexpressionsAll, ih, List.flatMap_cons]

theorem UnitsNode.mem_subexpressions_self (e : UnitsNode) : e ∈ e.subexpressions := by
  cases e <;> simp [UnitsNode.subexpressions]

theorem UnitsNode.subexpressions_trans (e : UnitsNode) (h : s ∈ e.subexpressions)
    (h' : s' ∈ s.subexpressions) : s' ∈ e.subexpressions := by
  induction e using UnitsNode.induct with
  | literal id value | identifier id name =>
    obtain rfl := mem_singleton.mp h
    exact h'
  | unary id op e ih | cast id e ih =>
    rcases mem_append.mp h with h | h
    · exact mem_append_left _ (ih h)
    · obtain rfl := mem_singleton.mp h
      exact h'
  | binary id op l r ihl ihr =>
    simp only [subexpressions, mem_append, mem_singleton] at h ⊢
    rcases h with (h | h) | rfl
    · exact .inl (.inl (ihl h))
    · exact .inl (.inr (ihr h))
    · simpa [subexpressions, or_assoc] using h'
  | ternary id c t f ihc iht ihf =>
    simp only [subexpressions, mem_append, mem_singleton] at h ⊢
    rcases h with ((h | h) | h) | rfl
    · exact .inl (.inl (.inl (ihc h)))
    · exact .inl (.inl (.inr (iht h)))
    · exact .inl (.inr (ihf h))
    · simpa [subexpressions, or_assoc] using h'
  | comma id es ih =>
    simp only [subexpressions, subexpressionsAll_eq, mem_append, List.mem_flatMap,
      mem_singleton] at h ⊢
    rcases h with ⟨e, he, h⟩ | rfl
    · exact .inl ⟨e, he, ih e he h⟩
    · simpa [subexpressions, subexpressionsAll_eq] using h'
  | assignment id op target name value ih =>
    simp only [subexpressions, List.cons_append, List.mem_cons, mem_append, List.not_mem_nil,
      or_false] at h ⊢
    rcases h with rfl | h | rfl
    · exact .inl (by simpa [subexpressions] using h')
    · exact .inr (.inl (ih h))
    · simpa [subexpressions] using h'

-- Outcomes of a tree

def UnitsOutcome.result : UnitsOutcome U → Option (UnitsExprResult U)
  | .record dim unitDef unitResolved => some (unitsExprResult dim unitDef unitResolved)
  | _ => none

def UnitsOutcome.diags : UnitsOutcome U → List (Nat × UnitsDiag U)
  | .report id diag => [(id, diag)]
  | _ => []

def outcomeOne (operand : UnitsOutcome U) (outcome : UnitsExprResult U → UnitsOutcome U) :
    UnitsOutcome U :=
  match operand.result with
  | some result => outcome result
  | none => .nothing

def outcomeTwo (left right : UnitsOutcome U)
    (outcome : UnitsExprResult U → UnitsExprResult U → UnitsOutcome U) : UnitsOutcome U :=
  match left.result, right.result with
  | some l, some r => outcome l r
  | _, _ => .nothing

section
variable {U : Type} [DecidableEq U] (bindings : String → Option (UnitsAnnotationInfo U))

mutual

def outcomeOf : UnitsNode → UnitsOutcome U
  | .literal _ _ => .record dimZero none false
  | .identifier _ name => identifierOutcome (bindings name)
  | .unary _ op e => outcomeOne (outcomeOf e) (unaryOutcome op)
  | .binary id op l r => outcomeTwo (outcomeOf l) (outcomeOf r) (binaryOutcome id op)
  | .ternary id _ t f => outcomeTwo (outcomeOf t) (outcomeOf f) (ternaryOutcome id)
  | .comma _ es => outcomeOne (outcomeOfLast es) keepOutcome
  | .cast _ e => outcomeOne (outcomeOf e) keepOutcome
  | .assignment id op _ name value =>
    outcomeTwo (identifierOutcome (bindings name)) (outcomeOf value) (assignmentOutcome id op value)

def outcomeOfLast : List UnitsNode → UnitsOutcome U
  | [] => .nothing
  | [e] => outcomeOf e
  | _ :: es => outcomeOfLast es

end

def resultOf (e : UnitsNode) : Option (UnitsExprResult U) := (outcomeOf bindings e).result

def diagsOf (e : UnitsNode) : List (Nat × UnitsDiag U) :=
  e.subexpressions.flatMap fun s => (outcomeOf bindings s).diags

end

-- The state after a walk

section
variable {U : Type} {st : UnitsState U}

theorem get_apply (id other : Nat) (o : UnitsOutcome U) :
    get other (st.apply id o).results =
      if id = other then o.result.or (get other st.results)
      else get other st.results := by
  cases o with
  | nothing => simp [UnitsState.apply, UnitsOutcome.result]
  | record dim unitDef unitResolved =>
    simp [UnitsState.apply, UnitsState.setUnitsExprResultWithUnit, UnitsOutcome.result]
  | report node diag => simp [UnitsState.apply, UnitsState.report, UnitsOutcome.result]

theorem diags_apply (id : Nat) (o : UnitsOutcome U) : (st.apply id o).diags = st.diags ++ o.diags := by
  cases o <;> simp [UnitsState.apply, UnitsState.setUnitsExprResultWithUnit, UnitsState.report,
    UnitsOutcome.diags]

theorem nodup_apply (h : (st.results.map Prod.fst).Nodup) (id : Nat) (o : UnitsOutcome U) :
    ((st.apply id o).results.map Prod.fst).Nodup := by
  cases o with
  | nothing => exact h
  | record dim unitDef unitResolved => exact KeyTable.nodup_set h _ _
  | report node diag => exact h

theorem lookup_of_get {id : Nat} {o : UnitsOutcome U} (h : get id st.results = o.result) :
    lookupResolvedExprMetadata st id = o.result := by
  rw [lookupResolvedExprMetadata, h]
  cases o <;> rfl

theorem recordOne_eq {o : UnitsOutcome U} (id : Nat) (h : get operand st.results = o.result)
    (f : UnitsExprResult U → UnitsOutcome U) :
    st.recordOne id operand f = st.apply id (outcomeOne o f) := by
  rw [UnitsState.recordOne, lookup_of_get h, outcomeOne]
  cases o <;> rfl

theorem recordTwo_eq {o o' : UnitsOutcome U} (id : Nat)
    (h : get left st.results = o.result) (h' : get right st.results = o'.result)
    (f : UnitsExprResult U → UnitsExprResult U → UnitsOutcome U) :
    st.recordTwo id left right f = st.apply id (outcomeTwo o o' f) := by
  rw [UnitsState.recordTwo, lookup_of_get h, lookup_of_get h', outcomeTwo]
  cases o <;> cases o' <;> rfl

variable [DecidableEq U] (bindings : String → Option (UnitsAnnotationInfo U))

/-- The nodes `nodes` have been left between the two states. -/
structure Left (nodes : List UnitsNode) (st st' : UnitsState U) : Prop where
  frame : ∀ id, id ∉ nodes.map UnitsNode.id → KeyTable.get id st'.results = KeyTable.get id st.results
  results : ∀ s ∈ nodes, KeyTable.get s.id st'.results = resultOf bindings s
  diags : st'.diags = st.diags ++ nodes.flatMap fun s => (outcomeOf bindings s).diags

variable {bindings}

theorem Left.nil (st : UnitsState U) : Left bindings [] st st :=
  ⟨fun _ _ => rfl, nofun, (List.append_nil _).symm⟩

theorem Left.append (h : Left bindings nodes st st') (h' : Left bindings nodes' st' st'')
    (hdistinct : ((nodes ++ nodes').map UnitsNode.id).Nodup) :
    Left bindings (nodes ++ nodes') st st'' := by
  rw [map_append] at hdistinct
  have hdisjoint := (nodup_append.mp hdistinct).2.2
  refine ⟨?_, ?_, ?_⟩
  · intro id hid
    rw [map_append, mem_append, not_or] at hid
    rw [h'.frame id hid.2, h.frame id hid.1]
  · intro s hs
    rcases mem_append.mp hs with hs | hs
    · have hout : s.id ∉ nodes'.map UnitsNode.id := fun hmem =>
        hdisjoint _ (List.mem_map_of_mem hs) _ hmem rfl
      rw [h'.frame _ hout, h.results s hs]
    · exact h'.results s hs
  · rw [h'.diags, h.diags, List.flatMap_append, List.append_assoc]

theorem left_self (e : UnitsNode) (hfresh : get e.id st.results = none) :
    Left bindings [e] st (st.apply e.id (outcomeOf bindings e)) := by
  refine ⟨?_, ?_, ?_⟩
  · intro id hid
    rw [get_apply, if_neg fun h => hid (by simp [h])]
  · intro s hs
    obtain rfl := mem_singleton.mp hs
    rw [get_apply, if_pos rfl, hfresh, Option.or_none]
    rfl
  · rw [diags_apply]
    simp

theorem Left.fresh (h : Left bindings nodes st st') (hdistinct : ((nodes ++ nodes').map UnitsNode.id).Nodup)
    (hfresh : ∀ s ∈ nodes ++ nodes', get s.id st.results = none) :
    ∀ s ∈ nodes', get s.id st'.results = none := by
  intro s hs
  rw [map_append] at hdistinct
  have hout : s.id ∉ nodes.map UnitsNode.id := fun hmem =>
    (nodup_append.mp hdistinct).2.2 _ hmem _ (List.mem_map_of_mem hs) rfl
  rw [h.frame _ hout, hfresh s (mem_append_right _ hs)]

/-- A walk over nodes that are distinct and new to the table. -/
def RecordsAll (bindings : String → Option (UnitsAnnotationInfo U)) (nodes : List UnitsNode)
    (walk : UnitsState U → UnitsState U) : Prop :=
  ∀ st, (nodes.map UnitsNode.id).Nodup → (∀ s ∈ nodes, KeyTable.get s.id st.results = none) →
    Left bindings nodes st (walk st)

theorem RecordsAll.append (h : RecordsAll bindings nodes walk) (h' : RecordsAll bindings nodes' walk') :
    RecordsAll bindings (nodes ++ nodes') fun st => walk' (walk st) := by
  intro st hdistinct hfresh
  have hdistinct' := hdistinct
  rw [map_append] at hdistinct'
  have hfirst := h st (nodup_append.mp hdistinct').1 fun s hs => hfresh s (mem_append_left _ hs)
  exact hfirst.append (h' _ (nodup_append.mp hdistinct').2.1 (hfirst.fresh hdistinct hfresh)) hdistinct

theorem RecordsAll.leave (h : RecordsAll bindings nodes walk) (e : UnitsNode)
    {leave : UnitsState U → UnitsState U}
      (hleave : ∀ st, (∀ s ∈ nodes, get s.id st.results = resultOf bindings s) →
      leave st = st.apply e.id (outcomeOf bindings e)) :
    RecordsAll bindings (nodes ++ [e]) fun st => leave (walk st) := by
  intro st hdistinct hfresh
  have hdistinct' := hdistinct
  rw [map_append] at hdistinct'
  have hfirst := h st (nodup_append.mp hdistinct').1 fun s hs => hfresh s (mem_append_left _ hs)
  have hself := hfirst.fresh hdistinct hfresh e (mem_singleton_self e)
  dsimp only
  rw [hleave _ hfirst.results]
  exact hfirst.append (left_self e hself) hdistinct

omit [DecidableEq U] in
theorem assignmentTarget_eq (ann : Option (UnitsAnnotationInfo U))
    (h : get target st.results = (identifierOutcome ann).result) :
    assignmentTarget st target ann = (identifierOutcome ann).result := by
  rw [assignmentTarget, lookup_of_get h]
  cases ann with
  | none => rfl
  | some ann => ?_
  by_cases hunusable : (!ann.resolved || 1 < ann.dimDuplicateCount) = true
  · have hnothing : identifierOutcome (some ann) = .nothing := if_pos hunusable
    have hconcrete : ann.isConcrete = false := by
      rcases (Bool.or_eq_true _ _).mp hunusable with hres | hdup
      · have hres : ann.resolved = false := by simpa using hres
        simp [UnitsAnnotationInfo.isConcrete, hres]
      · have hle : ¬ann.dimDuplicateCount ≤ 1 := Nat.not_le.mpr (of_decide_eq_true hdup)
        simp [UnitsAnnotationInfo.isConcrete, hle]
    rw [hnothing]
    simp [UnitsOutcome.result, Option.filter, hconcrete]
  · have hrecord : identifierOutcome (some ann) =
        .record ann.dim (if ann.unitResolved then ann.unitDef else none) ann.unitResolved :=
      if_neg hunusable
    rw [hrecord]
    rfl

theorem outcomeOfLast_eq (es : List UnitsNode) :
    outcomeOfLast bindings es = (es.getLast?.map (outcomeOf bindings)).getD .nothing := by
  induction es with
  | nil => rfl
  | cons e es ih =>
    cases es with
    | nil => rfl
    | cons e' es =>
      rw [List.getLast?_cons_cons, ← ih]
      rfl

variable (bindings) in
theorem walkExprResults_walks (e : UnitsNode) :
    RecordsAll bindings e.subexpressions (walkExprResults bindings e) := by
  induction e using UnitsNode.induct with
  | literal id value =>
    intro st _ hfresh
    exact left_self (.literal id value) (hfresh _ (mem_singleton_self _))
  | identifier id name =>
    intro st _ hfresh
    exact left_self (.identifier id name) (hfresh _ (mem_singleton_self _))
  | unary id op e ih =>
    have hleave (st : UnitsState U) (hresults : ∀ s ∈ e.subexpressions,
        get s.id st.results = resultOf bindings s) :
        st.recordOne id e.id (unaryOutcome op) = st.apply id (outcomeOf bindings (.unary id op e)) :=
      recordOne_eq id (hresults e e.mem_subexpressions_self) _
    exact ih.leave (.unary id op e) hleave
  | binary id op l r ihl ihr =>
    have hleave (st : UnitsState U) (hresults : ∀ s ∈ l.subexpressions ++ r.subexpressions,
        get s.id st.results = resultOf bindings s) :
        st.recordTwo id l.id r.id (binaryOutcome id op) =
          st.apply id (outcomeOf bindings (.binary id op l r)) :=
      recordTwo_eq id (hresults l (mem_append_left _ l.mem_subexpressions_self))
        (hresults r (mem_append_right _ r.mem_subexpressions_self)) _
    exact (ihl.append ihr).leave (.binary id op l r) hleave
  | ternary id c t f ihc iht ihf =>
    have hleave (st : UnitsState U)
        (hresults : ∀ s ∈ c.subexpressions ++ t.subexpressions ++ f.subexpressions,
          get s.id st.results = resultOf bindings s) :
        st.recordTwo id t.id f.id (ternaryOutcome id) =
          st.apply id (outcomeOf bindings (.ternary id c t f)) :=
      recordTwo_eq id
        (hresults t (mem_append_left _ (mem_append_right _ t.mem_subexpressions_self)))
        (hresults f (mem_append_right _ f.mem_subexpressions_self)) _
    exact ((ihc.append iht).append ihf).leave (.ternary id c t f) hleave
  | comma id es ih =>
    have hall : RecordsAll bindings (UnitsNode.subexpressionsAll es) (walkAllResults bindings es) := by
      induction es with
      | nil => exact fun st _ _ => Left.nil st
      | cons e es ihes =>
        exact (ih e List.mem_cons_self).append (ihes fun x hx => ih x (List.mem_cons_of_mem _ hx))
    have hwalk : walkExprResults bindings (.comma id es) = fun st =>
        es.getLast?.elim (walkAllResults bindings es st) fun tail =>
          (walkAllResults bindings es st).recordOne id tail.id keepOutcome := by
      funext st
      cases htail : es.getLast? <;> simp only [walkExprResults, htail, Option.elim]
    rw [hwalk]
    have hleave (st : UnitsState U) (hresults : ∀ s ∈ UnitsNode.subexpressionsAll es,
        get s.id st.results = resultOf bindings s) :
        (es.getLast?.elim st fun tail => st.recordOne id tail.id keepOutcome) =
          st.apply id (outcomeOf bindings (.comma id es)) := by
      show _ = st.apply id (outcomeOne (outcomeOfLast bindings es) keepOutcome)
      rw [outcomeOfLast_eq]
      cases hlast : es.getLast? with
      | none => rfl
      | some tail => ?_
      have hmem : tail ∈ UnitsNode.subexpressionsAll es := by
        rw [UnitsNode.subexpressionsAll_eq]
        exact List.mem_flatMap.mpr ⟨tail, List.mem_of_getLast? hlast, tail.mem_subexpressions_self⟩
      exact recordOne_eq id (hresults tail hmem) _
    exact hall.leave (.comma id es) hleave
  | cast id e ih =>
    have hleave (st : UnitsState U) (hresults : ∀ s ∈ e.subexpressions,
        get s.id st.results = resultOf bindings s) :
        st.recordOne id e.id keepOutcome = st.apply id (outcomeOf bindings (.cast id e)) :=
      recordOne_eq id (hresults e e.mem_subexpressions_self) _
    exact ih.leave (.cast id e) hleave
  | assignment id op target name value ih =>
    have htarget : RecordsAll bindings [.identifier target name]
        fun st => st.apply target (identifierOutcome (bindings name)) := by
      intro st _ hfresh
      exact left_self (.identifier target name) (hfresh _ (mem_singleton_self _))
    have hleave (st : UnitsState U)
        (hresults : ∀ s ∈ [.identifier target name] ++ value.subexpressions,
          get s.id st.results = resultOf bindings s) :
        maybeRecordAssignmentResult bindings st id op target name value =
          st.apply id (outcomeOf bindings (.assignment id op target name value)) := by
      have htargetResult : assignmentTarget st target (bindings name) =
          (identifierOutcome (bindings name)).result :=
        assignmentTarget_eq (bindings name) (hresults (.identifier target name) List.mem_cons_self)
      have hvalue := lookup_of_get (o := outcomeOf bindings value)
        (hresults value (List.mem_cons_of_mem _ value.mem_subexpressions_self))
      rw [maybeRecordAssignmentResult, htargetResult, hvalue]
      show _ = st.apply id (outcomeTwo _ _ _)
      rw [outcomeTwo]
      cases (identifierOutcome (bindings name)).result <;> cases (outcomeOf bindings value).result <;> rfl
    exact (htarget.append ih).leave (.assignment id op target name value) hleave

variable (bindings) in
theorem walkExprResults_nodup (e : UnitsNode) :
    ∀ st : UnitsState U, (st.results.map Prod.fst).Nodup →
      ((walkExprResults bindings e st).results.map Prod.fst).Nodup := by
  have hone (st : UnitsState U) (id operand : Nat) (f : UnitsExprResult U → UnitsOutcome U)
      (h : (st.results.map Prod.fst).Nodup) : ((st.recordOne id operand f).results.map Prod.fst).Nodup := by
    unfold UnitsState.recordOne
    split
    · exact nodup_apply h _ _
    · exact h
  have htwo (st : UnitsState U) (id left right : Nat)
      (f : UnitsExprResult U → UnitsExprResult U → UnitsOutcome U)
      (h : (st.results.map Prod.fst).Nodup) :
      ((st.recordTwo id left right f).results.map Prod.fst).Nodup := by
    unfold UnitsState.recordTwo
    split
    · exact nodup_apply h _ _
    · exact h
  induction e using UnitsNode.induct with
  | literal id value | identifier id name => exact fun st h => nodup_apply h _ _
  | unary id op e ih | cast id e ih => exact fun st h => hone _ _ _ _ (ih st h)
  | binary id op l r ihl ihr => exact fun st h => htwo _ _ _ _ _ (ihr _ (ihl st h))
  | ternary id c t f ihc iht ihf => exact fun st h => htwo _ _ _ _ _ (ihf _ (iht _ (ihc st h)))
  | comma id es ih =>
    have hall : ∀ st : UnitsState U, (st.results.map Prod.fst).Nodup →
        ((walkAllResults bindings es st).results.map Prod.fst).Nodup := by
      induction es with
      | nil => exact fun st h => h
      | cons e es ihes =>
        intro st h
        exact ihes (fun x hx => ih x (List.mem_cons_of_mem _ hx)) _ (ih e List.mem_cons_self st h)
    intro st h
    rw [walkExprResults]
    cases es.getLast? with
    | none => exact hall st h
    | some tail => exact hone _ _ _ _ (hall st h)
  | assignment id op target name value ih =>
    intro st h
    rw [walkExprResults]
    have hvalue := ih _ (nodup_apply h target (identifierOutcome (bindings name)))
    unfold maybeRecordAssignmentResult
    split
    · exact nodup_apply hvalue _ _
    · exact hvalue

end

end Fisics
