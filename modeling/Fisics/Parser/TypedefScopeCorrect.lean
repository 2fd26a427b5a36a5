import Fisics.Parser.TypedefScopeLaws

/-!
# When typedef names follow the scopes of C

The parser forgets no typedef and records no enumerator, and only blocks, function
bodies and parameter lists have a frame. A program shows none of this exactly when
each of its declarations leaves its names as the parser will have them.
-/

namespace Fisics

variable {p : ParserNames} {scopes : CScopes}

-- Programs the parser follows

/-- Inside a function a typedef may repeat a typedef, not bring a name; a variable
that more of its declaration follows, and an enumerator, hide no typedef. -/
def ScopeDeclOk (scopes : CScopes) : ScopeDecl → Prop
  | .typedefs declarators => ∀ d ∈ declarators, denotes scopes d.name = some .typedefName
  | .variables declarators => ∀ name ∈ followed declarators, denotes scopes name ≠ some .typedefName
  | .enumerators names => ∀ name ∈ names, denotes scopes name ≠ some .typedefName

mutual
def ScopeItemOk (scopes : CScopes) : ScopeItem → Prop
  | .decl d => ScopeDeclOk scopes d
  | .block items => ScopeItemsOk ([] :: scopes) items
  -- a loop and a switch body leave their variables in the frame around them
  | .forLoop init body =>
    (∀ name ∈ init.map (·.name) ++ directVariables body, denotes scopes name ≠ some .typedefName) ∧
      ScopeItemOk (scopeDeclarators .variable ([] :: scopes) init).1 body
  | .switchStmt items =>
    (∀ name ∈ allDirectVariables items, denotes scopes name ≠ some .typedefName) ∧
      ScopeItemsOk ([] :: scopes) items
def ScopeItemsOk (scopes : CScopes) : List ScopeItem → Prop
  | [] => True
  | item :: items => ScopeItemOk scopes item ∧ ScopeItemsOk (scopeItem scopes item).1 items
end

/-- A typedef at file scope brings a name that nothing declared yet, or repeats one. -/
def ExternalDeclOk (scopes : CScopes) : ExternalDecl → Prop
  | .decl (.typedefs declarators) => ∀ d ∈ declarators, denotes scopes d.name = some .typedefName ∨
    ((∀ scope ∈ scopes, (d.name, .typedefName) ∉ scope ∧ (d.name, .variable) ∉ scope) ∧
      d.name ∉ followed declarators)
  | .decl d => ScopeDeclOk scopes d
  | .function parameters body => ScopeItemsOk (scopeNames .variable ([] :: scopes) parameters).1 body

def ExternalDeclsOk (scopes : CScopes) : List ExternalDecl → Prop
  | [] => True
  | d :: rest => ExternalDeclOk scopes d ∧ ExternalDeclsOk (scopeExternalDecl scopes d).1 rest

-- Inside a function

/-- Where a scope ends, the names agree unless a variable outlived it. -/
theorem Brings.agree (hbrings : Brings p after ts vs)
    (h : NamesAgree p scopes) (hts : ∀ name ∈ ts, name.val ∈ p.typedefNames) :
    NamesAgree after scopes ↔ ∀ name ∈ vs, denotes scopes name ≠ some .typedefName := by
  refine forall_congr' fun name => ?_
  have hmem : name.val ∈ after.typedefNames ↔ name.val ∈ p.typedefNames := by
    rw [hbrings.typedefs]
    exact or_iff_left_of_imp (hts name)
  simp only [ne_eq, ← h name, visible_iff, hmem, hbrings.recorded]
  by_cases hvs : name ∈ vs
  · simp [hvs]
  · simp [hvs]

mutual
theorem item_sound : (item : ScopeItem) → (p : ParserNames) → (scopes : CScopes) → p.ordinaryScope ≠ [] →
    scopes ≠ [] → NamesAgree p scopes → ScopeItemOk scopes item →
      List.Forall₂ NamesAgree (parseScopeItem p item).2 (scopeItem scopes item).2 ∧
        NamesAgree (parseScopeItem p item).1 (scopeItem scopes item).1 ∧
        ∀ name ∈ typedefsIn item, name.val ∈ p.typedefNames
  | .decl (.typedefs ds), p, scopes, hp, _, h, hok => by
    have hall : ∀ name ∈ ds.map (·.name), denotes scopes name = some .typedefName := by
      intro name hname
      obtain ⟨d, hd, rfl⟩ := List.mem_map.mp hname
      exact hok d hd
    have hvisible (name : Identifier) (hname : name ∈ ds.map (·.name)) :=
      (visible_iff p name).mp ((h name).mpr (hall name hname))
    have hfree : ∀ name ∈ ds.map (·.name), ¬Recorded p name := fun name hname => (hvisible name hname).2
    exact ⟨(typedefs_points hp ds h).mpr ⟨fun name hname => hall name (followed_subset ds hname), hfree⟩,
      (typedefs_agree hp ds h).mpr hfree, fun name hname => (hvisible name hname).1⟩
  | .decl (.variables ds), p, scopes, hp, _, h, hok =>
    ⟨(variables_points scopes hp ds h).mpr hok, variables_agree scopes hp ds h, by simp [typedefsIn]⟩
  | .decl (.enumerators names), p, scopes, _, _, h, hok =>
    ⟨(enumerators_points names h).1.mpr hok, (enumerators_points names h).2 hok, by simp [typedefsIn]⟩
  | .block items, p, scopes, hp, hs, h, hok => by
    obtain ⟨hpoints, -, hts⟩ := items_sound items (parserPushOrdinaryScope p) ([] :: scopes)
      (by simp [parserPushOrdinaryScope]) (by simp) h.push hok
    have hafter : (scopeItem scopes (.block items)).1 = scopes :=
      (scopes_items items ([] :: scopes) (by simp)).2
    have hagree : NamesAgree (parseScopeItem p (.block items)).1 (scopeItem scopes (.block items)).1 := by
      rw [hafter]
      exact ((brings_item (.block items) p hp).agree h hts).mpr (by simp [directVariables])
    exact ⟨(forall₂_concat_iff (length_items items _ _)).mpr ⟨hpoints, hagree⟩, hagree, hts⟩
  | .forLoop init body, p, scopes, hp, hs, h, ⟨hvars, hbody⟩ => by
    have hheader := scopes_declarators .variable init ([] :: scopes) (by simp)
    have hbrings := brings_variables hp init
    obtain ⟨hpoints, -, hts⟩ := item_sound body (parseVariableDeclaration p init).1
      (scopeDeclarators .variable ([] :: scopes) init).1 hbrings.framed hheader.1
      (variables_agree ([] :: scopes) hp init h) hbody
    have hts : ∀ name ∈ typedefsIn body, name.val ∈ p.typedefNames := by
      intro name hname
      simpa [hbrings.typedefs] using hts name hname
    have hafter : (scopeItem scopes (.forLoop init body)).1 = scopes :=
      (scopes_item body _ hheader.1).2.trans hheader.2
    have hagree : NamesAgree (parseScopeItem p (.forLoop init body)).1
        (scopeItem scopes (.forLoop init body)).1 := by
      rw [hafter]
      exact ((brings_item (.forLoop init body) p hp).agree h hts).mpr hvars
    have hinit : ∀ name ∈ followed init, denotes scopes name ≠ some .typedefName := fun name hname =>
      hvars name (List.mem_append_left _ (followed_subset init hname))
    have hhead := (variables_points ([] :: scopes) hp init h).mpr hinit
    refine ⟨(forall₂_concat_iff ?_).mpr ⟨?_, hagree⟩, hagree, hts⟩
    · simp [length_variables p init ([] :: scopes),
        length_item body (parseVariableDeclaration p init).1 (scopeDeclarators .variable ([] :: scopes) init).1]
    · exact (forall₂_append_iff (length_variables p init ([] :: scopes))).mpr ⟨hhead, hpoints⟩
  | .switchStmt items, p, scopes, hp, hs, h, ⟨hvars, hitems⟩ => by
    obtain ⟨hpoints, -, hts⟩ := items_sound items p ([] :: scopes) hp (by simp) h hitems
    have hafter : (scopeItem scopes (.switchStmt items)).1 = scopes :=
      (scopes_items items ([] :: scopes) (by simp)).2
    have hagree : NamesAgree (parseScopeItem p (.switchStmt items)).1
        (scopeItem scopes (.switchStmt items)).1 := by
      rw [hafter]
      exact ((brings_item (.switchStmt items) p hp).agree h hts).mpr hvars
    exact ⟨(forall₂_concat_iff (length_items items _ _)).mpr ⟨hpoints, hagree⟩, hagree, hts⟩
theorem items_sound : (items : List ScopeItem) → (p : ParserNames) → (scopes : CScopes) → p.ordinaryScope ≠ [] →
    scopes ≠ [] → NamesAgree p scopes → ScopeItemsOk scopes items →
      List.Forall₂ NamesAgree (parseScopeItems p items).2 (scopeItems scopes items).2 ∧
        NamesAgree (parseScopeItems p items).1 (scopeItems scopes items).1 ∧
        ∀ name ∈ allTypedefsIn items, name.val ∈ p.typedefNames
  | [], _, _, _, _, h, _ => ⟨.nil, h, by simp [allTypedefsIn]⟩
  | item :: items, p, scopes, hp, hs, h, ⟨hitem, hitems⟩ => by
    obtain ⟨hpoints, hafter, hts⟩ := item_sound item p scopes hp hs h hitem
    have hbrings := brings_item item p hp
    obtain ⟨hpoints', hend, hts'⟩ := items_sound items (parseScopeItem p item).1 (scopeItem scopes item).1
      hbrings.framed (scopes_item item scopes hs).1 hafter hitems
    refine ⟨(forall₂_append_iff (length_item item p scopes)).mpr ⟨hpoints, hpoints'⟩, hend, ?_⟩
    intro name hname
    rcases List.mem_append.mp hname with hname | hname
    · exact hts name hname
    · exact ((hbrings.typedefs name).mp (hts' name hname)).elim id (hts name)
end

mutual
theorem item_free : (item : ScopeItem) → (p : ParserNames) → (scopes : CScopes) → p.ordinaryScope ≠ [] →
    scopes ≠ [] → List.Forall₂ NamesAgree (parseScopeItem p item).2 (scopeItem scopes item).2 →
      ∀ name ∈ typedefsIn item, ¬Recorded p name
  | .decl (.typedefs ds), p, scopes, hp, _, hpoints, name, hname => by
    have hafter : NamesAgree (parseTypedef p ds).1 (scopeDeclarators .typedefName scopes ds).1 :=
      ((forall₂_concat_iff (length_scopesInside .typedefName p ds scopes)).mp hpoints).2
    have hdenotes : denotes (scopeDeclarators .typedefName scopes ds).1 name = some .typedefName := by
      rw [denotes_declarators, if_pos (show name ∈ ds.map (·.name) from hname)]
    have hvisible := ((visible_iff _ name).mp ((hafter name).mpr hdenotes)).2
    simpa [(brings_typedefs hp ds).recorded] using hvisible
  | .decl (.variables ds), _, _, _, _, _, _, hname => by cases hname
  | .decl (.enumerators names), _, _, _, _, _, _, hname => by cases hname
  | .block items, p, scopes, hp, hs, hpoints, name, hname => by
    have hinner := ((forall₂_concat_iff (length_items items _ _)).mp hpoints).1
    simpa using items_free items (parserPushOrdinaryScope p) ([] :: scopes) (by simp [parserPushOrdinaryScope])
      (by simp) hinner name hname
  | .forLoop init body, p, scopes, hp, hs, hpoints, name, hname => by
    have hheader := scopes_declarators .variable init ([] :: scopes) (by simp)
    have hbrings := brings_variables hp init
    have hinner := ((forall₂_concat_iff (by
      simp [length_variables p init ([] :: scopes), length_item body (parseVariableDeclaration p init).1
        (scopeDeclarators .variable ([] :: scopes) init).1])).mp hpoints).1
    have hbody := ((forall₂_append_iff (length_variables p init ([] :: scopes))).mp hinner).2
    have hfree := item_free body _ _ hbrings.framed hheader.1 hbody name hname
    exact fun hrecorded => hfree ((hbrings.recorded name).mpr (.inl hrecorded))
  | .switchStmt items, p, scopes, hp, hs, hpoints, name, hname =>
    items_free items p ([] :: scopes) hp (by simp)
      ((forall₂_concat_iff (length_items items _ _)).mp hpoints).1 name hname
theorem items_free : (items : List ScopeItem) → (p : ParserNames) → (scopes : CScopes) → p.ordinaryScope ≠ [] →
    scopes ≠ [] → List.Forall₂ NamesAgree (parseScopeItems p items).2 (scopeItems scopes items).2 →
      ∀ name ∈ allTypedefsIn items, ¬Recorded p name
  | item :: items, p, scopes, hp, hs, hpoints, name, hname => by
    have hbrings := brings_item item p hp
    obtain ⟨hfirst, hrest⟩ := (forall₂_append_iff (length_item item p scopes)).mp hpoints
    rcases List.mem_append.mp hname with hname | hname
    · exact item_free item p scopes hp hs hfirst name hname
    · have hfree := items_free items _ _ hbrings.framed (scopes_item item scopes hs).1 hrest name hname
      exact fun hrecorded => hfree ((hbrings.recorded name).mpr (.inl hrecorded))
end

mutual
theorem item_complete : (item : ScopeItem) → (p : ParserNames) → (scopes : CScopes) → p.ordinaryScope ≠ [] →
    scopes ≠ [] → NamesAgree p scopes → (∀ name ∈ typedefsIn item, name.val ∈ p.typedefNames) →
      List.Forall₂ NamesAgree (parseScopeItem p item).2 (scopeItem scopes item).2 → ScopeItemOk scopes item
  | .decl (.typedefs ds), p, scopes, hp, _, h, hts, hpoints => by
    have hfree := ((typedefs_points hp ds h).mp hpoints).2
    intro d hd
    have hname : d.name ∈ ds.map (·.name) := List.mem_map_of_mem hd
    exact (h d.name).mp ((visible_iff p d.name).mpr ⟨hts d.name hname, hfree d.name hname⟩)
  | .decl (.variables ds), p, scopes, hp, _, h, _, hpoints => (variables_points scopes hp ds h).mp hpoints
  | .decl (.enumerators names), p, scopes, _, _, h, _, hpoints => (enumerators_points names h).1.mp hpoints
  | .block items, p, scopes, hp, hs, h, hts, hpoints =>
    items_complete items (parserPushOrdinaryScope p) ([] :: scopes) (by simp [parserPushOrdinaryScope])
      (by simp) h.push
      hts ((forall₂_concat_iff (length_items items _ _)).mp hpoints).1
  | .forLoop init body, p, scopes, hp, hs, h, hts, hpoints => by
    have hheader := scopes_declarators .variable init ([] :: scopes) (by simp)
    have hbrings := brings_variables hp init
    obtain ⟨hinner, hend⟩ := (forall₂_concat_iff (by
      simp [length_variables p init ([] :: scopes), length_item body (parseVariableDeclaration p init).1
        (scopeDeclarators .variable ([] :: scopes) init).1])).mp hpoints
    have hafter : (scopeItem scopes (.forLoop init body)).1 = scopes :=
      (scopes_item body _ hheader.1).2.trans hheader.2
    have hclosed : NamesAgree (parseScopeItem p (.forLoop init body)).1 scopes := hafter ▸ hend
    refine ⟨((brings_item (.forLoop init body) p hp).agree h hts).mp hclosed, ?_⟩
    refine item_complete body _ _ hbrings.framed hheader.1 (variables_agree ([] :: scopes) hp init h) ?_
      ((forall₂_append_iff (length_variables p init ([] :: scopes))).mp hinner).2
    exact fun name hname => (hbrings.typedefs name).mpr (.inl (hts name hname))
  | .switchStmt items, p, scopes, hp, hs, h, hts, hpoints => by
    obtain ⟨hinner, hend⟩ := (forall₂_concat_iff (length_items items _ _)).mp hpoints
    have hafter : (scopeItem scopes (.switchStmt items)).1 = scopes :=
      (scopes_items items ([] :: scopes) (by simp)).2
    have hclosed : NamesAgree (parseScopeItem p (.switchStmt items)).1 scopes := hafter ▸ hend
    exact ⟨((brings_item (.switchStmt items) p hp).agree h hts).mp hclosed,
      items_complete items p ([] :: scopes) hp (by simp) h hts hinner⟩
theorem items_complete : (items : List ScopeItem) → (p : ParserNames) → (scopes : CScopes) →
    p.ordinaryScope ≠ [] →
    scopes ≠ [] → NamesAgree p scopes → (∀ name ∈ allTypedefsIn items, name.val ∈ p.typedefNames) →
      List.Forall₂ NamesAgree (parseScopeItems p items).2 (scopeItems scopes items).2 →
        ScopeItemsOk scopes items
  | [], _, _, _, _, _, _, _ => trivial
  | item :: items, p, scopes, hp, hs, h, hts, hpoints => by
    have hbrings := brings_item item p hp
    obtain ⟨hfirst, hrest⟩ := (forall₂_append_iff (length_item item p scopes)).mp hpoints
    have hitem := item_complete item p scopes hp hs h
        (fun name hname => hts name (List.mem_append_left _ hname)) hfirst
    obtain ⟨-, hafter, -⟩ := item_sound item p scopes hp hs h hitem
    refine ⟨hitem, items_complete items _ _ hbrings.framed (scopes_item item scopes hs).1 hafter ?_ hrest⟩
    exact fun name hname => (hbrings.typedefs name).mpr (.inl (hts name (List.mem_append_right _ hname)))
end

-- At file scope

def Declared (scopes : CScopes) (kind : DeclaredAs) (name : Identifier) : Prop :=
  ∃ scope ∈ scopes, (name, kind) ∈ scope

theorem declared_declareIn (hs : scopes ≠ []) (kind kind' : DeclaredAs) (name other : Identifier) :
    Declared (declareIn scopes kind name) kind' other ↔
      Declared scopes kind' other ∨ (other = name ∧ kind' = kind) := by
  obtain ⟨scope, scopes, rfl⟩ := List.exists_cons_of_ne_nil hs
  simp only [Declared, declareIn, List.headD_cons, List.tail_cons, List.mem_cons, exists_eq_or_imp,
    Prod.mk.injEq]
  rw [or_assoc, or_comm]

theorem declared_declarators (kind kind' : DeclaredAs) (ds : List NameDeclarator) (other : Identifier)
    (hs : scopes ≠ []) :
    Declared (scopeDeclarators kind scopes ds).1 kind' other ↔
      Declared scopes kind' other ∨ (other ∈ ds.map (·.name) ∧ kind' = kind) := by
  induction ds generalizing scopes with
  | nil => simp [scopeDeclarators]
  | cons d ds ih =>
    have hrest := @ih (declareIn scopes kind d.name) (by simp [declareIn])
    simp only [scopeDeclarators, List.foldl_cons] at hrest ⊢
    rw [hrest, declared_declareIn hs, List.map_cons, List.mem_cons, or_and_right, or_assoc]

theorem declared_names (kind kind' : DeclaredAs) (hkind : kind' ≠ kind) (names : List Identifier)
    (other : Identifier)
    (hs : scopes ≠ []) :
    Declared (scopeNames kind scopes names).1 kind' other ↔ Declared scopes kind' other := by
  induction names generalizing scopes with
  | nil => rfl
  | cons name names ih =>
    have hrest := @ih (declareIn scopes kind name) (by simp [declareIn])
    simp only [scopeNames]
    rw [hrest, declared_declareIn hs]
    simp [hkind]

structure FileAgree (p : ParserNames) (scopes : CScopes) : Prop where
  agree : NamesAgree p scopes
  framed : p.ordinaryScope ≠ []
  nonempty : scopes ≠ []
  typedefs : ∀ name : Identifier, name.val ∈ p.typedefNames ↔ Declared scopes .typedefName name
  recorded : ∀ name, Recorded p name ↔ Declared scopes .variable name

theorem external_typedefs (h : FileAgree p scopes) (ds : List NameDeclarator) :
    (List.Forall₂ NamesAgree (parseTypedef p ds).2 (scopeDeclarators .typedefName scopes ds).2 ↔
      ExternalDeclOk scopes (.decl (.typedefs ds))) ∧
    (ExternalDeclOk scopes (.decl (.typedefs ds)) →
      FileAgree (parseTypedef p ds).1 (scopeDeclarators .typedefName scopes ds).1) := by
  have hiff : List.Forall₂ NamesAgree (parseTypedef p ds).2 (scopeDeclarators .typedefName scopes ds).2 ↔
      ExternalDeclOk scopes (.decl (.typedefs ds)) := by
    rw [typedefs_points h.framed ds h.agree]
    constructor
    · rintro ⟨hinside, hfree⟩ d hd
      have hname : d.name ∈ ds.map (·.name) := List.mem_map_of_mem hd
      by_cases hseen : d.name.val ∈ p.typedefNames
      · exact .inl ((h.agree d.name).mp ((visible_iff p d.name).mpr ⟨hseen, hfree d.name hname⟩))
      refine .inr ⟨fun scope hscope => ⟨fun hmem => hseen ((h.typedefs d.name).mpr ⟨scope, hscope, hmem⟩),
        fun hmem => hfree d.name hname ((h.recorded d.name).mpr ⟨scope, hscope, hmem⟩)⟩, fun hfollowed => ?_⟩
      have hvisible := (h.agree d.name).mpr (hinside d.name hfollowed)
      exact hseen ((visible_iff p d.name).mp hvisible).1
    · intro hok
      constructor
      · intro name hname
        obtain ⟨d, hd, rfl⟩ := List.mem_map.mp (followed_subset ds hname)
        exact (hok d hd).resolve_right fun hnew => hnew.2 hname
      · intro name hname hrecorded
        obtain ⟨d, hd, rfl⟩ := List.mem_map.mp hname
        rcases hok d hd with hdenotes | ⟨hnew, -⟩
        · exact ((visible_iff p d.name).mp ((h.agree d.name).mpr hdenotes)).2 hrecorded
        · obtain ⟨scope, hscope, hmem⟩ := (h.recorded d.name).mp hrecorded
          exact (hnew scope hscope).2 hmem
  refine ⟨hiff, fun hok => ?_⟩
  have hbrings := brings_typedefs h.framed ds
  have hfree := ((typedefs_points h.framed ds h.agree).mp (hiff.mpr hok)).2
  exact {
    agree := (typedefs_agree h.framed ds h.agree).mpr hfree
    framed := hbrings.framed
    nonempty := (scopes_declarators .typedefName ds scopes h.nonempty).1
    typedefs := fun name => by simp [hbrings.typedefs, h.typedefs, declared_declarators _ _ _ _ h.nonempty]
    recorded := fun name => by simp [hbrings.recorded, h.recorded, declared_declarators _ _ _ _ h.nonempty] }

theorem external_variables (h : FileAgree p scopes) (ds : List NameDeclarator) :
    FileAgree (parseVariableDeclaration p ds).1 (scopeDeclarators .variable scopes ds).1 := by
  have hbrings := brings_variables h.framed ds
  exact {
    agree := variables_agree scopes h.framed ds h.agree
    framed := hbrings.framed
    nonempty := (scopes_declarators .variable ds scopes h.nonempty).1
    typedefs := fun name => by simp [hbrings.typedefs, h.typedefs, declared_declarators _ _ _ _ h.nonempty]
    recorded := fun name => by simp [hbrings.recorded, h.recorded, declared_declarators _ _ _ _ h.nonempty] }

theorem external_enumerators (h : FileAgree p scopes) (names : List Identifier)
    (hok : ∀ name ∈ names, denotes scopes name ≠ some .typedefName) :
    FileAgree p (scopeNames .enumerator scopes names).1 where
  agree := (enumerators_points names h.agree).2 hok
  framed := h.framed
  nonempty := (scopes_names .enumerator names scopes h.nonempty).1
  typedefs name := by rw [h.typedefs, declared_names .enumerator .typedefName (by decide) names name h.nonempty]
  recorded name := by rw [h.recorded, declared_names .enumerator .variable (by decide) names name h.nonempty]

theorem typedefNames_recordParameters (names : List Identifier) (p : ParserNames) :
    (recordParameters p names).1.typedefNames = p.typedefNames := by
  induction names generalizing p with
  | nil => rfl
  | cons name names ih => simp [recordParameters, ih]

theorem pop_parameters (p : ParserNames) (names : List Identifier) :
    parserPopOrdinaryScope (recordParameters (parserPushOrdinaryScope p) names).1 = p := by
  obtain ⟨frame, hframe⟩ :=
    (brings_parameters (p := parserPushOrdinaryScope p) (by simp [parserPushOrdinaryScope]) names).frames
  rw [parserPopOrdinaryScope, hframe, typedefNames_recordParameters]
  rfl

structure FunctionWalk (p : ParserNames) (scopes : CScopes) (parameters : List Identifier)
    (body : List ScopeItem) : Prop where
  start : NamesAgree (parserPushOrdinaryScope (recordParameters (parserPushOrdinaryScope p) parameters).1)
    (scopeNames .variable ([] :: scopes) parameters).1
  brings : Brings p (parseFunctionDefinition p parameters body).1 (allTypedefsIn body) []
  scopes_eq : (scopeExternalDecl scopes (.function parameters body)).1 = scopes
  points : List.Forall₂ NamesAgree (parseFunctionDefinition p parameters body).2
      (scopeExternalDecl scopes (.function parameters body)).2 ↔
    List.Forall₂ NamesAgree
      (parseScopeItems (parserPushOrdinaryScope (recordParameters (parserPushOrdinaryScope p) parameters).1)
        body).2
      (scopeItems (scopeNames .variable ([] :: scopes) parameters).1 body).2 ∧
    NamesAgree (parseFunctionDefinition p parameters body).1 scopes

theorem function_walk (hp : p.ordinaryScope ≠ []) (h : NamesAgree p scopes)
    (parameters : List Identifier) (body : List ScopeItem) : FunctionWalk p scopes parameters body := by
  have hlist := @parameters_points (parserPushOrdinaryScope p) ([] :: scopes) parameters h.push
  have hparams := @brings_parameters (parserPushOrdinaryScope p) (by simp [parserPushOrdinaryScope]) parameters
  have hnames := scopes_names .variable parameters ([] :: scopes) (by simp)
  have hscopes : (scopeExternalDecl scopes (.function parameters body)).1 = scopes :=
    (scopes_items body _ hnames.1).2.trans hnames.2
  have hafter : (parseFunctionDefinition p parameters body).1 = parserPopOrdinaryScope (parserPopOrdinaryScope
      (parseScopeItems (parserPushOrdinaryScope (recordParameters (parserPushOrdinaryScope p) parameters).1)
        body).1) := by
    simp only [parseFunctionDefinition, pop_parameters]
  refine ⟨hlist.2.push, ?_, hscopes, ?_⟩
  · have hitems := brings_items body
      (parserPushOrdinaryScope (recordParameters (parserPushOrdinaryScope p) parameters).1)
      (by simp [parserPushOrdinaryScope])
    have hbody := hparams.trans (hitems.pop hparams.framed)
    rw [hafter]
    exact hbody.pop hp
  · have hlength : (recordParameters (parserPushOrdinaryScope p) parameters).2.length =
        (scopeNames .variable ([] :: scopes) parameters).2.length := by
      rw [length_recordParameters, length_scopeNames]
    simp only [parseFunctionDefinition, pop_parameters, scopeExternalDecl] at hafter hscopes ⊢
    rw [forall₂_concat_iff (by simp [hlength,
      length_items body _ (scopeNames .variable ([] :: scopes) parameters).1]),
      forall₂_append_iff (by simp [hlength]), forall₂_concat_iff hlength, hscopes]
    exact and_congr_left fun _ => and_iff_right ⟨hlist.1, hlist.2.push⟩

theorem external_function (h : FileAgree p scopes) (parameters : List Identifier) (body : List ScopeItem) :
    (List.Forall₂ NamesAgree (parseExternalDecl p (.function parameters body)).2
        (scopeExternalDecl scopes (.function parameters body)).2 ↔
      ExternalDeclOk scopes (.function parameters body)) ∧
    (ExternalDeclOk scopes (.function parameters body) →
      FileAgree (parseExternalDecl p (.function parameters body)).1
        (scopeExternalDecl scopes (.function parameters body)).1) := by
  have hwalk := function_walk h.framed h.agree parameters body
  have hframed : (parserPushOrdinaryScope
      (recordParameters (parserPushOrdinaryScope p) parameters).1).ordinaryScope ≠
      [] := by simp [parserPushOrdinaryScope]
  have hnames := scopes_names .variable parameters ([] :: scopes) (by simp)
  have hstart (name : Identifier) : name.val ∈ (parserPushOrdinaryScope
      (recordParameters (parserPushOrdinaryScope p) parameters).1).typedefNames ↔
        name.val ∈ p.typedefNames := by
    simp [typedefNames_recordParameters]
  have hsound (hok : ExternalDeclOk scopes (.function parameters body)) :=
    items_sound body _ _ hframed hnames.1 hwalk.start hok
  have hknown (hok : ExternalDeclOk scopes (.function parameters body)) :
      ∀ name ∈ allTypedefsIn body, name.val ∈ p.typedefNames := fun name hname =>
    (hstart name).mp ((hsound hok).2.2 name hname)
  have hclosed (hok : ExternalDeclOk scopes (.function parameters body)) :
      NamesAgree (parseFunctionDefinition p parameters body).1 scopes :=
    (hwalk.brings.agree h.agree (hknown hok)).mpr (by simp)
  refine ⟨hwalk.points.trans ⟨?_, fun hok => ⟨(hsound hok).1, hclosed hok⟩⟩, fun hok => ?_⟩
  · rintro ⟨hpoints, hend⟩
    refine items_complete body _ _ hframed hnames.1 hwalk.start (fun name hname => (hstart name).mpr ?_) hpoints
    -- a typedef the function brings would be seen after it
    have hfree : ¬Recorded p name := by
      have hstartFree := items_free body _ _ hframed hnames.1 hpoints name hname
      intro hrecorded
      refine hstartFree ((recorded_push _ name).mpr ?_)
      have hparams := @brings_parameters (parserPushOrdinaryScope p)
          (by simp [parserPushOrdinaryScope]) parameters
      exact (hparams.recorded name).mpr (.inl ((recorded_push p name).mpr hrecorded))
    have hvisible : parserIsTypedefVisible (parseFunctionDefinition p parameters body).1 name = true := by
      rw [visible_iff, hwalk.brings.typedefs, hwalk.brings.recorded]
      exact ⟨.inr hname, by simpa using hfree⟩
    exact ((visible_iff p name).mp ((h.agree name).mpr ((hend name).mp hvisible))).1
  · have hscopes := hwalk.scopes_eq
    have htypedefs (name : Identifier) :
        name.val ∈ (parseExternalDecl p (.function parameters body)).1.typedefNames ↔
        name.val ∈ p.typedefNames :=
      (hwalk.brings.typedefs name).trans (or_iff_left_of_imp (hknown hok name))
    rw [hscopes]
    exact {
      agree := hclosed hok
      framed := hwalk.brings.framed
      nonempty := h.nonempty
      typedefs := fun name => (htypedefs name).trans (h.typedefs name)
      recorded := fun name =>
        ((hwalk.brings.recorded name).trans (or_iff_left List.not_mem_nil)).trans (h.recorded name) }

theorem external_agree (h : FileAgree p scopes) (d : ExternalDecl) :
    (List.Forall₂ NamesAgree (parseExternalDecl p d).2 (scopeExternalDecl scopes d).2 ↔
      ExternalDeclOk scopes d) ∧
      (ExternalDeclOk scopes d → FileAgree (parseExternalDecl p d).1 (scopeExternalDecl scopes d).1) := by
  match d with
  | .decl (.typedefs ds) => exact external_typedefs h ds
  | .decl (.variables ds) => exact ⟨variables_points scopes h.framed ds h.agree, fun _ =>
        external_variables h ds⟩
  | .decl (.enumerators names) =>
    exact ⟨(enumerators_points names h.agree).1, fun hok => external_enumerators h names hok⟩
  | .function parameters body => exact external_function h parameters body

theorem length_external (p : ParserNames) (scopes : CScopes) (d : ExternalDecl) :
    (parseExternalDecl p d).2.length = (scopeExternalDecl scopes d).2.length := by
  match d with
  | .decl d => exact length_item (.decl d) p scopes
  | .function parameters body =>
    simp only [parseExternalDecl, parseFunctionDefinition, scopeExternalDecl, List.length_append,
      length_recordParameters, length_scopeNames, List.length_singleton]
    rw [length_items body _ (scopeNames .variable ([] :: scopes) parameters).1]

theorem externals_agree (h : FileAgree p scopes) (program : List ExternalDecl) :
    List.Forall₂ NamesAgree (parseExternalDecls p program) (scopeExternalDecls scopes program) ↔
      ExternalDeclsOk scopes program := by
  induction program generalizing p scopes with
  | nil => simp [parseExternalDecls, scopeExternalDecls, ExternalDeclsOk]
  | cons d rest ih =>
    obtain ⟨hiff, hafter⟩ := external_agree h d
    rw [parseExternalDecls, scopeExternalDecls, forall₂_append_iff (length_external p scopes d), hiff]
    exact and_congr_right fun hok => ih (hafter hok)

theorem lookup_seeded (seeded : List Identifier) (name : Identifier) :
    (seeded.map fun n => (n, DeclaredAs.typedefName)).lookup name = some .typedefName ↔ name ∈ seeded := by
  induction seeded with
  | nil => simp
  | cons n seeded ih =>
    rw [List.map_cons, List.lookup_cons, List.mem_cons]
    by_cases h : name = n
    · simp [h]
    have hne : (name == n) = false := beq_eq_false_iff_ne.mpr h
    simp [hne, h, ih]

theorem fileAgree_init (seeded : List Identifier) : FileAgree (initParserNames seeded) (initScopes seeded) := by
  have hnone (name : Identifier) : ¬Recorded (initParserNames seeded) name := by
    simp [Recorded, initParserNames]
  have hseeded (name : Identifier) : name.val ∈ (initParserNames seeded).typedefNames ↔ name ∈ seeded := by
    simp [initParserNames, name.property]
  refine ⟨fun name => ?_, by simp [initParserNames], by simp [initScopes], fun name => ?_, fun name => ?_⟩
  · have hdenotes : denotes (initScopes seeded) name =
        (seeded.map fun n => (n, DeclaredAs.typedefName)).lookup name := by
      simp only [denotes, initScopes, List.findSome?_cons, List.lookup_nil, List.findSome?_nil]
      generalize (seeded.map fun n => (n, DeclaredAs.typedefName)).lookup name = found
      cases found <;> rfl
    rw [visible_iff, hseeded, hdenotes, lookup_seeded]
    exact and_iff_left (hnone name)
  · rw [hseeded]
    simp [Declared, initScopes]
  · simp [hnone name, Declared, initScopes]

/-- Exactly in these programs the typedef names follow the scopes of C. -/
theorem followsScoping_iff (seeded : List Identifier) (program : List ExternalDecl) :
    FollowsScoping seeded program ↔ ExternalDeclsOk (initScopes seeded) program := by
  have hinit := fileAgree_init seeded
  rw [FollowsScoping, List.forall₂_cons, externals_agree hinit program]
  exact and_iff_right hinit.agree

/-- `void f(void) { { typedef int T; } }` -/
def typedefInBlock (name : Identifier) : List ExternalDecl :=
  [.function [] [.block [.decl (.typedefs [⟨name, false⟩])]]]

theorem typedefInBlock_not_followed :
    ¬∀ (seeded : List Identifier) (program : List ExternalDecl), FollowsScoping seeded program := by
  intro h
  have hpoints := (List.forall₂_cons.mp (h [] (typedefInBlock ⟨"T", by decide⟩))).2
  have hok := (externals_agree (fileAgree_init []) _).mp hpoints
  exact absurd (hok.1.1.1 ⟨⟨"T", by decide⟩, false⟩ List.mem_cons_self) (by decide)

end Fisics
