import Fisics.Parser.TypedefScope

/-!
# Names brought by a part of a program

What each construct adds to the parser's names and to the scopes of C, and where
the two agree inside and after one declaration.
-/

namespace Fisics

variable {p : ParserNames} {scopes : CScopes}

-- What each operation does to a name

def Recorded (p : ParserNames) (name : Identifier) : Prop := ∃ frame ∈ p.ordinaryScope, name.val ∈ frame

section
variable (p : ParserNames)

theorem visible_iff (name : Identifier) :
    parserIsTypedefVisible p name = true ↔ name.val ∈ p.typedefNames ∧ ¬Recorded p name := by
  simp [parserIsTypedefVisible, Recorded, name.property]

@[simp] theorem typedefNames_push :
    (parserPushOrdinaryScope p).typedefNames = p.typedefNames := rfl

@[simp] theorem recorded_push (name : Identifier) :
    Recorded (parserPushOrdinaryScope p) name ↔ Recorded p name := by
  simp [Recorded, parserPushOrdinaryScope]

@[simp] theorem typedefNames_record (name : String) :
    (parserRecordOrdinaryIdentifier p name).typedefNames = p.typedefNames := by
  unfold parserRecordOrdinaryIdentifier
  repeat' split
  all_goals rfl

theorem recorded_record (name other : Identifier) :
    Recorded (parserRecordOrdinaryIdentifier p name) other ↔ Recorded p other ∨ other = name := by
  obtain ⟨typedefNames, ordinaryScope⟩ := p
  rw [parserRecordOrdinaryIdentifier, if_neg name.property, Subtype.ext_iff]
  cases ordinaryScope with
  | nil => simp [Recorded]
  | cons names parent => ?_
  by_cases hmem : name.val ∈ names
  · have hsame : other.val = name.val → other.val ∈ names := fun h => h ▸ hmem
    simp only [Recorded, List.contains_eq_mem, hmem, decide_true, if_true, List.mem_cons, exists_eq_or_imp]
    exact ⟨.inl, fun h => h.elim id fun h => .inl (hsame h)⟩
  · simp only [Recorded, List.contains_eq_mem, hmem, decide_false, Bool.false_eq_true, if_false,
      List.mem_cons, exists_eq_or_imp]
    rw [or_assoc, or_comm]

@[simp] theorem ordinaryScope_add (name : String) :
    (ccAddTypedef p name).ordinaryScope = p.ordinaryScope := by
  unfold ccAddTypedef
  split <;> rfl

@[simp] theorem mem_typedefNames_add (name other : String) :
    other ∈ (ccAddTypedef p name).typedefNames ↔ other ∈ p.typedefNames ∨ other = name := by
  unfold ccAddTypedef
  split
  · next h =>
    have hsame : other = name → other ∈ p.typedefNames := fun heq => heq ▸ by simpa using h
    tauto
  · simp [or_comm]

end

theorem denotes_declareIn (scopes : CScopes) (kind : DeclaredAs) (name other : Identifier) :
    denotes (declareIn scopes kind name) other = if other = name then some kind else denotes scopes other := by
  by_cases h : other = name
  · simp [denotes, declareIn, h]
  have hne : (other == name) = false := beq_eq_false_iff_ne.mpr h
  cases scopes <;> simp [denotes, declareIn, List.findSome?_cons, List.lookup_cons, hne, h]

theorem NamesAgree.push (h : NamesAgree p scopes) : NamesAgree (parserPushOrdinaryScope p) scopes := by
  intro name
  rw [← h name, visible_iff, visible_iff, recorded_push, typedefNames_push]

-- What a part of a program does to the names

mutual
def directVariables : ScopeItem → List Identifier
  | .decl (.variables declarators) => declarators.map (·.name)
  | .decl _ => []
  | .block _ => []
  | .forLoop init body => init.map (·.name) ++ directVariables body
  | .switchStmt items => allDirectVariables items
def allDirectVariables : List ScopeItem → List Identifier
  | [] => []
  | item :: items => directVariables item ++ allDirectVariables items
end

mutual
def typedefsIn : ScopeItem → List Identifier
  | .decl (.typedefs declarators) => declarators.map (·.name)
  | .decl _ => []
  | .block items => allTypedefsIn items
  | .forLoop _ body => typedefsIn body
  | .switchStmt items => allTypedefsIn items
def allTypedefsIn : List ScopeItem → List Identifier
  | [] => []
  | item :: items => typedefsIn item ++ allTypedefsIn items
end

/-- From one state of the parser to another in the same frame, with these typedefs
added and these variables recorded. -/
structure Brings (p after : ParserNames) (added kept : List Identifier) : Prop where
  frames : ∃ frame, after.ordinaryScope = frame :: p.ordinaryScope.tail
  typedefs : ∀ name : Identifier, name.val ∈ after.typedefNames ↔ name.val ∈ p.typedefNames ∨ name ∈ added
  recorded : ∀ name, Recorded after name ↔ Recorded p name ∨ name ∈ kept

theorem Brings.framed (h : Brings p after ts vs) : after.ordinaryScope ≠ [] := by
  obtain ⟨frame, hframe⟩ := h.frames
  simp [hframe]

theorem Brings.refl (hp : p.ordinaryScope ≠ []) : Brings p p [] [] where
  frames := by
    obtain ⟨frame, parent, hframe⟩ := List.exists_cons_of_ne_nil hp
    exact ⟨frame, by simp [hframe]⟩
  typedefs := by simp
  recorded := by simp

theorem Brings.trans (h : Brings p q ts vs) (h' : Brings q r ts' vs') : Brings p r (ts ++ ts') (vs ++ vs') where
  frames := by
    obtain ⟨frame, hframe⟩ := h.frames
    obtain ⟨frame', hframe'⟩ := h'.frames
    exact ⟨frame', by simp [hframe', hframe]⟩
  typedefs name := by rw [h'.typedefs, h.typedefs, List.mem_append, or_assoc]
  recorded name := by rw [h'.recorded, h.recorded, List.mem_append, or_assoc]

section
variable (hp : p.ordinaryScope ≠ [])

include hp

theorem brings_record (name : Identifier) :
    Brings p (parserRecordOrdinaryIdentifier p name) [] [name] where
  frames := by
    obtain ⟨frame, parent, hframe⟩ := List.exists_cons_of_ne_nil hp
    rw [parserRecordOrdinaryIdentifier, if_neg name.property, hframe]
    dsimp only
    split
    · exact ⟨frame, by simp [hframe]⟩
    · exact ⟨name.val :: frame, rfl⟩
  typedefs := by simp
  recorded other := by rw [recorded_record, List.mem_singleton]

theorem brings_add (name : Identifier) :
    Brings p (ccAddTypedef p name) [name] [] where
  frames := by
    obtain ⟨frame, parent, hframe⟩ := List.exists_cons_of_ne_nil hp
    exact ⟨frame, by simp [hframe]⟩
  typedefs other := by rw [mem_typedefNames_add, List.mem_singleton, Subtype.ext_iff]
  recorded other := by simp [Recorded]

theorem brings_variables (ds : List NameDeclarator) :
    Brings p (parseVariableDeclaration p ds).1 [] (ds.map (·.name)) := by
  induction ds generalizing p with
  | nil => exact Brings.refl hp
  | cons d ds ih =>
    have hrecord := brings_record hp d.name
    exact hrecord.trans (ih hrecord.framed)

theorem brings_typedefs (ds : List NameDeclarator) :
    Brings p (parseTypedef p ds).1 (ds.map (·.name)) [] := by
  induction ds generalizing p with
  | nil => exact Brings.refl hp
  | cons d ds ih =>
    have hadd := brings_add hp d.name
    exact hadd.trans (ih hadd.framed)

theorem brings_parameters (names : List Identifier) :
    Brings p (recordParameters p names).1 [] names := by
  induction names generalizing p with
  | nil => exact Brings.refl hp
  | cons name names ih =>
    have hrecord := brings_record hp name
    exact hrecord.trans (ih hrecord.framed)

end

/-- A frame that is pushed and popped keeps its variables. -/
theorem Brings.pop {inner : ParserNames} (hp : p.ordinaryScope ≠ [])
    (h : Brings (parserPushOrdinaryScope p) inner ts vs) : Brings p (parserPopOrdinaryScope inner) ts [] := by
  obtain ⟨frame, hframe⟩ := h.frames
  have hscope : (parserPopOrdinaryScope inner).ordinaryScope = p.ordinaryScope := by
    simp [parserPopOrdinaryScope, hframe, parserPushOrdinaryScope]
  refine ⟨?_, fun name => h.typedefs name, fun name => by simp [Recorded, hscope]⟩
  rw [hscope]
  exact (Brings.refl hp).frames

mutual
theorem brings_item : (item : ScopeItem) → (p : ParserNames) → p.ordinaryScope ≠ [] →
    Brings p (parseScopeItem p item).1 (typedefsIn item) (directVariables item)
  | .decl (.typedefs ds), p, hp => brings_typedefs hp ds
  | .decl (.variables ds), p, hp => brings_variables hp ds
  | .decl (.enumerators _), p, hp => Brings.refl hp
  | .block items, p, hp => (brings_items items (parserPushOrdinaryScope p)
        (by simp [parserPushOrdinaryScope])).pop hp
  | .forLoop init body, p, hp => by
    have hheader := brings_variables hp init
    exact hheader.trans (brings_item body _ hheader.framed)
  | .switchStmt items, p, hp => brings_items items p hp
theorem brings_items : (items : List ScopeItem) → (p : ParserNames) → p.ordinaryScope ≠ [] →
    Brings p (parseScopeItems p items).1 (allTypedefsIn items) (allDirectVariables items)
  | [], p, hp => Brings.refl hp
  | item :: items, p, hp => by
    have hitem := brings_item item p hp
    exact hitem.trans (brings_items items _ hitem.framed)
end

theorem scopes_declarators (kind : DeclaredAs) (ds : List NameDeclarator) (scopes : CScopes)
    (hs : scopes ≠ []) :
    (scopeDeclarators kind scopes ds).1 ≠ [] ∧ (scopeDeclarators kind scopes ds).1.tail = scopes.tail := by
  induction ds generalizing scopes with
  | nil => exact ⟨hs, rfl⟩
  | cons d ds ih => exact ih (declareIn scopes kind d.name) (by simp [declareIn])

theorem scopes_names (kind : DeclaredAs) (names : List Identifier) (scopes : CScopes) (hs : scopes ≠ []) :
    (scopeNames kind scopes names).1 ≠ [] ∧ (scopeNames kind scopes names).1.tail = scopes.tail := by
  induction names generalizing scopes with
  | nil => exact ⟨hs, rfl⟩
  | cons name names ih => exact ih (declareIn scopes kind name) (by simp [declareIn])

mutual
theorem scopes_item : (item : ScopeItem) → (scopes : CScopes) → scopes ≠ [] →
    (scopeItem scopes item).1 ≠ [] ∧ (scopeItem scopes item).1.tail = scopes.tail
  | .decl (.typedefs ds), scopes, hs => scopes_declarators _ ds scopes hs
  | .decl (.variables ds), scopes, hs => scopes_declarators _ ds scopes hs
  | .decl (.enumerators names), scopes, hs => scopes_names _ names scopes hs
  | .block items, scopes, hs => by
    have h : (scopeItem scopes (.block items)).1 = scopes := (scopes_items items ([] :: scopes) (by simp)).2
    rw [h]
    exact ⟨hs, rfl⟩
  | .forLoop init body, scopes, hs => by
    have hheader := scopes_declarators .variable init ([] :: scopes) (by simp)
    have h : (scopeItem scopes (.forLoop init body)).1 = scopes :=
      (scopes_item body _ hheader.1).2.trans hheader.2
    rw [h]
    exact ⟨hs, rfl⟩
  | .switchStmt items, scopes, hs => by
    have h : (scopeItem scopes (.switchStmt items)).1 = scopes :=
      (scopes_items items ([] :: scopes) (by simp)).2
    rw [h]
    exact ⟨hs, rfl⟩
theorem scopes_items : (items : List ScopeItem) → (scopes : CScopes) → scopes ≠ [] →
    (scopeItems scopes items).1 ≠ [] ∧ (scopeItems scopes items).1.tail = scopes.tail
  | [], scopes, hs => ⟨hs, rfl⟩
  | item :: items, scopes, hs => by
    have hitem := scopes_item item scopes hs
    have hrest := scopes_items items _ hitem.1
    exact ⟨hrest.1, hrest.2.trans hitem.2⟩
end

-- Points side by side

theorem forall₂_append_iff (h : l.length = m.length) :
    List.Forall₂ R (l ++ l') (m ++ m') ↔ List.Forall₂ R l m ∧ List.Forall₂ R l' m' := by
  induction l generalizing m with
  | nil =>
    obtain rfl := List.length_eq_zero_iff.mp h.symm
    simp
  | cons a l ih =>
    cases m with
    | nil => cases h
    | cons b m => simp [ih (Nat.succ.inj h), and_assoc]

theorem forall₂_concat_iff (h : l.length = m.length) :
    List.Forall₂ R (l ++ [a]) (m ++ [b]) ↔ List.Forall₂ R l m ∧ R a b := by
  rw [forall₂_append_iff h, List.forall₂_cons]
  simp

theorem length_scopesInside (kind : DeclaredAs) (p : ParserNames) (ds : List NameDeclarator)
    (scopes : CScopes) :
    (pointsInside p ds).length = (scopesInside kind scopes ds).length := by
  induction ds generalizing scopes with
  | nil => rfl
  | cons d ds ih =>
    have hrest := ih (declareIn scopes kind d.name)
    simp only [pointsInside, followed, scopesInside, List.map_append, List.length_append] at hrest ⊢
    rw [hrest]
    split <;> rfl

theorem length_variables (p : ParserNames) (ds : List NameDeclarator) (scopes : CScopes) :
    (parseVariableDeclaration p ds).2.length = (scopeDeclarators .variable scopes ds).2.length := by
  simp [parseVariableDeclaration, scopeDeclarators, length_scopesInside .variable p ds scopes]

theorem length_scopeNames (kind : DeclaredAs) (names : List Identifier) (scopes : CScopes) :
    (scopeNames kind scopes names).2.length = names.length := by
  induction names generalizing scopes with
  | nil => rfl
  | cons name names ih => simp [scopeNames, ih]

theorem length_recordParameters (names : List Identifier) (p : ParserNames) :
    (recordParameters p names).2.length = names.length := by
  induction names generalizing p with
  | nil => rfl
  | cons name names ih => simp [recordParameters, ih]

mutual
theorem length_item : (item : ScopeItem) → (p : ParserNames) → (scopes : CScopes) →
    (parseScopeItem p item).2.length = (scopeItem scopes item).2.length
  | .decl (.typedefs ds), p, scopes => by
    simp [parseScopeItem, parseScopeDecl, parseTypedef, scopeItem, scopeDecl, scopeDeclarators,
      length_scopesInside .typedefName p ds scopes]
  | .decl (.variables ds), p, scopes => length_variables p ds scopes
  | .decl (.enumerators names), p, scopes => by
    simp [parseScopeItem, parseScopeDecl, parseEnumDefinition, scopeItem, scopeDecl, length_scopeNames]
  | .block items, p, scopes => by
    simp [parseScopeItem, scopeItem, length_items items (parserPushOrdinaryScope p) ([] :: scopes)]
  | .forLoop init body, p, scopes => by
    have hbody := length_item body (parseVariableDeclaration p init).1
        (scopeDeclarators .variable ([] :: scopes) init).1
    simp [parseScopeItem, scopeItem, hbody, length_variables p init ([] :: scopes)]
  | .switchStmt items, p, scopes => by
    simp [parseScopeItem, scopeItem, length_items items p ([] :: scopes)]
theorem length_items : (items : List ScopeItem) → (p : ParserNames) → (scopes : CScopes) →
    (parseScopeItems p items).2.length = (scopeItems scopes items).2.length
  | [], _, _ => rfl
  | item :: items, p, scopes => by
    simp [parseScopeItems, scopeItems, length_item item p scopes,
      length_items items _ (scopeItem scopes item).1]
end

-- One declaration

theorem denotes_declarators (kind : DeclaredAs) (ds : List NameDeclarator) (scopes : CScopes)
    (name : Identifier) :
    denotes (scopeDeclarators kind scopes ds).1 name =
      if name ∈ ds.map (·.name) then some kind else denotes scopes name := by
  induction ds generalizing scopes with
  | nil => simp [scopeDeclarators]
  | cons d ds ih =>
    have hrest := ih (declareIn scopes kind d.name)
    simp only [scopeDeclarators, List.foldl_cons] at hrest ⊢
    rw [hrest, denotes_declareIn]
    by_cases hmem : name ∈ ds.map (·.name)
    · simp [hmem]
    · by_cases heq : name = d.name <;> simp [hmem, heq]

theorem inside_agree (kind : DeclaredAs) (ds : List NameDeclarator) (h : NamesAgree p scopes) :
    List.Forall₂ NamesAgree (pointsInside p ds) (scopesInside kind scopes ds) ↔
      ∀ name ∈ followed ds, (parserIsTypedefVisible p name = true ↔ kind = .typedefName) := by
  induction ds generalizing scopes with
  | nil => simp [pointsInside, followed, scopesInside]
  | cons d ds ih =>
    have hdeclared : NamesAgree p (declareIn scopes kind d.name) ↔
        (parserIsTypedefVisible p d.name = true ↔ kind = .typedefName) := by
      constructor
      · intro hagree
        have hname := hagree d.name
        simpa [denotes_declareIn] using hname
      · intro hname other
        rw [denotes_declareIn]
        split
        · next heq => simpa [heq] using hname
        · exact h other
    by_cases hpoint : (d.hasTail || !ds.isEmpty) = true
    · simp only [pointsInside, followed, scopesInside, hpoint, if_true, List.singleton_append, List.map_cons,
        List.forall₂_cons, List.mem_cons, forall_eq_or_imp]
      rw [hdeclared]
      exact and_congr_right fun hname => ih (hdeclared.mpr hname)
    obtain rfl : ds = [] := by
      cases ds with
      | nil => rfl
      | cons d' ds => simp at hpoint
    have htail : d.hasTail = false := by simpa using hpoint
    simp [pointsInside, followed, scopesInside, htail]

theorem NamesAgree.not_typedef (h : NamesAgree p scopes) (name : Identifier) :
    (parserIsTypedefVisible p name = true ↔ DeclaredAs.variable = .typedefName) ↔
      denotes scopes name ≠ some .typedefName := by
  simp [← h name]

section
variable (scopes : CScopes) (hp : p.ordinaryScope ≠ []) (ds : List NameDeclarator) (h : NamesAgree p scopes)

include hp h

theorem variables_agree :
    NamesAgree (parseVariableDeclaration p ds).1 (scopeDeclarators .variable scopes ds).1 := by
  have hbrings := brings_variables hp ds
  intro name
  rw [visible_iff, hbrings.typedefs, hbrings.recorded, denotes_declarators]
  by_cases hmem : name ∈ ds.map (·.name)
  · simp [hmem]
  · simp [hmem, ← h name, visible_iff]

theorem variables_points :
    List.Forall₂ NamesAgree (parseVariableDeclaration p ds).2 (scopeDeclarators .variable scopes ds).2 ↔
      ∀ name ∈ followed ds, denotes scopes name ≠ some .typedefName := by
  have hafter := variables_agree scopes hp ds h
  simp only [parseVariableDeclaration, scopeDeclarators] at hafter ⊢
  rw [forall₂_concat_iff (length_scopesInside .variable p ds scopes), inside_agree .variable ds h]
  simp only [hafter, and_true, h.not_typedef]

end

theorem typedefs_agree (hp : p.ordinaryScope ≠ []) (ds : List NameDeclarator) (h : NamesAgree p scopes) :
    NamesAgree (parseTypedef p ds).1 (scopeDeclarators .typedefName scopes ds).1 ↔
      ∀ name ∈ ds.map (·.name), ¬Recorded p name := by
  have hbrings := brings_typedefs hp ds
  refine forall_congr' fun name => ?_
  rw [visible_iff, hbrings.typedefs, hbrings.recorded, denotes_declarators]
  by_cases hmem : name ∈ ds.map (·.name)
  · simp [hmem]
  · simp [hmem, ← h name, visible_iff]

theorem typedefs_points (hp : p.ordinaryScope ≠ []) (ds : List NameDeclarator) (h : NamesAgree p scopes) :
    List.Forall₂ NamesAgree (parseTypedef p ds).2 (scopeDeclarators .typedefName scopes ds).2 ↔
      (∀ name ∈ followed ds, denotes scopes name = some .typedefName) ∧
        ∀ name ∈ ds.map (·.name), ¬Recorded p name := by
  have hafter := typedefs_agree hp ds h
  simp only [parseTypedef, scopeDeclarators] at hafter ⊢
  rw [forall₂_concat_iff (length_scopesInside .typedefName p ds scopes), inside_agree .typedefName ds h, hafter]
  simp only [iff_true, h _]

theorem followed_subset (ds : List NameDeclarator) : followed ds ⊆ ds.map (·.name) := by
  induction ds with
  | nil => simp [followed]
  | cons d ds ih =>
    intro name hname
    simp only [followed, List.mem_append] at hname
    rcases hname with hname | hname
    · split at hname
      · exact List.mem_cons.mpr (.inl (List.mem_singleton.mp hname))
      · cases hname
    · exact List.mem_cons_of_mem _ (ih hname)

theorem enumerators_points (names : List Identifier) (h : NamesAgree p scopes) :
    (List.Forall₂ NamesAgree (parseEnumDefinition p names).2 (scopeNames .enumerator scopes names).2 ↔
      ∀ name ∈ names, denotes scopes name ≠ some .typedefName) ∧
    ((∀ name ∈ names, denotes scopes name ≠ some .typedefName) →
      NamesAgree p (scopeNames .enumerator scopes names).1) := by
  induction names generalizing scopes with
  | nil => simpa [parseEnumDefinition, scopeNames] using h
  | cons name names ih =>
    have hdeclared : NamesAgree p (declareIn scopes .enumerator name) ↔
        denotes scopes name ≠ some .typedefName := by
      constructor
      · intro hagree
        have hname := hagree name
        rw [h name, denotes_declareIn, if_pos rfl] at hname
        exact fun heq => absurd (hname.mp heq) (by decide)
      · intro hname other
        rw [denotes_declareIn]
        split
        · next heq => simp [heq, h name, hname]
        · exact h other
    have hothers : denotes scopes name ≠ some .typedefName →
        ((∀ other ∈ names, denotes (declareIn scopes .enumerator name) other ≠ some .typedefName) ↔
          ∀ other ∈ names, denotes scopes other ≠ some .typedefName) := by
      intro hname
      refine forall₂_congr fun other _ => ?_
      rw [denotes_declareIn]
      split
      · next heq => simp [heq, hname]
      · rfl
    simp only [parseEnumDefinition, scopeNames, List.map_cons, List.forall₂_cons, List.mem_cons,
      forall_eq_or_imp]
    constructor
    · rw [hdeclared]
      refine and_congr_right fun hname => ?_
      rw [← hothers hname]
      exact (ih (hdeclared.mpr hname)).1
    · rintro ⟨hname, hrest⟩
      exact (ih (hdeclared.mpr hname)).2 ((hothers hname).mpr hrest)

theorem parameters_points (names : List Identifier) (h : NamesAgree p scopes) :
    List.Forall₂ NamesAgree (recordParameters p names).2 (scopeNames .variable scopes names).2 ∧
      NamesAgree (recordParameters p names).1 (scopeNames .variable scopes names).1 := by
  induction names generalizing p scopes with
  | nil => exact ⟨.nil, h⟩
  | cons name names ih =>
    have hafter : NamesAgree (parserRecordOrdinaryIdentifier p name) (declareIn scopes .variable name) := by
      intro other
      rw [visible_iff, typedefNames_record, recorded_record, denotes_declareIn]
      by_cases heq : other = name
      · simp [heq]
      · simp [heq, ← h other, visible_iff]
    have hrest := ih hafter
    exact ⟨.cons hafter hrest.1, hrest.2⟩

end Fisics
