import Fisics.Preprocessor.Directives

/-!
# Parameter lists

The parameter lists that C allows in a `#define`, and those that
`parse_macro_parameters` accepts: names and ellipses between commas in any order,
names repeated or not, closed on the line, on a later line or not at all.
-/

namespace Fisics

-- C's lists

/-- `ident-list` and its names. -/
inductive IdentList : List Token → List String → Prop
  | one : tok.type = .identifier → tok.value = some name → IdentList [tok] [name]
  | more : tok.type = .identifier → tok.value = some name → comma.type = .comma →
      IdentList rest names → IdentList (tok :: comma :: rest) (name :: names)

inductive ParameterTokens : List Token → List String → Bool → Prop
  | none : ParameterTokens [] [] false
  | names : IdentList inside names → ParameterTokens inside names false
  | ellipsis : tok.type = .ellipsis → ParameterTokens [tok] [] true
  | namesEllipsis : IdentList inside names → comma.type = .comma → tok.type = .ellipsis →
      ParameterTokens (inside ++ [comma, tok]) names true

/-- The tokens begin with a parameter list on one line whose names differ. -/
def WellFormedParameters (tokens : List Token) : Prop :=
  ∃ lparen inside close rest names variadic, tokens = lparen :: (inside ++ close :: rest) ∧
    lparen.type = .lparen ∧ close.type = .rparen ∧ ParameterTokens inside names variadic ∧
    names.Nodup ∧ ∀ tok ∈ inside ++ [close], tok.line = lparen.line

-- The lists of the code

def IsParameter (tok : Token) : Prop :=
  (tok.type = .identifier ∧ tok.value.isSome) ∨ tok.type = .ellipsis

/-- Names and ellipses between commas. A comma may end the list behind an
ellipsis; `variadic` says that there was one. -/
@[grind] def LooseParameters : (variadic : Bool) → List Token → Prop
  | variadic, [] => variadic
  | _, [tok] => IsParameter tok
  | variadic, tok :: next :: rest =>
    IsParameter tok ∧ next.type = .comma ∧ LooseParameters (variadic || tok.type == .ellipsis) rest

def notClosing (tok : Token) : Bool := tok.type != .rparen

def betweenParens (tokens : List Token) : List Token := tokens.tail.takeWhile notClosing

def fromClosing (tokens : List Token) : List Token := tokens.tail.dropWhile notClosing

theorem macroParameterLoop_name (h : tok.type = .identifier) (hvalue : tok.value = some name)
    (variadic names rest) :
    macroParameterLoop true variadic names (tok :: rest)
      = (macroParameterLoop false variadic (names ++ [name]) rest).map
          fun r => (r.1, r.2.1, r.2.2 + 1) := by
  simp [macroParameterLoop, h, hvalue]

theorem macroParameterLoop_ellipsis (h : tok.type = .ellipsis) (variadic names rest) :
    macroParameterLoop true variadic names (tok :: rest)
      = (macroParameterLoop false true names rest).map fun r => (r.1, r.2.1, r.2.2 + 1) := by
  simp [macroParameterLoop, h]

theorem macroParameterLoop_comma (h : tok.type = .comma) (variadic names rest) :
    macroParameterLoop false variadic names (tok :: rest)
      = (macroParameterLoop true variadic names rest).map fun r => (r.1, r.2.1, r.2.2 + 1) := by
  simp [macroParameterLoop, h]

theorem macroParameterLoop_other (hclose : tok.type ≠ .rparen) (h : tok.type ≠ .comma)
    (variadic names rest) : macroParameterLoop false variadic names (tok :: rest) = none := by
  simp [macroParameterLoop, hclose, h]

theorem macroParameterLoop_item (h : IsParameter tok) (variadic names rest) :
    ∃ names', (macroParameterLoop true variadic names (tok :: rest)).isSome
      = (macroParameterLoop false (variadic || tok.type == .ellipsis) names' rest).isSome := by
  rcases h with ⟨hname, hvalue⟩ | hellipsis
  · obtain ⟨name, hvalue⟩ := Option.isSome_iff_exists.mp hvalue
    have hother : (tok.type == .ellipsis) = false := by
      rw [hname]
      rfl
    refine ⟨names ++ [name], ?_⟩
    simp [macroParameterLoop_name hname hvalue, hother]
  · refine ⟨names, ?_⟩
    simp [macroParameterLoop_ellipsis hellipsis, hellipsis]

theorem macroParameterLoop_refuses (hclose : tok.type ≠ .rparen) (h : ¬IsParameter tok)
    (variadic names rest) : macroParameterLoop true variadic names (tok :: rest) = none := by
  simp only [IsParameter, not_or, not_and] at h
  cases hvalue : tok.value with
  | none => simp [macroParameterLoop, hclose, h.2, hvalue]
  | some name =>
    have hname : tok.type ≠ .identifier := fun hname => h.1 hname (by simp [hvalue])
    simp [macroParameterLoop, hclose, h.2, hname]

theorem looseParameters_head (h : LooseParameters variadic (tok :: rest)) : IsParameter tok := by
  cases rest with
  | nil => exact h
  | cons => exact h.1

theorem macroParameterLoop_isSome (variadic : Bool) (names : List String) : (tokens : List Token) →
    ((macroParameterLoop true variadic names tokens).isSome ↔
      LooseParameters variadic (tokens.takeWhile notClosing))
  | [] => by cases variadic <;> simp [macroParameterLoop, LooseParameters]
  | tok :: rest => by
    by_cases hclose : tok.type = .rparen
    · cases variadic <;> simp [macroParameterLoop, LooseParameters, notClosing, hclose]
    by_cases hitem : IsParameter tok
    · obtain ⟨names', hstep⟩ := macroParameterLoop_item hitem variadic names rest
      rw [hstep, List.takeWhile_cons_of_pos (by simp [notClosing, hclose])]
      cases rest with
      | nil => simp [macroParameterLoop, LooseParameters, hitem]
      | cons next rest => ?_
      by_cases hend : next.type = .rparen
      · simp [macroParameterLoop, LooseParameters, notClosing, hend, hitem]
      rw [List.takeWhile_cons_of_pos (by simp [notClosing, hend])]
      by_cases hcomma : next.type = .comma
      · rw [macroParameterLoop_comma hcomma, Option.isSome_map,
          macroParameterLoop_isSome _ names' rest]
        simp [LooseParameters, hitem, hcomma]
      · rw [macroParameterLoop_other hend hcomma]
        simp [LooseParameters, hcomma]
    · rw [macroParameterLoop_refuses hclose hitem,
        List.takeWhile_cons_of_pos (by simp [notClosing, hclose])]
      refine iff_of_false (by simp) fun h => hitem (looseParameters_head h)

def ReadAsParameters (tokens : List Token) : Prop :=
  headIs .lparen tokens ∧
    (betweenParens tokens = [] ∧ fromClosing tokens ≠ [] ∨ LooseParameters false (betweenParens tokens))

theorem parseMacroParameters_isSome (tokens : List Token) :
    (parseMacroParameters tokens).isSome ↔ ReadAsParameters tokens := by
  unfold parseMacroParameters ReadAsParameters
  split
  · rename_i hopen
    simp only [hopen, true_and]
    cases htail : tokens.tail with
    | nil => simp [headIs, betweenParens, fromClosing, htail, macroParameterLoop, LooseParameters]
    | cons tok rest => ?_
    by_cases hclose : tok.type = .rparen
    · simp [headIs, betweenParens, fromClosing, htail, hclose, notClosing]
    have hne : betweenParens tokens ≠ [] := by
      rw [betweenParens, htail, List.takeWhile_cons_of_pos (by simp [notClosing, hclose])]
      simp
    simp only [headIs, beq_iff_eq, hclose, if_false, Option.isSome_map, hne, false_and, false_or]
    rw [macroParameterLoop_isSome, betweenParens, htail]
  · rename_i hopen
    simp [hopen]

-- The difference

def parameterName (tok : Token) : Option String := if tok.type = .identifier then tok.value else none

def parameterNames (tokens : List Token) : List String := tokens.filterMap parameterName

/-- Nothing stands behind an ellipsis, the names differ, and the list is closed on
the line of its opening parenthesis. -/
structure TidyParameters (tokens : List Token) : Prop where
  ellipsisLast : ∀ tok ∈ (betweenParens tokens).dropLast, tok.type ≠ .ellipsis
  distinct : (parameterNames (betweenParens tokens)).Nodup
  closed : ∃ close rest, fromClosing tokens = close :: rest ∧
    ∀ tok ∈ betweenParens tokens ++ [close], some tok.line = tokens.head?.map Token.line

theorem identList_names (h : IdentList inside names) : parameterNames inside = names := by
  induction h with
  | one hname hvalue => simp [parameterNames, parameterName, hname, hvalue]
  | more hname hvalue hcomma _ ih =>
    simp only [parameterNames] at ih
    simp [parameterNames, parameterName, hname, hvalue, hcomma, ih]

theorem identList_loose (h : IdentList inside names) : LooseParameters false inside := by
  induction h with
  | one hname hvalue => exact .inl ⟨hname, by simp [hvalue]⟩
  | more hname hvalue hcomma _ ih =>
    refine ⟨.inl ⟨hname, by simp [hvalue]⟩, hcomma, ?_⟩
    rw [hname]
    exact ih

theorem identList_ellipsis_loose (h : IdentList inside names) (hcomma : comma.type = .comma)
    (hellipsis : tok.type = .ellipsis) : LooseParameters false (inside ++ [comma, tok]) := by
  induction h with
  | one hname hvalue =>
    exact ⟨.inl ⟨hname, by simp [hvalue]⟩, hcomma, .inr hellipsis⟩
  | more hname hvalue hcomma' _ ih =>
    refine ⟨.inl ⟨hname, by simp [hvalue]⟩, hcomma', ?_⟩
    rw [hname]
    exact ih

theorem identList_types (h : IdentList inside names) :
    ∀ tok ∈ inside, tok.type = .identifier ∨ tok.type = .comma := by
  induction h with
  | one hname _ => exact List.forall_mem_singleton.mpr (.inl hname)
  | more hname _ hcomma _ ih =>
    exact List.forall_mem_cons.mpr ⟨.inl hname, List.forall_mem_cons.mpr ⟨.inr hcomma, ih⟩⟩

/-- What C allows between the parentheses is tidy, and read. -/
theorem parameterTokens_tidy (h : ParameterTokens inside names variadic) :
    (∀ tok ∈ inside, notClosing tok = true) ∧ (∀ tok ∈ inside.dropLast, tok.type ≠ .ellipsis) ∧
      parameterNames inside = names ∧ (inside = [] ∨ LooseParameters false inside) := by
  cases h with
  | none => simp [parameterNames]
  | names hlist =>
    have htypes := identList_types hlist
    refine ⟨?_, ?_, identList_names hlist, .inr (identList_loose hlist)⟩
    · intro tok hmem
      rcases htypes tok hmem with h | h <;> simp [notClosing, h]
    · intro tok hmem
      rcases htypes tok ((List.dropLast_sublist _).subset hmem) with h | h <;> simp [h]
  | ellipsis h => simp [notClosing, parameterNames, parameterName, h, LooseParameters, IsParameter]
  | @namesEllipsis before _ comma tok hlist hcomma hellipsis =>
    have htypes := identList_types hlist
    refine ⟨?_, ?_, ?_, .inr (identList_ellipsis_loose hlist hcomma hellipsis)⟩
    · refine List.forall_mem_append.mpr ⟨?_, by simp [notClosing, hcomma, hellipsis]⟩
      intro tok hmem
      rcases htypes tok hmem with h | h <;> simp [notClosing, h]
    · rw [List.dropLast_append_of_ne_nil (by simp)]
      refine List.forall_mem_append.mpr ⟨?_, by simp [hcomma]⟩
      intro tok hmem
      rcases htypes tok hmem with h | h <;> simp [h]
    · have hnames := identList_names hlist
      simp only [parameterNames] at hnames
      simp [parameterNames, hnames, parameterName, hcomma, hellipsis]

/-- A list that the code reads and that has nothing behind an ellipsis is one of
C's. -/
theorem parameterTokens_of_loose : (inside : List Token) → LooseParameters false inside →
    (∀ tok ∈ inside.dropLast, tok.type ≠ .ellipsis) →
    ∃ variadic, ParameterTokens inside (parameterNames inside) variadic
  | [], h, _ => by simp [LooseParameters] at h
  | [tok], h, _ => by
    rcases h with ⟨hname, hvalue⟩ | hellipsis
    · obtain ⟨name, hvalue⟩ := Option.isSome_iff_exists.mp hvalue
      refine ⟨false, .names ?_⟩
      simpa [parameterNames, parameterName, hname, hvalue] using IdentList.one hname hvalue
    · refine ⟨true, ?_⟩
      simpa [parameterNames, parameterName, hellipsis] using ParameterTokens.ellipsis hellipsis
  | tok :: comma :: rest, ⟨hitem, hcomma, hrest⟩, hlast => by
    have hellipsis : tok.type ≠ .ellipsis := hlast tok (by simp)
    obtain ⟨hname, hvalue⟩ := hitem.resolve_right hellipsis
    obtain ⟨name, hvalue⟩ := Option.isSome_iff_exists.mp hvalue
    have hother : (tok.type == .ellipsis) = false := by simp [hellipsis]
    rw [hother] at hrest
    have hne : rest ≠ [] := by
      rintro rfl
      simp [LooseParameters] at hrest
    obtain ⟨variadic, htail⟩ := parameterTokens_of_loose rest hrest fun t hmem => hlast t (by
      obtain ⟨last, rest, rfl⟩ := List.exists_cons_of_ne_nil hne
      simp [hmem])
    have hnames : parameterNames (tok :: comma :: rest) = name :: parameterNames rest := by
      simp [parameterNames, parameterName, hname, hvalue, hcomma]
    rw [hnames]
    generalize parameterNames rest = names at htail
    cases htail with
    | none => exact absurd rfl hne
    | names hlist => exact ⟨false, .names (.more hname hvalue hcomma hlist)⟩
    | ellipsis h => exact ⟨true, .namesEllipsis (.one hname hvalue) hcomma h⟩
    | namesEllipsis hlist hcomma' h =>
      exact ⟨true, .namesEllipsis (.more hname hvalue hcomma hlist) hcomma' h⟩

theorem wellFormed_iff (tokens : List Token) :
    WellFormedParameters tokens ↔ ReadAsParameters tokens ∧ TidyParameters tokens := by
  constructor
  · rintro ⟨lparen, inside, close, rest, names, variadic, rfl, hopen, hclose, hinside, hnodup, hline⟩
    obtain ⟨hclosing, hlast, hnames, hloose⟩ := parameterTokens_tidy hinside
    have hend : notClosing close = false := by simp [notClosing, hclose]
    have hbetween : betweenParens (lparen :: (inside ++ close :: rest)) = inside := by
      rw [betweenParens, List.tail_cons, List.takeWhile_append_of_pos hclosing,
        List.takeWhile_cons_of_neg (by simp [hend]), List.append_nil]
    have hfrom : fromClosing (lparen :: (inside ++ close :: rest)) = close :: rest := by
      rw [fromClosing, List.tail_cons, List.dropWhile_append_of_pos hclosing,
        List.dropWhile_cons_of_neg (by simp [hend])]
    constructor
    · refine ⟨by simp [headIs, hopen], ?_⟩
      rw [hbetween, hfrom]
      exact hloose.imp_left fun h => ⟨h, by simp⟩
    · refine ⟨?_, ?_, close, rest, hfrom, ?_⟩
      · rwa [hbetween]
      · rwa [hbetween, hnames]
      · rw [hbetween]
        intro tok hmem
        exact congrArg some (hline tok hmem)
  · rintro ⟨⟨hopen, hread⟩, htidy⟩
    obtain ⟨close, rest, hfrom, hline⟩ := htidy.closed
    have hclose : close.type = .rparen := by
      have h := List.head?_dropWhile_not notClosing tokens.tail
      rw [← fromClosing, hfrom] at h
      simpa [notClosing] using h
    have hinside : ∃ variadic,
        ParameterTokens (betweenParens tokens) (parameterNames (betweenParens tokens)) variadic := by
      rcases hread with ⟨hempty, -⟩ | hloose
      · rw [hempty]
        exact ⟨false, .none⟩
      · exact parameterTokens_of_loose _ hloose htidy.ellipsisLast
    obtain ⟨variadic, hinside⟩ := hinside
    cases tokens with
    | nil => cases hopen
    | cons lparen tail => ?_
    refine ⟨lparen, _, close, rest, _, variadic, ?_, by simpa [headIs] using hopen, hclose, hinside,
      htidy.distinct, ?_⟩
    · rw [← hfrom, betweenParens, fromClosing, List.takeWhile_append_dropWhile, List.tail_cons]
    · intro tok hmem
      simpa using hline tok hmem

/-- `parse_macro_parameters` accepts C's lists and no others when what it takes
for a list is tidy. -/
theorem parameters_accepted_iff (tokens : List Token) :
    ((parseMacroParameters tokens).isSome ↔ WellFormedParameters tokens) ↔
      (ReadAsParameters tokens → TidyParameters tokens) := by
  rw [parseMacroParameters_isSome, wellFormed_iff]
  exact iff_self_and

/-- `(a, a)` -/
def repeatedParameters : List Token :=
  let word (text : String) := makeSimpleToken .identifier text emptyRange
  [makeSimpleToken .lparen "(" emptyRange, word "a", makeSimpleToken .comma "," emptyRange, word "a",
    makeSimpleToken .rparen ")" emptyRange]

theorem repeatedParameters_accepted :
    ¬((parseMacroParameters repeatedParameters).isSome ↔ WellFormedParameters repeatedParameters) := by
  intro h
  obtain ⟨-, htidy⟩ := (wellFormed_iff _).mp (h.mp (by decide))
  exact absurd htidy.distinct (by decide)

end Fisics
