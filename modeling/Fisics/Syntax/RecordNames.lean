import Fisics.Library.Walks
import Fisics.Syntax.RecordLayoutRuns

/-!
# Names of records

Typedef names that do not lead back to themselves all resolve. A type then calls for
records that it names or that a typedef names, and so does a definition: the records
inside one have their names from the program.
-/

namespace Fisics.Records

open MemoCall (Calls)
open MemoCall.Calls (asks_andThen ret_andThen)
open Relation (TransGen)

variable {p : Program}

-- Typedef names

def LeadsTo (typedefs : List (String × ParsedType)) (name name' : String) : Prop :=
  ∃ type, resolveTypedef typedefs name = some type ∧ type.head.kind = .named ∧
    type.head.userTypeName = some name' ∧ isBuiltinInt128Name name' = none

/-- No typedef name in scope leads back to itself. -/
def Program.TypedefsEnd (p : Program) : Prop := ∀ name, ¬ TransGen (LeadsTo p.typedefs) name name

def Names (typedefs : List (String × ParsedType)) (type : ParsedType) (name : String)
    (resolved : ParsedType) : Prop :=
  type.head.kind = .named ∧ type.head.userTypeName = some name ∧ isBuiltinInt128Name name = none ∧
    resolveTypedef typedefs name = some resolved

theorem Names.mem (h : Names typedefs type name resolved) : name ∈ typedefs.map (·.1) := by
  obtain ⟨-, -, -, hresolved⟩ := h
  obtain ⟨entry, hfind, -⟩ := Option.map_eq_some_iff.mp hresolved
  have hname := List.find?_some hfind
  simp only [beq_iff_eq] at hname
  exact List.mem_map.mpr ⟨entry, List.mem_of_find?_eq_some hfind, hname⟩

theorem typeInfoFromDerivations_some (hbase : base = some info) (type : ParsedType)
    (derivations : Derivations) :
    typeInfoFromDerivations base type derivations ≠ none := by
  subst hbase
  induction derivations using Derivations.steps with
  | nil | function rest ih => simp [typeInfoFromDerivations]
  | pointer rest ih | array info sizeExpr rest ih => simpa [typeInfoFromDerivations] using ih

theorem typeInfoFromBaseKind_none (tl : TargetTable)
    (h : typeInfoFromBaseKind tl typedefs resolve type = none) :
    ∃ name resolved, Names typedefs type name resolved ∧ resolve resolved = none := by
  unfold typeInfoFromBaseKind at h
  cases hkind : type.head.kind with
  | named =>
    simp only [hkind] at h
    cases hname : type.head.userTypeName with
    | none => simp [hname] at h
    | some name => ?_
    simp only [hname, Option.bind_some] at h
    cases hbuiltin : isBuiltinInt128Name name with
    | some isUnsigned => simp [hbuiltin] at h
    | none => ?_
    cases hresolved : resolveTypedef typedefs name with
    | none => simp [hbuiltin, hresolved] at h
    | some resolved =>
      simp only [hbuiltin, hresolved] at h
      exact ⟨name, resolved, ⟨hkind, hname, hbuiltin, hresolved⟩, h⟩
  | _ => simp [hkind] at h

theorem typeInfoFromParsedType_none (h : typeInfoFromParsedType tl typedefs (names + 1) type = none) :
    ∃ name resolved, Names typedefs type name resolved ∧
      typeInfoFromParsedType tl typedefs names resolved = none := by
  refine typeInfoFromBaseKind_none tl ?_
  rw [typeInfoFromParsedType] at h
  cases hbase : typeInfoFromBaseKind tl typedefs (typeInfoFromParsedType tl typedefs names) type with
  | none => rfl
  | some info => ?_
  split at h
  · split at h
    all_goals simp [hbase] at h
  · exact absurd h (typeInfoFromDerivations_some hbase type _)

theorem walk_of_unresolved (h : typeInfoFromParsedType tl typedefs (names + 1) type = none) :
    ∃ name resolved, Names typedefs type name resolved ∧
      Walks.Walk (typedefs.map (·.1)) (LeadsTo typedefs) names name := by
  induction names generalizing type with
  | zero =>
    obtain ⟨name, resolved, hnames, -⟩ := typeInfoFromParsedType_none h
    exact ⟨name, resolved, hnames, trivial⟩
  | succ names ih =>
    obtain ⟨name, resolved, hnames, hrest⟩ := typeInfoFromParsedType_none h
    obtain ⟨name', resolved', hnames', hwalk⟩ := ih hrest
    obtain ⟨hkind, hname', hbuiltin, -⟩ := id hnames'
    exact ⟨name, resolved, hnames, name', hnames'.mem,
      ⟨resolved, hnames.2.2.2, hkind, hname', hbuiltin⟩, hwalk⟩

theorem Program.TypedefsEnd.typeInfo (h : p.TypedefsEnd) (type : ParsedType) :
    ∃ info, p.typeInfo type = some info := by
  cases hinfo : p.typeInfo type with
  | some info => exact ⟨info, rfl⟩
  | none => ?_
  obtain ⟨name, resolved, hnames, hwalk⟩ := walk_of_unresolved hinfo
  rw [← List.length_map (·.1)] at hwalk
  obtain ⟨name', -, hcycle⟩ := hwalk.cycle hnames.mem
  exact absurd hcycle (h name')

theorem Program.TypedefsEnd.declaredInfo (h : p.TypedefsEnd) (type : ParsedType) :
    ∃ info, p.declaredInfo type = .ret (some info) ∧ p.typeInfo type = some info := by
  obtain ⟨info, hinfo⟩ := h.typeInfo type
  refine ⟨info, ?_, hinfo⟩
  rw [Program.declaredInfo, hinfo]

-- Names of records

mutual

def Derivations.heads : Derivations → List Head
  | .nil => []
  | .pointer rest => rest.heads
  | .array _ sizeExpr rest => sizeExpr.heads ++ rest.heads
  | .function rest => rest.heads

def SizeExpr.heads : SizeExpr → List Head
  | .value _ => []
  | .sizeOf head derivations => head :: derivations.heads
  | .alignOf head derivations => head :: derivations.heads
  | .unary _ operand => operand.heads
  | .binary _ left right => left.heads ++ right.heads
  | .branch condition whenTrue whenFalse => condition.heads ++ whenTrue.heads ++ whenFalse.heads

end

def ParsedType.heads (type : ParsedType) : List Head := type.head :: type.derivations.heads

def fieldHeads (field : FieldDecl ParsedType SizeExpr) : List Head :=
  (field.first :: field.more).flatMap (·.type.heads) ++ field.bitFieldWidth.elim [] SizeExpr.heads

def Program.names (p : Program) : List String :=
  ((p.definitions.flatMap fun d => d.body.fields.flatMap fieldHeads) ++
    p.typedefs.map (·.2.head)).filterMap (·.userTypeName)

def Program.keys (p : Program) : List TagKey :=
  p.names.flatMap fun name => [⟨.struct, name⟩, ⟨.union, name⟩]

theorem Program.mem_keys (h : key.name ∈ p.names) : key ∈ p.keys := by
  refine List.mem_flatMap.mpr ⟨key.name, h, ?_⟩
  obtain ⟨kind, name⟩ := key
  cases kind <;> simp

/-- A call for a record that one of these types or of the typedefs names. -/
def Within (p : Program) (heads : List Head) (q : Query) : Prop :=
  ∃ ref head, q = .record ref ∧ (head ∈ heads ∨ head ∈ p.typedefs.map (·.2.head)) ∧
    head.userTypeName = some ref.key.name

theorem Within.mono (h : Within p heads q) (hsub : ∀ head ∈ heads, head ∈ heads') : Within p heads' q := by
  obtain ⟨ref, head, hq, hhead, hname⟩ := h
  exact ⟨ref, head, hq, hhead.imp_left (hsub head), hname⟩

theorem Within.rest (h : Within p (fields.flatMap heads) q) :
    Within p ((field :: fields).flatMap heads) q :=
  h.mono fun head hhead => by
    exact List.mem_append_right _ hhead

theorem typeInfoFromDerivations_name (h : typeInfoFromDerivations base type derivations = some info)
    (hname : info.userTypeName = some name) :
    ∃ info', base = some info' ∧ info'.userTypeName = some name := by
  induction derivations using Derivations.steps generalizing info with
  | nil =>
    obtain ⟨info', hbase, rfl⟩ := Option.map_eq_some_iff.mp h
    exact ⟨info', hbase, hname⟩
  | pointer rest ih | array _ _ rest ih =>
    obtain ⟨info', hrest, rfl⟩ := Option.map_eq_some_iff.mp h
    exact ih hrest hname
  | function rest =>
    cases h
    cases hname

theorem typeInfoFromParsedType_base (h : typeInfoFromParsedType tl typedefs (names + 1) type = some info)
    (hname : info.userTypeName = some name) :
    ∃ info', typeInfoFromBaseKind tl typedefs (typeInfoFromParsedType tl typedefs names) type = some info' ∧
      info'.userTypeName = some name := by
  rw [typeInfoFromParsedType] at h
  split at h
  · split at h
    · obtain ⟨info', hbase, rfl⟩ := Option.map_eq_some_iff.mp h
      exact ⟨info', hbase, hname⟩
    · exact ⟨info, h, hname⟩
  · exact typeInfoFromDerivations_name h hname

theorem typeInfoFromParsedType_name (h : typeInfoFromParsedType tl typedefs names type = some info)
    (hname : info.userTypeName = some name) :
    ∃ head, (head = type.head ∨ head ∈ typedefs.map (·.2.head)) ∧ head.userTypeName = some name := by
  induction names generalizing type info with
  | zero => cases h
  | succ names ih =>
    obtain ⟨info', hbase, hname'⟩ := typeInfoFromParsedType_base h hname
    unfold typeInfoFromBaseKind at hbase
    cases hkind : type.head.kind with
    | named =>
      simp only [hkind] at hbase
      split at hbase
      · cases hbase
        cases hname'
      split at hbase
      · rename_i resolved hresolved
        obtain ⟨typedefName, -, hfound⟩ := Option.bind_eq_some_iff.mp hresolved
        obtain ⟨entry, hfind, rfl⟩ := Option.map_eq_some_iff.mp hfound
        obtain ⟨head, hhead, hheadName⟩ := ih hbase hname'
        refine ⟨head, .inr ?_, hheadName⟩
        rcases hhead with rfl | hhead
        · exact List.mem_map.mpr ⟨entry, List.mem_of_find?_eq_some hfind, rfl⟩
        · exact hhead
      · cases hbase
        exact ⟨type.head, .inl rfl, hname'⟩
    | primitive prim | invalid =>
      simp only [hkind, Option.some.injEq] at hbase
      subst hbase
      cases hname'
    | struct | union | enum =>
      simp only [hkind, Option.some.injEq] at hbase
      subst hbase
      exact ⟨type.head, .inl rfl, hname'⟩

-- Calls for records

theorem asks_sizeAlignOfTypeInfo (h : (sizeAlignOfTypeInfo tl info).Asks q) :
    ∃ ref, q = .record ref ∧ info.userTypeName = some ref.key.name := by
  have htag : ∀ kind, (layoutOfTag kind info).Asks q →
      ∃ ref, q = .record ref ∧ info.userTypeName = some ref.key.name := by
    intro kind hasks
    unfold layoutOfTag at hasks
    cases hname : info.userTypeName with
    | none =>
      simp only [hname] at hasks
      cases hasks
    | some name => ?_
    simp only [hname] at hasks
    cases hasks with
    | here => exact ⟨_, rfl, rfl⟩
    | later hnext => cases hnext
  unfold sizeAlignOfTypeInfo at h
  split at h
  case h_5 | h_6 => exact htag _ h
  all_goals cases h

theorem asks_sizeAlignOfOther (hends : p.TypedefsEnd) (h : (p.sizeAlignOfOther type).Asks q) :
    Within p [type.head] q := by
  obtain ⟨info, hdeclared, hinfo⟩ := hends.declaredInfo type
  rw [Program.sizeAlignOfOther, hdeclared, ret_andThen] at h
  rcases asks_andThen h with hasks | ⟨layout, hasks⟩
  · obtain ⟨ref, rfl, hname⟩ := asks_sizeAlignOfTypeInfo hasks
    obtain ⟨head, hhead, hheadName⟩ := typeInfoFromParsedType_name hinfo hname
    exact ⟨ref, head, rfl, hhead.imp_left (by rintro rfl; exact List.mem_cons_self ..), hheadName⟩
  · cases hasks

mutual

theorem asks_sizeAlign (hends : p.TypedefsEnd) (head : Head) :
    ∀ derivations, (p.sizeAlign head derivations).Asks q → Within p (head :: derivations.heads) q
  | .nil, h => asks_sizeAlignOfOther hends h
  | .pointer rest, h => (asks_sizeAlignOfOther hends h).mono (by simp)
  | .function rest, h => (asks_sizeAlignOfOther hends h).mono (by simp)
  | .array info sizeExpr rest, h => by
    rw [Program.sizeAlign] at h
    split at h
    · cases h
    rcases asks_andThen h with hlength | ⟨length, hasks⟩
    · have hasks : (p.constEvalInteger sizeExpr).Asks q := by
        unfold ParsedArrayInfo.length at hlength
        split at hlength
        · cases hlength
        · exact hlength
      exact (asks_constEvalInteger hends sizeExpr hasks).mono (by simp +contextual [Derivations.heads])
    · split at hasks
      · cases hasks
      · rcases asks_andThen hasks with helement | ⟨element, hasks⟩
        · refine (asks_sizeAlign hends head rest helement).mono ?_
          intro h hh
          rcases List.mem_cons.mp hh with rfl | hh
          · exact List.mem_cons_self ..
          · simp [Derivations.heads, hh]
        · cases hasks

theorem asks_constEvalInteger (hends : p.TypedefsEnd) :
    ∀ expr, (p.constEvalInteger expr).Asks q → Within p expr.heads q
  | .value value, h => by cases h
  | .sizeOf head derivations, h => by
    rcases asks_andThen h with hasks | ⟨layout, hasks⟩
    · exact asks_sizeAlign hends head derivations hasks
    · cases hasks
  | .alignOf head derivations, h => by
    rcases asks_andThen h with hasks | ⟨layout, hasks⟩
    · exact asks_sizeAlign hends head derivations hasks
    · cases hasks
  | .unary op operand, h => by
    rcases asks_andThen h with hasks | ⟨value, hasks⟩
    · exact asks_constEvalInteger hends operand hasks
    · cases hasks
  | .binary op left right, h => by
    rcases asks_andThen h with hasks | ⟨l, hasks⟩
    · exact (asks_constEvalInteger hends left hasks).mono (by simp +contextual [SizeExpr.heads])
    · rcases asks_andThen hasks with hasks | ⟨r, hasks⟩
      · exact (asks_constEvalInteger hends right hasks).mono (by simp +contextual [SizeExpr.heads])
      · cases hasks
  | .branch condition whenTrue whenFalse, h => by
    rcases asks_andThen h with hasks | ⟨value, hasks⟩
    · exact (asks_constEvalInteger hends condition hasks).mono (by simp +contextual [SizeExpr.heads])
    · split at hasks
      · exact (asks_constEvalInteger hends whenFalse hasks).mono (by simp +contextual [SizeExpr.heads])
      · exact (asks_constEvalInteger hends whenTrue hasks).mono (by simp +contextual [SizeExpr.heads])

end

theorem asks_sizeAlignOfParsedType (hends : p.TypedefsEnd)
    (h : (p.sizeAlignOfParsedType type).Asks q) : Within p type.heads q :=
  asks_sizeAlign hends type.head type.derivations h

-- Members

section
variable (hends : p.TypedefsEnd)

include hends

theorem asks_layoutFirst (h : (layoutFirst p packed override field s).Asks q) :
    Within p (fieldHeads field) q := by
  obtain ⟨info, hdeclared, hinfo⟩ := hends.declaredInfo field.first.type
  simp only [layoutFirst, hdeclared, ret_andThen] at h
  have hfirst : ∀ head ∈ field.first.type.heads, head ∈ fieldHeads field := by
    simp +contextual [fieldHeads]
  cases hwidth : field.bitFieldWidth with
  | some widthExpr =>
    simp only [hwidth] at h
    rcases asks_andThen h with hasks | ⟨width, hasks⟩
    · exact (asks_constEvalInteger hends widthExpr hasks).mono (by simp +contextual [fieldHeads, hwidth])
    · rcases asks_andThen hasks with hasks | ⟨layout, hasks⟩
      · exact (asks_sizeAlignOfParsedType hends hasks).mono hfirst
      · cases hasks
  | none =>
    simp only [hwidth] at h
    rcases asks_andThen h with hasks | ⟨layout, hasks⟩
    · refine (asks_sizeAlignOfParsedType hends hasks).mono fun head hhead => hfirst head ?_
      split at hhead
      · unfold parsedTypeArrayElementType at hhead
        split at hhead
        · rename_i info sizeExpr rest harray
          rcases List.mem_cons.mp hhead with rfl | hhead
          · exact List.mem_cons_self ..
          · refine List.mem_cons_of_mem _ ?_
            rw [harray, Derivations.heads]
            exact List.mem_append_right _ hhead
        · exact hhead
      · exact hhead
    · cases hasks

theorem asks_layoutOthers (h : (layoutOthers p packed override more s).Asks q) :
    Within p (more.flatMap fun d => d.type.heads) q := by
  induction more generalizing s with
  | nil => cases h
  | cons d more ih =>
    obtain ⟨info, hdeclared, hinfo⟩ := hends.declaredInfo d.type
    rcases asks_andThen h with hasks | ⟨layout, hasks⟩
    · exact (asks_sizeAlignOfParsedType hends hasks).mono (by simp +contextual)
    · simp only [hdeclared, ret_andThen] at hasks
      rcases asks_andThen hasks with hasks | ⟨first, hasks⟩
      · cases hasks
      · rcases asks_andThen hasks with hasks | ⟨rest, hasks⟩
        · exact (ih hasks).rest
        · cases hasks

theorem asks_layoutFieldsOf (h : (layoutFieldsOf p packed fields s).Asks q) :
    Within p (fields.flatMap fieldHeads) q := by
  induction fields generalizing s with
  | nil => cases h
  | cons field fields ih =>
    have hhere : ∀ head ∈ fieldHeads field, head ∈ (field :: fields).flatMap fieldHeads := fun head hhead => by
      exact List.mem_append_left _ hhead
    rcases asks_andThen h with hasks | ⟨first, hasks⟩
    · exact (asks_layoutFirst hends hasks).mono hhere
    · rcases asks_andThen hasks with hasks | ⟨others, hasks⟩
      · refine (asks_layoutOthers hends hasks).mono fun head hhead => hhere head ?_
        simp [fieldHeads, List.flatMap_cons, hhead]
      · rcases asks_andThen hasks with hasks | ⟨rest, hasks⟩
        · exact (ih hasks).rest
        · cases hasks

theorem asks_layoutUnionMembers (h : (layoutUnionMembers p packed override isBitfield members u).Asks q) :
    Within p (members.flatMap fun d => d.type.heads) q := by
  induction members generalizing u with
  | nil => cases h
  | cons d more ih =>
    obtain ⟨info, hdeclared, hinfo⟩ := hends.declaredInfo d.type
    rcases asks_andThen h with hasks | ⟨u', hasks⟩
    · rcases asks_andThen hasks with hasks | ⟨layout, hasks⟩
      · exact (asks_sizeAlignOfParsedType hends hasks).mono (by simp +contextual)
      · simp only [hdeclared, ret_andThen] at hasks
        cases hasks
    · exact (ih hasks).rest

theorem asks_layoutUnionFields (h : (layoutUnionFields p packed fields u).Asks q) :
    Within p (fields.flatMap fieldHeads) q := by
  induction fields generalizing u with
  | nil => cases h
  | cons field fields ih =>
    rcases asks_andThen h with hasks | ⟨u', hasks⟩
    · refine (asks_layoutUnionMembers hends hasks).mono fun head hhead => ?_
      exact List.mem_append_left _ (List.mem_append_left _ hhead)
    · exact (ih hasks).rest

theorem asks_layoutRecord (hd : d ∈ p.definitions)
    (h : (layoutRecord p kind d.body).Asks q) : ∃ ref, q = .record ref ∧ ref.key ∈ p.keys := by
  have hwithin : Within p (d.body.fields.flatMap fieldHeads) q := by
    cases kind with
    | struct =>
      rcases asks_andThen h with hasks | ⟨placed, hasks⟩
      · exact asks_layoutFieldsOf hends hasks
      · cases hasks
    | union =>
      rcases asks_andThen h with hasks | ⟨u, hasks⟩
      · exact asks_layoutUnionFields hends hasks
      · cases hasks
  obtain ⟨ref, head, rfl, hhead, hname⟩ := hwithin
  refine ⟨ref, rfl, Program.mem_keys (List.mem_filterMap.mpr ⟨head, ?_, hname⟩)⟩
  rcases hhead with hhead | hhead
  · exact List.mem_append_left _ (List.mem_flatMap.mpr ⟨d, hd, hhead⟩)
  · exact List.mem_append_right _ hhead

end

end Fisics.Records
