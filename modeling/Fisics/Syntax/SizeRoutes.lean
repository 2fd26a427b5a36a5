import Fisics.Syntax.RecordSizes

/-!
# Two routes to a size

`sizeof` and `_Alignof` of a type name go by the parsed type, those of an expression by
what the checker knows of its type. The routes part at arrays, at the attributes of a
declaration, at records whose tag has not been entered, and where pointers of the host
are not those of the target.
-/

namespace Fisics.Records

open MemoCall (Calls)

variable {p : Program} {type type' : ParsedType}

-- The routes

def sizeFromParsedType (p : Program) (type : ParsedType) : Layouts Nat :=
  (p.sizeAlignOfParsedType type).andThen fun layout => .ret (some layout.1)

def alignFromParsedType (p : Program) (type : ParsedType) : Layouts Nat :=
  (p.sizeAlignOfParsedType type).andThen fun layout => .ret (some layout.2)

/-- A part of the layout of the record that a type names; an inline definition is not entered. -/
def layoutOfName (kind : TagKind) (info : DeclaredInfo) (part : Nat × Nat → Nat) : Layouts Nat :=
  match info.userTypeName with
  | none => fail
  | some name => .call (.record ⟨⟨kind, name⟩, none⟩) fun layout => .ret (some (part layout))

/-- `sizeofPointer` is `sizeof(void*)` of the host. -/
def sizeFromTypeInfo (sizeofPointer : Nat) (info : DeclaredInfo) : Layouts Nat :=
  let bytes := (TypeInfo.bits info.toTypeInfo + 7) / 8
  match info.category with
  | .integer | .enum => .ret (some (if bytes = 0 then 1 else bytes))
  | .float =>
    let bytes := if bytes = 0 then 4 else bytes
    .ret (some (if info.isComplex then bytes * 2 else bytes))
  | .pointer => .ret (some sizeofPointer)
  | .struct => layoutOfName .struct info (·.1)
  | .union => layoutOfName .union info (·.1)
  | .invalid | .array | .function | .void => fail

def alignFromTypeInfo (tl : TargetTable) (info : DeclaredInfo) : Layouts Nat :=
  let bits := TypeInfo.bits info.toTypeInfo
  match info.category with
  | .integer | .enum =>
    .ret (some
      (if bits ≤ tl.charBits then tl.charAlign
      else if bits ≤ tl.shortBits then tl.shortAlign
      else if bits ≤ tl.intBits then tl.intAlign
      else if bits ≤ tl.longBits then tl.longAlign
      else tl.longLongAlign))
  | .float =>
    let align := if tl.doubleBits ≤ bits then tl.doubleAlign else tl.floatAlign
    .ret (some (if tl.longDoubleBits ≤ bits then tl.longDoubleAlign else align))
  | .pointer => .ret (some tl.pointerAlign)
  | .struct => layoutOfName .struct info (·.2)
  | .union => layoutOfName .union info (·.2)
  | .invalid | .array | .function | .void => fail

def isComplete (tags : Tags) (kind : TagKind) (info : DeclaredInfo) : Bool :=
  info.original.head.inlineStructOrUnionDef.isSome ||
    info.userTypeName.elim false fun name => ccTagIsDefined tags ⟨kind, name⟩

def isIncompleteRecord (tags : Tags) (info : DeclaredInfo) : Bool :=
  match info.category with
  | .struct => !isComplete tags .struct info
  | .union => !isComplete tags .union info
  | _ => false

/-- The last part of `evalSizeof`, for an expression of a type. -/
def evalSizeof (p : Program) (sizeofPointer : Nat) (type : ParsedType) (nested : Nat) (tags : Tags) :
    Outcome Nat :=
  match p.typeInfo type with
  | none => none
  | some info =>
    match if info.category = .array then p.run nested (sizeFromParsedType p info.original) tags
        else some (none, tags) with
    | none => none
    | some (some size, tags') => some (some size, tags')
    | some (none, tags') =>
      if isIncompleteRecord tags info then some (none, tags')
      else p.run nested (sizeFromTypeInfo sizeofPointer info) tags'

/-- The last part of `evalAlignof`, for an expression of a type. -/
def evalAlignof (p : Program) (type : ParsedType) (nested : Nat) (tags : Tags) : Outcome Nat :=
  match p.typeInfo type with
  | none => none
  | some info =>
    if isIncompleteRecord tags info then some (none, tags)
    else p.run nested (alignFromTypeInfo p.target info) tags

def Gives (call : Nat → Tags → Outcome α) (tags : Tags) (v : α) : Prop :=
  ∃ nested tags', call nested tags = some (some v, tags')

abbrev Program.Gives (p : Program) (tags : Tags) (program : Layouts α) (v : α) : Prop :=
  Records.Gives (fun nested => p.run nested program) tags v

/-- The sizes of a type name and of an expression of the type are the same, or both have none. -/
def SizesAgree (p : Program) (sizeofPointer : Nat) (tags : Tags) (type : ParsedType) : Prop :=
  ∀ size, Gives (evalSizeof p sizeofPointer type) tags size ↔ p.Gives tags (sizeFromParsedType p type) size

def AlignsAgree (p : Program) (tags : Tags) (type : ParsedType) : Prop :=
  ∀ align, Gives (evalAlignof p type) tags align ↔ p.Gives tags (alignFromParsedType p type) align

def ParsedType.isDirectArray (type : ParsedType) : Bool :=
  match type.derivations with
  | .array _ _ _ => true
  | _ => false

-- Values

@[simp] theorem gives_ret (p : Program) (tags : Tags) (c : Option α) (v : α) :
    p.Gives tags (.ret c : Layouts α) v ↔ c = some v := by
  constructor
  · rintro ⟨nested, tags', hrun⟩
    exact (Prod.mk.inj (Option.some.inj hrun)).1
  · rintro rfl
    exact ⟨0, tags, rfl⟩

@[simp] theorem gives_fail (p : Program) (tags : Tags) (v : α) : ¬ p.Gives tags (fail : Layouts α) v := by
  nofun

@[simp] theorem gives_map (p : Program) (tags : Tags) (program : Layouts α) (f : α → β) (v : β) :
    p.Gives tags (program.andThen fun c => .ret (some (f c))) v ↔ ∃ c, p.Gives tags program c ∧ f c = v := by
  constructor
  · rintro ⟨nested, tags', hrun⟩
    rcases (Calls.attempt_andThen program _).mp hrun with ⟨-, hnone⟩ | ⟨c, tags₁, hc, hrest⟩
    · cases hnone
    · obtain ⟨hv, rfl⟩ := Prod.mk.inj (Option.some.inj hrest)
      exact ⟨c, ⟨nested, tags₁, hc⟩, Option.some.inj hv⟩
  · rintro ⟨c, ⟨nested, tags', hc⟩, rfl⟩
    exact ⟨nested, tags', (Calls.attempt_andThen program _).mpr (.inr ⟨c, tags', hc, rfl⟩)⟩

def LaysOut (p : Program) (tags : Tags) (key : TagKey) (l : Nat × Nat) : Prop :=
  ∃ nested tags', layoutStructUnion p nested key tags = some (some l, tags')

theorem gives_record (p : Program) (tags : Tags) (ref : RecordRef) (f : Nat × Nat → α) (v : α) :
    p.Gives tags (.call (.record ref) fun l => .ret (some (f l))) v ↔
      ∃ l, LaysOut p (enterInline p ref tags) ref.key l ∧ f l = v := by
  constructor
  · rintro ⟨nested, tags', hrun⟩
    simp only [Program.run, Calls.attempt, answerQuery] at hrun
    split at hrun
    · cases hrun
    · cases hrun
    rename_i l tags₁ hl
    obtain ⟨hv, rfl⟩ := Prod.mk.inj (Option.some.inj hrun)
    exact ⟨l, ⟨nested, tags₁, hl⟩, Option.some.inj hv⟩
  · rintro ⟨l, ⟨nested, tags', hl⟩, rfl⟩
    refine ⟨nested, tags', ?_⟩
    simp only [Program.run, Calls.attempt, answerQuery, hl]

theorem enterInline_defined (h : ccTagIsDefined tags ref.key = true) (p : Program) :
    enterInline p ref tags = tags := by
  rw [enterInline, if_pos h]

theorem enterInline_none (p : Program) (key : TagKey) (tags : Tags) :
    enterInline p ⟨key, none⟩ tags = tags := by
  unfold enterInline
  split <;> rfl

theorem not_laysOut (hwf : WellFormed tags) (h : ccTagIsDefined tags key = false) (p : Program)
    (l : Nat × Nat) :
    ¬ LaysOut p tags key l := by
  have hnone : ccGetTagLayout tags key = none ∧ ccTagDefinition tags key = none := by
    cases hrecord : tags key with
    | none => simp [ccGetTagLayout, ccTagDefinition, hrecord]
    | some record =>
      have hundefined : record.isDefined = false := by simpa [ccTagIsDefined, hrecord] using h
      obtain ⟨hdefinition, hlayout, -⟩ := hwf key record hrecord hundefined
      simp [ccGetTagLayout, ccTagDefinition, hrecord, hdefinition, hlayout]
  rintro ⟨nested, tags', hrun⟩
  cases nested with
  | zero => cases hrun
  | succ nested => ?_
  have hdefinition : definitionOf p tags key = none := by rw [definitionOf, hnone.2]; rfl
  generalize hr : some l = r at hrun
  cases layoutStructUnion_called hrun with
  | cached layout hcached =>
    rw [hnone.1] at hcached
    cases hcached
  | computing _ _ | undefined _ _ _ | failed _ _ _ _ _ _ => cases hr
  | laid d _ _ _ _ hdef _ =>
    rw [hdefinition] at hdef
    cases hdef

-- Types of arrays

theorem typeInfo_directArray (harray : type.isDirectArray = true)
    (hinfo : p.typeInfo type = some info) : info.category = .array ∧ info.original = type := by
  obtain ⟨head, derivations⟩ := type
  cases derivations with
  | array arrayInfo sizeExpr rest =>
    obtain ⟨element, -, rfl⟩ := Option.map_eq_some_iff.mp hinfo
    exact ⟨rfl, rfl⟩
  | nil | pointer | function => cases harray

theorem typeInfoFromBaseKind_unresolved (tl : TargetTable) (hhead : type.head = type'.head)
    (h : typeInfoFromBaseKind tl typedefs resolve type = none) :
    typeInfoFromBaseKind tl typedefs resolve type' = none := by
  obtain ⟨name, resolved, ⟨hkind, hname, hbuiltin, hresolved⟩, hnone⟩ := typeInfoFromBaseKind_none tl h
  rw [hhead] at hkind hname
  simp [typeInfoFromBaseKind, hkind, hname, hbuiltin, hresolved, hnone]

theorem typeInfoFromDerivations_unresolved (hbase : base = none → base' = none)
    (h : typeInfoFromDerivations base type derivations = none) :
    typeInfoFromDerivations base' type' derivations = none := by
  induction derivations using Derivations.steps with
  | nil => rw [typeInfoFromDerivations, hbase (Option.map_eq_none_iff.mp h)]; rfl
  | pointer rest ih | array _ _ rest ih =>
    rw [typeInfoFromDerivations, ih (Option.map_eq_none_iff.mp h)]; rfl
  | function rest => cases h

theorem typeInfo_element (h : p.typeInfo ⟨head, .array info sizeExpr rest⟩ = none) :
    p.typeInfo ⟨head, rest⟩ = none := by
  have hrest : typeInfoFromDerivations
      (typeInfoFromBaseKind p.target p.typedefs (typeInfoFromParsedType p.target p.typedefs p.typedefs.length)
        ⟨head, .array info sizeExpr rest⟩) ⟨head, .array info sizeExpr rest⟩ rest = none :=
    Option.map_eq_none_iff.mp h
  let resolve := typeInfoFromParsedType p.target p.typedefs p.typedefs.length
  have hbase : typeInfoFromBaseKind p.target p.typedefs resolve ⟨head, .array info sizeExpr rest⟩ = none →
      typeInfoFromBaseKind p.target p.typedefs resolve ⟨head, rest⟩ = none :=
    typeInfoFromBaseKind_unresolved p.target rfl
  have hsame : typeInfoFromDerivations (typeInfoFromBaseKind p.target p.typedefs resolve ⟨head, rest⟩)
      ⟨head, rest⟩ rest = none := typeInfoFromDerivations_unresolved hbase hrest
  cases rest with
  | nil => ?_
  | pointer | array | function => exact hsame
  have hnone : typeInfoFromBaseKind p.target p.typedefs
      (typeInfoFromParsedType p.target p.typedefs p.typedefs.length) ⟨head, .nil⟩ = none :=
    Option.map_eq_none_iff.mp hsame
  simp only [Program.typeInfo, typeInfoFromParsedType, hnone, Option.map_none]
  split <;> rfl

theorem not_gives_unresolved (derivations : Derivations) (h : p.typeInfo ⟨head, derivations⟩ = none)
    (tags : Tags) (l : Nat × Nat) : ¬ p.Gives tags (p.sizeAlign head derivations) l := by
  have hother : ∀ type, p.typeInfo type = none → ∀ tags l, ¬ p.Gives tags (p.sizeAlignOfOther type) l := by
    rintro type hnone tags l ⟨nested, tags', hrun⟩
    rw [Program.sizeAlignOfOther, Program.declaredInfo, hnone] at hrun
    cases hrun
  induction derivations using Derivations.steps generalizing tags l with
  | nil | pointer rest | function rest => exact hother _ h tags l
  | array info sizeExpr rest ih =>
    rintro ⟨nested, tags', hrun⟩
    rw [Program.sizeAlign] at hrun
    split at hrun
    · cases hrun
    rcases (Calls.attempt_andThen _ _).mp hrun with ⟨-, hnone⟩ | ⟨length, tags₁, -, hrun⟩
    · cases hnone
    · split at hrun
      · cases hrun
      · rcases (Calls.attempt_andThen _ _).mp hrun with ⟨-, hnone⟩ | ⟨element, tags₂, helement, -⟩
        · cases hnone
        · exact ih (typeInfo_element h) tags₁ element ⟨nested, tags₂, helement⟩

-- Where the routes meet

theorem run_deep (h : p.run bound program tags = some r)
    (hnested : bound ≤ nested) : p.run nested program tags = some r := by
  refine Calls.attempt_mono (fun q s r hq => ?_) program h
  cases q with
  | endless => cases hq
  | record ref => exact layoutStructUnion_deep hq hnested

theorem gives_unique (h : p.Gives tags program v)
    (h' : p.Gives tags program v') : v = v' := by
  obtain ⟨nested, tags₁, hrun⟩ := h
  obtain ⟨nested', tags₂, hrun'⟩ := h'
  have hmax := run_deep hrun (Nat.le_max_left nested nested')
  rw [run_deep hrun' (Nat.le_max_right nested nested')] at hmax
  exact (Option.some.inj (Prod.mk.inj (Option.some.inj hmax)).1).symm

/-- Two parts of a value that both routes have where `D` holds. -/
theorem routes_iff {own : α → Prop} (hunique : ∀ l l', own l → own l' → l = l') (D : Prop) (f g : α → β) :
    (∀ v, (D ∧ ∃ l, own l ∧ g l = v) ↔ ∃ l, own l ∧ f l = v) ↔
      (∀ l, own l → f l = g l) ∧ (D ∨ ∀ l, ¬ own l) := by
  constructor
  · intro hagree
    have hboth : ∀ l, own l → D ∧ f l = g l := by
      intro l hl
      obtain ⟨hD, l', hl', hv⟩ := (hagree (f l)).mpr ⟨l, hl, rfl⟩
      obtain rfl := hunique l l' hl hl'
      exact ⟨hD, hv.symm⟩
    refine ⟨fun l hl => (hboth l hl).2, ?_⟩
    by_cases hown : ∃ l, own l
    · obtain ⟨l, hl⟩ := hown
      exact .inl (hboth l hl).1
    · exact .inr fun l hl => hown ⟨l, hl⟩
  · rintro ⟨hsame, hD⟩ v
    constructor
    · rintro ⟨-, l, hl, rfl⟩
      exact ⟨l, hl, hsame l hl⟩
    · rintro ⟨l, hl, rfl⟩
      exact ⟨hD.resolve_right fun hnone => hnone l hl, l, hl, (hsame l hl).symm⟩

variable {p : Program} {type : ParsedType} {tags : Tags} {info : DeclaredInfo}

def TagEntered (p : Program) (tags : Tags) (type : ParsedType) : Prop :=
  ∀ key, p.recordOf type = some key → ccTagIsDefined tags key = true

/-- The layout that `size_align_of_typeinfo` gives. -/
abbrev Own (p : Program) (tags : Tags) (info : DeclaredInfo) (l : Nat × Nat) : Prop :=
  p.Gives tags (sizeAlignOfTypeInfo p.target info) l

theorem gives_parsedType (hinfo : p.typeInfo type = some info) (hother : type.isDirectArray = false)
    (l : Nat × Nat) :
    p.Gives tags (p.sizeAlignOfParsedType type) l ↔ ∃ own, Own p tags info own ∧ type.head.adjust own = l := by
  have hsame : p.sizeAlignOfParsedType type =
      (sizeAlignOfTypeInfo p.target info).andThen fun layout => .ret (some (type.head.adjust layout)) := by
    have hplain : p.sizeAlignOfOther type =
        (sizeAlignOfTypeInfo p.target info).andThen fun layout => .ret (some (type.head.adjust layout)) := by
      rw [Program.sizeAlignOfOther, Program.declaredInfo, hinfo, Calls.ret_andThen]
    rw [← hplain]
    obtain ⟨head, derivations⟩ := type
    cases derivations with
    | array => cases hother
    | nil | pointer | function => rfl
  rw [hsame, gives_map]

theorem gives_through (hinfo : p.typeInfo type = some info) (hother : type.isDirectArray = false)
    (f : Nat × Nat → β) (v : β) :
    p.Gives tags ((p.sizeAlignOfParsedType type).andThen fun layout => .ret (some (f layout))) v ↔
      ∃ l, Own p tags info l ∧ f (type.head.adjust l) = v := by
  rw [gives_map]
  constructor
  · rintro ⟨l, hl, rfl⟩
    obtain ⟨own, hown, rfl⟩ := (gives_parsedType hinfo hother l).mp hl
    exact ⟨own, hown, rfl⟩
  · rintro ⟨own, hown, rfl⟩
    exact ⟨type.head.adjust own, (gives_parsedType hinfo hother _).mpr ⟨own, hown, rfl⟩, rfl⟩

theorem gives_layoutOfTag (p : Program) (tags : Tags) (kind : TagKind) (l : Nat × Nat)
    (hname : info.userTypeName = some name) :
    p.Gives tags (layoutOfTag kind info) l ↔
      LaysOut p (enterInline p ⟨⟨kind, name⟩, info.original.head.inlineStructOrUnionDef⟩ tags) ⟨kind, name⟩
        l := by
  have hcall := gives_record p tags ⟨⟨kind, name⟩, info.original.head.inlineStructOrUnionDef⟩
      (id : Nat × Nat → _) l
  simp only [id, exists_eq_right] at hcall
  rw [layoutOfTag, hname]
  exact hcall

theorem gives_layoutOfName (p : Program) (tags : Tags) (kind : TagKind) (part : Nat × Nat → Nat) (v : Nat)
    (hname : info.userTypeName = some name) :
    p.Gives tags (layoutOfName kind info part) v ↔ ∃ l, LaysOut p tags ⟨kind, name⟩ l ∧ part l = v := by
  rw [layoutOfName, hname]
  have hcall := gives_record p tags ⟨⟨kind, name⟩, none⟩ part v
  rwa [enterInline_none] at hcall

theorem record_routes (hwf : WellFormed tags) (kind : TagKind) (part : Nat × Nat → Nat) (v : Nat) :
    (isComplete tags kind info = true ∧ p.Gives tags (layoutOfName kind info part) v) ↔
      (∀ name, info.userTypeName = some name → ccTagIsDefined tags ⟨kind, name⟩ = true) ∧
        ∃ l, p.Gives tags (layoutOfTag kind info) l ∧ part l = v := by
  cases hname : info.userTypeName with
  | none =>
    have htag : layoutOfTag kind info = fail := by rw [layoutOfTag, hname]
    have hnamed : layoutOfName kind info part = fail := by rw [layoutOfName, hname]
    simp [htag, hnamed]
  | some name => ?_
  simp only [gives_layoutOfName p tags kind part v hname, gives_layoutOfTag p tags kind _ hname,
    Option.some.injEq, forall_eq']
  cases hdefined : ccTagIsDefined tags ⟨kind, name⟩ with
  | true =>
    have hcomplete : isComplete tags kind info = true := by simp [isComplete, hname, hdefined]
    rw [enterInline_defined hdefined]
    simp [hcomplete]
  | false => ?_
  constructor
  · rintro ⟨-, l, hl, -⟩
    exact absurd hl (not_laysOut hwf hdefined p l)
  · rintro ⟨hfalse, -⟩
    cases hfalse

-- Expressions

theorem gives_if (incomplete : Bool) (program : Layouts α) (v : α) :
    Gives (fun nested tags => if incomplete then some (none, tags) else p.run nested program tags) tags v ↔
      incomplete = false ∧ p.Gives tags program v := by
  cases incomplete with
  | true =>
    simp only [if_true, Bool.true_eq_false, false_and, iff_false]
    rintro ⟨nested, tags', hrun⟩
    cases hrun
  | false => simp only [Bool.false_eq_true, if_false, true_and]

theorem gives_evalSizeof (hinfo : p.typeInfo type = some info) (hcategory : info.category ≠ .array)
    (sizeofPointer v : Nat) :
    Gives (evalSizeof p sizeofPointer type) tags v ↔
      isIncompleteRecord tags info = false ∧ p.Gives tags (sizeFromTypeInfo sizeofPointer info) v := by
  rw [← gives_if]
  simp only [Gives, evalSizeof, hinfo, if_neg hcategory]

theorem gives_evalSizeof_array (hinfo : p.typeInfo type = some info) (hcategory : info.category = .array)
    (sizeofPointer v : Nat) :
    Gives (evalSizeof p sizeofPointer type) tags v ↔ p.Gives tags (sizeFromParsedType p info.original) v := by
  have hincomplete : isIncompleteRecord tags info = false := by simp [isIncompleteRecord, hcategory]
  have hfail : sizeFromTypeInfo sizeofPointer info = fail := by simp [sizeFromTypeInfo, hcategory]
  simp only [Gives, evalSizeof, hinfo, if_pos hcategory, hincomplete, hfail, Bool.false_eq_true, if_false]
  constructor
  · rintro ⟨nested, tags', hrun⟩
    split at hrun
    · cases hrun
    · rename_i size tags₁ hsize
      obtain ⟨hv, rfl⟩ := Prod.mk.inj (Option.some.inj hrun)
      exact ⟨nested, tags₁, by rw [hsize, hv]⟩
    · cases hrun
  · rintro ⟨nested, tags', hrun⟩
    exact ⟨nested, tags', by rw [hrun]⟩

theorem gives_evalAlignof (hinfo : p.typeInfo type = some info) (v : Nat) :
    Gives (evalAlignof p type) tags v ↔
      isIncompleteRecord tags info = false ∧ p.Gives tags (alignFromTypeInfo p.target info) v := by
  rw [← gives_if]
  simp only [Gives, evalAlignof, hinfo]

theorem tagEntered_record (hrecord : p.recordOf type = info.userTypeName.map (⟨kind, ·⟩)) :
    TagEntered p tags type ↔
      ∀ name, info.userTypeName = some name → ccTagIsDefined tags ⟨kind, name⟩ = true := by
  rw [TagEntered, hrecord]
  cases info.userTypeName <;> simp

theorem tagEntered_other (hrecord : p.recordOf type = none) : TagEntered p tags type := by
  intro key hkey
  rw [hrecord] at hkey
  cases hkey

theorem TypeInfo.bits_pos (info : TypeInfo) : (TypeInfo.bits info + 7) / 8 ≠ 0 := by
  unfold TypeInfo.bits
  split <;> omega

/-- The size of an expression: that of the type's own layout, but for the pointers of the host. -/
theorem sizeof_route (hwf : WellFormed tags) (hinfo : p.typeInfo type = some info)
    (hcategory : info.category ≠ .array) (sizeofPointer v : Nat) :
    Gives (evalSizeof p sizeofPointer type) tags v ↔ TagEntered p tags type ∧
      ∃ l, Own p tags info l ∧ (if info.category = .pointer then sizeofPointer else l.1) = v := by
  rw [gives_evalSizeof hinfo hcategory]
  have hrecord := recordOf_eq hinfo
  have hbits := TypeInfo.bits_pos info.toTypeInfo
  have hsame : ∀ {kind}, p.recordOf type = info.userTypeName.map (⟨kind, ·⟩) →
      ((isComplete tags kind info = true ∧ p.Gives tags (layoutOfName kind info (·.1)) v) ↔
        TagEntered p tags type ∧ ∃ l, p.Gives tags (layoutOfTag kind info) l ∧ l.1 = v) := by
    intro kind hkey
    rw [record_routes hwf kind (·.1) v, tagEntered_record hkey]
  cases hcat : info.category with
  | integer | enum =>
    simp only [hcat] at hrecord
    simp only [isIncompleteRecord, sizeFromTypeInfo, Own, sizeAlignOfTypeInfo, sizeAlignFromBits, hcat,
      gives_ret]
    simp [tagEntered_other hrecord]
  | float =>
    simp only [hcat] at hrecord
    simp only [isIncompleteRecord, sizeFromTypeInfo, Own, sizeAlignOfTypeInfo, sizeAlignFromBits, hcat,
      gives_ret,
      if_neg hbits]
    simp [tagEntered_other hrecord]
  | pointer =>
    simp only [hcat] at hrecord
    simp only [isIncompleteRecord, sizeFromTypeInfo, Own, sizeAlignOfTypeInfo, hcat, gives_ret]
    simp [tagEntered_other hrecord]
  | struct | union =>
    simp only [hcat] at hrecord
    simpa [isIncompleteRecord, sizeFromTypeInfo, Own, sizeAlignOfTypeInfo, hcat] using hsame hrecord
  | array => exact absurd hcat hcategory
  | invalid | function | void =>
    simp only [sizeFromTypeInfo, Own, sizeAlignOfTypeInfo, hcat]
    simp

theorem float_align (htarget : tl ∈ targetTables) (hbits : bits ∈ [32, 64, tl.longDoubleBits]) :
    (if tl.longDoubleBits ≤ bits then tl.longDoubleAlign
      else if tl.doubleBits ≤ bits then tl.doubleAlign else tl.floatAlign) =
      (floatLayout tl bits false).2 ∧ bits ≠ 0 := by
  have hall : ∀ tl ∈ targetTables, ∀ bits ∈ [32, 64, tl.longDoubleBits],
      (if tl.longDoubleBits ≤ bits then tl.longDoubleAlign
        else if tl.doubleBits ≤ bits then tl.doubleAlign else tl.floatAlign) =
        (floatLayout tl bits false).2 ∧ bits ≠ 0 := by
    decide
  exact hall tl htarget bits hbits

/-- The alignment of an expression: that of the type's own layout. -/
theorem alignof_route (htarget : p.target ∈ targetTables) (hwf : WellFormed tags)
    (hinfo : p.typeInfo type = some info) (v : Nat) :
    Gives (evalAlignof p type) tags v ↔ TagEntered p tags type ∧ ∃ l, Own p tags info l ∧ l.2 = v := by
  rw [gives_evalAlignof hinfo]
  have hrecord := recordOf_eq hinfo
  have hwidth := typeInfoFromParsedType_width hinfo
  have hsame : ∀ {kind}, p.recordOf type = info.userTypeName.map (⟨kind, ·⟩) →
      ((isComplete tags kind info = true ∧ p.Gives tags (layoutOfName kind info (·.2)) v) ↔
        TagEntered p tags type ∧ ∃ l, p.Gives tags (layoutOfTag kind info) l ∧ l.2 = v) := by
    intro kind hkey
    rw [record_routes hwf kind (·.2) v, tagEntered_record hkey]
  cases hcat : info.category with
  | integer | enum =>
    simp only [hcat] at hrecord
    simp only [isIncompleteRecord, alignFromTypeInfo, Own, sizeAlignOfTypeInfo, sizeAlignFromBits, hcat,
      gives_ret]
    simp [tagEntered_other hrecord]
  | float =>
    simp only [hcat, WidthKnown] at hrecord hwidth
    obtain ⟨halign, hzero⟩ := float_align htarget hwidth
    have hbits : TypeInfo.bits info.toTypeInfo = info.bitWidth := if_neg hzero
    have hown : ∀ l, Own p tags info l ↔ floatLayout p.target info.bitWidth info.isComplex = l := by
      intro l
      simp only [Own, sizeAlignOfTypeInfo, hcat, gives_ret]
      exact Option.some_inj
    have hpart : (floatLayout p.target info.bitWidth info.isComplex).2 =
        (floatLayout p.target info.bitWidth false).2 := rfl
    simp only [isIncompleteRecord, alignFromTypeInfo, hcat, hbits, halign, gives_ret, hown, Option.some.injEq,
      exists_eq_left', hpart]
    simp [tagEntered_other hrecord]
  | pointer =>
    simp only [hcat] at hrecord
    simp only [isIncompleteRecord, alignFromTypeInfo, Own, sizeAlignOfTypeInfo, hcat, gives_ret]
    simp [tagEntered_other hrecord]
  | struct | union =>
    simp only [hcat] at hrecord
    simpa [isIncompleteRecord, alignFromTypeInfo, Own, sizeAlignOfTypeInfo, hcat] using hsame hrecord
  | invalid | array | function | void =>
    simp only [alignFromTypeInfo, Own, sizeAlignOfTypeInfo, hcat]
    simp

-- Agreement

/-- The record that a type is has been entered, or it has no layout with its inline definition. -/
def RecordSettled (p : Program) (tags : Tags) (type : ParsedType) (info : DeclaredInfo) : Prop :=
  TagEntered p tags type ∨ ∀ l, ¬ Own p tags info l

/-- Pointers have the host's size, a typedef name of an array stands for one without a size. -/
def SizeRoutesMeet (p : Program) (sizeofPointer : Nat) (tags : Tags) (type : ParsedType) : Prop :=
  ∀ info, p.typeInfo type = some info →
    (info.category = .pointer → p.target.pointerBits / 8 = sizeofPointer) ∧
    (type.isDirectArray = false → info.category = .array →
      ∀ size, ¬ p.Gives tags (sizeFromParsedType p info.original) size) ∧
    RecordSettled p tags type info

/-- The attributes of a declaration keep the alignment of its type: none is larger, and a packed one
brings it down to itself. -/
def Head.KeepsAlign (head : Head) (align : Nat) : Prop :=
  if head.layoutAttributes.1 then align = max 1 head.layoutAttributes.2 else head.layoutAttributes.2 ≤ align

/-- An array has no size, and the attributes of a declaration keep the alignment of its type. -/
def AlignRoutesMeet (p : Program) (tags : Tags) (type : ParsedType) : Prop :=
  ∀ info, p.typeInfo type = some info →
    (type.isDirectArray = true → ∀ layout, ¬ p.Gives tags (p.sizeAlignOfParsedType type) layout) ∧
    (type.isDirectArray = false → ∀ layout, Own p tags info layout → type.head.KeepsAlign layout.2) ∧
    RecordSettled p tags type info

theorem adjust_align (head : Head) (layout : Nat × Nat) :
    (head.adjust layout).2 = layout.2 ↔ head.KeepsAlign layout.2 := by
  simp only [Head.adjust, Head.KeepsAlign]
  cases head.layoutAttributes.1 with
  | true => simp only [if_true]; omega
  | false => simp only [Bool.false_eq_true, if_false]; omega

theorem own_unique (l l' : Nat × Nat) (h : Own p tags info l) (h' : Own p tags info l') : l = l' :=
  gives_unique h h'

theorem notArray_of_category (hinfo : p.typeInfo type = some info) (hcategory : info.category ≠ .array) :
    type.isDirectArray = false := by
  cases harray : type.isDirectArray with
  | false => rfl
  | true => exact absurd (typeInfo_directArray harray hinfo).1 hcategory

theorem recordSettled_array (hinfo : p.typeInfo type = some info) (hcategory : info.category = .array) :
    RecordSettled p tags type info := by
  have hrecord := recordOf_eq hinfo
  simp only [hcategory] at hrecord
  exact .inl (tagEntered_other hrecord)

theorem sizes_agree_iff (hwf : WellFormed tags) (sizeofPointer : Nat) (type : ParsedType) :
    SizesAgree p sizeofPointer tags type ↔ SizeRoutesMeet p sizeofPointer tags type := by
  cases hinfo : p.typeInfo type with
  | none =>
    have hnone : ∀ size, ¬ p.Gives tags (sizeFromParsedType p type) size := by
      intro size hgives
      obtain ⟨l, hl, -⟩ := (gives_map p tags _ _ _).mp hgives
      exact not_gives_unresolved type.derivations hinfo tags l hl
    refine iff_of_true (fun size => iff_of_false ?_ (hnone size)) (fun info hsome => ?_)
    · rintro ⟨nested, tags', hrun⟩
      simp only [evalSizeof, hinfo] at hrun
      cases hrun
    · rw [hinfo] at hsome
      cases hsome
  | some info =>
    have hmeet : SizeRoutesMeet p sizeofPointer tags type ↔
        (info.category = .pointer → p.target.pointerBits / 8 = sizeofPointer) ∧
        (type.isDirectArray = false → info.category = .array →
          ∀ size, ¬ p.Gives tags (sizeFromParsedType p info.original) size) ∧
        RecordSettled p tags type info := by
      simp only [SizeRoutesMeet, hinfo, Option.some.injEq, forall_eq']
    rw [hmeet]
    by_cases hcategory : info.category = .array
    · simp only [SizesAgree, gives_evalSizeof_array hinfo hcategory, recordSettled_array hinfo hcategory,
        and_true]
      cases harray : type.isDirectArray with
      | true =>
        rw [(typeInfo_directArray harray hinfo).2]
        simp [hcategory]
      | false => ?_
      have hown : ∀ l, ¬ Own p tags info l := by simp [Own, sizeAlignOfTypeInfo, hcategory]
      have hnone : ∀ size, ¬ p.Gives tags (sizeFromParsedType p type) size := by
        intro size hgives
        obtain ⟨l, hl, -⟩ := (gives_map p tags _ _ _).mp hgives
        obtain ⟨own, hgivesOwn, -⟩ := (gives_parsedType hinfo harray l).mp hl
        exact hown own hgivesOwn
      simp [hnone, hcategory]
    · have harray := notArray_of_category hinfo hcategory
      have hname : ∀ size, p.Gives tags (sizeFromParsedType p type) size ↔
          ∃ l, Own p tags info l ∧ l.1 = size :=
        gives_through hinfo harray (·.1)
      simp only [SizesAgree, sizeof_route hwf hinfo hcategory, hname]
      rw [routes_iff own_unique (TagEntered p tags type) (·.1)]
      refine and_congr ?_ (by simp [hcategory, RecordSettled])
      by_cases hpointer : info.category = .pointer
      · simp [Own, sizeAlignOfTypeInfo, hpointer]
      · simp [hpointer]

theorem aligns_agree_iff (htarget : p.target ∈ targetTables) (hwf : WellFormed tags) (type : ParsedType) :
    AlignsAgree p tags type ↔ AlignRoutesMeet p tags type := by
  cases hinfo : p.typeInfo type with
  | none =>
    have hnone : ∀ align, ¬ p.Gives tags (alignFromParsedType p type) align := by
      intro align hgives
      obtain ⟨l, hl, -⟩ := (gives_map p tags _ _ _).mp hgives
      exact not_gives_unresolved type.derivations hinfo tags l hl
    refine iff_of_true (fun align => iff_of_false ?_ (hnone align)) (fun info hsome => ?_)
    · rintro ⟨nested, tags', hrun⟩
      simp only [evalAlignof, hinfo] at hrun
      cases hrun
    · rw [hinfo] at hsome
      cases hsome
  | some info =>
    have hmeet : AlignRoutesMeet p tags type ↔
        (type.isDirectArray = true → ∀ layout, ¬ p.Gives tags (p.sizeAlignOfParsedType type) layout) ∧
        (type.isDirectArray = false → ∀ layout, Own p tags info layout → type.head.KeepsAlign layout.2) ∧
        RecordSettled p tags type info := by
      simp only [AlignRoutesMeet, hinfo, Option.some.injEq, forall_eq']
    rw [hmeet]
    simp only [AlignsAgree, alignof_route htarget hwf hinfo]
    cases harray : type.isDirectArray with
    | true =>
      have hcategory := (typeInfo_directArray harray hinfo).1
      have hown : ∀ l, ¬ Own p tags info l := by simp [Own, sizeAlignOfTypeInfo, hcategory]
      simp only [alignFromParsedType, gives_map, hown, false_and, exists_false, and_false, false_iff,
        recordSettled_array hinfo hcategory, and_true, true_implies, Bool.true_eq_false, false_implies]
      constructor
      · intro hnone layout hl
        exact hnone layout.2 ⟨layout, hl, rfl⟩
      · rintro hnone align ⟨layout, hl, -⟩
        exact hnone layout hl
    | false =>
      have hname : ∀ align, p.Gives tags (alignFromParsedType p type) align ↔
          ∃ l, Own p tags info l ∧ (type.head.adjust l).2 = align :=
        gives_through hinfo harray (·.2)
      simp only [hname]
      rw [routes_iff own_unique (TagEntered p tags type) (fun l => (type.head.adjust l).2)]
      simp only [adjust_align, Bool.false_eq_true, false_implies, true_implies, true_and, RecordSettled]

/-- In every table of a compilation the two routes to a size, and the two to an alignment, agree
just where they meet. -/
theorem routes_agree_iff (htarget : p.target ∈ targetTables) (hreached : Reached p.target p.definitions tags)
    (sizeofPointer : Nat) (type : ParsedType) :
    (SizesAgree p sizeofPointer tags type ↔ SizeRoutesMeet p sizeofPointer tags type) ∧
      (AlignsAgree p tags type ↔ AlignRoutesMeet p tags type) :=
  ⟨sizes_agree_iff hreached.clean.1 sizeofPointer type, aligns_agree_iff htarget hreached.clean.1 type⟩

theorem routes_agree_struct :
    SizesAgree intUnit 8 definedS ⟨plainHead .struct (some "S"), .nil⟩ ∧
      AlignsAgree intUnit definedS ⟨plainHead .struct (some "S"), .nil⟩ := by
  have hunit : intUnit.target ∈ targetTables := by decide
  have hagree := routes_agree_iff hunit (unitOf_reached _ _) 8 ⟨plainHead .struct (some "S"), .nil⟩
  have hsettled : TagEntered intUnit definedS ⟨plainHead .struct (some "S"), .nil⟩ := by
    rintro key hkey
    cases hkey
    rfl
  constructor
  · refine hagree.1.mpr fun info hinfo => ⟨?_, ?_, .inl hsettled⟩
    all_goals cases hinfo
    · rintro ⟨⟩
    · rintro - ⟨⟩
  · refine hagree.2.mpr fun info hinfo => ⟨?_, fun _ layout _ => Nat.zero_le _, .inl hsettled⟩
    rintro ⟨⟩

/-- `typedef int T[3];` -/
def arrayTypedefUnit : Program := unitOf [("T", ⟨intHead, arrayOf 3 .nil⟩)] (plainField ⟨intHead, .nil⟩ none)

/-- An expression of type `int[3]` has no alignment, the type name has one of 4; an expression of
type `T` has a size of 12, the type name `T` has none. -/
theorem arrays_disagree :
    ¬ AlignsAgree intUnit definedS ⟨intHead, arrayOf 3 .nil⟩ ∧
      ¬ SizesAgree arrayTypedefUnit 8 definedS ⟨plainHead .named (some "T"), .nil⟩ := by
  constructor
  · intro h
    obtain ⟨nested, tags', hrun⟩ := (h 4).mpr ⟨0, _, rfl⟩
    cases hrun
  · intro h
    obtain ⟨nested, tags', hrun⟩ := (h 12).mp ⟨0, _, rfl⟩
    cases hrun

end Fisics.Records
