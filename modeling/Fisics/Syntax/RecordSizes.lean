import Fisics.Syntax.RecordTermination

/-!
# Sizes and alignments

The size of a type is a multiple of its alignment, and that of an array the count times
the size of an element, as long as nothing wraps around. The 80-bit `long double` has 10
bytes and an alignment of 16.
-/

namespace Fisics.Records

open MemoCall (Calls)
open Option (bind_eq_some_iff bind_some map_eq_some_iff)
open MemoCall.Calls (result_andThen result_ret)

-- Scalars

def WidthKnown (tl : TargetTable) (info : TypeInfo) : Prop :=
  match info.category with
  | .integer => info.bitWidth ∈ [1, 8, 16, 32, 64, 128]
  | .enum => info.bitWidth = 32
  | .float => info.bitWidth ∈ [32, 64, tl.longDoubleBits]
  | _ => True

theorem primitiveInfo_width (tl : TargetTable) (head : Head) (type : Primitive) :
    WidthKnown tl (primitiveInfo tl head type) := by
  cases type with
  | bool | complex | imaginary | char | short | long | float | void | other =>
    simp [WidthKnown, primitiveInfo, makeBoolType, makeIntegerType, makeFloatTypeInfo, baseInfo]
  | int | signed | unsigned =>
    simp only [WidthKnown, primitiveInfo, makeIntegerType]
    split
    · simp
    · split <;> simp
  | double =>
    simp only [WidthKnown, primitiveInfo, makeFloatTypeInfo]
    split <;> simp_all

theorem typeInfoFromDerivations_width (hbase : ∀ info, base = some info → WidthKnown tl info.toTypeInfo)
    (h : typeInfoFromDerivations base type derivations = some info) : WidthKnown tl info.toTypeInfo := by
  cases derivations with
  | nil =>
    obtain ⟨info', hinfo', rfl⟩ := map_eq_some_iff.mp h
    exact hbase info' hinfo'
  | pointer rest | array _ _ rest =>
    obtain ⟨info', -, rfl⟩ := map_eq_some_iff.mp h
    trivial
  | function rest =>
    cases h
    trivial

theorem typeInfoFromParsedType_width (h : typeInfoFromParsedType tl typedefs names type = some info) :
    WidthKnown tl info.toTypeInfo := by
  induction names generalizing type info with
  | zero => cases h
  | succ names ih =>
    have hbase : ∀ info, typeInfoFromBaseKind tl typedefs (typeInfoFromParsedType tl typedefs names) type =
        some info → WidthKnown tl info.toTypeInfo := by
      intro info hinfo
      unfold typeInfoFromBaseKind at hinfo
      split at hinfo
      · cases hinfo
        exact primitiveInfo_width tl type.head _
      · cases hinfo
        rfl
      iterate 2
        · cases hinfo
          trivial
      · dsimp only at hinfo
        split at hinfo
        · cases hinfo
          simp [WidthKnown, makeIntegerType]
        split at hinfo
        · exact ih hinfo
        cases hinfo
        trivial
      · cases hinfo
        trivial
    rw [typeInfoFromParsedType] at h
    split at h
    · split at h
      · obtain ⟨info', -, rfl⟩ := map_eq_some_iff.mp h
        trivial
      · exact hbase info h
    · exact typeInfoFromDerivations_width hbase h

def Aligned (layout : Nat × Nat) : Prop := 0 < layout.2 ∧ layout.2 ∣ layout.1

instance (layout : Nat × Nat) : Decidable (Aligned layout) := inferInstanceAs (Decidable (_ ∧ _))

theorem integer_aligned (htarget : tl ∈ targetTables) (hbits : bits ∈ [1, 8, 16, 32, 64, 128]) :
    Aligned (sizeAlignFromBits tl bits 0) := by
  have hall : ∀ tl ∈ targetTables, ∀ bits ∈ [1, 8, 16, 32, 64, 128], Aligned (sizeAlignFromBits tl bits 0) := by
    decide
  exact hall tl htarget bits hbits

def floatLayout (tl : TargetTable) (bits : Nat) (isComplex : Bool) : Nat × Nat :=
  let align := if tl.longDoubleBits ≤ bits then tl.longDoubleAlign else 0
  let base := sizeAlignFromBits tl (if bits = 0 then 32 else bits) align
  (if isComplex then base.1 * 2 else base.1, base.2)

theorem floatLayout_aligned (htarget : tl ∈ targetTables) (hbits : bits ∈ [32, 64, tl.longDoubleBits])
    (isComplex : Bool) : 0 < (floatLayout tl bits isComplex).2 ∧
      (Aligned (floatLayout tl bits isComplex) ↔ bits ≠ 80) := by
  have hall : ∀ tl ∈ targetTables, ∀ bits ∈ [32, 64, tl.longDoubleBits], ∀ isComplex,
      0 < (floatLayout tl bits isComplex).2 ∧ (Aligned (floatLayout tl bits isComplex) ↔ bits ≠ 80) := by
    decide
  exact hall tl htarget bits hbits isComplex

theorem pointer_aligned (htarget : tl ∈ targetTables) : Aligned (tl.pointerBits / 8, tl.pointerAlign) := by
  have hall : ∀ tl ∈ targetTables, Aligned (tl.pointerBits / 8, tl.pointerAlign) := by
    decide
  exact hall tl htarget

-- Padding

/-- Rounding up wraps around by a multiple of the alignment, or not at all. -/
def PaddingFits (extent align : Nat) : Prop :=
  align ∣ extent ∨ align ∣ 2 ^ 64 * ((extent + (align - extent % align)) / 2 ^ 64)

theorem dvd_roundUp_iff (extent : Nat) (halign : 0 < align) :
    align ∣ roundUp sizeT extent align ↔ PaddingFits extent align := by
  unfold roundUp PaddingFits
  by_cases hdvd : align ∣ extent
  · rw [if_pos (.inr (Nat.mod_eq_zero_of_dvd hdvd))]
    simp [hdvd]
  have hmod : ¬ (align = 0 ∨ extent % align = 0) := by
    rintro (hzero | hzero)
    · omega
    · exact hdvd (Nat.dvd_of_mod_eq_zero hzero)
  rw [if_neg hmod, or_iff_right hdvd]
  generalize hsum : extent + (align - extent % align) = sum
  have hmultiple : align ∣ sum := by
    have hlt := Nat.mod_lt extent halign
    have hparts := Nat.div_add_mod extent align
    refine ⟨extent / align + 1, ?_⟩
    rw [Nat.mul_add, Nat.mul_one]
    omega
  have hsplit : sum % 2 ^ 64 + 2 ^ 64 * (sum / 2 ^ 64) = sum := Nat.mod_add_div sum (2 ^ 64)
  constructor
  · intro hrem
    rw [← hsplit] at hmultiple
    exact (Nat.dvd_add_right hrem).mp hmultiple
  · intro hwrap
    rw [← hsplit] at hmultiple
    exact (Nat.dvd_add_left hwrap).mp hmultiple

-- Members

theorem packed_stays (attributes : List (List Char)) : (collectAttrLayout attributes true).1 = true := by
  have hfold : ∀ align : Nat, (attributes.foldl (fun (found : Bool × Nat) text =>
      (found.1 || (strstr "packed".toList text).isSome, max found.2 ((alignedValue text).getD 0)))
      (true, align)).1 = true := by
    induction attributes with
    | nil => exact fun _ => rfl
    | cons text attributes ih =>
      intro align
      exact ih _
  exact hfold 0

theorem flush_maxAlign (wrap : Nat → Nat) (s : LayoutState) : (s.flush wrap).maxAlign = s.maxAlign := by
  unfold LayoutState.flush
  split <;> rfl

/-- A member is aligned with the struct, unless it is packed. -/
def Covers (packed : Bool) (s : LayoutState) (align : Nat) (s' : LayoutState) : Prop :=
  s.maxAlign ≤ s'.maxAlign ∧ (packed = false → align ≤ s'.maxAlign)

theorem layoutMember_covers
    (h : layoutMember sizeT env packed override flexible d s = some laid)
    (hlayout : ∀ type, env.sizeAlignOfParsedType type = some layout) :
    Covers packed s layout.2 laid.2 := by
  simp only [layoutMember, hlayout, Option.map_some, Option.some.injEq] at h
  subst h
  simp only [Covers, placeMember, flush_maxAlign, memberAlign]
  refine ⟨Nat.le_max_left _ _, ?_⟩
  rintro rfl
  simp only [Bool.false_or, beq_iff_eq]
  split <;> omega

theorem bitUnit_align (tl : Option TargetLayout) (override size align : Nat) :
    align ≤ (bitUnit sizeT tl false override size align).align := by
  simp only [bitUnit, Bool.false_eq_true, if_false]
  split <;> omega

theorem openUnit_maxAlign (s : LayoutState) (unit : BitUnit) (width : Nat) :
    (openUnit sizeT s unit width).maxAlign = max s.maxAlign unit.align := by
  unfold openUnit
  dsimp only
  split <;> rfl

theorem placeBitfield_maxAlign (endianness : TargetEndianness) (s : LayoutState) (unit : BitUnit)
    (width : Nat) :
    (placeBitfield sizeT endianness s unit width).2.2.maxAlign = max s.maxAlign unit.align := by
  rw [← openUnit_maxAlign s unit width]
  simp only [placeBitfield]
  split <;> rfl

theorem layoutBitfield_covers
    (h : layoutBitfield sizeT env tl packed override d width s = some laid)
    (hlayout : ∀ type, env.sizeAlignOfParsedType type = some layout) :
    Covers packed s layout.2 laid.2 := by
  have hmax : laid.2.maxAlign = max s.maxAlign (bitUnit sizeT tl packed override layout.1 layout.2).align := by
    simp only [layoutBitfield, hlayout, bind_some] at h
    obtain ⟨value, -, h⟩ := bind_eq_some_iff.mp h
    split at h
    · cases h
    split at h
    · cases h
      rfl
    split at h
    · cases h
    · cases h
      exact placeBitfield_maxAlign ((tl.map (·.endianness)).getD .little) _ _ _
  rw [Covers, hmax]
  refine ⟨Nat.le_max_left _ _, ?_⟩
  rintro rfl
  exact (bitUnit_align tl override layout.1 layout.2).trans (Nat.le_max_right _ _)

def firstType (kind : TagKind) (field : FieldDecl ParsedType SizeExpr) : ParsedType :=
  match kind, field.bitFieldWidth with
  | .struct, none =>
    if isFlexibleArrayType field.first.type then parsedTypeArrayElementType field.first.type
    else field.first.type
  | _, _ => field.first.type

def memberTypes (kind : TagKind) (field : FieldDecl ParsedType SizeExpr) : List ParsedType :=
  firstType kind field :: field.more.map (·.type)

def unpackedTypes (kind : TagKind) (d : RecordDefinition) : List ParsedType :=
  let packed := (collectAttrLayout d.body.attributes false).1
  (d.body.fields.filter fun field => !(collectAttrLayout field.attributes packed).1).flatMap (memberTypes kind)

def AlignedWithin (p : Program) (answer : Query → Option (Nat × Nat)) (bound : Nat) (type : ParsedType) :
    Prop :=
  ∀ layout, (p.sizeAlignOfParsedType type).result answer = some layout → layout.2 ≤ bound

theorem AlignedWithin.mono (h : AlignedWithin p answer bound type) (hle : bound ≤ bound') :
    AlignedWithin p answer bound' type := fun layout hl => (h layout hl).trans hle

variable {answer : Query → Option (Nat × Nat)}

theorem alignedWithin_of (h : (p.sizeAlignOfParsedType type).result answer = some layout)
    (hle : layout.2 ≤ bound) :
    AlignedWithin p answer bound type := by
  intro layout' h'
  rw [h] at h'
  cases h'
  exact hle

theorem layoutFirst_covers (h : (layoutFirst p packed override field s).result answer = some laid) :
    s.maxAlign ≤ laid.2.maxAlign ∧
      (packed = false → AlignedWithin p answer laid.2.maxAlign (firstType .struct field)) := by
  simp only [layoutFirst, result_andThen] at h
  obtain ⟨info, -, h⟩ := bind_eq_some_iff.mp h
  cases hwidth : field.bitFieldWidth with
  | some widthExpr =>
    simp only [hwidth, result_andThen] at h
    obtain ⟨width, -, h⟩ := bind_eq_some_iff.mp h
    obtain ⟨layout, hlayout, h⟩ := bind_eq_some_iff.mp h
    rw [result_ret] at h
    have hcovers := layoutBitfield_covers h fun _ => rfl
    have htype : (p.sizeAlignOfParsedType (firstType .struct field)).result answer = some layout := by
      simpa [firstType, hwidth] using hlayout
    exact ⟨hcovers.1, fun hpacked => alignedWithin_of htype (hcovers.2 hpacked)⟩
  | none =>
    simp only [hwidth, result_andThen] at h
    obtain ⟨layout, hlayout, h⟩ := bind_eq_some_iff.mp h
    rw [result_ret] at h
    have hcovers := layoutMember_covers h fun _ => rfl
    have htype : (p.sizeAlignOfParsedType (firstType .struct field)).result answer = some layout := by
      simpa [firstType, hwidth] using hlayout
    exact ⟨hcovers.1, fun hpacked => alignedWithin_of htype (hcovers.2 hpacked)⟩

theorem layoutOthers_covers (h : (layoutOthers p packed override more s).result answer = some laid) :
    s.maxAlign ≤ laid.2.maxAlign ∧
      (packed = false → ∀ type ∈ more.map (·.type), AlignedWithin p answer laid.2.maxAlign type) := by
  induction more generalizing s laid with
  | nil =>
    cases h
    exact ⟨le_refl _, fun _ _ hmem => by cases hmem⟩
  | cons d more ih =>
    simp only [layoutOthers, result_andThen] at h
    obtain ⟨layout, hlayout, h⟩ := bind_eq_some_iff.mp h
    obtain ⟨info, -, h⟩ := bind_eq_some_iff.mp h
    obtain ⟨first, hfirst, h⟩ := bind_eq_some_iff.mp h
    obtain ⟨rest, hrest, h⟩ := bind_eq_some_iff.mp h
    cases h
    rw [result_ret] at hfirst
    have hcovers := layoutMember_covers hfirst fun _ => rfl
    obtain ⟨hle, hothers⟩ := ih hrest
    refine ⟨hcovers.1.trans hle, fun hpacked type hmem => ?_⟩
    rcases List.mem_cons.mp hmem with rfl | hmem
    · exact alignedWithin_of hlayout ((hcovers.2 hpacked).trans hle)
    · exact hothers hpacked type hmem

theorem layoutFieldsOf_covers (h : (layoutFieldsOf p packed fields s).result answer = some laid) :
    s.maxAlign ≤ laid.2.maxAlign ∧
      ∀ field ∈ fields, (collectAttrLayout field.attributes packed).1 = false →
        ∀ type ∈ memberTypes .struct field, AlignedWithin p answer laid.2.maxAlign type := by
  induction fields generalizing s laid with
  | nil =>
    cases h
    exact ⟨le_refl _, fun _ hmem => by cases hmem⟩
  | cons field fields ih =>
    simp only [layoutFieldsOf, result_andThen] at h
    obtain ⟨first, hfirst, h⟩ := bind_eq_some_iff.mp h
    obtain ⟨others, hothers, h⟩ := bind_eq_some_iff.mp h
    obtain ⟨rest, hrest, h⟩ := bind_eq_some_iff.mp h
    cases h
    obtain ⟨hle₁, hfirst⟩ := layoutFirst_covers hfirst
    obtain ⟨hle₂, hothers⟩ := layoutOthers_covers hothers
    obtain ⟨hle₃, hrest⟩ := ih hrest
    refine ⟨hle₁.trans (hle₂.trans hle₃), fun field' hfield hunpacked type hmem => ?_⟩
    rcases List.mem_cons.mp hfield with rfl | hfield
    · rcases List.mem_cons.mp hmem with rfl | hmem
      · exact (hfirst hunpacked).mono (hle₂.trans hle₃)
      · exact (hothers hunpacked type hmem).mono hle₃
    · exact hrest field' hfield hunpacked type hmem

theorem layoutUnionMembers_covers (h : (layoutUnionMembers p packed override isBitfield members u).result
    answer =
      some u') :
    u.maxAlign ≤ u'.maxAlign ∧
      (packed = false → ∀ type ∈ members.map (·.type), AlignedWithin p answer u'.maxAlign type) := by
  induction members generalizing u u' with
  | nil =>
    cases h
    exact ⟨le_refl _, fun _ _ hmem => by cases hmem⟩
  | cons d more ih =>
    simp only [layoutUnionMembers, layoutUnionMember, result_andThen] at h
    obtain ⟨first, hfirst, h⟩ := bind_eq_some_iff.mp h
    obtain ⟨layout, hlayout, hfirst⟩ := bind_eq_some_iff.mp hfirst
    obtain ⟨info, -, hfirst⟩ := bind_eq_some_iff.mp hfirst
    cases hfirst
    obtain ⟨hle, hothers⟩ := ih h
    have hfirst : max u.maxAlign (unionMemberAlign packed override layout.2) ≤ u'.maxAlign := hle
    refine ⟨(Nat.le_max_left _ _).trans hfirst, fun hpacked type hmem => ?_⟩
    rcases List.mem_cons.mp hmem with rfl | hmem
    · refine alignedWithin_of hlayout (le_trans ?_ ((Nat.le_max_right _ _).trans hfirst))
      subst hpacked
      exact Nat.le_max_left _ _
    · exact hothers hpacked type hmem

theorem layoutUnionFields_covers (h : (layoutUnionFields p packed fields u).result answer = some u') :
    u.maxAlign ≤ u'.maxAlign ∧
      ∀ field ∈ fields, (collectAttrLayout field.attributes packed).1 = false →
        ∀ type ∈ memberTypes .union field, AlignedWithin p answer u'.maxAlign type := by
  induction fields generalizing u u' with
  | nil =>
    cases h
    exact ⟨le_refl _, fun _ hmem => by cases hmem⟩
  | cons field fields ih =>
    simp only [layoutUnionFields, result_andThen] at h
    obtain ⟨u₁, hmembers, h⟩ := bind_eq_some_iff.mp h
    obtain ⟨hle₁, hmembers⟩ := layoutUnionMembers_covers hmembers
    obtain ⟨hle₂, hrest⟩ := ih h
    refine ⟨hle₁.trans hle₂, fun field' hfield hunpacked type hmem => ?_⟩
    rcases List.mem_cons.mp hfield with rfl | hfield
    · exact (hmembers hunpacked type hmem).mono hle₂
    · exact hrest field' hfield hunpacked type hmem

-- Records

/-- The end of the last member and the alignment of a record, before it is padded. -/
def unpaddedRecord (p : Program) (kind : TagKind) (d : StructDef ParsedType SizeExpr) : Layouts (Nat × Nat) :=
  let attributes := collectAttrLayout d.attributes false
  let align := fun maxAlign => max (if attributes.1 && attributes.2 == 0 then 1 else maxAlign) attributes.2
  match kind with
  | .struct =>
    (layoutFieldsOf p attributes.1 d.fields ⟨0, 1, 0, 0⟩).andThen fun laid =>
      .ret (some ((laid.2.flush sizeT).offset, align laid.2.maxAlign))
  | .union =>
    (layoutUnionFields p attributes.1 d.fields ⟨[], 0, 1⟩).andThen fun u =>
      .ret (some (u.maxSize, align u.maxAlign))

/-- With a member that is not packed the record is not, and has at least the largest alignment. -/
theorem alignedWithin_record
    (hcovers : ∀ field ∈ d.body.fields,
      (collectAttrLayout field.attributes (collectAttrLayout d.body.attributes false).1).1 = false →
        ∀ type ∈ memberTypes kind field, AlignedWithin p answer maxAlign type)
    (hmem : type ∈ unpackedTypes kind d) :
    AlignedWithin p answer
      (max (if (collectAttrLayout d.body.attributes false).1 &&
        (collectAttrLayout d.body.attributes false).2 == 0
        then 1 else maxAlign) (collectAttrLayout d.body.attributes false).2) type := by
  obtain ⟨field, hfield, htype⟩ := List.mem_flatMap.mp hmem
  obtain ⟨hfield, hunpacked⟩ := List.mem_filter.mp hfield
  rw [Bool.not_eq_true'] at hunpacked
  refine (hcovers field hfield hunpacked type htype).mono ?_
  cases hpacked : (collectAttrLayout d.body.attributes false).1 with
  | true =>
    rw [hpacked, packed_stays] at hunpacked
    cases hunpacked
  | false => exact Nat.le_max_left _ _

theorem layoutRecord_result
    (h : (layoutRecord p kind d.body).result answer = some layout) :
    0 < layout.align ∧
      (∃ extent, (unpaddedRecord p kind d.body).result answer = some (extent, layout.align) ∧
        layout.size = roundUp sizeT extent layout.align) ∧
      ∀ type ∈ unpackedTypes kind d, AlignedWithin p answer layout.align type := by
  cases kind with
  | struct =>
    simp only [layoutRecord, layoutStruct, result_andThen] at h
    obtain ⟨laid, hplaced, h⟩ := bind_eq_some_iff.mp h
    cases h
    obtain ⟨hle, hcovers⟩ := layoutFieldsOf_covers hplaced
    have hpos : 1 ≤ laid.2.maxAlign := hle
    refine ⟨?_, ⟨(laid.2.flush sizeT).offset, ?_, rfl⟩, fun type hmem => ?_⟩
    · simp only [finishLayout, flush_maxAlign]
      split <;> omega
    · simp only [unpaddedRecord, result_andThen, hplaced, bind_some, finishLayout, flush_maxAlign]
      rfl
    · simp only [finishLayout, flush_maxAlign]
      exact alignedWithin_record hcovers hmem
  | union =>
    simp only [layoutRecord, layoutUnion, result_andThen] at h
    obtain ⟨u, hu, h⟩ := bind_eq_some_iff.mp h
    cases h
    obtain ⟨hle, hcovers⟩ := layoutUnionFields_covers hu
    have hpos : 1 ≤ u.maxAlign := hle
    refine ⟨?_, ⟨u.maxSize, ?_, rfl⟩, fun type hmem => ?_⟩
    · simp only [finishUnion]
      split <;> omega
    · simp only [unpaddedRecord, result_andThen, hu, bind_some, finishUnion]
      rfl
    · exact alignedWithin_record hcovers hmem

def Program.recordOf (p : Program) (type : ParsedType) : Option TagKey :=
  (p.typeInfo type).bind fun info =>
    match info.category with
    | .struct => info.userTypeName.map (⟨.struct, ·⟩)
    | .union => info.userTypeName.map (⟨.union, ·⟩)
    | _ => none

theorem recordOf_eq {p : Program} (hinfo : p.typeInfo type = some info) : p.recordOf type =
    match info.category with
    | .struct => info.userTypeName.map (⟨.struct, ·⟩)
    | .union => info.userTypeName.map (⟨.union, ·⟩)
    | _ => none := by
  rw [Program.recordOf, hinfo]
  rfl

abbrev inTable (tags : Tags) : Query → Option (Nat × Nat) := answers (ccGetTagLayout tags)

/-- A scope that a record was laid out in: the present one, unless it had a layout before. -/
structure LaidIn (p : Program) (before tags : Tags) (key : TagKey) (q : Program) (d : RecordDefinition)
    (layout : StructLayout) : Prop where
  unit : q.target = p.target ∧ q.definitions = p.definitions
  present : ccGetTagLayout before key = none → q = p
  definition : definitionOf p tags key = some d
  result : (layoutRecord q key.kind d.body).result (inTable tags) = some layout
  cached : ccGetTagLayout tags key = some (layout.size, layout.align)

def MembersWithin (p : Program) (before tags : Tags) (key : TagKey) (bound : Nat) : Prop :=
  ∃ q d layout, LaidIn p before tags key q d layout ∧
    ∀ type ∈ unpackedTypes key.kind d, AlignedWithin q (inTable tags) bound type

def RecordFits (p : Program) (before tags : Tags) (key : TagKey) : Prop :=
  ∃ q d layout extent align, LaidIn p before tags key q d layout ∧
    (unpaddedRecord q key.kind d.body).result (inTable tags) = some (extent, align) ∧
    PaddingFits extent align

theorem LaidIn.members (h : LaidIn p before tags key q d layout) :
    MembersWithin p before tags key layout.align :=
  ⟨q, d, layout, h, (layoutRecord_result h.result).2.2⟩

theorem LaidIn.fits_iff (h : LaidIn p before tags key q d layout) :
    layout.align ∣ layout.size ↔ RecordFits p before tags key := by
  have hsame : ∀ {q d layout'}, LaidIn p before tags key q d layout' →
      layout'.size = layout.size ∧ layout'.align = layout.align := by
    intro q' d' layout' h'
    have hcached := h'.cached
    rw [h.cached] at hcached
    obtain ⟨hsize, halign⟩ := Prod.mk.inj (Option.some.inj hcached)
    exact ⟨hsize.symm, halign.symm⟩
  constructor
  · intro hdvd
    obtain ⟨hpos, ⟨extent, hextent, hsize⟩, -⟩ := layoutRecord_result h.result
    rw [hsize] at hdvd
    exact ⟨q, d, layout, extent, layout.align, h, hextent, (dvd_roundUp_iff extent hpos).mp hdvd⟩
  · rintro ⟨q', d', layout', extent, align, h', hextent, hfits⟩
    obtain ⟨hpos, ⟨extent', hextent', hsize⟩, -⟩ := layoutRecord_result h'.result
    rw [hextent] at hextent'
    obtain ⟨rfl, rfl⟩ := Prod.mk.inj (Option.some.inj hextent')
    rw [← (hsame h').1, ← (hsame h').2, hsize]
    exact (dvd_roundUp_iff extent hpos).mpr hfits

-- Types that are no arrays

/-- A type of the 80-bit `long double`, complex or not. -/
def Program.IsLongDouble80 (p : Program) (type : ParsedType) : Prop :=
  ∃ info, p.typeInfo type = some info ∧ info.category = .float ∧ info.bitWidth = 80

section
variable (p : Program) (before tags : Tags) (type : ParsedType)

/-- The size is a multiple of the alignment, and a record is aligned as its members are. -/
def ProportionedBase : Prop :=
  ∀ l, (p.sizeAlignOfOther type).result (inTable tags) = some l →
    Aligned l ∧ ∀ key, p.recordOf type = some key → MembersWithin p before tags key l.2

/-- Packed or not of 80 bits, and for a record: padded without wrapping around or, where its
declaration is packed, of members that need no alignment. -/
def FitsBase : Prop :=
  (p.IsLongDouble80 type → type.head.layoutAttributes.1 = true) ∧
    ∀ key, p.recordOf type = some key →
      if type.head.layoutAttributes.1 then MembersWithin p before tags key 1 else RecordFits p before tags key

end

theorem declaredInfo_result (p : Program) (type : ParsedType) (layouts : TagKey → Option (Nat × Nat)) :
    (p.declaredInfo type).result (answers layouts) = p.typeInfo type := by
  unfold Program.declaredInfo
  cases p.typeInfo type <;> rfl

theorem Head.adjust_plain {head : Head} (h : head.layoutAttributes.2 = 0) (layout : Nat × Nat) :
    head.adjust layout = (layout.1, if head.layoutAttributes.1 then 1 else layout.2) := by
  simp only [Head.adjust, h, Nat.max_zero]

variable {p : Program} {type : ParsedType}

theorem sizeAlignOfOther_result (h : (p.sizeAlignOfOther type).result (inTable tags) = some l) :
    ∃ info layout, p.typeInfo type = some info ∧
      (sizeAlignOfTypeInfo p.target info).result (inTable tags) = some layout ∧
      l = type.head.adjust layout := by
  simp only [Program.sizeAlignOfOther, result_andThen, declaredInfo_result] at h
  obtain ⟨info, hinfo, h⟩ := bind_eq_some_iff.mp h
  obtain ⟨layout, hlayout, h⟩ := bind_eq_some_iff.mp h
  cases h
  exact ⟨info, layout, hinfo, hlayout, rfl⟩

theorem scalar_iff (hoverride : type.head.layoutAttributes.2 = 0) (hrecord : p.recordOf type = none)
    (h : (p.sizeAlignOfOther type).result (inTable tags) = some (type.head.adjust layout))
    (haligned : Aligned layout ↔ ¬ p.IsLongDouble80 type) :
    (ProportionedBase p before tags type ↔ FitsBase p before tags type) ∧
      (FitsBase p before tags type → Aligned (type.head.adjust layout)) := by
  have hproportioned : ProportionedBase p before tags type ↔ Aligned (type.head.adjust layout) := by
    constructor
    · intro hall
      exact (hall _ h).1
    · intro haligned l hl
      rw [h] at hl
      cases hl
      refine ⟨haligned, fun key hkey => ?_⟩
      rw [hrecord] at hkey
      cases hkey
  have hfits : FitsBase p before tags type ↔ Aligned (type.head.adjust layout) := by
    rw [FitsBase, Head.adjust_plain hoverride, hrecord]
    cases hpacked : type.head.layoutAttributes.1 with
    | true => simp [Aligned]
    | false => simpa using haligned.symm
  exact ⟨hproportioned.trans hfits.symm, hfits.mp⟩

theorem record_iff (hoverride : type.head.layoutAttributes.2 = 0) (hrecord : p.recordOf type = some key)
    (h : (p.sizeAlignOfOther type).result (inTable tags) = some (type.head.adjust (layout.size, layout.align)))
    (hscalar : ¬ p.IsLongDouble80 type) (hlaid : LaidIn p before tags key q d layout) :
    (ProportionedBase p before tags type ↔ FitsBase p before tags type) ∧
      (FitsBase p before tags type → Aligned (type.head.adjust (layout.size, layout.align))) := by
  have hpos := (layoutRecord_result hlaid.result).1
  have hproportioned : ProportionedBase p before tags type ↔
      Aligned (type.head.adjust (layout.size, layout.align)) ∧
        MembersWithin p before tags key (type.head.adjust (layout.size, layout.align)).2 := by
    constructor
    · intro hall
      exact ⟨(hall _ h).1, (hall _ h).2 key hrecord⟩
    · rintro ⟨haligned, hmembers⟩ l hl
      rw [h] at hl
      cases hl
      refine ⟨haligned, fun key' hkey' => ?_⟩
      rw [hrecord] at hkey'
      cases hkey'
      exact hmembers
  have hfits : FitsBase p before tags type ↔
      if type.head.layoutAttributes.1 then MembersWithin p before tags key 1 else RecordFits p before tags
        key := by
    rw [FitsBase, hrecord]
    simp [hscalar]
  rw [hproportioned, hfits, Head.adjust_plain hoverride]
  cases hpacked : type.head.layoutAttributes.1 with
  | true => simp [Aligned]
  | false =>
    simp only [Aligned, Bool.false_eq_true, if_false, hlaid.fits_iff, hpos, hlaid.members, true_and, and_true]
    exact id

theorem layoutOfTag_result (h : (layoutOfTag kind info).result (inTable tags) = some layout) :
    ∃ name, info.userTypeName = some name ∧ ccGetTagLayout tags ⟨kind, name⟩ = some layout := by
  unfold layoutOfTag at h
  cases hname : info.userTypeName with
  | none =>
    simp only [hname] at h
    cases h
  | some name => ?_
  simp only [hname, Calls.result_call] at h
  obtain ⟨layout', hlayout, hsame⟩ := bind_eq_some_iff.mp h
  cases hsame
  exact ⟨name, rfl, hlayout⟩

/-- What is known of the layouts that a table has. -/
def AllLaidIn (p : Program) (before tags : Tags) : Prop :=
  ∀ key l, ccGetTagLayout tags key = some l → ∃ q d layout, LaidIn p before tags key q d layout

theorem base_iff (htarget : p.target ∈ targetTables) (hall : AllLaidIn p before tags)
    (hoverride : type.head.layoutAttributes.2 = 0)
    (h : (p.sizeAlignOfOther type).result (inTable tags) = some l) :
    (ProportionedBase p before tags type ↔ FitsBase p before tags type) ∧
      (FitsBase p before tags type → Aligned l) := by
  obtain ⟨info, layout, hinfo, hlayout, rfl⟩ := sizeAlignOfOther_result h
  have hwidth := typeInfoFromParsedType_width hinfo
  have h80 : p.IsLongDouble80 type ↔ info.category = .float ∧ info.bitWidth = 80 := by
    constructor
    · rintro ⟨info', hinfo', hfloat⟩
      rw [hinfo] at hinfo'
      cases hinfo'
      exact hfloat
    · exact fun hfloat => ⟨info, hinfo, hfloat⟩
  have hrecordOf := recordOf_eq hinfo
  have htagged : ∀ kind, info.category ≠ .float → p.recordOf type = info.userTypeName.map (⟨kind, ·⟩) →
      (layoutOfTag kind info).result (inTable tags) = some layout →
      (ProportionedBase p before tags type ↔ FitsBase p before tags type) ∧
        (FitsBase p before tags type → Aligned (type.head.adjust layout)) := by
    intro kind hnotFloat hkey htag
    obtain ⟨name, hname, hcached⟩ := layoutOfTag_result htag
    obtain ⟨q, d, lay, hlaid⟩ := hall _ _ hcached
    have hsame := hlaid.cached
    rw [hcached] at hsame
    cases hsame
    exact record_iff hoverride (by rw [hkey, hname]; rfl) h (fun hfloat => hnotFloat (h80.mp hfloat).1) hlaid
  have hinteger : TypeInfo.bits info.toTypeInfo ∈ [1, 8, 16, 32, 64, 128] → info.category ≠ .float →
      p.recordOf type = none → layout = sizeAlignFromBits p.target (TypeInfo.bits info.toTypeInfo) 0 →
      (ProportionedBase p before tags type ↔ FitsBase p before tags type) ∧
        (FitsBase p before tags type → Aligned (type.head.adjust layout)) := by
    rintro hbits hnotFloat hnone rfl
    refine scalar_iff hoverride hnone h ⟨fun _ hfloat => hnotFloat (h80.mp hfloat).1, fun _ => ?_⟩
    exact integer_aligned htarget hbits
  unfold sizeAlignOfTypeInfo at hlayout
  cases hcategory : info.category with
  | integer =>
    simp only [hcategory, WidthKnown] at hlayout hwidth hrecordOf
    refine hinteger ?_ (by rw [hcategory]; nofun) hrecordOf (Option.some.inj hlayout).symm
    simp only [TypeInfo.bits]
    split
    · simp
    · exact hwidth
  | enum =>
    simp only [hcategory, WidthKnown] at hlayout hwidth hrecordOf
    refine hinteger ?_ (by rw [hcategory]; nofun) hrecordOf (Option.some.inj hlayout).symm
    simp [TypeInfo.bits, hwidth]
  | float =>
    simp only [hcategory, WidthKnown] at hlayout hwidth hrecordOf
    obtain rfl : floatLayout p.target info.bitWidth info.isComplex = layout := Option.some.inj hlayout
    refine scalar_iff hoverride hrecordOf h ?_
    rw [h80, (floatLayout_aligned htarget hwidth info.isComplex).2]
    simp [hcategory]
  | pointer =>
    simp only [hcategory] at hlayout hrecordOf
    cases hlayout
    refine scalar_iff hoverride hrecordOf h ⟨fun _ hfloat => ?_, fun _ => pointer_aligned htarget⟩
    rw [h80, hcategory] at hfloat
    cases hfloat.1
  | struct =>
    simp only [hcategory] at hlayout hrecordOf
    exact htagged .struct (by rw [hcategory]; nofun) hrecordOf hlayout
  | union =>
    simp only [hcategory] at hlayout hrecordOf
    exact htagged .union (by rw [hcategory]; nofun) hrecordOf hlayout
  | invalid | array | function | void =>
    simp only [hcategory] at hlayout
    cases hlayout

-- Arrays

section
variable (p : Program) (before tags : Tags) (head : Head)

def countOf (info : ParsedArrayInfo) (sizeExpr : SizeExpr) : Option Int :=
  (info.length (p.constEvalInteger sizeExpr)).result (inTable tags)

/-- The sizes are multiples of the alignments, and the size of an array is the count times the
size of its elements. -/
def Proportioned : Derivations → Prop
  | .array info sizeExpr rest =>
    Proportioned rest ∧
      ∀ l, (p.sizeAlign head (.array info sizeExpr rest)).result (inTable tags) = some l →
        Aligned l ∧ ∃ count element, countOf p tags info sizeExpr = some count ∧
          (p.sizeAlign head rest).result (inTable tags) = some element ∧ (l.1 : Int) = count * element.1
  | .nil => ProportionedBase p before tags ⟨head, .nil⟩
  | .pointer rest => ProportionedBase p before tags ⟨head, .pointer rest⟩
  | .function rest => ProportionedBase p before tags ⟨head, .function rest⟩

def byteCount : Derivations → Option Nat
  | .array info sizeExpr rest =>
    (countOf p tags info sizeExpr).bind fun count => (byteCount rest).map (count.toNat * ·)
  | .nil => ((p.sizeAlignOfOther ⟨head, .nil⟩).result (inTable tags)).map (·.1)
  | .pointer rest => ((p.sizeAlignOfOther ⟨head, .pointer rest⟩).result (inTable tags)).map (·.1)
  | .function rest => ((p.sizeAlignOfOther ⟨head, .function rest⟩).result (inTable tags)).map (·.1)

def Fits : Derivations → Prop
  | .array info sizeExpr rest =>
    Fits rest ∧ ∀ bytes, byteCount p tags head (.array info sizeExpr rest) = some bytes → bytes < 2 ^ 64
  | .nil => FitsBase p before tags ⟨head, .nil⟩
  | .pointer rest => FitsBase p before tags ⟨head, .pointer rest⟩
  | .function rest => FitsBase p before tags ⟨head, .function rest⟩

end

theorem array_result (h : (p.sizeAlign head (.array info sizeExpr rest)).result (inTable tags) = some l) :
    ∃ count element, countOf p tags info sizeExpr = some count ∧ 0 ≤ count ∧
      (p.sizeAlign head rest).result (inTable tags) = some element ∧
      l = head.adjust (sizeT (element.1 * count.toNat), element.2) := by
  rw [Program.sizeAlign] at h
  split at h
  · cases h
  rw [result_andThen] at h
  obtain ⟨count, hcount, h⟩ := bind_eq_some_iff.mp h
  split at h
  · cases h
  rename_i hnonneg
  rw [result_andThen] at h
  obtain ⟨element, helement, h⟩ := bind_eq_some_iff.mp h
  cases h
  exact ⟨count, element, hcount, Int.not_lt.mp hnonneg, helement, rfl⟩

theorem proportioned_iff_fits (htarget : p.target ∈ targetTables) (hall : AllLaidIn p before tags)
    (hoverride : head.layoutAttributes.2 = 0) (derivations : Derivations)
    (h : (p.sizeAlign head derivations).result (inTable tags) = some l) :
    (Proportioned p before tags head derivations ↔ Fits p before tags head derivations) ∧
      (Fits p before tags head derivations → Aligned l ∧ byteCount p tags head derivations = some l.1) := by
  have hother : ∀ (type : ParsedType) l, type.head = head →
      (p.sizeAlignOfOther type).result (inTable tags) = some l →
      (ProportionedBase p before tags type ↔ FitsBase p before tags type) ∧
        (FitsBase p before tags type →
          Aligned l ∧ ((p.sizeAlignOfOther type).result (inTable tags)).map (·.1) = some l.1) := by
    rintro type l rfl hbase
    obtain ⟨hiff, haligned⟩ := base_iff htarget hall hoverride hbase
    exact ⟨hiff, fun hfits => ⟨haligned hfits, by rw [hbase]; rfl⟩⟩
  induction derivations using Derivations.steps generalizing l with
  | nil => exact hother ⟨head, .nil⟩ l rfl h
  | pointer rest => exact hother ⟨head, .pointer rest⟩ l rfl h
  | function rest => exact hother ⟨head, .function rest⟩ l rfl h
  | array info sizeExpr rest ih =>
    obtain ⟨count, element, hcount, hnonneg, helement, rfl⟩ := array_result h
    obtain ⟨hiff, hrest⟩ := ih helement
    have hbytes : Fits p before tags head rest →
        byteCount p tags head (.array info sizeExpr rest) = some (count.toNat * element.1) := by
      intro hfits
      rw [byteCount, hcount, bind_some, (hrest hfits).2]
      rfl
    have hsize : (head.adjust (sizeT (element.1 * count.toNat), element.2)).1 =
        sizeT (element.1 * count.toNat) := rfl
    have hexact : Fits p before tags head (.array info sizeExpr rest) →
        sizeT (element.1 * count.toNat) = element.1 * count.toNat := by
      rintro ⟨hfits, hbound⟩
      have hlt := hbound _ (hbytes hfits)
      rw [Nat.mul_comm] at hlt
      exact Nat.mod_eq_of_lt hlt
    have haligned : Fits p before tags head (.array info sizeExpr rest) →
        Aligned (head.adjust (sizeT (element.1 * count.toNat), element.2)) := by
      intro hfits
      obtain ⟨hpos, hdvd⟩ := (hrest hfits.1).1
      rw [hexact hfits, Head.adjust_plain hoverride]
      cases head.layoutAttributes.1 with
      | true => exact ⟨Nat.one_pos, Nat.one_dvd _⟩
      | false => exact ⟨hpos, hdvd.mul_right _⟩
    refine ⟨⟨?_, fun hfits => ⟨hiff.mpr hfits.1, fun l' hl' => ?_⟩⟩, fun hfits => ⟨haligned hfits, ?_⟩⟩
    · rintro ⟨hproportioned, hlevel⟩
      have hfits := hiff.mp hproportioned
      refine ⟨hfits, fun bytes hcounted => ?_⟩
      rw [hbytes hfits] at hcounted
      cases hcounted
      obtain ⟨-, count', element', hcount', helement', hproduct⟩ := hlevel _ h
      rw [hcount] at hcount'
      rw [helement] at helement'
      cases hcount'
      cases helement'
      have hlt : sizeT (element.1 * count.toNat) < 2 ^ 64 := Nat.mod_lt _ (by decide)
      have hcast : ((count.toNat * element.1 : Nat) : Int) = count * element.1 := by
        rw [Nat.cast_mul, Int.toNat_of_nonneg hnonneg]
      omega
    · rw [h] at hl'
      cases hl'
      refine ⟨haligned hfits, count, element, hcount, helement, ?_⟩
      rw [hsize, hexact hfits, Nat.cast_mul, Int.toNat_of_nonneg hnonneg, Int.mul_comm]
    · rw [hbytes hfits.1, hsize, hexact hfits, Nat.mul_comm]

-- Types that are accepted

theorem Reached.computed (h : Reached target definitions tags) (key : TagKey) (l : Nat × Nat)
    (hl : ccGetTagLayout tags key = some l) :
    ∃ typedefs, laidOut ⟨target, definitions, typedefs⟩ (definitionOf ⟨target, definitions, []⟩ tags)
      (ccGetTagLayout tags) key = some l := by
  induction h generalizing key l with
  | start => cases hl
  | @added tags tag hreached ih =>
    have hentered := ccAddTag_entered hreached.clean.1 tag
    rw [hentered.layouts] at hl
    obtain ⟨typedefs, hlaid⟩ := ih key l hl
    exact ⟨typedefs, laidOut_mono (hentered.later.definitionOf _) hentered.later.layouts hlaid⟩
  | @defined tags tag fingerprint place hreached ih =>
    have hentered := ccDefineTag_entered hreached.clean.1 tag fingerprint place
    rw [hentered.layouts] at hl
    obtain ⟨typedefs, hlaid⟩ := ih key l hl
    exact ⟨typedefs, laidOut_mono (hentered.later.definitionOf _) hentered.later.layouts hlaid⟩
  | @ran tags tags' α r typedefs nested program hreached hrun ih =>
    obtain ⟨hout, -⟩ := (calls_answered ⟨target, definitions, typedefs⟩ (ccGetTagLayout tags) nested).run
      program (.start hreached.clean.1 _) hrun
    rcases hout.ok.computed key l hl with hknown | hlaid
    · obtain ⟨typedefs', hlaid⟩ := ih key l hknown
      exact ⟨typedefs', laidOut_mono (hout.later.definitionOf ⟨target, definitions, []⟩) hout.later.layouts
        hlaid⟩
    · exact ⟨typedefs, hlaid⟩

theorem allLaidIn_of_run (hreached : Reached p.target p.definitions before)
    (hrun : p.run nested program before = some (r, tags)) : AllLaidIn p before tags := by
  intro key l hl
  obtain ⟨hout, -⟩ := (calls_answered p (ccGetTagLayout before) nested).run program
      (.start hreached.clean.1 _) hrun
  have hlaidIn : ∀ q : Program, q.target = p.target ∧ q.definitions = p.definitions →
      (ccGetTagLayout before key = none → q = p) →
      laidOut q (definitionOf p tags) (ccGetTagLayout tags) key = some l →
      ∃ q d layout, LaidIn p before tags key q d layout := by
    intro q hunit hpresent hlaid
    obtain ⟨d, hd, hrest⟩ := bind_eq_some_iff.mp hlaid
    obtain ⟨layout, hresult, rfl⟩ := map_eq_some_iff.mp hrest
    exact ⟨q, d, layout, hunit, hpresent, hd, hresult, hl⟩
  cases hbefore : ccGetTagLayout before key with
  | none =>
    refine hlaidIn p ⟨rfl, rfl⟩ (fun _ => rfl) ((hout.ok.computed key l hl).resolve_left ?_)
    rw [hbefore]
    nofun
  | some l' => ?_
  have hsame := hout.later.layouts key l' hbefore
  rw [hl] at hsame
  cases hsame
  obtain ⟨typedefs, hlaid⟩ := hreached.computed key l hbefore
  refine hlaidIn ⟨p.target, p.definitions, typedefs⟩ ⟨rfl, rfl⟩ (fun hnone => ?_)
    (laidOut_mono (hout.later.definitionOf p) hout.later.layouts hlaid)
  rw [hbefore] at hnone
  cases hnone

/-- A type that is accepted has a size that is a multiple of its alignment, arrays of count times
the size of an element and records aligned as their members, just where it is no 80-bit
`long double` and nothing wraps around. -/
theorem sizeAlign_proportioned_iff (htarget : p.target ∈ targetTables)
    (hreached : Reached p.target p.definitions before) (type : ParsedType)
    (hoverride : type.head.layoutAttributes.2 = 0)
    (hrun : p.run nested (p.sizeAlignOfParsedType type) before = some (some l, tags)) :
    Proportioned p before tags type.head type.derivations ↔ Fits p before tags type.head type.derivations := by
  obtain ⟨-, hresult⟩ := (calls_answered p (ccGetTagLayout before) nested).run _
    (.start hreached.clean.1 _) hrun
  exact (proportioned_iff_fits htarget (allLaidIn_of_run hreached hrun) hoverride type.derivations
    (hresult l rfl)).1

def intHead : Head := plainHead (.primitive .int) none

def arrayOf (count : Int) (rest : Derivations) : Derivations :=
  .array ⟨false, false, some count⟩ (.value none) rest

/-- `struct S { int x; };` -/
def intUnit : Program := unitOf [] (plainField ⟨intHead, .nil⟩ none)

/-- `struct S[3]` -/
theorem structArray_proportioned : ∃ tags,
    intUnit.run 1 (intUnit.sizeAlignOfParsedType ⟨plainHead .struct (some "S"), arrayOf 3 .nil⟩) definedS =
      some (some (12, 4), tags) ∧
    Proportioned intUnit definedS tags (plainHead .struct (some "S")) (arrayOf 3 .nil) := by
  refine ⟨_, rfl, (sizeAlign_proportioned_iff (by decide) (unitOf_reached _ _)
    ⟨plainHead .struct (some "S"), arrayOf 3 .nil⟩ rfl (rfl : intUnit.run 1 _ definedS = _)).mpr ?_⟩
  refine ⟨⟨?_, ?_⟩, ?_⟩
  · rintro ⟨info, hinfo, hfloat, -⟩
    cases hinfo
    cases hfloat
  · rintro key hkey
    cases hkey
    exact ⟨intUnit, _, _, 4, 4, ⟨⟨rfl, rfl⟩, fun _ => rfl, rfl, rfl, rfl⟩, rfl, .inl (dvd_refl 4)⟩
  · intro bytes hbytes
    cases hbytes
    decide

/-- `long double` has 10 bytes and an alignment of 16; `int[4611686018427387904]` has none. -/
theorem longDouble_not_proportioned :
    (intUnit.run 0 (intUnit.sizeAlignOfParsedType
      ⟨{ plainHead (.primitive .double) none with isLong := true }, .nil⟩)
        definedS = some (some (10, 16), definedS) ∧
      ¬ Proportioned intUnit definedS definedS { plainHead (.primitive .double) none with isLong :=
        true } .nil) ∧
    intUnit.run 0 (intUnit.sizeAlignOfParsedType ⟨intHead, arrayOf 4611686018427387904 .nil⟩) definedS =
        some (some (0, 4), definedS) ∧
      ¬ Proportioned intUnit definedS definedS intHead (arrayOf 4611686018427387904 .nil) := by
  refine ⟨⟨rfl, fun h => ?_⟩, rfl, fun h => ?_⟩
  · have hdvd : 16 ∣ 10 := (h (10, 16) rfl).1.2
    omega
  · obtain ⟨-, count, element, hcount, helement, hsize⟩ := h.2 (0, 4) rfl
    cases hcount
    cases helement
    exact absurd hsize (by decide)

end Fisics.Records
