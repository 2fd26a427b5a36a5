import Fisics.Library.FallibleCalls
import Fisics.Syntax.Layout
import Fisics.Syntax.TypeInfo

/-!
# Sizes of types and layouts of records

`size_align_of_parsed_type` asks for the layouts of the records inside a type, and
`layout_struct_union` for the types of the members. The layouts stay in the table of
tags, where a mark says that one is being computed. What asks for records is a program
with calls here; the table answers them.
-/

namespace Fisics.Records

open MemoCall (Calls)

-- Targets

structure TargetTable extends TargetLayout where
  floatBits : Nat
  doubleBits : Nat
  longDoubleBits : Nat
  floatAlign : Nat
  doubleAlign : Nat
  longDoubleAlign : Nat
  deriving DecidableEq

def layoutLp64Fp80 : TargetTable := ⟨layoutLp64, 32, 64, 80, 4, 8, 16⟩
def layoutLp64Fp128 : TargetTable := ⟨layoutLp64, 32, 64, 128, 4, 8, 16⟩
def layoutLlp64Fp64 : TargetTable := ⟨layoutLlp64, 32, 64, 64, 4, 8, 8⟩
def layoutLp64Fp64 : TargetTable := ⟨layoutLp64, 32, 64, 64, 4, 8, 8⟩

def targetTables : List TargetTable :=
  [layoutLp64Fp80, layoutLp64Fp128, layoutLlp64Fp64, layoutLp64Fp64]

-- Types

inductive TagKind
  | struct | union
  deriving DecidableEq

structure TagKey where
  kind : TagKind
  name : String
  deriving DecidableEq

inductive Primitive
  | bool | complex | imaginary | char | short | int | signed | unsigned | long | float | double | void
  | other
  deriving DecidableEq

inductive Kind
  | invalid
  | primitive (type : Primitive)
  | struct | union | enum | named
  deriving DecidableEq

/-- What a `ParsedType` has besides its derivations, as far as sizes read it. An inline
definition is known by its place among the definitions. -/
structure Head where
  kind : Kind
  userTypeName : Option String
  inlineStructOrUnionDef : Option Nat
  isUnsigned : Bool
  isShort : Bool
  isLong : Bool
  isComplex : Bool
  isImaginary : Bool
  pointerDepth : Nat
  attributes : List (List Char)
  alignOverride : Option Nat
  deriving DecidableEq

structure ParsedArrayInfo where
  isVLA : Bool
  isFlexible : Bool
  constantSize : Option Int
  deriving DecidableEq

mutual

inductive Derivations
  | nil
  | pointer (rest : Derivations)
  | array (info : ParsedArrayInfo) (sizeExpr : SizeExpr) (rest : Derivations)
  | function (rest : Derivations)

/-- An expression as `constEvalInteger` evaluates it, as far as types occur in it: what it
does with values is a function, and what has no type in it is a value, none where it is no
constant. -/
inductive SizeExpr
  | value (value : Option Int)
  | sizeOf (head : Head) (derivations : Derivations)
  | alignOf (head : Head) (derivations : Derivations)
  | unary (op : Int → Option Int) (operand : SizeExpr)
  | binary (op : Int → Int → Option Int) (left right : SizeExpr)
  | branch (condition whenTrue whenFalse : SizeExpr)

end

/-- Induction over derivations, whatever the size expressions are. -/
@[elab_as_elim]
theorem Derivations.steps {motive : Derivations → Prop} (nil : motive .nil)
    (pointer : ∀ rest, motive rest → motive (.pointer rest))
    (array : ∀ info sizeExpr rest, motive rest → motive (.array info sizeExpr rest))
    (function : ∀ rest, motive rest → motive (.function rest)) : ∀ derivations, motive derivations
  | .nil => nil
  | .pointer rest => pointer rest (steps nil pointer array function rest)
  | .array info sizeExpr rest => array info sizeExpr rest (steps nil pointer array function rest)
  | .function rest => function rest (steps nil pointer array function rest)

structure ParsedType where
  head : Head
  derivations : Derivations

def parsedTypeArrayElementType (type : ParsedType) : ParsedType :=
  match type.derivations with
  | .array _ _ rest => ⟨type.head, rest⟩
  | _ => type

def Derivations.lastIsFlexible : Derivations → Bool
  | .nil => false
  | .array info _ .nil => info.isFlexible
  | .pointer rest | .array _ _ rest | .function rest => rest.lastIsFlexible

def isFlexibleArrayType (type : ParsedType) : Bool := type.derivations.lastIsFlexible

structure RecordDefinition where
  kind : TagKind
  body : StructDef ParsedType SizeExpr

structure Program where
  target : TargetTable
  definitions : List RecordDefinition
  typedefs : List (String × ParsedType)

-- Types in the checker

/-- `original` is `originalType`. -/
structure DeclaredInfo extends TypeInfo where
  userTypeName : Option String
  original : ParsedType

def baseInfo (category : TypeInfoCategory) : TypeInfo := ⟨category, 0, false, false, false⟩

def primitiveInfo (tl : TargetTable) (head : Head) : Primitive → TypeInfo
  | .bool => makeBoolType
  | .complex => makeFloatTypeInfo tl.longDoubleBits .double true
  | .imaginary => { makeFloatTypeInfo tl.longDoubleBits .double true with isImaginary := true }
  | .char => makeIntegerType 8 (!head.isUnsigned)
  | .short => makeIntegerType 16 (!head.isUnsigned)
  | .int | .signed | .unsigned =>
    makeIntegerType (if head.isShort then 16 else if head.isLong then 64 else 32) (!head.isUnsigned)
  | .long => makeIntegerType 64 (!head.isUnsigned)
  | .float =>
    { makeFloatTypeInfo tl.longDoubleBits .float (head.isComplex || head.isImaginary) with
      isImaginary := head.isImaginary }
  | .double =>
    { makeFloatTypeInfo tl.longDoubleBits (if head.isLong then .longDouble else .double)
        (head.isComplex || head.isImaginary) with
      isImaginary := head.isImaginary }
  | .void => baseInfo .void
  | .other => baseInfo .invalid

/-- `is_builtin_int128_name`: whether the type is unsigned. -/
def isBuiltinInt128Name (name : String) : Option Bool :=
  if name ∈ ["__int128_t", "__int128"] then some false
  else if name ∈ ["__uint128_t", "__uint128"] then some true
  else none

def resolveTypedef (typedefs : List (String × ParsedType)) (name : String) : Option ParsedType :=
  (typedefs.find? (·.1 == name)).map (·.2)

/-- `resolve` is the call for the type that a typedef name stands for. -/
def typeInfoFromBaseKind (tl : TargetTable) (typedefs : List (String × ParsedType))
    (resolve : ParsedType → Option DeclaredInfo) (type : ParsedType) : Option DeclaredInfo :=
  let name := type.head.userTypeName
  match type.head.kind with
  | .primitive p => some ⟨primitiveInfo tl type.head p, none, type⟩
  | .enum => some ⟨{ makeIntegerType 32 true with category := .enum }, name, type⟩
  | .struct => some ⟨baseInfo .struct, name, type⟩
  | .union => some ⟨baseInfo .union, name, type⟩
  | .named =>
    match name.bind isBuiltinInt128Name with
    | some isUnsigned => some ⟨makeIntegerType 128 (!isUnsigned), none, type⟩
    | none =>
      match name.bind (resolveTypedef typedefs) with
      | some resolved => resolve resolved
      | none => some ⟨baseInfo .invalid, name, type⟩
  | .invalid => some ⟨baseInfo .invalid, none, type⟩

def pointerTo (target : DeclaredInfo) (type : ParsedType) : DeclaredInfo :=
  { target with category := .pointer, original := type }

def typeInfoFromDerivations (base : Option DeclaredInfo) (type : ParsedType) :
    Derivations → Option DeclaredInfo
  | .nil => base.map fun info => { info with original := type }
  | .pointer rest => (typeInfoFromDerivations base type rest).map fun target => pointerTo target type
  | .array _ _ rest =>
    (typeInfoFromDerivations base type rest).map fun element =>
      { element with category := .array, original := type }
  | .function _ => some ⟨baseInfo .function, none, type⟩

/-- `none` where more than so many typedef names lead on from one to the next. -/
def typeInfoFromParsedType (tl : TargetTable) (typedefs : List (String × ParsedType)) :
    (names : Nat) → ParsedType → Option DeclaredInfo
  | 0, _ => none
  | names + 1, type =>
    let base := typeInfoFromBaseKind tl typedefs (typeInfoFromParsedType tl typedefs names) type
    match type.derivations with
    | .nil =>
      if 0 < type.head.pointerDepth then
        base.map fun target =>
          { pointerTo target type with bitWidth := if target.bitWidth = 0 then 32 else target.bitWidth }
      else base
    | derivations => typeInfoFromDerivations base type derivations

/-- With more names than there are, one of them leads back to itself and the source does not
return. -/
def Program.typeInfo (p : Program) (type : ParsedType) : Option DeclaredInfo :=
  typeInfoFromParsedType p.target p.typedefs (p.typedefs.length + 1) type

-- Calls for records

structure RecordRef where
  key : TagKey
  inlineStructOrUnionDef : Option Nat
  deriving DecidableEq

/-- A program calls for the layout of a record; a typedef name that leads back to itself is a
call that does not return. -/
inductive Query
  | record (ref : RecordRef)
  | endless
  deriving DecidableEq

/-- Programs that call for records. -/
abbrev Layouts (α : Type) := Calls Query (Nat × Nat) (Option α)

def fail : Layouts α := .ret none

def Program.declaredInfo (p : Program) (type : ParsedType) : Layouts DeclaredInfo :=
  match p.typeInfo type with
  | some info => .ret (some info)
  | none => .call .endless fun _ => fail

-- Sizes of types

def sizeAlignFromBits (tl : TargetTable) (bits suggestedAlign : Nat) : Nat × Nat :=
  (if (bits + 7) / 8 = 0 then 1 else (bits + 7) / 8,
    if suggestedAlign = 0 then
      if bits ≤ tl.charBits then tl.charAlign
      else if bits ≤ tl.shortBits then tl.shortAlign
      else if bits ≤ tl.intBits then tl.intAlign
      else if bits ≤ tl.longBits then tl.longAlign
      else tl.longLongAlign
    else suggestedAlign)

def TypeInfo.bits (info : TypeInfo) : Nat := if info.bitWidth = 0 then 32 else info.bitWidth

def layoutOfTag (kind : TagKind) (info : DeclaredInfo) : Layouts (Nat × Nat) :=
  match info.userTypeName with
  | none => fail
  | some name =>
    .call (.record ⟨⟨kind, name⟩, info.original.head.inlineStructOrUnionDef⟩) fun layout =>
      .ret (some layout)

def sizeAlignOfTypeInfo (tl : TargetTable) (info : DeclaredInfo) : Layouts (Nat × Nat) :=
  match info.category with
  | .integer | .enum => .ret (some (sizeAlignFromBits tl (TypeInfo.bits info.toTypeInfo) 0))
  | .float =>
    let align := if tl.longDoubleBits ≤ info.bitWidth then tl.longDoubleAlign else 0
    let base := sizeAlignFromBits tl (TypeInfo.bits info.toTypeInfo) align
    .ret (some (if info.isComplex then base.1 * 2 else base.1, base.2))
  | .pointer => .ret (some (tl.pointerBits / 8, tl.pointerAlign))
  | .struct => layoutOfTag .struct info
  | .union => layoutOfTag .union info
  | .invalid | .array | .function | .void => fail

/-- `packed` and the largest alignment of the attributes and of an alignment specifier. -/
def Head.layoutAttributes (head : Head) : Bool × Nat :=
  let (packed, alignOverride) := collectAttrLayout head.attributes false
  (packed, max alignOverride (head.alignOverride.getD 0))

def Head.adjust (head : Head) (layout : Nat × Nat) : Nat × Nat :=
  let (packed, alignOverride) := head.layoutAttributes
  (layout.1, max (if packed then 1 else layout.2) alignOverride)

def Program.sizeAlignOfOther (p : Program) (type : ParsedType) : Layouts (Nat × Nat) :=
  (p.declaredInfo type).andThen fun info =>
    (sizeAlignOfTypeInfo p.target info).andThen fun layout => .ret (some (type.head.adjust layout))

def ParsedArrayInfo.length (info : ParsedArrayInfo) (evaluated : Layouts Int) : Layouts Int :=
  match info.constantSize with
  | some length => .ret (some length)
  | none => evaluated

mutual

def Program.sizeAlign (p : Program) (head : Head) : Derivations → Layouts (Nat × Nat)
  | .array info sizeExpr rest =>
    if info.isFlexible || info.isVLA then fail
    else
      (info.length (p.constEvalInteger sizeExpr)).andThen fun length =>
      if length < 0 then fail
      else
        (p.sizeAlign head rest).andThen fun element =>
          .ret (some (head.adjust (sizeT (element.1 * length.toNat), element.2)))
  | .nil => p.sizeAlignOfOther ⟨head, .nil⟩
  | .pointer rest => p.sizeAlignOfOther ⟨head, .pointer rest⟩
  | .function rest => p.sizeAlignOfOther ⟨head, .function rest⟩

/-- An operand without a value leaves the expression without one; what the other operand would
leave in the table is left out then. -/
def Program.constEvalInteger (p : Program) : SizeExpr → Layouts Int
  | .value value => .ret value
  | .sizeOf head derivations =>
    (p.sizeAlign head derivations).andThen fun layout => .ret (some layout.1)
  | .alignOf head derivations =>
    (p.sizeAlign head derivations).andThen fun layout => .ret (some layout.2)
  | .unary op operand => (p.constEvalInteger operand).andThen fun value => .ret (op value)
  | .binary op left right =>
    (p.constEvalInteger left).andThen fun l =>
      (p.constEvalInteger right).andThen fun r => .ret (op l r)
  | .branch condition whenTrue whenFalse =>
    (p.constEvalInteger condition).andThen fun value =>
      if value = 0 then p.constEvalInteger whenFalse else p.constEvalInteger whenTrue

end

def Program.sizeAlignOfParsedType (p : Program) (type : ParsedType) : Layouts (Nat × Nat) :=
  p.sizeAlign type.head type.derivations

-- Members

def answered (width : Option Int) (layout : Nat × Nat) (isSigned : Bool) : LayoutEnv ParsedType SizeExpr where
  sizeAlignOfParsedType := fun _ => some layout
  constEvalInteger := fun _ => width
  isFlexibleArrayType := fun _ => false
  parsedTypeArrayElementType := id
  isSigned := fun _ => isSigned

abbrev Placed := List CCTagFieldLayout × LayoutState

section
variable (p : Program)

def layoutFirst (packed : Bool) (override : Nat) (field : FieldDecl ParsedType SizeExpr)
    (s : LayoutState) : Layouts Placed :=
  let type := field.first.type
  (p.declaredInfo type).andThen fun info =>
    match field.bitFieldWidth with
    | some widthExpr =>
      (p.constEvalInteger widthExpr).andThen fun width =>
        (p.sizeAlignOfParsedType type).andThen fun layout =>
          .ret (layoutBitfield sizeT (answered (some width) layout info.isSigned)
            (some p.target.toTargetLayout) packed override field.first widthExpr s)
    | none =>
      let flexible := isFlexibleArrayType type
      (p.sizeAlignOfParsedType (if flexible then parsedTypeArrayElementType type else type)).andThen
        fun layout =>
          .ret (layoutMember sizeT (answered none layout info.isSigned) packed override flexible
            field.first s)

def layoutOthers (packed : Bool) (override : Nat) : List (Declarator ParsedType) → LayoutState →
    Layouts Placed
  | [], s => .ret (some ([], s))
  | d :: more, s =>
    (p.sizeAlignOfParsedType d.type).andThen fun layout =>
      (p.declaredInfo d.type).andThen fun info =>
        (Calls.ret (layoutMember sizeT (answered none layout info.isSigned) packed override false d s)
          : Layouts Placed).andThen fun first =>
            (layoutOthers packed override more first.2).andThen fun rest =>
              .ret (some (first.1 ++ rest.1, rest.2))

def layoutFieldsOf (packed : Bool) : List (FieldDecl ParsedType SizeExpr) → LayoutState → Layouts Placed
  | [], s => .ret (some ([], s))
  | field :: fields, s =>
    let attributes := collectAttrLayout field.attributes packed
    (layoutFirst p attributes.1 attributes.2 field s).andThen fun first =>
      (layoutOthers p attributes.1 attributes.2 field.more first.2).andThen fun others =>
        (layoutFieldsOf packed fields others.2).andThen fun rest =>
          .ret (some (first.1 ++ others.1 ++ rest.1, rest.2))

def layoutStruct (d : StructDef ParsedType SizeExpr) : Layouts StructLayout :=
  let attributes := collectAttrLayout d.attributes false
  (layoutFieldsOf p attributes.1 d.fields ⟨0, 1, 0, 0⟩).andThen fun placed =>
    .ret (some (finishLayout sizeT attributes.1 attributes.2 placed.1 placed.2))

structure UnionState where
  layouts : List CCTagFieldLayout
  maxSize : Nat
  maxAlign : Nat

/-- The alignment of a member of a union; unlike in a struct none is put in place of 0. -/
def unionMemberAlign (packed : Bool) (override align : Nat) : Nat :=
  max (if packed then 1 else align) override

def layoutUnionMember (packed : Bool) (override : Nat) (isBitfield : Bool) (d : Declarator ParsedType)
    (u : UnionState) : Layouts UnionState :=
  (p.sizeAlignOfParsedType d.type).andThen fun layout =>
    (p.declaredInfo d.type).andThen fun info =>
      .ret (some
        { layouts := u.layouts ++ [⟨d.name, 0, 0, 0, layout.1, isBitfield, false, info.isSigned⟩]
          maxSize := max u.maxSize layout.1
          maxAlign := max u.maxAlign (unionMemberAlign packed override layout.2) })

def layoutUnionMembers (packed : Bool) (override : Nat) (isBitfield : Bool) :
    List (Declarator ParsedType) → UnionState → Layouts UnionState
  | [], u => .ret (some u)
  | d :: more, u =>
    (layoutUnionMember p packed override isBitfield d u).andThen fun u =>
      layoutUnionMembers packed override isBitfield more u

def layoutUnionFields (packed : Bool) : List (FieldDecl ParsedType SizeExpr) → UnionState →
    Layouts UnionState
  | [], u => .ret (some u)
  | field :: fields, u =>
    let attributes := collectAttrLayout field.attributes packed
    (layoutUnionMembers p attributes.1 attributes.2 field.bitFieldWidth.isSome
      (field.first :: field.more) u).andThen fun u => layoutUnionFields packed fields u

def finishUnion (packed : Bool) (override : Nat) (u : UnionState) : StructLayout :=
  let align := max (if packed && override == 0 then 1 else u.maxAlign) override
  ⟨u.layouts, roundUp sizeT u.maxSize align, align⟩

def layoutUnion (d : StructDef ParsedType SizeExpr) : Layouts StructLayout :=
  let attributes := collectAttrLayout d.attributes false
  (layoutUnionFields p attributes.1 d.fields ⟨[], 0, 1⟩).andThen fun u =>
    .ret (some (finishUnion attributes.1 attributes.2 u))

def layoutRecord (kind : TagKind) (d : StructDef ParsedType SizeExpr) : Layouts StructLayout :=
  match kind with
  | .struct => layoutStruct p d
  | .union => layoutUnion p d

end

-- The table of tags

structure TagRecord where
  isDefined : Bool
  fingerprint : Nat
  definition : Option Nat
  layout : Option (Nat × Nat)
  computingLayout : Bool
  fieldLayouts : List CCTagFieldLayout
  deriving DecidableEq

abbrev Tags := TagKey → Option TagRecord

def Tags.set (tags : Tags) (key : TagKey) (record : TagRecord) : Tags :=
  fun k => if k = key then some record else tags k

def Tags.update (tags : Tags) (key : TagKey) (change : TagRecord → TagRecord) : Tags :=
  match tags key with
  | some record => tags.set key (change record)
  | none => tags

def ccAddTag (tags : Tags) (key : TagKey) : Tags :=
  if (tags key).isSome then tags else tags.set key ⟨false, 0, none, none, false, []⟩

inductive CCTagDefineResult
  | conflict | matching | added
  deriving DecidableEq

def ccDefineTag (tags : Tags) (key : TagKey) (fingerprint : Nat) (definition : Option Nat) :
    CCTagDefineResult × Tags :=
  let record := (tags key).getD ⟨false, 0, none, none, false, []⟩
  if record.isDefined then
    if record.fingerprint = fingerprint then
      (.matching, tags.set key { record with definition := record.definition.or definition })
    else (.conflict, tags)
  else (.added, tags.set key ⟨true, fingerprint, definition, none, false, []⟩)

def ccTagIsDefined (tags : Tags) (key : TagKey) : Bool := (tags key).elim false (·.isDefined)

def ccTagDefinition (tags : Tags) (key : TagKey) : Option Nat := (tags key).bind (·.definition)

def ccGetTagLayout (tags : Tags) (key : TagKey) : Option (Nat × Nat) := (tags key).bind (·.layout)

def ccSetTagLayout (tags : Tags) (key : TagKey) (size align : Nat) : Tags :=
  tags.update key fun record => { record with layout := some (size, align), computingLayout := false }

def ccSetTagFieldLayouts (tags : Tags) (key : TagKey) (layouts : List CCTagFieldLayout) : Tags :=
  tags.update key fun record => { record with fieldLayouts := layouts }

def ccTagMarkComputing (tags : Tags) (key : TagKey) (computing : Bool) : Tags :=
  tags.update key fun record => { record with computingLayout := computing }

def ccTagIsComputing (tags : Tags) (key : TagKey) : Bool := (tags key).elim false (·.computingLayout)

-- Layouts of records

/-- What a call leaves: its value, none for `false`, and the table. A call that does not return
leaves nothing. -/
abbrev Outcome (α : Type) := Option (Option α × Tags)

/-- `size_align_of_typeinfo` enters the inline definition of a tag that has none. -/
def enterInline (p : Program) (ref : RecordRef) (tags : Tags) : Tags :=
  if ccTagIsDefined tags ref.key then tags
  else
    match ref.inlineStructOrUnionDef with
    | none => tags
    | some id =>
      if (p.definitions[id]?).map (·.kind) = some ref.key.kind then
        (ccDefineTag tags ref.key 0 (some id)).2
      else tags

def answerQuery (p : Program) (layoutStructUnion : TagKey → Tags → Outcome (Nat × Nat)) :
    Query → Tags → Outcome (Nat × Nat)
  | .record ref, tags => layoutStructUnion ref.key (enterInline p ref tags)
  | .endless, _ => none

/-- `layout_struct_union` with no more than so many calls one inside the other. -/
def layoutStructUnion (p : Program) : (nested : Nat) → TagKey → Tags → Outcome (Nat × Nat)
  | 0, _, _ => none
  | nested + 1, key, tags =>
    match ccGetTagLayout tags key with
    | some layout => some (some layout, tags)
    | none =>
      if ccTagIsComputing tags key then some (none, tags)
      else
        let marked := ccTagMarkComputing tags key true
        match (ccTagDefinition marked key).bind fun id => p.definitions[id]? with
        | none => some (none, ccTagMarkComputing marked key false)
        | some d =>
          match (layoutRecord p key.kind d.body).attempt
              (answerQuery p (layoutStructUnion p nested)) marked with
          | none => none
          | some (none, tags) => some (none, ccTagMarkComputing tags key false)
          | some (some layout, tags) =>
            let tags := ccSetTagLayout tags key layout.size layout.align
            let tags := ccSetTagFieldLayouts tags key layout.fields
            some (some (layout.size, layout.align), ccTagMarkComputing tags key false)

def Program.run (p : Program) (nested : Nat) (program : Layouts α) (tags : Tags) : Outcome α :=
  program.attempt (answerQuery p (layoutStructUnion p nested)) tags

end Fisics.Records
