import Fisics.Syntax.TargetLayout

/-!
# Struct layout

`layout_struct_fields` goes through the members of a struct with a byte offset, a
bit position in an open storage unit, and the size of that unit. A bit-field joins
the open unit when its bits fit in a unit of its own size; the size of the open
unit is that of the bit-field that opened it.

The sizes of types, the values of width expressions and the signs come from other
parts of the front end: they are the fields of `LayoutEnv`. `size_t` wraps at
2^64: every sum of the source goes through `wrap`, so that the layout with
unbounded sums is the same definition with another `wrap`.
-/

namespace Fisics

/-- The front end's answers about types `τ` and expressions `ε`. -/
structure LayoutEnv (τ ε : Type) where
  /-- `size_align_of_parsed_type`: size and alignment in bytes. -/
  sizeAlignOfParsedType : τ → Option (Nat × Nat)
  /-- `constEvalInteger`. -/
  constEvalInteger : ε → Option Int
  isFlexibleArrayType : τ → Bool
  parsedTypeArrayElementType : τ → τ
  /-- `isSigned` of `typeInfoFromParsedType`. -/
  isSigned : τ → Bool

structure Declarator (τ : Type) where
  name : Option String
  type : τ

structure FieldDecl (τ ε : Type) where
  /-- The payloads of the attributes. -/
  attributes : List (List Char)
  bitFieldWidth : Option ε
  first : Declarator τ
  more : List (Declarator τ)

structure StructDef (τ ε : Type) where
  attributes : List (List Char)
  fields : List (FieldDecl τ ε)

structure CCTagFieldLayout where
  name : Option String
  byteOffset : Nat
  bitOffset : Nat
  widthBits : Nat
  storageUnitBytes : Nat
  isBitfield : Bool
  isZeroWidth : Bool
  isSigned : Bool
  deriving DecidableEq, Inhabited

-- Attributes

def strstr (needle : List Char) : List Char → Option (List Char)
  | [] => if needle.isEmpty then some [] else none
  | c :: rest =>
    if needle.isPrefixOf (c :: rest) then some (c :: rest) else strstr needle rest

/-- `strtol` at base 10 without a sign: the value of the digits, at most
`LONG_MAX`. -/
def strtolDigits (text : List Char) : Option Nat :=
  let digits := text.takeWhile Char.isDigit
  if digits.isEmpty then none
  else some (min (digits.foldl (fun n c => n * 10 + (c.toNat - '0'.toNat)) 0) (2 ^ 63 - 1))

/-- `isspace`. -/
def isSpace (c : Char) : Bool := c == ' ' || ('\t' ≤ c && c ≤ '\r')

/-- The number in `aligned(…)`; a negative number and zero do not count. -/
def alignedValue (text : List Char) : Option Nat :=
  (strstr "aligned".toList text).bind fun aligned =>
    match aligned.dropWhile (· != '(') with
    | [] => none
    | _ :: rest =>
      let rest := rest.dropWhile isSpace
      let rest := if rest.head? = some '+' then rest.tail else rest
      (strtolDigits rest).filter (0 < ·)

def collectAttrLayout (attributes : List (List Char)) (packed : Bool) : Bool × Nat :=
  attributes.foldl (fun (packed, align) text =>
    (packed || (strstr "packed".toList text).isSome, max align ((alignedValue text).getD 0)))
    (packed, 0)

-- The state

structure LayoutState where
  offset : Nat
  maxAlign : Nat
  /-- The bit position in the open storage unit; 0 when none is open. -/
  bitOffset : Nat
  currentUnitSize : Nat
  deriving DecidableEq

def sizeT (n : Nat) : Nat := n % 2 ^ 64

section
variable (wrap : Nat → Nat)

def roundUp (value align : Nat) : Nat :=
  if align = 0 ∨ value % align = 0 then value else wrap (value + (align - value % align))

def LayoutState.flush (s : LayoutState) : LayoutState :=
  if 0 < s.bitOffset then
    { s with offset := wrap (s.offset + s.currentUnitSize), bitOffset := 0, currentUnitSize := 0 }
  else s

def memberAlign (packed : Bool) (override align : Nat) : Nat :=
  max (if packed || align == 0 then 1 else align) override

/-- An ordinary member of `size` bytes, 0 for a flexible array: its byte offset
and the state behind it. -/
def placeMember (s : LayoutState) (align size : Nat) : Nat × LayoutState :=
  let s := s.flush wrap
  let start := roundUp wrap s.offset align
  (start, { s with offset := wrap (start + size), maxAlign := max s.maxAlign align })

structure BitUnit where
  bits : Nat
  align : Nat
  bytes : Nat

def bitUnit (tl : Option TargetLayout) (packed : Bool) (override size align : Nat) : BitUnit :=
  let bits := max (wrap (size * 8)) ((tl.map (·.bitfieldUnitBits)).getD 0)
  let align := max align ((tl.map (·.bitfieldUnitAlign)).getD 0)
  let align := max (if packed then 1 else align) override
  ⟨bits, if align = 0 then 1 else align, max (wrap (bits + 7) / 8) 1⟩

def placeSeparator (s : LayoutState) (unit : BitUnit) : Nat × LayoutState :=
  let offset := roundUp wrap s.offset unit.align
  let offset := if 0 < s.bitOffset then wrap (offset + s.currentUnitSize) else offset
  let offset := roundUp wrap offset unit.align
  (offset, ⟨offset, max s.maxAlign unit.align, 0, 0⟩)

def openUnit (s : LayoutState) (unit : BitUnit) (width : Nat) : LayoutState :=
  let offset := roundUp wrap s.offset unit.align
  let maxAlign := max s.maxAlign unit.align
  let currentUnitSize := if s.bitOffset = 0 then unit.bytes else s.currentUnitSize
  if unit.bits < wrap (s.bitOffset + width) then
    ⟨wrap (offset + currentUnitSize), maxAlign, 0, unit.bytes⟩
  else ⟨offset, maxAlign, s.bitOffset, currentUnitSize⟩

def placeBitfield (endianness : TargetEndianness) (s : LayoutState) (unit : BitUnit)
    (width : Nat) : Nat × Nat × LayoutState :=
  let s := openUnit wrap s unit width
  let bitOffset := match endianness with
    | .little => s.bitOffset
    | .big => unit.bits - width - s.bitOffset
  let next := { s with bitOffset := wrap (s.bitOffset + width) }
  (s.offset, bitOffset,
    if next.bitOffset = unit.bits then
      { s with offset := wrap (s.offset + s.currentUnitSize), bitOffset := 0, currentUnitSize := 0 }
    else next)

-- The loop

section
variable (env : LayoutEnv τ ε) (tl : Option TargetLayout)

abbrev LayoutStep := Option (List CCTagFieldLayout × LayoutState)

def layoutBitfield (packed : Bool) (override : Nat) (d : Declarator τ) (width : ε)
    (s : LayoutState) : LayoutStep :=
  (env.constEvalInteger width).bind fun width =>
    (env.sizeAlignOfParsedType d.type).bind fun (size, align) =>
      if size = 0 then none
      else
        let unit := bitUnit wrap tl packed override size align
        if width = 0 then
          let (start, s) := placeSeparator wrap s unit
          some ([⟨d.name, start, 0, 0, unit.bytes, true, true, env.isSigned d.type⟩], s)
        -- a negative width is a very large `size_t`
        else if width < 0 ∨ unit.bits < width.toNat then none
        else
          let endianness := (tl.map (·.endianness)).getD .little
          let (start, bit, s) := placeBitfield wrap endianness s unit width.toNat
          some ([⟨d.name, start, bit, width.toNat, unit.bytes, true, false, env.isSigned d.type⟩], s)

def layoutMember (packed : Bool) (override : Nat) (flexible : Bool) (d : Declarator τ)
    (s : LayoutState) : LayoutStep :=
  let type := if flexible then env.parsedTypeArrayElementType d.type else d.type
  (env.sizeAlignOfParsedType type).map fun (size, align) =>
    let size := if flexible then 0 else size
    let (start, s) := placeMember wrap s (memberAlign packed override align) size
    ([⟨d.name, start, 0, 0, size, false, false, env.isSigned d.type⟩], s)

/-- The other declarators of a declaration are laid out as ordinary members. -/
def layoutMore (packed : Bool) (override : Nat) : List (Declarator τ) → LayoutState → LayoutStep
  | [], s => some ([], s)
  | d :: more, s =>
    (layoutMember wrap env packed override false d s).bind fun (layouts, s) =>
      (layoutMore packed override more s).map fun (rest, s) => (layouts ++ rest, s)

def layoutField (packed : Bool) (field : FieldDecl τ ε) (s : LayoutState) : LayoutStep :=
  let (packed, override) := collectAttrLayout field.attributes packed
  let first := match field.bitFieldWidth with
    | some width => layoutBitfield wrap env tl packed override field.first width s
    | none => layoutMember wrap env packed override (env.isFlexibleArrayType field.first.type)
        field.first s
  first.bind fun (layouts, s) =>
    (layoutMore wrap env packed override field.more s).map fun (rest, s) => (layouts ++ rest, s)

def layoutFields (packed : Bool) : List (FieldDecl τ ε) → LayoutState → LayoutStep
  | [], s => some ([], s)
  | field :: fields, s =>
    (layoutField wrap env tl packed field s).bind fun (layouts, s) =>
      (layoutFields packed fields s).map fun (rest, s) => (layouts ++ rest, s)

structure StructLayout where
  fields : List CCTagFieldLayout
  size : Nat
  align : Nat
  deriving DecidableEq

def finishLayout (packed : Bool) (override : Nat) (layouts : List CCTagFieldLayout)
    (s : LayoutState) : StructLayout :=
  let s := s.flush wrap
  let align := max (if packed && override == 0 then 1 else s.maxAlign) override
  ⟨layouts, roundUp wrap s.offset align, align⟩

def layoutStructWith (d : StructDef τ ε) : Option StructLayout :=
  let (packed, override) := collectAttrLayout d.attributes false
  (layoutFields wrap env tl packed d.fields ⟨0, 1, 0, 0⟩).map fun (layouts, s) =>
    finishLayout wrap packed override layouts s

end

end

/-- `layout_struct_fields`. -/
def layoutStructFields (env : LayoutEnv τ ε) (tl : Option TargetLayout) (d : StructDef τ ε) :
    Option StructLayout :=
  layoutStructWith sizeT env tl d

end Fisics
