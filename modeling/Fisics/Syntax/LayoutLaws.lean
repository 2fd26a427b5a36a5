import Fisics.Syntax.Layout

/-!
# Where the members of a struct lie

The open unit keeps the size of the bit-field that opened it, also when a
bit-field with a larger unit joins it and reaches past its end. When the unit is
closed the offset moves by its size only, and the bits that stick out are free for
the next member: they are its *spill*.

The members of a struct lie apart, in order and inside it exactly when the padding
in front of the next member, or at the end of the struct, skips every spill. The
proof goes through the list of placements that the loops make.
-/

namespace Fisics

open Option (bind_eq_some_iff map_eq_some_iff map_map)

-- Spans

structure BitSpan where
  start : Nat
  width : Nat

def BitSpan.Has (span : BitSpan) (n : Nat) : Prop := span.start ≤ n ∧ n < span.start + span.width

def CCTagFieldLayout.span (l : CCTagFieldLayout) : BitSpan :=
  ⟨8 * l.byteOffset + l.bitOffset, if l.isBitfield then l.widthBits else 8 * l.storageUnitBytes⟩

structure MembersApart (layout : StructLayout) : Prop where
  ordered : layout.fields.Pairwise
    (fun a b => ∀ n m, a.span.Has n → b.span.Has m → n < m)
  inside : ∀ l ∈ layout.fields, ∀ n, l.span.Has n → n < 8 * layout.size

/-- The spans with bits follow one another from `reach` on, up to `limit`. -/
def Ascending (limit : Nat) : (reach : Nat) → List BitSpan → Prop
  | reach, [] => reach ≤ limit
  | reach, span :: rest =>
    if span.width = 0 then Ascending limit reach rest
    else reach ≤ span.start ∧ Ascending limit (span.start + span.width) rest

theorem BitSpan.has_start {span : BitSpan} (h : span.width ≠ 0) : span.Has span.start :=
  ⟨Nat.le_refl _, Nat.lt_add_of_pos_right (Nat.pos_of_ne_zero h)⟩

theorem BitSpan.has_last {span : BitSpan} (h : span.width ≠ 0) : span.Has (span.start + (span.width - 1)) :=
  ⟨Nat.le_add_right _ _, Nat.add_lt_add_left (Nat.sub_one_lt h) _⟩

theorem ascending_iff (spans : List BitSpan) (reach : Nat) :
    Ascending limit reach spans ↔
      reach ≤ limit ∧ (∀ span ∈ spans, ∀ n, span.Has n → reach ≤ n ∧ n < limit) ∧
        spans.Pairwise (fun a b => ∀ n m, a.Has n → b.Has m → n < m) := by
  induction spans generalizing reach with
  | nil => simp [Ascending]
  | cons span rest ih =>
    rw [Ascending, List.pairwise_cons]
    split
    · rename_i hempty
      have hnone : ∀ n, ¬span.Has n := by
        rintro n ⟨hle, hlt⟩
        rw [hempty] at hlt
        exact absurd hle (Nat.not_le_of_lt hlt)
      rw [ih reach]
      constructor
      · rintro ⟨hlimit, hrest, hpair⟩
        refine ⟨hlimit, ?_, fun b _ n m hn => absurd hn (hnone n), hpair⟩
        intro a ha n hn
        obtain rfl | ha := List.mem_cons.mp ha
        · exact absurd hn (hnone n)
        · exact hrest a ha n hn
      · rintro ⟨hlimit, hall, -, hpair⟩
        exact ⟨hlimit, fun a ha => hall a (List.mem_cons_of_mem _ ha), hpair⟩
    · rename_i hne
      rw [ih (span.start + span.width)]
      constructor
      · rintro ⟨hstart, hlimit, hrest, hpair⟩
        refine ⟨?_, ?_, ?_, hpair⟩
        · exact Nat.le_trans hstart (Nat.le_trans (Nat.le_add_right _ _) hlimit)
        · intro a ha n hn
          obtain rfl | ha := List.mem_cons.mp ha
          · exact ⟨Nat.le_trans hstart hn.1, Nat.lt_of_lt_of_le hn.2 hlimit⟩
          · obtain ⟨hreach, hlt⟩ := hrest a ha n hn
            exact ⟨Nat.le_trans hstart (Nat.le_trans (Nat.le_add_right _ _) hreach), hlt⟩
        · intro b hb n m hn hm
          exact Nat.lt_of_lt_of_le hn.2 (hrest b hb m hm).1
      · rintro ⟨-, hall, hfirst, hpair⟩
        have hlast := (hall span List.mem_cons_self _ (BitSpan.has_last hne)).2
        refine ⟨(hall span List.mem_cons_self _ (BitSpan.has_start hne)).1, ?_, ?_, hpair⟩
        · omega
        · intro b hb m hm
          have hlt := hfirst b hb _ m (BitSpan.has_last hne) hm
          exact ⟨by omega, (hall b (List.mem_cons_of_mem _ hb) m hm).2⟩

theorem membersApart_iff (layout : StructLayout) :
    MembersApart layout ↔ Ascending (8 * layout.size) 0 (layout.fields.map CCTagFieldLayout.span) := by
  rw [ascending_iff, List.pairwise_map]
  constructor
  · rintro ⟨hordered, hinside⟩
    refine ⟨Nat.zero_le _, ?_, hordered⟩
    intro span hspan n hn
    obtain ⟨l, hl, rfl⟩ := List.mem_map.mp hspan
    exact ⟨Nat.zero_le _, hinside l hl n hn⟩
  · rintro ⟨-, hinside, hordered⟩
    exact ⟨hordered, fun l hl n hn => (hinside _ (List.mem_map_of_mem hl) n hn).2⟩

theorem ascending_max (reach : Nat) (hbits : ∀ span ∈ spans, span.width ≠ 0 → low ≤ span.start)
    (hlimit : low ≤ limit) :
    Ascending limit (max reach low) spans ↔ Ascending limit reach spans := by
  induction spans with
  | nil => simp only [Ascending, Nat.max_le, hlimit, and_true]
  | cons span rest ih =>
    rw [Ascending, Ascending]
    split
    · exact ih fun a ha => hbits a (List.mem_cons_of_mem _ ha)
    rename_i hne
    simp only [Nat.max_le, hbits span List.mem_cons_self hne, and_true]

-- Placements

inductive Placement
  | member (align size : Nat)
  | separator (unit : BitUnit)
  | bits (unit : BitUnit) (width : Nat)

section
variable (wrap : Nat → Nat)

def Placement.place (s : LayoutState) : Placement → BitSpan × LayoutState
  | .member align size =>
    let (start, s) := placeMember wrap s align size
    (⟨8 * start, 8 * size⟩, s)
  | .separator unit =>
    let (start, s) := placeSeparator wrap s unit
    (⟨8 * start, 0⟩, s)
  | .bits unit width =>
    let (start, bit, s) := placeBitfield wrap .little s unit width
    (⟨8 * start + bit, width⟩, s)

def placeAll (s : LayoutState) : List Placement → List BitSpan × LayoutState
  | [] => ([], s)
  | p :: ps =>
    let (span, s) := p.place wrap s
    let (spans, s) := placeAll s ps
    (span :: spans, s)

theorem placeAll_append (s : LayoutState) (ps qs : List Placement) :
    placeAll wrap s (ps ++ qs) =
      ((placeAll wrap s ps).1 ++ (placeAll wrap (placeAll wrap s ps).2 qs).1,
        (placeAll wrap (placeAll wrap s ps).2 qs).2) := by
  induction ps generalizing s with
  | nil => rfl
  | cons p ps ih => simp only [List.cons_append, placeAll, ih]

variable (env : LayoutEnv τ ε) (tl : Option TargetLayout)

def bitfieldPlacement (packed : Bool) (override : Nat) (d : Declarator τ) (width : ε) :
    Option Placement :=
  (env.constEvalInteger width).bind fun width =>
    (env.sizeAlignOfParsedType d.type).bind fun (size, align) =>
      let unit := bitUnit wrap tl packed override size align
      if size = 0 then none
      else if width = 0 then some (.separator unit)
      else if width < 0 ∨ unit.bits < width.toNat then none
      else some (.bits unit width.toNat)

def memberPlacement (packed : Bool) (override : Nat) (flexible : Bool) (d : Declarator τ) :
    Option Placement :=
  (env.sizeAlignOfParsedType (if flexible then env.parsedTypeArrayElementType d.type else d.type)).map
    fun (size, align) => .member (memberAlign packed override align) (if flexible then 0 else size)

def morePlacements (packed : Bool) (override : Nat) : List (Declarator τ) → Option (List Placement)
  | [] => some []
  | d :: more =>
    (memberPlacement env packed override false d).bind fun p =>
      (morePlacements packed override more).map (p :: ·)

def fieldPlacements (packed : Bool) (field : FieldDecl τ ε) : Option (List Placement) :=
  let (packed, override) := collectAttrLayout field.attributes packed
  let first := match field.bitFieldWidth with
    | some width => bitfieldPlacement wrap env tl packed override field.first width
    | none => memberPlacement env packed override (env.isFlexibleArrayType field.first.type) field.first
  first.bind fun p => (morePlacements env packed override field.more).map (p :: ·)

def fieldsPlacements (packed : Bool) : List (FieldDecl τ ε) → Option (List Placement)
  | [] => some []
  | field :: fields =>
    (fieldPlacements wrap env tl packed field).bind fun ps =>
      (fieldsPlacements packed fields).map (ps ++ ·)

def LayoutStep.spans (step : LayoutStep) : Option (List BitSpan × LayoutState) :=
  step.map fun (layouts, s) => (layouts.map CCTagFieldLayout.span, s)

variable {wrap} {env} {tl}

theorem layoutMember_spans (packed : Bool) (override : Nat) (flexible : Bool) (d : Declarator τ)
    (s : LayoutState) :
    (layoutMember wrap env packed override flexible d s).spans =
      (memberPlacement env packed override flexible d).map
        (fun p => ([(p.place wrap s).1], (p.place wrap s).2)) := by
  simp only [layoutMember, memberPlacement, LayoutStep.spans, map_map]
  rfl

theorem layoutBitfield_spans (hlittle : (tl.map (·.endianness)).getD .little = .little)
    (packed : Bool) (override : Nat) (d : Declarator τ) (width : ε) (s : LayoutState) :
    (layoutBitfield wrap env tl packed override d width s).spans =
      (bitfieldPlacement wrap env tl packed override d width).map
        (fun p => ([(p.place wrap s).1], (p.place wrap s).2)) := by
  simp only [layoutBitfield, bitfieldPlacement, LayoutStep.spans, hlittle]
  cases env.constEvalInteger width with
  | none => rfl
  | some width => ?_
  cases env.sizeAlignOfParsedType d.type with
  | none => rfl
  | some sizeAlign => ?_
  simp only [Option.bind_some]
  split
  · rfl
  split
  · rfl
  · split <;> rfl

theorem spans_bind {x : LayoutStep} {ps : Option (List Placement)} {y : LayoutState → LayoutStep}
    {qs : Option (List Placement)} (hx : x.spans = ps.map (placeAll wrap s))
    (hy : ∀ s, (y s).spans = qs.map (placeAll wrap s)) :
    LayoutStep.spans (x.bind fun (layouts, s) => (y s).map fun (rest, s) => (layouts ++ rest, s)) =
      (ps.bind fun ps => qs.map (ps ++ ·)).map (placeAll wrap s) := by
  cases ps with
  | none =>
    rw [LayoutStep.spans, Option.map_none, Option.map_eq_none_iff] at hx
    rw [hx]
    rfl
  | some ps => ?_
  obtain ⟨⟨layouts, s'⟩, rfl, hspans⟩ := map_eq_some_iff.mp hx
  rw [Prod.mk.injEq] at hspans
  obtain ⟨hlayouts, rfl⟩ := hspans
  have hrest := hy (placeAll wrap s ps).2
  simp only [Option.bind_some]
  cases qs with
  | none =>
    rw [LayoutStep.spans, Option.map_none, Option.map_eq_none_iff] at hrest
    rw [hrest]
    rfl
  | some qs => ?_
  obtain ⟨⟨more, s''⟩, hmore, hspans'⟩ := map_eq_some_iff.mp hrest
  rw [Prod.mk.injEq] at hspans'
  simp only [LayoutStep.spans, hmore, Option.map_some, List.map_append, hlayouts, hspans'.1,
    hspans'.2, placeAll_append]

theorem layoutMore_spans (packed : Bool) (override : Nat) (more : List (Declarator τ)) (s : LayoutState) :
    (layoutMore wrap env packed override more s).spans =
      (morePlacements env packed override more).map (placeAll wrap s) := by
  induction more generalizing s with
  | nil => rfl
  | cons d more ih =>
    have hfirst : (layoutMember wrap env packed override false d s).spans =
        ((memberPlacement env packed override false d).map ([·])).map (placeAll wrap s) := by
      rw [layoutMember_spans, map_map]
      rfl
    rw [layoutMore, spans_bind hfirst ih, morePlacements]
    cases memberPlacement env packed override false d <;> rfl

theorem layoutField_spans (hlittle : (tl.map (·.endianness)).getD .little = .little)
    (packed : Bool) (field : FieldDecl τ ε) (s : LayoutState) :
    (layoutField wrap env tl packed field s).spans =
      (fieldPlacements wrap env tl packed field).map (placeAll wrap s) := by
  unfold layoutField fieldPlacements
  obtain ⟨packed', override⟩ := collectAttrLayout field.attributes packed
  cases field.bitFieldWidth with
  | some width =>
    have hfirst : (layoutBitfield wrap env tl packed' override field.first width s).spans =
        ((bitfieldPlacement wrap env tl packed' override field.first width).map ([·])).map
          (placeAll wrap s) := by
      rw [layoutBitfield_spans hlittle, map_map]
      rfl
    dsimp only
    rw [spans_bind hfirst (layoutMore_spans packed' override field.more)]
    cases bitfieldPlacement wrap env tl packed' override field.first width <;> rfl
  | none =>
    have hfirst : (layoutMember wrap env packed' override (env.isFlexibleArrayType field.first.type)
          field.first s).spans =
        ((memberPlacement env packed' override (env.isFlexibleArrayType field.first.type)
          field.first).map ([·])).map (placeAll wrap s) := by
      rw [layoutMember_spans, map_map]
      rfl
    dsimp only
    rw [spans_bind hfirst (layoutMore_spans packed' override field.more)]
    cases memberPlacement env packed' override (env.isFlexibleArrayType field.first.type) field.first <;>
      rfl

theorem layoutFields_spans (hlittle : (tl.map (·.endianness)).getD .little = .little)
    (packed : Bool) (fields : List (FieldDecl τ ε)) (s : LayoutState) :
    (layoutFields wrap env tl packed fields s).spans =
      (fieldsPlacements wrap env tl packed fields).map (placeAll wrap s) := by
  induction fields generalizing s with
  | nil => rfl
  | cons field fields ih =>
    rw [layoutFields, spans_bind (layoutField_spans hlittle packed field s) ih, fieldsPlacements]

end

-- Spills

def LayoutState.next (s : LayoutState) : Nat :=
  s.offset + if 0 < s.bitOffset then s.currentUnitSize else 0

/-- How many bits are in use past that: bits of the open unit that do not lie in
it, or else the spill of the last one. -/
def LayoutState.overhang (s : LayoutState) (spill : Nat) : Nat :=
  if 0 < s.bitOffset then s.bitOffset - 8 * s.currentUnitSize else spill

/-- A bit-field with room left for it in the open unit, by the size of its own
unit. -/
def Placement.joins (s : LayoutState) : Placement → Bool
  | .bits unit width => 0 < s.bitOffset && s.bitOffset + width ≤ unit.bits
  | _ => false

def Placement.isEmpty : Placement → Bool
  | .member _ size => size == 0
  | .separator _ => true
  | .bits _ _ => false

def Placement.padding (s : LayoutState) : Placement → Nat
  | .member align _ => roundUp id s.next align - s.next
  | .separator unit =>
    let padding := roundUp id s.offset unit.align - s.offset
    roundUp id (s.next + padding) unit.align - s.next
  | .bits unit _ => roundUp id s.offset unit.align - s.offset

/-- No bits of the placement lie among the bits that stick out in front of it. -/
def Placement.Skips (s : LayoutState) (spill : Nat) (p : Placement) : Prop :=
  p.isEmpty ∨ p.joins s ∨ s.overhang spill ≤ 8 * p.padding s

def Placement.spill (s : LayoutState) (spill : Nat) (p : Placement) : Nat :=
  match p with
  | .bits unit width =>
    if p.joins s ∧ s.bitOffset + width = unit.bits then unit.bits - 8 * s.currentUnitSize else 0
  | _ => if p.isEmpty then s.overhang spill - 8 * p.padding s else 0

/-- The padding in front of each placement, and that at the end of the struct,
skips the spill. -/
def SpillsSkipped (packed : Bool) (override : Nat) : (spill : Nat) → LayoutState →
    List Placement → Prop
  | spill, s, [] =>
    s.overhang spill ≤ 8 * ((finishLayout id packed override [] s).size - s.next)
  | spill, s, p :: ps =>
    p.Skips s spill ∧ SpillsSkipped packed override (p.spill s spill) (p.place id s).2 ps

instance (s : LayoutState) (spill : Nat) (p : Placement) : Decidable (p.Skips s spill) :=
  inferInstanceAs (Decidable (_ ∨ _ ∨ _))

instance decidableSpillsSkipped (packed : Bool) (override : Nat) : (spill : Nat) →
    (s : LayoutState) → (ps : List Placement) →
    Decidable (SpillsSkipped packed override spill s ps)
  | _, _, [] => inferInstanceAs (Decidable (_ ≤ _))
  | spill, s, p :: ps =>
    have := decidableSpillsSkipped packed override (p.spill s spill) (p.place id s).2 ps
    inferInstanceAs (Decidable (_ ∧ _))

/-- The end of the bits in use. -/
def LayoutState.taken (s : LayoutState) (spill : Nat) : Nat :=
  8 * s.offset + if 0 < s.bitOffset then s.bitOffset else spill

theorem le_roundUp (value align : Nat) : value ≤ roundUp id value align := by
  unfold roundUp
  split
  · exact Nat.le_refl _
  · exact Nat.le_add_right _ _

theorem LayoutState.flush_le (s : LayoutState) : s.offset ≤ (s.flush id).offset := by
  unfold LayoutState.flush
  split
  · exact Nat.le_add_right _ _
  · exact Nat.le_refl _

theorem LayoutState.flush_closed (s : LayoutState) : (s.flush id).bitOffset = 0 := by
  unfold LayoutState.flush
  split
  · rfl
  rename_i hclosed
  exact Nat.eq_zero_of_not_pos hclosed

theorem openUnit_le (s : LayoutState) (unit : BitUnit) (width : Nat) :
    s.offset ≤ (openUnit id s unit width).offset := by
  have h := le_roundUp s.offset unit.align
  unfold openUnit
  dsimp only
  split
  · exact Nat.le_trans h (Nat.le_add_right _ _)
  · exact h

theorem Placement.place_le (s : LayoutState) (p : Placement) :
    8 * s.offset ≤ (p.place id s).1.start ∧ s.offset ≤ (p.place id s).2.offset := by
  cases p with
  | member align size =>
    have h := Nat.le_trans s.flush_le (le_roundUp (s.flush id).offset align)
    exact ⟨Nat.mul_le_mul_left 8 h, Nat.le_trans h (Nat.le_add_right _ _)⟩
  | separator unit =>
    have h : s.offset ≤ (placeSeparator id s unit).1 := by
      refine Nat.le_trans ?_ (le_roundUp _ unit.align)
      split
      · exact Nat.le_trans (le_roundUp _ _) (Nat.le_add_right _ _)
      · exact le_roundUp _ _
    exact ⟨Nat.mul_le_mul_left 8 h, h⟩
  | bits unit width =>
    have h := openUnit_le s unit width
    refine ⟨Nat.le_trans (Nat.mul_le_mul_left 8 h) (Nat.le_add_right _ _), ?_⟩
    simp only [Placement.place, placeBitfield]
    split
    · exact Nat.le_trans h (Nat.le_add_right _ _)
    · exact h

theorem finishLayout_le (packed : Bool) (override : Nat) (s : LayoutState) :
    s.offset ≤ (finishLayout id packed override [] s).size :=
  Nat.le_trans s.flush_le (le_roundUp _ _)

theorem placeAll_le (packed : Bool) (override : Nat) (s : LayoutState) (ps : List Placement) :
    (∀ span ∈ (placeAll id s ps).1, 8 * s.offset ≤ span.start) ∧
      8 * s.offset ≤ 8 * (finishLayout id packed override [] (placeAll id s ps).2).size := by
  induction ps generalizing s with
  | nil => exact ⟨by simp [placeAll], Nat.mul_le_mul_left 8 (finishLayout_le packed override s)⟩
  | cons p ps ih =>
    obtain ⟨hstart, hoffset⟩ := p.place_le s
    obtain ⟨hrest, hend⟩ := ih (p.place id s).2
    have hoffset := Nat.mul_le_mul_left 8 hoffset
    refine ⟨?_, Nat.le_trans hoffset hend⟩
    intro span hspan
    obtain rfl | hspan := List.mem_cons.mp hspan
    · exact hstart
    · exact Nat.le_trans hoffset (hrest span hspan)

/-- A bit-field has bits, and a unit with room for them. -/
def Placement.Ok : Placement → Prop
  | .bits unit width => 0 < width ∧ width ≤ unit.bits ∧ unit.bits ≤ 8 * unit.bytes
  | _ => True

theorem LayoutState.flush_offset (s : LayoutState) : (s.flush id).offset = s.next := by
  unfold LayoutState.flush LayoutState.next
  split <;> rfl

theorem LayoutState.taken_le (s : LayoutState) (spill n : Nat) (hn : s.next ≤ n) :
    s.taken spill ≤ 8 * n ↔ s.overhang spill ≤ 8 * (n - s.next) := by
  unfold LayoutState.taken LayoutState.overhang LayoutState.next at *
  split <;> simp_all <;> omega

theorem LayoutState.taken_sub (s : LayoutState) (spill n : Nat) :
    s.taken spill - 8 * (s.next + n) = s.overhang spill - 8 * n := by
  unfold LayoutState.taken LayoutState.overhang LayoutState.next
  split <;> omega

theorem Placement.next_le (s : LayoutState) (p : Placement) :
    s.next ≤ s.next + p.padding s := Nat.le_add_right _ _

theorem Placement.place_start (hok : Placement.Ok p) (hjoins : p.joins s = false) :
    (p.place id s).1.start = 8 * (s.next + p.padding s) := by
  cases p with
  | member align size =>
    have h := le_roundUp s.next align
    simp only [Placement.place, placeMember, Placement.padding, s.flush_offset]
    omega
  | separator unit =>
    have h := le_roundUp s.offset unit.align
    have h' := le_roundUp (s.next + (roundUp id s.offset unit.align - s.offset)) unit.align
    have hnext : (if 0 < s.bitOffset then roundUp id s.offset unit.align + s.currentUnitSize
        else roundUp id s.offset unit.align) =
        s.next + (roundUp id s.offset unit.align - s.offset) := by
      unfold LayoutState.next
      split <;> omega
    simp only [Placement.place, placeSeparator, Placement.padding, id_eq, hnext]
    omega
  | bits unit width =>
    have h := le_roundUp s.offset unit.align
    obtain ⟨hpos, hwidth, -⟩ := hok
    simp only [Placement.joins, Bool.and_eq_false_imp, decide_eq_true_eq, decide_eq_false_iff_not,
      Nat.not_le] at hjoins
    simp only [Placement.place, placeBitfield, openUnit, Placement.padding, LayoutState.next, id_eq]
    by_cases hopen : 0 < s.bitOffset
    · simp only [hopen, hjoins hopen, Nat.ne_of_gt hopen, ↓reduceIte]
      omega
    have hzero := Nat.eq_zero_of_not_pos hopen
    have hroom : ¬unit.bits < width := Nat.not_lt_of_le hwidth
    simp only [hzero, hroom, Nat.zero_add, Nat.lt_irrefl, ↓reduceIte]
    omega

theorem Placement.place_joins (hjoins : Placement.joins s p = true) (spill : Nat) :
    s.taken spill ≤ (p.place id s).1.start := by
  cases p with
  | bits unit width =>
    have h := le_roundUp s.offset unit.align
    simp only [Placement.joins, Bool.and_eq_true, decide_eq_true_eq] at hjoins
    simp only [Placement.place, placeBitfield, openUnit, LayoutState.taken, id_eq, hjoins.1,
      Nat.not_lt_of_le hjoins.2, ↓reduceIte]
    omega
  | _ => simp [Placement.joins] at hjoins

theorem Placement.width_eq_zero (hok : Placement.Ok p) : (p.place id s).1.width = 0 ↔ p.isEmpty = true := by
  cases p with
  | member align size =>
    simp only [Placement.place, placeMember, Placement.isEmpty, beq_iff_eq]
    omega
  | separator unit => simp [Placement.place, placeSeparator, Placement.isEmpty]
  | bits unit width =>
    have hne : width ≠ 0 := Nat.ne_of_gt hok.1
    simp [Placement.place, placeBitfield, Placement.isEmpty, hne]

theorem Placement.skips_iff (hok : Placement.Ok p) (spill : Nat) :
    p.Skips s spill ↔ (p.place id s).1.width = 0 ∨ s.taken spill ≤ (p.place id s).1.start := by
  rw [Placement.Skips, Placement.width_eq_zero hok]
  cases hjoins : p.joins s with
  | true => simp only [true_or, or_true, Placement.place_joins hjoins spill]
  | false =>
    rw [Placement.place_start hok hjoins, s.taken_le spill _ (p.next_le s), Nat.add_sub_cancel_left]
    simp

theorem Placement.spill_eq (hok : Placement.Ok p) (hclosed : (p.place id s).2.bitOffset = 0) (spill : Nat) :
    p.spill s spill =
      (if (p.place id s).1.width = 0 then s.taken spill
        else (p.place id s).1.start + (p.place id s).1.width) - 8 * (p.place id s).2.offset := by
  cases p with
  | member align size =>
    have hstart := Placement.place_start (s := s) hok (p := .member align size) rfl
    have hoffset : 8 * (Placement.place id s (.member align size)).2.offset =
        (Placement.place id s (.member align size)).1.start + 8 * size := Nat.mul_add 8 _ _
    have hwidth : (Placement.place id s (.member align size)).1.width = 8 * size := rfl
    rw [hoffset, hstart, hwidth]
    by_cases hsize : size = 0
    · simp only [Placement.spill, Placement.isEmpty, hsize, BEq.rfl, Nat.mul_zero, Nat.add_zero,
        ↓reduceIte, s.taken_sub]
    have hwidth : 8 * size ≠ 0 := Nat.mul_ne_zero (by decide) hsize
    rw [if_neg hwidth, Nat.sub_self]
    simp [Placement.spill, Placement.isEmpty, hsize]
  | separator unit =>
    have hstart := Placement.place_start (s := s) hok (p := .separator unit) rfl
    have hoffset : 8 * (Placement.place id s (.separator unit)).2.offset =
        (Placement.place id s (.separator unit)).1.start := rfl
    have hwidth : (Placement.place id s (.separator unit)).1.width = 0 := rfl
    rw [hoffset, hstart, hwidth]
    simp only [Placement.spill, Placement.isEmpty, ↓reduceIte, s.taken_sub]
  | bits unit width =>
    obtain ⟨hpos, hwidth, hbytes⟩ := hok
    have hne : width ≠ 0 := Nat.ne_of_gt hpos
    simp only [Placement.place, placeBitfield, id_eq] at hclosed ⊢
    have hfull : (openUnit id s unit width).bitOffset + width = unit.bits := by
      refine Decidable.byContradiction fun hfull => ?_
      rw [if_neg hfull] at hclosed
      exact hne (Nat.eq_zero_of_add_eq_zero hclosed).2
    simp only [hfull, hne, ↓reduceIte, Placement.spill, Placement.joins]
    unfold openUnit at *
    dsimp only [id_eq] at *
    by_cases hopen : 0 < s.bitOffset
    · have hne' := Nat.ne_of_gt hopen
      split at hfull <;> simp_all <;> omega
    have hzero := Nat.eq_zero_of_not_pos hopen
    have hroom : ¬unit.bits < width := Nat.not_lt_of_le hwidth
    simp_all
    omega

theorem Placement.taken_after (s : LayoutState) (spill : Nat) (p : Placement) (hp : p.Ok) :
    (p.place id s).2.taken (p.spill s spill) =
      max (if (p.place id s).1.width = 0 then s.taken spill
        else (p.place id s).1.start + (p.place id s).1.width) (8 * (p.place id s).2.offset) ∨
      (p.place id s).1.width ≠ 0 ∧ (p.place id s).2.taken (p.spill s spill) =
        (p.place id s).1.start + (p.place id s).1.width := by
  have hclosed : (p.place id s).2.bitOffset = 0 →
      (p.place id s).2.taken (p.spill s spill) =
        max (if (p.place id s).1.width = 0 then s.taken spill
          else (p.place id s).1.start + (p.place id s).1.width) (8 * (p.place id s).2.offset) := by
    intro h
    rw [Placement.spill_eq hp h]
    simp only [LayoutState.taken, h, Nat.lt_irrefl, ↓reduceIte]
    omega
  cases p with
  | member align size => exact .inl (hclosed s.flush_closed)
  | separator unit => exact .inl (hclosed rfl)
  | bits unit width =>
    by_cases hfull : (openUnit id s unit width).bitOffset + width = unit.bits
    · refine .inl (hclosed ?_)
      simp [Placement.place, placeBitfield, hfull]
    refine .inr ⟨Nat.ne_of_gt hp.1, ?_⟩
    have hpos : 0 < (openUnit id s unit width).bitOffset + width :=
      Nat.lt_of_lt_of_le hp.1 (Nat.le_add_left _ _)
    simp only [Placement.place, placeBitfield, id_eq, hfull, ↓reduceIte, LayoutState.taken, hpos,
      Nat.add_assoc]

theorem spillsSkipped_iff (packed : Bool) (override : Nat) (ps : List Placement)
    (hps : ∀ p ∈ ps, p.Ok) (spill : Nat) (s : LayoutState) :
    SpillsSkipped packed override spill s ps ↔
      Ascending (8 * (finishLayout id packed override [] (placeAll id s ps).2).size)
        (s.taken spill) (placeAll id s ps).1 := by
  induction ps generalizing spill s with
  | nil =>
    have hnext : s.next ≤ (finishLayout id packed override [] s).size := by
      rw [← s.flush_offset]
      exact le_roundUp _ _
    exact (s.taken_le spill _ hnext).symm
  | cons p ps ih =>
    obtain ⟨hrest, hend⟩ := placeAll_le packed override (p.place id s).2 ps
    have hmax := fun reach => ascending_max reach (fun span hspan _ => hrest span hspan) hend
    rw [SpillsSkipped, ih fun q hq => hps q (List.mem_cons_of_mem _ hq),
      Placement.skips_iff (hps p List.mem_cons_self)]
    simp only [placeAll, Ascending]
    obtain htaken | ⟨hne, htaken⟩ := p.taken_after s spill (hps p List.mem_cons_self)
    · split <;> simp_all
    · rw [htaken]
      simp [hne]

-- Sums that do not wrap

def Placement.Small : Placement → Prop
  | .separator unit => unit.bits < 2 ^ 62
  | .bits unit _ => unit.bits < 2 ^ 62
  | .member _ _ => True

theorem sizeT_of_lt (h : n < 2 ^ 64) : sizeT n = n := Nat.mod_eq_of_lt h

theorem roundUp_sizeT (h : roundUp id value align < 2 ^ 64) :
    roundUp sizeT value align = roundUp id value align := by
  unfold roundUp at h ⊢
  split
  · rfl
  rename_i hne
  rw [if_neg hne] at h
  exact sizeT_of_lt h

theorem flush_sizeT {s : LayoutState} (h : (s.flush id).offset < 2 ^ 64) : s.flush sizeT = s.flush id := by
  unfold LayoutState.flush at h ⊢
  split
  · rename_i hopen
    rw [if_pos hopen] at h
    have hsum : s.offset + s.currentUnitSize < 2 ^ 64 := h
    rw [sizeT_of_lt hsum]
    rfl
  · rfl

theorem openUnit_sizeT (hbits : s.bitOffset < 2 ^ 62) (hunit : unit.bits < 2 ^ 62)
    (hwidth : width ≤ unit.bits) (h : (openUnit id s unit width).offset < 2 ^ 64) :
    openUnit sizeT s unit width = openUnit id s unit width := by
  have hsum : sizeT (s.bitOffset + width) = s.bitOffset + width := sizeT_of_lt (by omega)
  unfold openUnit at h ⊢
  dsimp only [id_eq] at h ⊢
  rw [hsum]
  split
  · rename_i hfull
    rw [if_pos hfull] at h
    rw [roundUp_sizeT (Nat.lt_of_le_of_lt (Nat.le_add_right _ _) h), sizeT_of_lt h]
  · rename_i hroom
    rw [if_neg hroom] at h
    rw [roundUp_sizeT h]

theorem openUnit_bits (hwidth : width ≤ unit.bits) :
    (openUnit id s unit width).bitOffset + width ≤ unit.bits := by
  unfold openUnit
  dsimp only [id_eq]
  split
  · rw [Nat.zero_add]
    exact hwidth
  · rename_i hroom
    exact Nat.le_of_not_lt hroom

theorem Placement.place_sizeT {p : Placement} (hok : p.Ok) (hsmall : p.Small)
    (hbits : s.bitOffset < 2 ^ 62) (h : (p.place id s).2.offset < 2 ^ 64) :
    p.place sizeT s = p.place id s := by
  cases p with
  | member align size =>
    have hstart : roundUp id (s.flush id).offset align < 2 ^ 64 :=
      Nat.lt_of_le_of_lt (Nat.le_add_right _ _) h
    have hflush := flush_sizeT (Nat.lt_of_le_of_lt (le_roundUp _ _) hstart)
    have hend : roundUp id (s.flush id).offset align + size < 2 ^ 64 := h
    simp only [Placement.place, placeMember, hflush, roundUp_sizeT hstart, id_eq, sizeT_of_lt hend]
  | separator unit =>
    have hclosed : (if 0 < s.bitOffset then roundUp id s.offset unit.align + s.currentUnitSize
        else roundUp id s.offset unit.align) < 2 ^ 64 :=
      Nat.lt_of_le_of_lt (le_roundUp _ _) h
    have hround : roundUp id s.offset unit.align < 2 ^ 64 := by
      refine Nat.lt_of_le_of_lt ?_ hclosed
      split
      · exact Nat.le_add_right _ _
      · exact Nat.le_refl _
    have hopen : (if 0 < s.bitOffset then sizeT (roundUp id s.offset unit.align + s.currentUnitSize)
        else roundUp id s.offset unit.align) =
        if 0 < s.bitOffset then roundUp id s.offset unit.align + s.currentUnitSize
          else roundUp id s.offset unit.align := by
      split
      · rename_i hpos
        rw [if_pos hpos] at hclosed
        exact sizeT_of_lt hclosed
      · rfl
    have hend : roundUp id (if 0 < s.bitOffset then roundUp id s.offset unit.align + s.currentUnitSize
        else roundUp id s.offset unit.align) unit.align < 2 ^ 64 := h
    simp only [Placement.place, placeSeparator, roundUp_sizeT hround, hopen, id_eq, roundUp_sizeT hend]
  | bits unit width =>
    have hroom := openUnit_bits (s := s) hok.2.1
    have hsum : sizeT ((openUnit id s unit width).bitOffset + width) =
        (openUnit id s unit width).bitOffset + width :=
      sizeT_of_lt (Nat.lt_of_le_of_lt hroom (Nat.lt_trans hsmall (by decide)))
    simp only [Placement.place, placeBitfield, id_eq] at h ⊢
    have hopen : (openUnit id s unit width).offset < 2 ^ 64 := by
      refine Nat.lt_of_le_of_lt ?_ h
      split
      · exact Nat.le_add_right _ _
      · exact Nat.le_refl _
    rw [openUnit_sizeT hbits hsmall hok.2.1 hopen, hsum]
    split
    · rename_i hfull
      rw [if_pos hfull] at h
      rw [sizeT_of_lt h]
    · rfl

theorem Placement.place_bits {p : Placement} (hok : p.Ok) (hsmall : p.Small) :
    (p.place id s).2.bitOffset < 2 ^ 62 := by
  cases p with
  | member align size =>
    have h := s.flush_closed
    simp only [Placement.place, placeMember, h]
    decide
  | separator unit => exact Nat.two_pow_pos 62
  | bits unit width =>
    have hroom := openUnit_bits (s := s) hok.2.1
    simp only [Placement.place, placeBitfield, id_eq]
    split
    · exact Nat.two_pow_pos 62
    · exact Nat.lt_of_le_of_lt hroom hsmall

theorem placeAll_sizeT (packed : Bool) (override : Nat) (ps : List Placement)
    (hps : ∀ p ∈ ps, p.Ok ∧ p.Small) (s : LayoutState) (hbits : s.bitOffset < 2 ^ 62)
    (h : (finishLayout id packed override [] (placeAll id s ps).2).size < 2 ^ 64) :
    placeAll sizeT s ps = placeAll id s ps := by
  induction ps generalizing s with
  | nil => rfl
  | cons p ps ih =>
    obtain ⟨hok, hsmall⟩ := hps p List.mem_cons_self
    have hoffset := (placeAll_le packed override (p.place id s).2 ps).2
    have hlt : (p.place id s).2.offset < 2 ^ 64 :=
      Nat.lt_of_le_of_lt (Nat.le_of_mul_le_mul_left hoffset (by decide)) h
    rw [placeAll, placeAll, Placement.place_sizeT hok hsmall hbits hlt]
    dsimp only
    rw [ih (fun q hq => hps q (List.mem_cons_of_mem _ hq)) _ (Placement.place_bits hok hsmall) h]

theorem finishLayout_sizeT {s : LayoutState}
    (h : (finishLayout id packed override [] s).size < 2 ^ 64) (layouts : List CCTagFieldLayout) :
    finishLayout sizeT packed override layouts s = finishLayout id packed override layouts s := by
  have hround : roundUp id (s.flush id).offset
      (max (if packed && override == 0 then 1 else (s.flush id).maxAlign) override) < 2 ^ 64 := h
  unfold finishLayout
  rw [flush_sizeT (Nat.lt_of_le_of_lt (le_roundUp _ _) hround)]
  dsimp only
  rw [roundUp_sizeT hround]

theorem bitUnit_sizeT (h : (bitUnit id tl packed override size align).bits < 2 ^ 62) :
    bitUnit sizeT tl packed override size align = bitUnit id tl packed override size align := by
  have hbits : max (size * 8) ((tl.map (·.bitfieldUnitBits)).getD 0) < 2 ^ 62 := h
  have hsize : sizeT (size * 8) = size * 8 := sizeT_of_lt (by omega)
  have hbytes : sizeT (max (size * 8) ((tl.map (·.bitfieldUnitBits)).getD 0) + 7) =
      max (size * 8) ((tl.map (·.bitfieldUnitBits)).getD 0) + 7 := sizeT_of_lt (by omega)
  simp only [bitUnit, hsize, hbytes, id_eq]

theorem bitUnit_bytes (tl : Option TargetLayout) (packed : Bool) (override size align : Nat) :
    (bitUnit id tl packed override size align).bits ≤
      8 * (bitUnit id tl packed override size align).bytes := by
  simp only [bitUnit, id_eq]
  omega

section
variable {env : LayoutEnv τ ε} {tl : Option TargetLayout}

theorem bitfieldPlacement_ok
    (h : bitfieldPlacement id env tl packed override d width = some p) : p.Ok := by
  simp only [bitfieldPlacement, bind_eq_some_iff] at h
  obtain ⟨width, -, ⟨size, align⟩, -, h⟩ := h
  split at h
  · cases h
  split at h
  · cases h
    trivial
  split at h
  · cases h
  cases h
  refine ⟨?_, ?_, bitUnit_bytes tl packed override size align⟩ <;> omega

theorem bitfieldPlacement_sizeT
    (h : bitfieldPlacement id env tl packed override d width = some p) (hsmall : p.Small) :
    bitfieldPlacement sizeT env tl packed override d width = some p := by
  simp only [bitfieldPlacement, bind_eq_some_iff] at h ⊢
  obtain ⟨width, hwidth, ⟨size, align⟩, hsize, h⟩ := h
  refine ⟨width, hwidth, (size, align), hsize, ?_⟩
  have hunit : (bitUnit id tl packed override size align).bits < 2 ^ 62 := by
    split at h
    · cases h
    split at h
    · cases h
      exact hsmall
    split at h
    · cases h
    cases h
    exact hsmall
  rw [bitUnit_sizeT hunit]
  exact h

theorem memberPlacement_ok (h : memberPlacement env packed override flexible d = some p) : p.Ok := by
  obtain ⟨⟨size, align⟩, -, rfl⟩ := map_eq_some_iff.mp h
  trivial

theorem morePlacements_ok (h : morePlacements env packed override more = some ps) : ∀ p ∈ ps, p.Ok := by
  induction more generalizing ps with
  | nil =>
    cases h
    simp
  | cons d more ih =>
    obtain ⟨p, hp, h⟩ := bind_eq_some_iff.mp h
    obtain ⟨rest, hrest, rfl⟩ := map_eq_some_iff.mp h
    rw [List.forall_mem_cons]
    exact ⟨memberPlacement_ok hp, ih hrest⟩

theorem fieldPlacements_ok
    (h : fieldPlacements id env tl packed field = some ps) :
    (∀ p ∈ ps, p.Ok) ∧ ((∀ p ∈ ps, p.Small) → fieldPlacements sizeT env tl packed field = some ps) := by
  obtain ⟨p, hp, h⟩ := bind_eq_some_iff.mp h
  have hrest := h
  obtain ⟨more, hmore, rfl⟩ := map_eq_some_iff.mp h
  have hall := morePlacements_ok hmore
  simp only [List.forall_mem_cons]
  split at hp
  all_goals
    rename_i hwidth
    refine ⟨⟨?_, hall⟩, fun hsmall => bind_eq_some_iff.mpr ⟨p, ?_, hrest⟩⟩
  · exact bitfieldPlacement_ok hp
  · rw [hwidth]
    exact bitfieldPlacement_sizeT hp hsmall.1
  · exact memberPlacement_ok hp
  · rw [hwidth]
    exact hp

theorem fieldsPlacements_ok
    (h : fieldsPlacements id env tl packed fields = some ps) :
    (∀ p ∈ ps, p.Ok) ∧ ((∀ p ∈ ps, p.Small) → fieldsPlacements sizeT env tl packed fields = some ps) := by
  induction fields generalizing ps with
  | nil =>
    cases h
    simp [fieldsPlacements]
  | cons field fields ih =>
    obtain ⟨first, hfirst, h⟩ := bind_eq_some_iff.mp h
    obtain ⟨rest, hrest, rfl⟩ := map_eq_some_iff.mp h
    obtain ⟨hok, hsizeT⟩ := fieldPlacements_ok hfirst
    obtain ⟨hoks, hsizeTs⟩ := ih hrest
    simp only [List.forall_mem_append]
    exact ⟨⟨hok, hoks⟩, fun hsmall => bind_eq_some_iff.mpr
      ⟨first, hsizeT hsmall.1, map_eq_some_iff.mpr ⟨rest, hsizeTs hsmall.2, rfl⟩⟩⟩

end

-- Structs

section
variable (env : LayoutEnv τ ε) (tl : Option TargetLayout) (d : StructDef τ ε)

def StructDef.placements : Option (List Placement) :=
  fieldsPlacements id env tl (collectAttrLayout d.attributes false).1 d.fields

/-- The placements, and the layout with unbounded sums, stay below the end of
`size_t`. -/
def StructDef.FitsSizeT : Prop :=
  let (packed, override) := collectAttrLayout d.attributes false
  ∃ ps, d.placements env tl = some ps ∧ (∀ p ∈ ps, p.Small) ∧
    (finishLayout id packed override [] (placeAll id ⟨0, 1, 0, 0⟩ ps).2).size < 2 ^ 64

/-- A bit-field that reaches past the end of the unit it joined is followed by
enough padding. -/
def StructDef.SkipsSpills : Prop :=
  let (packed, override) := collectAttrLayout d.attributes false
  ∀ ps, d.placements env tl = some ps → SpillsSkipped packed override 0 ⟨0, 1, 0, 0⟩ ps

variable {env} {tl} {d}

theorem layoutStructFields_membersApart_iff
    (hlittle : (tl.map (·.endianness)).getD .little = .little) (hfits : d.FitsSizeT env tl)
    (hlayout : layoutStructFields env tl d = some layout) :
    MembersApart layout ↔ d.SkipsSpills env tl := by
  unfold layoutStructFields layoutStructWith at hlayout
  unfold StructDef.FitsSizeT StructDef.placements at hfits
  unfold StructDef.SkipsSpills StructDef.placements
  generalize collectAttrLayout d.attributes false = attributes at *
  obtain ⟨packed, override⟩ := attributes
  obtain ⟨ps, hps, hsmall, hsize⟩ := hfits
  obtain ⟨hok, hsizeT⟩ := fieldsPlacements_ok hps
  obtain ⟨⟨layouts, s⟩, hlayouts, rfl⟩ := Option.map_eq_some_iff.mp hlayout
  have hspans : (layoutFields sizeT env tl packed d.fields ⟨0, 1, 0, 0⟩).spans = _ :=
    layoutFields_spans hlittle packed d.fields ⟨0, 1, 0, 0⟩
  rw [hlayouts, hsizeT hsmall, Option.map_some, placeAll_sizeT packed override ps
    (fun p hp => ⟨hok p hp, hsmall p hp⟩) ⟨0, 1, 0, 0⟩ (by decide) hsize] at hspans
  obtain ⟨hfields, rfl⟩ := Prod.mk.inj (Option.some.inj hspans)
  have hskips : (∀ ps', fieldsPlacements id env tl packed d.fields = some ps' →
      SpillsSkipped packed override 0 ⟨0, 1, 0, 0⟩ ps') ↔
      SpillsSkipped packed override 0 ⟨0, 1, 0, 0⟩ ps := by
    rw [hps]
    simp
  dsimp only
  rw [hskips, spillsSkipped_iff _ _ ps hok, membersApart_iff, finishLayout_sizeT hsize,
    show (finishLayout id packed override layouts _).fields = layouts from rfl, hfields]
  rfl

end

def plainEnv : LayoutEnv (Nat × Nat) Int :=
  ⟨some, some, fun _ => false, id, fun _ => true⟩

/-- `int a : 4; long long b : 40;` and a third member. -/
def bitsAnd (last : Nat × Nat) : StructDef (Nat × Nat) Int :=
  ⟨[], [⟨[], some 4, ⟨some "a", (4, 4)⟩, []⟩, ⟨[], some 40, ⟨some "b", (8, 8)⟩, []⟩,
    ⟨[], none, ⟨some "c", last⟩, []⟩]⟩

/-- The layout of `bitsAnd`, with the third member of `last` bytes at `start`. -/
def bitsAndLayout (start last size align : Nat) : StructLayout :=
  ⟨[⟨some "a", 0, 0, 4, 4, true, false, true⟩, ⟨some "b", 0, 4, 40, 8, true, false, true⟩,
    ⟨some "c", start, 0, 0, last, false, false, true⟩], size, align⟩

theorem layoutStructFields_bitsAnd_long :
    layoutStructFields plainEnv (some layoutLp64) (bitsAnd (8, 8)) =
      some (bitsAndLayout 8 8 16 8) := by decide

theorem layoutStructFields_bitsAnd_int :
    layoutStructFields plainEnv (some layoutLp64) (bitsAnd (4, 4)) =
      some (bitsAndLayout 4 4 8 8) := by decide

/-- The 12 bits of `b` behind the unit of `a` are skipped by the padding in front
of a `long long`. -/
theorem membersApart_bitsAnd_long : MembersApart (bitsAndLayout 8 8 16 8) := by
  refine (layoutStructFields_membersApart_iff rfl ⟨_, rfl, ?_, ?_⟩ layoutStructFields_bitsAnd_long).mpr ?_
  · simp [Placement.Small, bitUnit, layoutLp64]
  · decide
  · intro ps hps
    cases hps
    decide

/-- An `int` in that place shares them with `b`. -/
theorem bitsAnd_int_overlap :
    layoutStructFields plainEnv (some layoutLp64) (bitsAnd (4, 4)) =
      some (bitsAndLayout 4 4 8 8) ∧ ¬MembersApart (bitsAndLayout 4 4 8 8) := by
  refine ⟨layoutStructFields_bitsAnd_int, ?_⟩
  intro h
  have h := List.pairwise_iff_getElem.mp h.ordered 1 2 (by decide) (by decide) (by decide) 40 40
  exact absurd (h ⟨by decide, by decide⟩ ⟨by decide, by decide⟩) (Nat.lt_irrefl _)

end Fisics
