import Fisics.Syntax.RecordLayout

/-!
# Qualifiers of pointer levels

A checked type has its own qualifiers, and in an array of fixed size those of what each of
its pointer levels points to. The builder fills the array from the derivations of a declared
type; a level is put in front for `&` and for decay, and dropped for `*` and `->`.
-/

namespace Fisics.Levels

open Records (Head Kind TagKey TargetTable primitiveInfo baseInfo isBuiltinInt128Name)

def maxPointerDepth : Nat := 32

structure PointerQualifier where
  isConst : Bool
  isVolatile : Bool
  isRestrict : Bool
  deriving DecidableEq, Inhabited

def unqualified : PointerQualifier := ⟨false, false, false⟩

namespace PointerQualifier

def join (p q : PointerQualifier) : PointerQualifier :=
  ⟨p.isConst || q.isConst, p.isVolatile || q.isVolatile, p.isRestrict || q.isRestrict⟩

end PointerQualifier

-- The array of levels

abbrev PointerLevels := Vector PointerQualifier maxPointerDepth

namespace PointerLevels

def level (levels : PointerLevels) (i : Nat) : PointerQualifier := levels[i]?.getD unqualified

def put (levels : PointerLevels) (i : Nat) (q : PointerQualifier) : PointerLevels := levels.setIfInBounds i q

/-- `clearPointerLevels`. -/
def clear : PointerLevels := Vector.replicate maxPointerDepth unqualified

def shiftUp (levels : PointerLevels) : (last : Nat) → PointerLevels
  | 0 => levels
  | i + 1 => shiftUp (levels.put (i + 1) (levels.level i)) i

/-- The loop that moves `count` levels down, from level `i` on. -/
def shiftDown (levels : PointerLevels) (i : Nat) : (count : Nat) → PointerLevels
  | 0 => levels
  | count + 1 => shiftDown (levels.put i (levels.level (i + 1))) (i + 1) count

/-- The loop that copies the levels of the target behind the first one. -/
def copyFrom (levels target : PointerLevels) (i : Nat) : (count : Nat) → PointerLevels
  | 0 => levels
  | count + 1 => copyFrom (levels.put (i + 1) (target.level i)) target (i + 1) count

theorem level_put (levels : PointerLevels) (i j : Nat) (q : PointerQualifier) :
    (levels.put i q).level j = if i = j ∧ j < maxPointerDepth then q else levels.level j := by
  unfold PointerLevels.level put
  by_cases hj : j < maxPointerDepth
  · simp only [Vector.getElem?_eq_getElem hj, Vector.getElem_setIfInBounds, Option.getD_some, hj, and_true]
  · simp [hj]

theorem level_of_le (levels : PointerLevels) (h : maxPointerDepth ≤ i) : levels.level i = unqualified := by
  simp [PointerLevels.level, Nat.not_lt.mpr h]

@[simp] theorem level_clear (i : Nat) : clear.level i = unqualified := by
  by_cases h : i < maxPointerDepth
  · simp [PointerLevels.level, clear, h]
  · exact level_of_le _ (Nat.le_of_not_lt h)

theorem ext_level {a b : PointerLevels} (h : ∀ i, a.level i = b.level i) : a = b := by
  apply Vector.ext
  intro i hi
  simpa [PointerLevels.level, hi] using h i

theorem level_shiftUp (levels : PointerLevels) (last j : Nat) (hlast : last < maxPointerDepth) :
    (levels.shiftUp last).level j = if 1 ≤ j ∧ j ≤ last then levels.level (j - 1) else levels.level j := by
  induction last generalizing levels with
  | zero =>
    have hnone : ¬ (1 ≤ j ∧ j ≤ 0) := by omega
    rw [shiftUp, if_neg hnone]
  | succ i ih =>
    rw [shiftUp, ih _ (by omega), level_put, level_put]
    split_ifs <;> first | rfl | (exfalso; omega) | (congr 1; omega)

theorem level_shiftDown (levels : PointerLevels) (i count j : Nat) (hfit : i + count < maxPointerDepth) :
    (levels.shiftDown i count).level j =
      if i ≤ j ∧ j < i + count then levels.level (j + 1) else levels.level j := by
  induction count generalizing levels i with
  | zero =>
    have hnone : ¬ (i ≤ j ∧ j < i) := by omega
    simp [shiftDown, hnone]
  | succ count ih =>
    rw [shiftDown, ih _ _ (by omega), level_put, level_put]
    split_ifs <;> first | rfl | (exfalso; omega) | (congr 1; omega)

theorem level_copyFrom (levels target : PointerLevels) (i count j : Nat) (hfit : i + count < maxPointerDepth) :
    (levels.copyFrom target i count).level j =
      if i < j ∧ j ≤ i + count then target.level (j - 1) else levels.level j := by
  induction count generalizing levels i with
  | zero =>
    have hnone : ¬ (i < j ∧ j ≤ i) := by omega
    simp [copyFrom, hnone]
  | succ count ih =>
    rw [copyFrom, ih _ _ (by omega), level_put]
    split_ifs <;> first | rfl | (exfalso; omega) | (congr 1; omega)

end PointerLevels

-- Declared types

structure ArrayLevel where
  isVLA : Bool
  isFlexible : Bool
  hasConstantSize : Bool
  /-- Whether the size expression is a literal, where there is one. -/
  literalSize : Option Bool
  deriving DecidableEq

inductive Derivation
  | pointer (qualifiers : PointerQualifier)
  | array (info : ArrayLevel)
  | function
  deriving DecidableEq

structure ParsedType where
  head : Head
  qualifiers : PointerQualifier
  isVLA : Bool
  derivations : List Derivation
  deriving DecidableEq

def ArrayLevel.varies (a : ArrayLevel) : Bool :=
  a.isVLA || (!a.hasConstantSize && !a.isFlexible && a.literalSize == some false)

def parsedTypeHasVLA (type : ParsedType) : Bool :=
  type.derivations.any fun
    | .array info => info.varies
    | _ => false

structure Checker where
  target : TargetTable
  typedefs : List (String × ParsedType)
  definedTags : List TagKey

-- Checked types

structure CheckedType extends TypeInfo where
  own : PointerQualifier
  isArray : Bool
  isFunction : Bool
  isVLA : Bool
  userTypeName : Option String
  pointerDepth : Nat
  pointerLevels : PointerLevels
  isLValue : Bool
  isComplete : Bool
  deriving DecidableEq

def plainType (info : TypeInfo) (userTypeName : Option String) (isComplete : Bool) : CheckedType :=
  ⟨info, unqualified, false, false, false, userTypeName, 0, PointerLevels.clear, false, isComplete⟩

def typeInfoPrependPointerLevel (info : CheckedType) (q : PointerQualifier) : CheckedType :=
  let stored := if maxPointerDepth ≤ info.pointerDepth then maxPointerDepth - 1 else info.pointerDepth
  { info with
    pointerLevels := (info.pointerLevels.shiftUp stored).put 0 q
    pointerDepth := info.pointerDepth + 1
    category := .pointer
    own := unqualified }

def typeInfoDropPointerLevel (info : CheckedType) : CheckedType :=
  if info.pointerDepth = 0 then info
  else
    let pointed := info.pointerLevels.level 0
    let stored := if maxPointerDepth < info.pointerDepth then maxPointerDepth else info.pointerDepth
    let levels := (info.pointerLevels.shiftDown 0 (stored - 1)).put (stored - 1) unqualified
    { info with
      pointerLevels := levels
      pointerDepth := info.pointerDepth - 1
      own := if 0 < info.pointerDepth - 1 then levels.level 0 else pointed }

def applyQualifiers (info : CheckedType) (type : ParsedType) : CheckedType :=
  if info.category = .pointer then info else { info with own := info.own.join type.qualifiers }

def propagateVLAFlag (info : CheckedType) (type : ParsedType) : CheckedType :=
  if type.isVLA || parsedTypeHasVLA type then { info with isVLA := true } else info

def resolveTypedef (typedefs : List (String × ParsedType)) (name : String) : Option ParsedType :=
  (typedefs.find? (·.1 == name)).map (·.2)

def Checker.recordComplete (c : Checker) (kind : Records.TagKind) (head : Head) : Bool :=
  head.inlineStructOrUnionDef.isSome || head.userTypeName.any fun name => ⟨kind, name⟩ ∈ c.definedTags

/-- `resolve` is the call for the type that a typedef name stands for. -/
def typeInfoFromBaseKind (c : Checker) (resolve : ParsedType → Option CheckedType) (type : ParsedType) :
    Option CheckedType :=
  let name := type.head.userTypeName
  match type.head.kind with
  | .primitive p =>
    some (plainType (primitiveInfo c.target type.head p) none (p ≠ .void && p ≠ .other))
  | .enum => some (plainType { makeIntegerType 32 true with category := .enum } name true)
  | .struct => some (plainType (baseInfo .struct) name (c.recordComplete .struct type.head))
  | .union => some (plainType (baseInfo .union) name (c.recordComplete .union type.head))
  | .named =>
    match name.bind isBuiltinInt128Name with
    | some isUnsigned => some (applyQualifiers (plainType (makeIntegerType 128 (!isUnsigned)) none true) type)
    | none =>
      match name.bind (resolveTypedef c.typedefs) with
      | some resolved => (resolve resolved).map fun base => applyQualifiers base type
      | none => some (plainType (baseInfo .invalid) name false)
  | .invalid => some (plainType (baseInfo .invalid) none false)

def pointerTo (target : CheckedType) (self : PointerQualifier) : CheckedType :=
  let pointerDepth := target.pointerDepth + 1
  let stored := if maxPointerDepth < pointerDepth then maxPointerDepth else pointerDepth
  let available := if maxPointerDepth < target.pointerDepth then maxPointerDepth else target.pointerDepth
  let toCopy := if stored - 1 < available then stored - 1 else available
  { toTypeInfo := { target.toTypeInfo with category := .pointer }
    own := self
    isArray := false
    isFunction := false
    isVLA := target.isVLA
    userTypeName := target.userTypeName
    pointerDepth := pointerDepth
    pointerLevels := (PointerLevels.clear.put 0 target.own).copyFrom target.pointerLevels 0 toCopy
    isLValue := false
    isComplete := true }

/-- `typeInfoFromDerivationIndex`, on the derivations from the index on. -/
def typeInfoFromDerivations (base : Option CheckedType) (type : ParsedType) :
    List Derivation → Option CheckedType
  | [] => base.map fun info => applyQualifiers info type
  | .pointer q :: rest => (typeInfoFromDerivations base type rest).map fun target => pointerTo target q
  | .array info :: rest =>
    (typeInfoFromDerivations base type rest).map fun element =>
      { element with
        category := .array
        isArray := true
        isLValue := true
        isVLA := element.isVLA || info.isVLA
        isComplete := element.isComplete && !info.isFlexible }
  | .function :: _ => some { plainType (baseInfo .function) none false with isFunction := true }

def countedPointer (base : CheckedType) (pointerDepth : Nat) : CheckedType :=
  { toTypeInfo :=
      { base.toTypeInfo with
        category := .pointer
        bitWidth := if base.bitWidth = 0 then 32 else base.bitWidth }
    own := unqualified
    isArray := false
    isFunction := false
    isVLA := false
    userTypeName := base.userTypeName
    pointerDepth := pointerDepth
    pointerLevels := PointerLevels.clear.put 0 base.own
    isLValue := false
    isComplete := true }

/-- `none` where more than so many typedef names lead on from one to the next. -/
def typeInfoFromParsedType (c : Checker) : (names : Nat) → ParsedType → Option CheckedType
  | 0, _ => none
  | names + 1, type =>
    let base := typeInfoFromBaseKind c (typeInfoFromParsedType c names) type
    let info : Option CheckedType :=
      match type.derivations with
      | [] =>
        if 0 < type.head.pointerDepth then base.map fun info => countedPointer info type.head.pointerDepth
        else base
      | derivations => typeInfoFromDerivations base type derivations
    info.map fun info => propagateVLAFlag (applyQualifiers info type) type

def typeInfoFromDerivationIndex (c : Checker) (names : Nat) (type : ParsedType) (index : Nat) :
    Option CheckedType :=
  typeInfoFromDerivations (typeInfoFromBaseKind c (typeInfoFromParsedType c names) type) type
    (type.derivations.drop index)

-- What a declaration says

/-- The qualifiers of a type and of what each of its levels points to, from outside in. -/
structure Declared where
  isPointer : Bool
  own : PointerQualifier
  inner : List PointerQualifier
  deriving DecidableEq

namespace Declared

/-- The base's qualifiers are not those of a pointer. -/
def qualify (d : Declared) (q : PointerQualifier) : Declared :=
  if d.isPointer then d else { d with own := d.own.join q }

def plain : Declared := ⟨false, unqualified, []⟩

def pointer (target : Declared) (q : PointerQualifier) : Declared := ⟨true, q, target.own :: target.inner⟩

def counted (d : Declared) (pointerDepth : Nat) : Declared :=
  ⟨true, unqualified, d.own :: List.replicate (pointerDepth - 1) unqualified⟩

end Declared

def declaredBase (typedefs : List (String × ParsedType)) (resolve : ParsedType → Option Declared)
    (type : ParsedType) : Option Declared :=
  let name := type.head.userTypeName
  match type.head.kind with
  | .named =>
    match name.bind isBuiltinInt128Name with
    | some _ => some (Declared.plain.qualify type.qualifiers)
    | none =>
      match name.bind (resolveTypedef typedefs) with
      | some resolved => (resolve resolved).map fun base => base.qualify type.qualifiers
      | none => some .plain
  | _ => some .plain

def declaredFrom (base : Option Declared) (type : ParsedType) : List Derivation → Option Declared
  | [] => base.map fun d => d.qualify type.qualifiers
  | .pointer q :: rest => (declaredFrom base type rest).map fun target => target.pointer q
  | .array _ :: rest => (declaredFrom base type rest).map fun element => { element with isPointer := false }
  | .function :: _ => some .plain

def declaredType (typedefs : List (String × ParsedType)) : (names : Nat) → ParsedType → Option Declared
  | 0, _ => none
  | names + 1, type =>
    let base := declaredBase typedefs (declaredType typedefs names) type
    let declared : Option Declared :=
      match type.derivations with
      | [] =>
        if 0 < type.head.pointerDepth then
          base.map fun d => d.counted type.head.pointerDepth
        else base
      | derivations => declaredFrom base type derivations
    declared.map fun d => d.qualify type.qualifiers

def declaredAt (c : Checker) (names : Nat) (type : ParsedType) (index : Nat) : Option Declared :=
  declaredFrom (declaredBase c.typedefs (declaredType c.typedefs names) type) type (type.derivations.drop index)

/-- A checked type has the declared qualifiers, as far as the array has room. -/
structure Represents (info : CheckedType) (d : Declared) : Prop where
  pointer : info.category = .pointer ↔ d.isPointer = true
  own : info.own = d.own
  depth : info.pointerDepth = d.inner.length
  levels : ∀ i, i < maxPointerDepth → info.pointerLevels.level i = d.inner[i]?.getD unqualified

inductive Agrees : Option CheckedType → Option Declared → Prop
  | failed : Agrees none none
  | given (h : Represents info d) : Agrees (some info) (some d)

theorem Agrees.map (h : Agrees info d)
    (hmap : ∀ {info d}, Represents info d → Represents (f info) (g d)) : Agrees (info.map f) (d.map g) := by
  cases h with
  | failed => exact .failed
  | given h => exact .given (hmap h)

theorem represents_plain (hinfo : info.category ≠ .pointer) :
    Represents (plainType info name isComplete) .plain where
  pointer := by simp [plainType, Declared.plain, hinfo]
  own := rfl
  depth := rfl
  levels := by simp [plainType, Declared.plain]

theorem Represents.qualify (h : Represents info d) (type : ParsedType) :
    Represents (applyQualifiers info type) (d.qualify type.qualifiers) := by
  by_cases hpointer : info.category = .pointer
  · have hd := h.pointer.mp hpointer
    simpa [applyQualifiers, Declared.qualify, hpointer, hd] using h
  have hd : d.isPointer = false := by
    rw [← Bool.not_eq_true]
    exact fun hd => hpointer (h.pointer.mpr hd)
  simp only [applyQualifiers, Declared.qualify, hpointer, hd, if_false, Bool.false_eq_true]
  exact ⟨by simp [hpointer], by rw [h.own], h.depth, h.levels⟩

theorem Represents.vla (h : Represents info d) (type : ParsedType) :
    Represents (propagateVLAFlag info type) d := by
  unfold propagateVLAFlag
  split_ifs
  · exact ⟨h.pointer, h.own, h.depth, h.levels⟩
  · exact h

theorem primitiveInfo_category (tl : TargetTable) (head : Head) (p : Records.Primitive) :
    (primitiveInfo tl head p).category ≠ .pointer := by
  cases p <;> simp [primitiveInfo, makeBoolType, makeIntegerType, makeFloatTypeInfo, baseInfo]

theorem typeInfoFromBaseKind_agrees (c : Checker) (type : ParsedType)
    (hresolve : ∀ t, Agrees (resolve t) (declared t)) :
    Agrees (typeInfoFromBaseKind c resolve type) (declaredBase c.typedefs declared type) := by
  unfold typeInfoFromBaseKind declaredBase
  cases hkind : type.head.kind with
  | primitive p => exact .given (represents_plain (primitiveInfo_category c.target type.head p))
  | enum | struct | union | invalid => exact .given (represents_plain (by decide))
  | named =>
    cases hbuiltin : type.head.userTypeName.bind isBuiltinInt128Name with
    | some isUnsigned =>
      simp only [hbuiltin]
      exact .given ((represents_plain (by simp [makeIntegerType])).qualify type)
    | none => ?_
    cases hresolved : type.head.userTypeName.bind (resolveTypedef c.typedefs) with
    | some resolved =>
      simp only [hbuiltin, hresolved]
      exact (hresolve resolved).map fun h => h.qualify type
    | none =>
      simp only [hbuiltin, hresolved]
      exact .given (represents_plain (by decide))

theorem pointerTo_level (target : CheckedType) (q : PointerQualifier) (i : Nat) :
    (pointerTo target q).pointerLevels.level (i + 1) =
      if i < min (maxPointerDepth - 1) target.pointerDepth then target.pointerLevels.level i else
        unqualified := by
  have htoCopy : (pointerTo target q).pointerLevels =
      (PointerLevels.clear.put 0 target.own).copyFrom target.pointerLevels 0
        (min (maxPointerDepth - 1) target.pointerDepth) := by
    simp only [pointerTo]
    congr 1
    split_ifs <;> omega
  have hpositive : 0 < maxPointerDepth := by decide
  rw [htoCopy, PointerLevels.level_copyFrom _ _ _ _ _ (by omega), PointerLevels.level_put,
    PointerLevels.level_clear,
    if_neg (fun h => by omega : ¬ (0 = i + 1 ∧ i + 1 < maxPointerDepth)), Nat.add_sub_cancel]
  simp only [Nat.zero_add, Nat.zero_lt_succ, true_and, Nat.succ_le_iff]

theorem pointerTo_first (target : CheckedType) (q : PointerQualifier) :
    (pointerTo target q).pointerLevels.level 0 = target.own := by
  simp only [pointerTo]
  rw [PointerLevels.level_copyFrom _ _ _ _ _ (by unfold maxPointerDepth; split_ifs <;> omega),
    PointerLevels.level_put]
  simp [maxPointerDepth]

theorem Represents.pointerTo (h : Represents target d) (q : PointerQualifier) :
    Represents (pointerTo target q) (d.pointer q) := by
  have hdepth := h.depth
  refine ⟨by simp [Levels.pointerTo, Declared.pointer], rfl,
    by simp [Levels.pointerTo, Declared.pointer, hdepth], ?_⟩
  intro i hi
  cases i with
  | zero => simp [pointerTo_first, Declared.pointer, h.own]
  | succ j => ?_
  have hlevel := h.levels j (by omega)
  rw [pointerTo_level, Declared.pointer, List.getElem?_cons_succ]
  split_ifs with hcopied
  · exact hlevel
  · have hnone : d.inner[j]? = none := List.getElem?_eq_none_iff.mpr (by omega)
    rw [hnone]
    rfl

theorem Represents.counted (h : Represents info d) (hdepth : 0 < pointerDepth) :
    Represents (countedPointer info pointerDepth) (d.counted pointerDepth) := by
  refine ⟨by simp [countedPointer, Declared.counted], rfl, ?_, ?_⟩
  · simp only [countedPointer, Declared.counted, List.length_cons, List.length_replicate]
    omega
  · intro i hi
    simp only [countedPointer, Declared.counted, PointerLevels.level_put, PointerLevels.level_clear]
    cases i with
    | zero => simp [hi, h.own]
    | succ j =>
      rw [if_neg (by omega), List.getElem?_cons_succ, List.getElem?_replicate]
      split_ifs <;> rfl

theorem typeInfoFromDerivations_agrees (type : ParsedType) (hbase : Agrees base declared)
    (derivations : List Derivation) :
    Agrees (typeInfoFromDerivations base type derivations) (declaredFrom declared type derivations) := by
  induction derivations with
  | nil => exact hbase.map fun h => h.qualify type
  | cons derivation rest ih =>
    cases derivation with
    | pointer q => exact ih.map fun h => h.pointerTo q
    | array info =>
      refine ih.map fun h => ⟨?_, h.own, h.depth, h.levels⟩
      simp
    | function => exact .given ⟨by simp [plainType, baseInfo, Declared.plain], rfl, rfl,
          by simp [plainType, Declared.plain]⟩

theorem typeInfoFromParsedType_agrees (c : Checker) (names : Nat) (type : ParsedType) :
    Agrees (typeInfoFromParsedType c names type) (declaredType c.typedefs names type) := by
  induction names generalizing type with
  | zero => exact .failed
  | succ names ih =>
    have hbase := typeInfoFromBaseKind_agrees c type ih
    refine Agrees.map ?_ fun h => (h.qualify type).vla type
    cases hderivations : type.derivations with
    | cons derivation rest => exact typeInfoFromDerivations_agrees type hbase (derivation :: rest)
    | nil => ?_
    split_ifs with hdepth
    · exact hbase.map fun h => h.counted hdepth
    · exact hbase

-- Dropping a level

structure SameLevels (a b : CheckedType) : Prop where
  depth : a.pointerDepth = b.pointerDepth
  own : a.own = b.own
  levels : a.pointerLevels = b.pointerLevels

structure Carries (info : CheckedType) (own : PointerQualifier) (inner : List PointerQualifier) : Prop where
  own : info.own = own
  depth : info.pointerDepth = inner.length
  levels : ∀ i, info.pointerLevels.level i = inner[i]?.getD unqualified

theorem Represents.carries (h : Represents info d) (hfit : d.inner.length ≤ maxPointerDepth) :
    Carries info d.own d.inner where
  own := h.own
  depth := h.depth
  levels := by
    intro i
    by_cases hi : i < maxPointerDepth
    · exact h.levels i hi
    have hnone : d.inner[i]? = none := List.getElem?_eq_none_iff.mpr (by omega)
    rw [PointerLevels.level_of_le _ (Nat.le_of_not_lt hi), hnone]
    rfl

theorem Carries.same_iff {inner : List PointerQualifier} (ha : Carries a self inner)
    (hb : Carries b other inner) :
    SameLevels a b ↔ self = other := by
  constructor
  · intro h
    rw [← ha.own, ← hb.own, h.own]
  · intro h
    refine ⟨ha.depth.trans hb.depth.symm, ha.own.trans (h.trans hb.own.symm),
      PointerLevels.ext_level fun i => ?_⟩
    rw [ha.levels, hb.levels]

theorem Carries.drop {inner : List PointerQualifier} (h : Carries info self (q :: inner))
    (hfit : inner.length < maxPointerDepth) :
    Carries (typeInfoDropPointerLevel info) (inner.headD q) inner := by
  have hdepth : info.pointerDepth = inner.length + 1 := h.depth
  have hstored : (if maxPointerDepth < info.pointerDepth then maxPointerDepth else info.pointerDepth) =
      inner.length + 1 := by
    rw [if_neg (by omega), hdepth]
  have hlevel : ∀ i, ((info.pointerLevels.shiftDown 0 inner.length).put inner.length unqualified).level i =
      inner[i]?.getD unqualified := by
    intro i
    rw [PointerLevels.level_put, PointerLevels.level_shiftDown _ _ _ _ (by omega), h.levels, h.levels]
    split_ifs with hlast hmoved
    · have hnone : inner[i]? = none := List.getElem?_eq_none_iff.mpr (by omega)
      rw [hnone]
      rfl
    · rw [List.getElem?_cons_succ]
    · have hnone : inner[i]? = none := List.getElem?_eq_none_iff.mpr (by omega)
      have hnone' : (q :: inner)[i]? = none :=
        List.getElem?_eq_none_iff.mpr (by simp only [List.length_cons]; omega)
      rw [hnone, hnone']
  simp only [typeInfoDropPointerLevel, hstored, Nat.add_sub_cancel]
  rw [if_neg (by omega)]
  refine ⟨?_, by simp only [hdepth, Nat.add_sub_cancel], hlevel⟩
  cases inner with
  | nil =>
    have hfirst := h.levels 0
    rw [hdepth]
    simpa using hfirst
  | cons p rest =>
    rw [hdepth]
    have hfirst := hlevel 0
    simpa using hfirst

theorem Carries.drops {inner : List PointerQualifier} (h : Carries info self inner)
    (hfit : inner.length ≤ maxPointerDepth) (k : Nat)
    (hk : k < inner.length) :
    Carries (typeInfoDropPointerLevel^[k + 1] info) ((inner.drop (k + 1)).headD inner[k])
      (inner.drop (k + 1)) := by
  induction k with
  | zero =>
    cases inner with
    | nil => cases hk
    | cons q rest => exact h.drop hfit
  | succ k ih =>
    have hprevious := ih (by omega)
    rw [Function.iterate_succ_apply']
    rw [List.drop_eq_getElem_cons hk] at hprevious
    exact hprevious.drop (by simp only [List.length_drop]; omega)

theorem declaredFrom_pointers (qs : List PointerQualifier) (hdeclared : declaredFrom base type
    (qs.map .pointer ++ rest) = some d) (hk : k ≤ qs.length) :
    ∃ target, declaredFrom base type ((qs.map .pointer ++ rest).drop k) = some target ∧
      target.own :: target.inner = (d.own :: d.inner).drop k := by
  induction k generalizing qs d with
  | zero => exact ⟨d, hdeclared, rfl⟩
  | succ k ih =>
    cases qs with
    | nil => cases hk
    | cons q qs =>
      simp only [List.map_cons, List.cons_append, declaredFrom, Option.map_eq_some_iff] at hdeclared
      obtain ⟨inner, hinner, rfl⟩ := hdeclared
      exact ih qs hinner (Nat.le_of_succ_le_succ hk)

/-- A type that points has the qualifiers of what it points to. -/
def Declared.Uniform (d : Declared) : Prop := d.inner.headD d.own = d.own

theorem Agrees.of_some (h : Agrees (some info) declared) : ∃ d, declared = some d ∧ Represents info d := by
  cases h with
  | given h => exact ⟨_, rfl, h⟩

theorem Agrees.of_declared (h : Agrees checked (some d)) : ∃ info, checked = some info ∧ Represents info d := by
  cases h with
  | given h => exact ⟨_, rfl, h⟩

theorem declaredFrom_pointer (hne : qs ≠ []) (hdeclared : declaredFrom base type
    (qs.map .pointer ++ rest) = some d) : d.isPointer = true := by
  cases qs with
  | nil => exact absurd rfl hne
  | cons q qs =>
    simp only [List.map_cons, List.cons_append, declaredFrom, Option.map_eq_some_iff] at hdeclared
    obtain ⟨target, -, rfl⟩ := hdeclared
    rfl

theorem declaredType_pointers (hderivations : type.derivations = qs.map .pointer ++ rest) (hne : qs ≠ [])
    (hdeclared : declaredType typedefs (names + 1) type = some d) :
    declaredFrom (declaredBase typedefs (declaredType typedefs names) type) type type.derivations = some d := by
  rw [declaredType] at hdeclared
  cases hcons : type.derivations with
  | nil =>
    rw [hcons] at hderivations
    cases qs with
    | nil => exact absurd rfl hne
    | cons q qs => cases hderivations
  | cons derivation others =>
    simp only [hcons, Option.map_eq_some_iff] at hdeclared
    obtain ⟨whole, hwhole, rfl⟩ := hdeclared
    have hpointer : whole.isPointer = true := by
      rw [← hcons, hderivations] at hwhole
      exact declaredFrom_pointer hne hwhole
    rw [hwhole]
    simp [Declared.qualify, hpointer]

theorem dropPointerLevels_iff (c : Checker) (names : Nat) (type : ParsedType) (info : CheckedType)
    (hinfo : typeInfoFromParsedType c (names + 1) type = some info) (qs : List PointerQualifier)
    (rest : List Derivation) (hne : qs ≠ []) (hderivations : type.derivations = qs.map .pointer ++ rest)
    (hfit : info.pointerDepth ≤ maxPointerDepth) (k : Nat) (hk : k ≤ qs.length) :
    ∃ target d, typeInfoFromDerivationIndex c names type k = some target ∧
      declaredAt c names type k = some d ∧
      (SameLevels (typeInfoDropPointerLevel^[k] info) target ↔ k = 0 ∨ d.Uniform) := by
  have hbase := typeInfoFromBaseKind_agrees c type (typeInfoFromParsedType_agrees c names)
  have hwhole := typeInfoFromParsedType_agrees c (names + 1) type
  rw [hinfo] at hwhole
  obtain ⟨whole, hdeclared, hrepresents⟩ := hwhole.of_some
  have hfrom := declaredType_pointers hderivations hne hdeclared
  rw [hderivations] at hfrom
  obtain ⟨d, hat, hlevels⟩ := declaredFrom_pointers qs hfrom hk
  have htarget := typeInfoFromDerivations_agrees type hbase (type.derivations.drop k)
  rw [hderivations, hat] at htarget
  obtain ⟨target, hindex, htargetRepresents⟩ := htarget.of_declared
  have hlength := congrArg List.length hlevels
  simp only [List.length_cons, List.length_drop] at hlength
  have hroom : whole.inner.length ≤ maxPointerDepth := by
    rw [← hrepresents.depth]
    exact hfit
  have hcarries := hrepresents.carries hroom
  have htargetCarries := htargetRepresents.carries (by omega)
  refine ⟨target, d, ?_, ?_, ?_⟩
  · rw [typeInfoFromDerivationIndex, hderivations]
    exact hindex
  · rw [declaredAt, hderivations]
    exact hat
  · cases k with
    | zero =>
      rw [List.drop_zero, List.cons.injEq] at hlevels
      obtain ⟨hown, hinner⟩ := hlevels
      rw [hown, hinner] at htargetCarries
      simpa using (hcarries.same_iff htargetCarries).mpr rfl
    | succ k =>
      have hdrops := hcarries.drops hroom k (by omega)
      rw [List.drop_succ_cons, List.drop_eq_getElem_cons (by omega : k < whole.inner.length),
        List.cons.injEq] at hlevels
      obtain ⟨hown, hinner⟩ := hlevels
      rw [← hinner, ← hown] at hdrops
      rw [hdrops.same_iff htargetCarries]
      simp [Declared.Uniform]

-- Dropping what was put in front

def lastLevel (info : CheckedType) : Nat := min info.pointerDepth (maxPointerDepth - 1)

section
variable (info : CheckedType)

theorem prepend_levels (q : PointerQualifier) :
    (typeInfoPrependPointerLevel info q).pointerLevels =
      (info.pointerLevels.shiftUp (lastLevel info)).put 0 q := by
  simp only [typeInfoPrependPointerLevel, lastLevel]
  congr 2
  split_ifs <;> omega

theorem lastLevel_lt : lastLevel info < maxPointerDepth := by
  have hpositive : 0 < maxPointerDepth := by decide
  unfold lastLevel
  omega

theorem drop_levels (hdepth : 0 < info.pointerDepth) :
    (typeInfoDropPointerLevel info).pointerLevels =
      (info.pointerLevels.shiftDown 0 (min maxPointerDepth info.pointerDepth - 1)).put
        (min maxPointerDepth info.pointerDepth - 1) unqualified := by
  have hstored : (if maxPointerDepth < info.pointerDepth then maxPointerDepth else info.pointerDepth) =
      min maxPointerDepth info.pointerDepth := by
    split_ifs <;> omega
  rw [typeInfoDropPointerLevel, if_neg (Nat.pos_iff_ne_zero.mp hdepth), hstored]

theorem drop_own (hdepth : 0 < info.pointerDepth) :
    (typeInfoDropPointerLevel info).own =
      if 1 < info.pointerDepth then (typeInfoDropPointerLevel info).pointerLevels.level 0
      else info.pointerLevels.level 0 := by
  have hmore : 0 < info.pointerDepth - 1 ↔ 1 < info.pointerDepth := by omega
  simp only [typeInfoDropPointerLevel, if_neg (Nat.pos_iff_ne_zero.mp hdepth), hmore]

theorem drop_prepend_level (q : PointerQualifier) (i : Nat) :
    (typeInfoDropPointerLevel (typeInfoPrependPointerLevel info q)).pointerLevels.level i =
      if i = lastLevel info then unqualified else info.pointerLevels.level i := by
  have hlast := lastLevel_lt info
  have hstored : min maxPointerDepth (typeInfoPrependPointerLevel info q).pointerDepth - 1 =
      lastLevel info := by
    simp only [typeInfoPrependPointerLevel, lastLevel]
    omega
  rw [drop_levels _ (by simp [typeInfoPrependPointerLevel]), hstored, prepend_levels, PointerLevels.level_put,
    PointerLevels.level_shiftDown _ _ _ _ (by omega)]
  rcases lt_trichotomy i (lastLevel info) with hlow | rfl | hhigh
  · rw [if_neg (by omega), if_pos (by omega), if_neg (by omega), PointerLevels.level_put, if_neg (by omega),
      PointerLevels.level_shiftUp _ _ _ hlast, if_pos (by omega), Nat.add_sub_cancel]
  · rw [if_pos ⟨rfl, hlast⟩, if_pos rfl]
  · rw [if_neg (by omega), if_neg (by omega), if_neg (by omega), PointerLevels.level_put, if_neg (by omega),
      PointerLevels.level_shiftUp _ _ _ hlast, if_neg (by omega)]

theorem drop_prepend_own (q : PointerQualifier) :
    (typeInfoDropPointerLevel (typeInfoPrependPointerLevel info q)).own =
      if info.pointerDepth = 0 then q else info.pointerLevels.level 0 := by
  have hdepth : (typeInfoPrependPointerLevel info q).pointerDepth = info.pointerDepth + 1 := rfl
  rw [drop_own _ (by omega), drop_prepend_level, prepend_levels, PointerLevels.level_put, hdepth]
  have hpositive : 0 < maxPointerDepth - 1 := by decide
  by_cases hzero : info.pointerDepth = 0
  · simp [hzero, maxPointerDepth]
  have hmore : 1 < info.pointerDepth + 1 := by omega
  have hlast : ¬ 0 = lastLevel info := by
    unfold lastLevel
    omega
  rw [if_pos hmore, if_neg hlast, if_neg hzero]

/-- The own qualifiers are those that the level put in front was given only where no other level is left. -/
theorem drop_prepend_iff (q : PointerQualifier) :
    SameLevels (typeInfoDropPointerLevel (typeInfoPrependPointerLevel info q)) info ↔
      info.own = (if info.pointerDepth = 0 then q else info.pointerLevels.level 0) ∧
        info.pointerLevels.level (lastLevel info) = unqualified := by
  have hdepth : (typeInfoDropPointerLevel (typeInfoPrependPointerLevel info q)).pointerDepth =
      info.pointerDepth := by
    simp [typeInfoDropPointerLevel, typeInfoPrependPointerLevel]
  constructor
  · intro h
    refine ⟨by rw [← h.own, drop_prepend_own], ?_⟩
    rw [← h.levels, drop_prepend_level, if_pos rfl]
  · rintro ⟨hown, hlast⟩
    refine ⟨hdepth, by rw [drop_prepend_own, hown], PointerLevels.ext_level fun i => ?_⟩
    rw [drop_prepend_level]
    split_ifs with hi
    · rw [hi, hlast]
    · rfl

end

/-- `*` on a declared pointer gives the type that the builder makes without the level, and undoes a
level put in front. -/
theorem pointerLevels_iff (c : Checker) (names : Nat) (type : ParsedType) (info : CheckedType)
    (q : PointerQualifier) :
    (∀ (qs : List PointerQualifier) (rest : List Derivation) (k : Nat),
      typeInfoFromParsedType c (names + 1) type = some info → qs ≠ [] →
      type.derivations = qs.map .pointer ++ rest → info.pointerDepth ≤ maxPointerDepth → k ≤ qs.length →
      ∃ target d, typeInfoFromDerivationIndex c names type k = some target ∧
        declaredAt c names type k = some d ∧
        (SameLevels (typeInfoDropPointerLevel^[k] info) target ↔ k = 0 ∨ d.Uniform)) ∧
    (SameLevels (typeInfoDropPointerLevel (typeInfoPrependPointerLevel info q)) info ↔
      info.own = (if info.pointerDepth = 0 then q else info.pointerLevels.level 0) ∧
        info.pointerLevels.level (lastLevel info) = unqualified) := by
  refine ⟨?_, drop_prepend_iff info q⟩
  intro qs rest k hinfo hne hderivations hfit hk
  exact dropPointerLevels_iff c names type info hinfo qs rest hne hderivations hfit k hk

def intHead : Head where
  kind := .primitive .int
  userTypeName := none
  inlineStructOrUnionDef := none
  isUnsigned := false
  isShort := false
  isLong := false
  isComplex := false
  isImaginary := false
  pointerDepth := 0
  attributes := []
  alignOverride := none

def lp64Checker : Checker := ⟨Records.layoutLp64Fp80, [], []⟩

def constant : PointerQualifier := ⟨true, false, false⟩

/-- `int *const *p`: the own qualifiers of `*p` are lost. -/
def constPointers : ParsedType := ⟨intHead, unqualified, false, [.pointer unqualified, .pointer constant]⟩

/-- `const int *const p`. -/
theorem pointerLevels_iff_constant :
    ∃ info target, typeInfoFromParsedType lp64Checker 1
        ⟨intHead, constant, false, [.pointer constant]⟩ = some info ∧
      typeInfoFromDerivationIndex lp64Checker 0 ⟨intHead, constant, false, [.pointer constant]⟩ 1 =
        some target ∧
      SameLevels (typeInfoDropPointerLevel^[1] info) target := by
  obtain ⟨target, d, htarget, hd, hiff⟩ := (pointerLevels_iff lp64Checker 0
    ⟨intHead, constant, false, [.pointer constant]⟩ _ constant).1 [constant] [] 1 rfl (by decide) rfl
      (by decide) (le_refl 1)
  cases hd
  exact ⟨_, target, rfl, htarget, hiff.mpr (.inr rfl)⟩

/-- Dropping one level of `int *const *`. -/
theorem constPointers_differ :
    ¬ ∀ (c : Checker) (names : Nat) (type : ParsedType) (info target : CheckedType) (qs : List PointerQualifier)
        (rest : List Derivation) (k : Nat),
      typeInfoFromParsedType c (names + 1) type = some info → qs ≠ [] →
      type.derivations = qs.map .pointer ++ rest → info.pointerDepth ≤ maxPointerDepth → k ≤ qs.length →
      typeInfoFromDerivationIndex c names type k = some target →
      SameLevels (typeInfoDropPointerLevel^[k] info) target := by
  intro hall
  have hsame := hall lp64Checker 0 constPointers _ _ [unqualified, constant] [] 1 rfl (by decide) rfl
      (by decide)
    (by decide) rfl
  have hown := hsame.own
  revert hown
  decide

end Fisics.Levels
