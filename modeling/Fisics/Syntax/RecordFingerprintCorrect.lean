import Fisics.Syntax.RecordFingerprint

/-!
# Which records have separate fingerprints

Types, names and counts show where they end; the width of a bit-field ends only where the
next member or the number of the members begins. Two records feed separate sequences
exactly when something different is written of them and none runs on into the other.
-/

namespace Fisics.Fingerprints

open PrefixCode

-- Items

@[simp] theorem hashBool_inj : hashBool a = hashBool b ↔ a = b := by
  cases a <;> cases b <;> simp [hashBool]

@[simp] theorem hashString_inj : hashString a = hashString b ↔ a = b := by
  cases a <;> cases b <;> simp [hashString]

theorem hashString_ne_count (n : Nat) : hashString a ≠ .word (n + 1) := by
  cases a <;> simp [hashString]

@[simp] theorem typeKind_inj {a b : Types.TypeKind} : a.ctorIdx = b.ctorIdx ↔ a = b :=
  ⟨fun h => by rw [← Types.TypeKind.ofNat_ctorIdx a, h, Types.TypeKind.ofNat_ctorIdx], congrArg _⟩

@[simp] theorem tagKind_inj {a b : Types.TagKind} : a.ctorIdx = b.ctorIdx ↔ a = b :=
  ⟨fun h => by rw [← Types.TagKind.ofNat_ctorIdx a, h, Types.TagKind.ofNat_ctorIdx], congrArg _⟩

@[simp] theorem tokenType_inj {a b : TokenType} : a.ctorIdx = b.ctorIdx ↔ a = b :=
  ⟨fun h => by rw [← TokenType.ofNat_ctorIdx a, h, TokenType.ofNat_ctorIdx], congrArg _⟩

@[simp] theorem hashType_inj : hashType a = hashType b ↔ a = b := by
  refine ⟨fun h => ?_, congrArg hashType⟩
  have h : a.ctorIdx = b.ctorIdx := Item.word.inj h
  rw [← ASTNodeType.ofNat_ctorIdx a, h, ASTNodeType.ofNat_ctorIdx]

-- Types

@[simp] theorem length_writtenTypes (ts : List (Types.ParsedType C)) :
    (writtenTypes ts).length = ts.length := by
  induction ts with
  | nil => rfl
  | cons t ts ih => rw [writtenTypes, List.length_cons, List.length_cons, ih]

mutual

theorem hash_writtenType (t : Types.ParsedType C) :
    hashParsedTypeFingerprint (writtenType t) = hashParsedTypeFingerprint t := by
  cases t with
  | mk head fpParams derivations =>
    cases fpParams with
    | nil => simp [writtenType, writtenTypes, hashParsedTypeFingerprint]
    | cons p ps =>
      have hparams := hash_writtenTypes (p :: ps)
      rw [writtenTypes] at hparams
      simp [writtenType, writtenTypes, hashParsedTypeFingerprint, hparams]

theorem hash_writtenTypes (ts : List (Types.ParsedType C)) :
    hashFpParams (writtenTypes ts) = hashFpParams ts := by
  cases ts with
  | nil => rfl
  | cons t ts => rw [writtenTypes, hashFpParams, hashFpParams, hash_writtenType, hash_writtenTypes]

end

def behindParams (head : Types.TypeHead C) : List Item :=
  [hashString head.specifiers.userTypeName, hashBool head.specifiers.isConst,
    hashBool head.specifiers.isSigned, hashBool head.specifiers.isUnsigned,
    hashBool head.specifiers.isShort, hashBool head.specifiers.isLong,
    hashBool head.specifiers.isVolatile, hashBool head.specifiers.isRestrict,
    hashBool head.storage.isInline, hashBool head.storage.isStatic, hashBool head.storage.isExtern,
    hashBool head.storage.isRegister, hashBool head.storage.isAuto,
    hashBool head.storage.isThreadLocal, .word head.pointerDepth, hashBool head.isVLA]

theorem hash_mk (head : Types.TypeHead C) (fpParams : List (Types.ParsedType C))
    (derivations : List (Types.TypeDerivation C)) :
    hashParsedTypeFingerprint (.mk head fpParams derivations) =
      .word head.specifiers.kind.ctorIdx :: .word head.specifiers.tag.ctorIdx ::
        .word head.specifiers.primitiveType.ctorIdx :: hashBool head.isFunctionPointer ::
          ((if fpParams.isEmpty then [] else .word fpParams.length :: hashFpParams fpParams) ++
            behindParams head) := by
  rw [hashParsedTypeFingerprint, behindParams]
  rfl

theorem writtenType_eq (head head' : Types.TypeHead C) (xs ys : List Item)
    (hkind : head.specifiers.kind = head'.specifiers.kind)
    (htag : head.specifiers.tag = head'.specifiers.tag)
    (hprimitive : head.specifiers.primitiveType = head'.specifiers.primitiveType)
    (hpointer : head.isFunctionPointer = head'.isFunctionPointer)
    (hbehind : Comparable (behindParams head ++ xs) (behindParams head' ++ ys))
    (hparams : writtenTypes ps = writtenTypes ps') :
    writtenType (.mk head ps ds) = writtenType (.mk head' ps' ds') ∧ Comparable xs ys := by
  obtain ⟨⟨_, _, _, _, _, _, _, _, _, _, _, _, _⟩, ⟨_, _, _, _, _, _⟩, _, _, _, _, _, _⟩ := head
  obtain ⟨⟨_, _, _, _, _, _, _, _, _, _, _, _, _⟩, ⟨_, _, _, _, _, _⟩, _, _, _, _, _, _⟩ := head'
  simp only [behindParams, List.cons_append, List.nil_append, comparable_cons, hashString_inj,
    hashBool_inj, Item.word.injEq] at hbehind
  simp only at hkind htag hprimitive hpointer
  simp only [writtenType, hparams, hkind, htag, hprimitive, hpointer, hbehind, and_self]

mutual

theorem delimits_type (t t' : Types.ParsedType C) (xs ys : List Item)
    (h : Comparable (hashParsedTypeFingerprint t ++ xs) (hashParsedTypeFingerprint t' ++ ys)) :
    writtenType t = writtenType t' ∧ Comparable xs ys := by
  cases t with
  | mk head fpParams derivations =>
    obtain ⟨head', fpParams', derivations'⟩ := t'
    simp only [hash_mk, List.cons_append, comparable_cons, Item.word.injEq, typeKind_inj, tagKind_inj,
      tokenType_inj, hashBool_inj] at h
    obtain ⟨hkind, htag, hprimitive, hpointer, h⟩ := h
    cases fpParams with
    | nil =>
      cases fpParams' with
      | nil => exact writtenType_eq head head' xs ys hkind htag hprimitive hpointer h rfl
      | cons p' ps' =>
        exact absurd (comparable_cons.mp h).1 (hashString_ne_count ps'.length)
    | cons p ps =>
      cases fpParams' with
      | nil => exact absurd (comparable_cons.mp h).1.symm (hashString_ne_count ps.length)
      | cons p' ps' => ?_
      have hlength := (comparable_cons.mp h).1
      have h : Comparable ((hashFpParams (p :: ps) ++ behindParams head) ++ xs)
          ((hashFpParams (p' :: ps') ++ behindParams head') ++ ys) := (comparable_cons.mp h).2
      rw [List.append_assoc, List.append_assoc] at h
      obtain ⟨hparams, h⟩ := delimits_types (p :: ps) (p' :: ps') _ _ (Item.word.inj hlength) h
      exact writtenType_eq head head' xs ys hkind htag hprimitive hpointer h hparams

theorem delimits_types (ts ts' : List (Types.ParsedType C)) (xs ys : List Item)
    (hlength : ts.length = ts'.length)
    (h : Comparable (hashFpParams ts ++ xs) (hashFpParams ts' ++ ys)) :
    writtenTypes ts = writtenTypes ts' ∧ Comparable xs ys := by
  cases ts with
  | nil =>
    obtain rfl := List.length_eq_zero_iff.mp hlength.symm
    exact ⟨rfl, h⟩
  | cons t ts => ?_
  cases ts' with
  | nil => cases hlength
  | cons t' ts' => ?_
  rw [hashFpParams, hashFpParams, List.append_assoc, List.append_assoc] at h
  obtain ⟨htype, h⟩ := delimits_type t t' _ _ h
  obtain ⟨htypes, h⟩ := delimits_types ts ts' _ _ (Nat.succ.inj hlength) h
  exact ⟨by rw [writtenTypes, writtenTypes, htype, htypes], h⟩

end

theorem writtenType_of_eq :
    WrittenType.of t = WrittenType.of t' ↔ writtenType t = writtenType t' := Subtype.ext_iff

theorem hash_of_written (h : WrittenType.of t = .of t') :
    hashParsedTypeFingerprint t = hashParsedTypeFingerprint t' := by
  rw [← hash_writtenType t, ← hash_writtenType t', writtenType_of_eq.mp h]

-- Expressions

def symbolItems : Symbol C → List Item
  | .null => [.word 0]
  | .value kind text => [hashType kind.type, .string text]
  | .binary op => [hashType .binaryExpression, .string op]
  | .unary op isPostfix => [hashType .unaryExpression, .string op, hashBool isPostfix]
  | .ternary => [hashType .ternaryExpression]
  | .assignment op => [hashType .assignment, .string op]
  | .comma => [hashType .commaExpression]
  | .cast castType => hashType .castExpression :: hashParsedTypeFingerprint castType.val
  | .sizeof => [hashType .sizeof]
  | .call => [hashType .functionCall]
  | .arrayAccess => [hashType .arrayAccess]
  | .member kind => [hashType kind.type]
  | .field name => [.string name]
  | .dereference => [hashType .pointerDereference]
  | .plain kind => [hashType kind.type]

mutual

theorem hashAstNode_eq (e : Expr C) : hashAstNode e = (prefixNotation e).flatMap symbolItems := by
  cases e with
  | null | value kind text | plain kind content => rfl
  | binary op left right =>
    simp [hashAstNode, prefixNotation, symbolItems, hashAstNode_eq left, hashAstNode_eq right]
  | unary op isPostfix left => simp [hashAstNode, prefixNotation, symbolItems, hashAstNode_eq left]
  | ternary condition trueExpr falseExpr =>
    simp [hashAstNode, prefixNotation, symbolItems, hashAstNode_eq condition, hashAstNode_eq trueExpr,
      hashAstNode_eq falseExpr]
  | assignment op target value =>
    simp [hashAstNode, prefixNotation, symbolItems, hashAstNode_eq target, hashAstNode_eq value]
  | comma expressions => simp [hashAstNode, prefixNotation, symbolItems, hashAstNodes_eq expressions]
  | cast castType expression =>
    simp [hashAstNode, prefixNotation, symbolItems, WrittenType.of, hash_writtenType,
      hashAstNode_eq expression]
  | sizeof operand => simp [hashAstNode, prefixNotation, symbolItems, hashAstNode_eq operand]
  | call callee arguments =>
    simp [hashAstNode, prefixNotation, symbolItems, hashAstNode_eq callee, hashAstNodes_eq arguments]
  | arrayAccess array index =>
    simp [hashAstNode, prefixNotation, symbolItems, hashAstNode_eq array, hashAstNode_eq index]
  | member kind base field => simp [hashAstNode, prefixNotation, symbolItems, hashAstNode_eq base]
  | dereference pointer => simp [hashAstNode, prefixNotation, symbolItems, hashAstNode_eq pointer]

theorem hashAstNodes_eq (es : List (Expr C)) : hashAstNodes es = (prefixNotations es).flatMap symbolItems := by
  cases es with
  | nil => rfl
  | cons e es => rw [hashAstNodes, prefixNotations, List.flatMap_append, hashAstNode_eq, hashAstNodes_eq]

end

def Item.number? : Item → Option Nat
  | .word n => some n
  | .string _ => none

/-- A node begins with its number, the name of a member is a string. -/
theorem symbolItems_first (s : Symbol C) :
    ∃ item rest, symbolItems s = item :: rest ∧ item.number? = s.number? := by
  cases s <;> exact ⟨_, _, rfl, rfl⟩

def symbolOf : Option Nat → Nat
  | none => 12
  | some 0 => 0
  | some 14 => 10
  | some 15 | some 16 => 11
  | some 17 => 13
  | some 18 => 4
  | some 19 => 2
  | some 20 => 3
  | some 21 => 6
  | some 22 => 7
  | some 25 | some 26 | some 27 | some 28 => 1
  | some 29 => 8
  | some 31 => 5
  | some 44 => 9
  | some _ => 14

theorem symbolOf_number (s : Symbol C) : symbolOf s.number? = s.ctorIdx := by
  cases s with
  | value kind text => cases kind <;> rfl
  | member kind => cases kind <;> rfl
  | plain kind => cases kind <;> rfl
  | _ => rfl

/-- No node of an expression has the number of a declaration or of a union. -/
theorem number_ne (s : Symbol C) : s.number? ≠ some 9 ∧ s.number? ≠ some 10 := by
  cases s with
  | value kind text => cases kind <;> exact ⟨by rintro ⟨⟩, by rintro ⟨⟩⟩
  | member kind => cases kind <;> exact ⟨by rintro ⟨⟩, by rintro ⟨⟩⟩
  | plain kind => cases kind <;> exact ⟨by rintro ⟨⟩, by rintro ⟨⟩⟩
  | _ => exact ⟨by rintro ⟨⟩, by rintro ⟨⟩⟩

@[simp] theorem valueKind_inj {a b : ValueKind} : a.type = b.type ↔ a = b := by
  cases a <;> cases b <;> decide

@[simp] theorem memberKind_inj {a b : MemberKind} : a.type = b.type ↔ a = b := by
  cases a <;> cases b <;> decide

@[simp] theorem plainKind_inj {a b : PlainKind} : a.type = b.type ↔ a = b := by
  cases a <;> cases b <;> decide

theorem delimits_symbol : Delimits (symbolItems (C := C)) id := by
  intro s s' xs ys h
  have hconstructor : s.ctorIdx = s'.ctorIdx := by
    obtain ⟨item, rest, hitems, hnumber⟩ := symbolItems_first s
    obtain ⟨item', rest', hitems', hnumber'⟩ := symbolItems_first s'
    rw [hitems, hitems'] at h
    rw [← symbolOf_number, ← symbolOf_number, ← hnumber, ← hnumber', (comparable_cons.mp h).1]
  cases s <;> cases s' <;> cases hconstructor
  case cast t t' =>
    obtain ⟨htype, hbehind⟩ := delimits_type t.val t'.val xs ys (comparable_cons.mp h).2
    rw [t.property, t'.property] at htype
    exact ⟨congrArg Symbol.cast (Subtype.ext htype), hbehind⟩
  all_goals
    simpa only [symbolItems, List.cons_append, List.nil_append, comparable_cons, hashType_inj, hashBool_inj,
      valueKind_inj, memberKind_inj, plainKind_inj, Item.string.injEq, true_and, and_assoc, id,
        Symbol.value.injEq,
      Symbol.binary.injEq, Symbol.unary.injEq, Symbol.assignment.injEq, Symbol.member.injEq,
      Symbol.field.injEq, Symbol.plain.injEq] using h

/-- Behind the number of a node no declaration begins. -/
theorem symbolItems_second (s : Symbol C) (h : symbolItems s = item :: second :: rest) :
    second ≠ hashType .variableDeclaration := by
  cases s with
  | cast t =>
    obtain ⟨⟨head, fpParams, derivations⟩, hwritten⟩ := t
    obtain ⟨-, h⟩ := List.cons.inj h
    obtain ⟨rfl, -⟩ := List.cons.inj h
    intro hkind
    cases hcase : head.specifiers.kind <;> rw [hcase] at hkind <;> cases hkind
  | value kind text =>
    obtain ⟨rfl, -⟩ := List.cons.inj (List.cons.inj h).2
    simp [hashType]
  | binary op =>
    obtain ⟨rfl, -⟩ := List.cons.inj (List.cons.inj h).2
    simp [hashType]
  | unary op isPostfix =>
    obtain ⟨rfl, -⟩ := List.cons.inj (List.cons.inj h).2
    simp [hashType]
  | assignment op =>
    obtain ⟨rfl, -⟩ := List.cons.inj (List.cons.inj h).2
    simp [hashType]
  | _ => cases (List.cons.inj h).2

-- Members

def outline (i : Nat) (field : FieldDecl C) : List Item :=
  .word (i + 1) :: hashType .variableDeclaration :: (hashParsedTypeFingerprint field.declaredType ++
    (.word field.varNames.length :: field.varNames.map Item.string))

theorem hashFields_cons (i : Nat) (field : FieldDecl C) (rest : List (FieldDecl C)) :
    hashFields i (field :: rest) =
      outline i field ++ (hashWidth field.bitFieldWidth ++ hashFields (i + 1) rest) := by
  simp [hashFields, hashFieldDeclaration, outline]

theorem delimits_name : Delimits (fun name : String => [Item.string name]) id := by
  intro a b xs ys h
  simpa using h

theorem delimits_outline (h : Comparable (outline i f ++ xs) (outline i g ++ ys)) :
    WrittenType.of f.declaredType = .of g.declaredType ∧ f.varNames = g.varNames ∧ Comparable xs ys := by
  simp only [outline, List.cons_append, List.append_assoc, comparable_cons, true_and] at h
  obtain ⟨htype, h⟩ := delimits_type _ _ _ _ h
  obtain ⟨hcount, h⟩ := comparable_cons.mp h
  simp only [List.map_eq_flatMap] at h
  obtain ⟨hnames, h⟩ := delimits_name.flatMap (Item.word.inj hcount) h
  exact ⟨writtenType_of_eq.mpr htype, by simpa using hnames, h⟩

theorem outline_eq (htype : WrittenType.of f.declaredType = .of g.declaredType)
    (hnames : f.varNames = g.varNames) : outline i f = outline i g := by
  rw [outline, outline, hash_of_written htype, hnames]

theorem hashWidth_some (h : writtenWidth f = some symbols) :
    hashWidth f.bitFieldWidth = hashBool true :: symbols.flatMap symbolItems := by
  obtain ⟨width, hwidth, rfl⟩ := Option.map_eq_some_iff.mp h
  rw [hwidth, hashWidth, hashAstNode_eq]

theorem hashWidth_eq (h : writtenWidth f = writtenWidth g) :
    hashWidth f.bitFieldWidth = hashWidth g.bitFieldWidth := by
  cases hf : writtenWidth f with
  | some symbols => rw [hashWidth_some hf, hashWidth_some (h.symm.trans hf)]
  | none =>
    have hnone := Option.map_eq_none_iff.mp hf
    have hnone' := Option.map_eq_none_iff.mp (h.symm.trans hf)
    rw [hnone, hnone']

theorem not_next (i : Nat) (s : Symbol C) (rest : List (Symbol C)) (gs : List (FieldDecl C)) :
    ¬ Comparable (.word (i + 2) :: hashType .variableDeclaration :: xs)
      (symbolItems s ++ (rest.flatMap symbolItems ++ hashFields (i + 1) gs)) := by
  intro h
  obtain ⟨item, behind, hitems, hnumber⟩ := symbolItems_first s
  rw [hitems, List.cons_append, comparable_cons] at h
  obtain ⟨rfl, h⟩ := h
  have hnumber : s.number? = some (i + 2) := hnumber.symm
  cases behind with
  | cons second behind => exact symbolItems_second s hitems (comparable_cons.mp h).1.symm
  | nil => ?_
  cases rest with
  | cons s' rest =>
    obtain ⟨item', behind', hitems', hnumber'⟩ := symbolItems_first s'
    rw [List.nil_append, List.flatMap_cons, hitems', List.cons_append, List.cons_append,
      comparable_cons] at h
    rw [← h.1] at hnumber'
    exact (number_ne s').1 hnumber'.symm
  | nil =>
    -- the number of the next member, or of all of them
    cases gs with
    | nil =>
      have hcount : 9 = i + 1 := Item.word.inj (comparable_cons.mp h).1
      exact (number_ne s).2 (hnumber.trans (congrArg some (by omega)))
    | cons g gs =>
      have hindex : 9 = i + 1 + 1 := Item.word.inj (comparable_cons.mp h).1
      exact (number_ne s).1 (hnumber.trans (congrArg some (by omega)))

theorem runsOn_of (htype : WrittenType.of f.declaredType = .of g.declaredType)
    (hnames : f.varNames = g.varNames) (hf : writtenWidth f = some symbols)
    (hg : writtenWidth g = some (symbols ++ s :: rest))
    (h : Comparable (hashFields (i + 1) fs)
      (symbolItems s ++ (rest.flatMap symbolItems ++ hashFields (i + 1) gs))) :
    RunsOn i (f :: fs) (g :: gs) := by
  cases fs with
  | nil => ?_
  | cons f' fs => exact absurd h (not_next i s rest gs)
  obtain ⟨item, behind, hitems, hnumber⟩ := symbolItems_first s
  rw [hitems, hashFields, List.cons_append, comparable_cons] at h
  rw [← h.1] at hnumber
  exact .last htype hnames hf hg hnumber.symm

theorem runsOn_comparable (h : RunsOn i fs gs) : Comparable (hashFields i fs) (hashFields i gs) := by
  induction h with
  | last htype hnames hf hg hnumber =>
    obtain ⟨item, behind, hitems, hitem⟩ := symbolItems_first _
    rw [hnumber] at hitem
    cases item with
    | string name => cases hitem
    | word n =>
      cases hitem
      rw [hashFields_cons, hashFields_cons, outline_eq htype hnames, hashWidth_some hf, hashWidth_some hg]
      simp [hitems, hashFields]
  | next hfield _ ih =>
    simp only [writtenField, WrittenField.mk.injEq] at hfield
    obtain ⟨htype, hnames, hwidth⟩ := hfield
    simpa [hashFields_cons, outline_eq htype hnames, hashWidth_eq hwidth] using ih

/-- Members feed the same when the same is written of them. -/
theorem hashFields_of_written (h : fs.map writtenField = gs.map writtenField) :
    hashFields i fs = hashFields i gs := by
  induction fs generalizing i gs with
  | nil =>
    cases gs with
    | nil => rfl
    | cons g gs => cases h
  | cons f fs ih =>
    cases gs with
    | nil => cases h
    | cons g gs => ?_
    obtain ⟨hfield, hfields⟩ := List.cons.inj h
    simp only [writtenField, WrittenField.mk.injEq] at hfield
    obtain ⟨htype, hnames, hwidth⟩ := hfield
    rw [hashFields_cons, hashFields_cons, outline_eq htype hnames, hashWidth_eq hwidth, ih hfields]

theorem comparable_fields (h : Comparable (hashFields i fs) (hashFields i gs)) :
    fs.map writtenField = gs.map writtenField ∨ RunsOn i fs gs ∨ RunsOn i gs fs := by
  induction fs generalizing i gs with
  | nil =>
    cases gs with
    | nil => exact .inl rfl
    | cons g gs =>
      have hcount : i = i + 1 := Item.word.inj (comparable_cons.mp h).1
      omega
  | cons f fs ih =>
    cases gs with
    | nil =>
      have hcount : i + 1 = i := Item.word.inj (comparable_cons.mp h).1
      omega
    | cons g gs => ?_
    rw [hashFields_cons, hashFields_cons] at h
    obtain ⟨htype, hnames, h⟩ := delimits_outline h
    have hrest (hwidth : writtenWidth f = writtenWidth g)
        (h : Comparable (hashFields (i + 1) fs) (hashFields (i + 1) gs)) :
        (f :: fs).map writtenField = (g :: gs).map writtenField ∨
          RunsOn i (f :: fs) (g :: gs) ∨ RunsOn i (g :: gs) (f :: fs) := by
      have hfield : writtenField f = writtenField g := by
        rw [writtenField, writtenField, htype, hnames, hwidth]
      exact (ih h).imp (fun h => by rw [List.map_cons, List.map_cons, hfield, h])
        (.imp (.next hfield) (.next hfield.symm))
    cases hf : writtenWidth f with
    | none =>
      have hnone := Option.map_eq_none_iff.mp hf
      cases hg : writtenWidth g with
      | none =>
        have hnone' := Option.map_eq_none_iff.mp hg
        rw [hnone, hnone'] at h
        exact hrest (hf.trans hg.symm) (comparable_cons.mp h).2
      | some symbols =>
        rw [hnone, hashWidth_some hg] at h
        cases hashBool_inj.mp (comparable_cons.mp h).1
    | some symbols =>
      cases hg : writtenWidth g with
      | none =>
        have hnone' := Option.map_eq_none_iff.mp hg
        rw [hnone', hashWidth_some hf] at h
        cases hashBool_inj.mp (comparable_cons.mp h).1
      | some symbols' => ?_
      rw [hashWidth_some hf, hashWidth_some hg] at h
      rcases delimits_symbol.flatMap_cases (comparable_cons.mp h).2 with
        ⟨rfl, hbehind⟩ | ⟨s, rest, rfl, hbehind⟩ | ⟨s, rest, rfl, hbehind⟩
      · exact hrest (hf.trans hg.symm) hbehind
      · exact .inr (.inl (runsOn_of htype hnames hf hg hbehind))
      · exact .inr (.inr (runsOn_of htype.symm hnames.symm hg hf hbehind.symm))

-- Records

theorem comparable_iff (a b : StructDef C) :
    Comparable (structLikeItems a) (structLikeItems b) ↔
      written a = written b ∨ RunsInto a b ∨ RunsInto b a := by
  have hkind : Item.word (if a.isUnion then 2 else 1) = .word (if b.isUnion then 2 else 1) ↔
      a.isUnion = b.isUnion := by
    cases a.isUnion <;> cases b.isUnion <;> simp
  rw [structLikeItems, structLikeItems, comparable_cons, comparable_cons, hkind, hashBool_inj]
  constructor
  · rintro ⟨hunion, hflexible, h⟩
    rcases comparable_fields h with hfields | hruns | hruns
    · exact .inl (by rw [written, written, hunion, hflexible, hfields])
    · exact .inr (.inl ⟨hunion, hflexible, hruns⟩)
    · exact .inr (.inr ⟨hunion.symm, hflexible.symm, hruns⟩)
  · rintro (h | ⟨hunion, hflexible, hruns⟩ | ⟨hunion, hflexible, hruns⟩)
    · simp only [written, Prod.mk.injEq] at h
      obtain ⟨hunion, hflexible, hfields⟩ := h
      exact ⟨hunion, hflexible, by rw [hashFields_of_written hfields]; exact comparable_refl _⟩
    · exact ⟨hunion, hflexible, runsOn_comparable hruns⟩
    · exact ⟨hunion.symm, hflexible.symm, (runsOn_comparable hruns).symm⟩

/-- Definitions with different members feed separate sequences exactly when something
different is written of them and none runs on into the other. -/
theorem fingerprintsSeparate_iff (a b : StructDef C) :
    (members a ≠ members b → Separate (structLikeItems a) (structLikeItems b)) ↔
      members a = members b ∨ (written a ≠ written b ∧ ¬ RunsInto a b ∧ ¬ RunsInto b a) := by
  rw [Separate, comparable_iff, not_or, not_or, or_iff_not_imp_left]

/-- A definition of which the same is written as of the first is taken for a repetition. -/
theorem matching_of_written (h : written a = written b) :
    ccDefineTag (some (fingerprintStructLike a)) (fingerprintStructLike b) = .matching := by
  have hitems : structLikeItems a = structLikeItems b := by
    simp only [written, Prod.mk.injEq] at h
    rw [structLikeItems, structLikeItems, h.1, h.2.1, hashFields_of_written h.2.2]
  rw [fingerprintStructLike, fingerprintStructLike, hitems, ccDefineTag, if_pos rfl]

/-- `struct { int a[n]; }` -/
def arrayStruct (n : Int) : StructDef String :=
  ⟨false, false,
    [⟨.mk ⟨⟨.primitive, .none, .kwInt, none, false, false, false, false, false, false, false, false, false⟩,
        ⟨false, false, false, false, false, false⟩, 0, false, false, false, false, none⟩ []
        [.array ⟨some (toString n), false, some n, false, false, false, false, false⟩],
      ["a"], none⟩]⟩

/-- `struct T { int a[2]; };` and `struct T { int a[3]; };` -/
theorem array_bounds_not_separate :
    ¬ (members (arrayStruct 2) ≠ members (arrayStruct 3) →
      Separate (structLikeItems (arrayStruct 2)) (structLikeItems (arrayStruct 3))) ∧
    ccDefineTag (some (fingerprintStructLike (arrayStruct 2))) (fingerprintStructLike (arrayStruct 3)) =
      .matching := by
  refine ⟨fun h => h ?_ ((comparable_iff _ _).mpr (.inl rfl)), matching_of_written rfl⟩
  simp [members, arrayStruct, shape, shapeParts, shapePart, Types.bound]

end Fisics.Fingerprints
