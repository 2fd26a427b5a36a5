import Mathlib.Data.List.TakeWhile
import Fisics.Parser.DeclSpecifiers

/-!
# When the order of specifiers does not matter

The specifiers are read to their end exactly when they come in the order of the phases.
The sign and size words behind the base type are skipped, all others are recorded
wherever they stand; so two orders are read alike when both are in the order of the
phases and have the same sign and size words before the base type.
-/

namespace Fisics.Specifiers

open Declarators (parsePointerChain pointerChainFrom consumePointerQualifiers startsPointer currentType
  TokenOf)
open List (all_eq_true contains_iff_mem filter_eq_nil_iff mem_append mem_cons mem_filter mem_takeWhile_imp
  not_mem_nil)
open Specifier (meaning)
open Meaning (isBase isReference)

-- Types with recorded words

structure BaseType where
  kind : Types.TypeKind
  tag : Types.TagKind
  primitiveType : TokenType
  name : Option String
  deriving DecidableEq

def noBase : BaseType := ⟨.invalid, .none, .kwVoid, none⟩

/-- A type with the base, for which the words have been read. -/
def flagged (base : BaseType) (ms : List Meaning) : TypeSpec :=
  ⟨⟨base.kind, base.tag, base.primitiveType, base.name, .word .kwConst ∈ ms, .word .kwSigned ∈ ms,
      .word .kwUnsigned ∈ ms, .word .kwShort ∈ ms, .word .kwLong ∈ ms, .word .kwComplex ∈ ms,
      .word .kwImaginary ∈ ms, .word .kwVolatile ∈ ms, .word .kwRestrict ∈ ms⟩,
    ⟨.word .kwInline ∈ ms, .word .kwStatic ∈ ms, .word .kwExtern ∈ ms, .word .kwRegister ∈ ms,
      .word .kwAuto ∈ ms, false⟩, []⟩

theorem flagged_nil : flagged noBase [] = parsedTypeDefault [] := by
  simp [flagged, noBase, parsedTypeDefault]

def isRecordedWord (type : TokenType) : Bool :=
  isQualifierWord type || isComplexWord type || isSizeWord type || type == .kwInline ||
    [.kwStatic, .kwExtern, .kwRegister, .kwAuto].contains type

theorem flagged_inj : flagged base ms = flagged base' ms' ↔
    base = base' ∧ ∀ type, isRecordedWord type = true → (.word type ∈ ms ↔ .word type ∈ ms') := by
  obtain ⟨kind, tag, primitiveType, name⟩ := base
  obtain ⟨kind', tag', primitiveType', name'⟩ := base'
  constructor
  · intro h
    simp only [flagged, TypeSpec.mk.injEq, Types.Specifiers.mk.injEq, Types.StorageSpecifiers.mk.injEq,
      decide_eq_decide, and_true] at h
    refine ⟨by simp [h], fun type htype => ?_⟩
    simp only [isRecordedWord, isQualifierWord, isComplexWord, isSizeWord, Bool.or_eq_true,
      contains_iff_mem, mem_cons, not_mem_nil, or_false, beq_iff_eq] at htype
    rcases htype with ((((rfl | rfl | rfl) | rfl | rfl) | rfl | rfl | rfl | rfl) | rfl) | rfl | rfl | rfl |
      rfl <;>
      simp [h]
  · rintro ⟨hbase, h⟩
    have hword (type : TokenType) (htype : isRecordedWord type = true) :
        decide (Meaning.word type ∈ ms) = decide (Meaning.word type ∈ ms') :=
          decide_eq_decide.mpr (h type htype)
    rw [← hbase]
    simp only [flagged, hword .kwConst rfl, hword .kwSigned rfl, hword .kwUnsigned rfl, hword .kwShort rfl,
      hword .kwLong rfl, hword .kwComplex rfl, hword .kwImaginary rfl, hword .kwVolatile rfl,
      hword .kwRestrict rfl, hword .kwInline rfl, hword .kwStatic rfl, hword .kwExtern rfl,
      hword .kwRegister rfl, hword .kwAuto rfl]

-- Loops over specifiers

def isPlain (tok : Token) : Bool :=
  tok.type != .kwNoreturn && tok.type != .kwThreadLocal && !isInteropCallingConventionMarker tok

structure Records (step : Token → TypeSpec → Option TypeSpec) (accepts : TokenType → Bool) : Prop where
  takes : ∀ base ms tok, accepts tok.type = true →
    step tok (flagged base ms) = some (flagged base (ms ++ [.word tok.type]))
  stops : ∀ tok t, isPlain tok = true → accepts tok.type = false → step tok t = none
  words : ∀ type, accepts type = true → isSpecifierWord type = true

theorem storage_records : Records storageStep isStorageWord where
  takes base ms tok h := by
    simp only [isStorageWord, contains_iff_mem, mem_cons, not_mem_nil, or_false] at h
    rcases h with h | h | h | h | h <;> simp [storageStep, h, flagged]
  stops tok t _ h := by
    rw [storageStep]
    split <;> simp_all [isStorageWord]
  words type h := by simp [isSpecifierWord, h]

theorem modifier_records : Records modifierStep isModifierWord where
  takes base ms tok h := by
    simp only [isModifierWord, isQualifierWord, isSizeWord, isComplexWord, Bool.or_eq_true, beq_iff_eq,
      contains_iff_mem, mem_cons, not_mem_nil, or_false] at h
    rcases h with (((h | h | h) | h) | h | h | h | h) | h | h <;> simp [modifierStep, h, flagged]
  stops tok t hplain h := by
    simp only [isPlain, Bool.and_eq_true, bne_iff_ne, Bool.not_eq_true'] at hplain
    rw [modifierStep]
    split <;> simp_all [isModifierWord, isQualifierWord, isSizeWord, isComplexWord]
  words type h := by
    simp only [isModifierWord, Bool.or_eq_true] at h
    rcases h with ((h | h) | h) | h <;> simp [isSpecifierWord, h]

theorem trailing_records : Records trailingStep isTrailingWord where
  takes base ms tok h := by
    simp only [isTrailingWord, isQualifierWord, isComplexWord, Bool.or_eq_true, contains_iff_mem,
      mem_cons, not_mem_nil, or_false] at h
    rcases h with (h | h | h) | h | h <;> simp [trailingStep, h, flagged]
  stops tok t hplain h := by
    simp only [isPlain, Bool.and_eq_true, bne_iff_ne, Bool.not_eq_true'] at hplain
    rw [trailingStep]
    split <;> simp_all [isTrailingWord, isQualifierWord, isComplexWord]
  words type h := by
    simp only [isTrailingWord, Bool.or_eq_true] at h
    rcases h with h | h <;> simp [isSpecifierWord, h]

theorem marker_identifier (h : isInteropCallingConventionMarker tok = true) : tok.type = .identifier := by
  simp only [isInteropCallingConventionMarker, Bool.and_eq_true, beq_iff_eq] at h
  exact h.1

theorem plain_of (hidentifier : tok.type ≠ .identifier) (hnoreturn : tok.type ≠ .kwNoreturn)
    (hlocal : tok.type ≠ .kwThreadLocal) : isPlain tok = true := by
  cases hmarker : isInteropCallingConventionMarker tok with
  | false => simp [isPlain, hmarker, hnoreturn, hlocal]
  | true => exact absurd (marker_identifier hmarker) hidentifier

theorem plain_of_word (h : isSpecifierWord tok.type = true) : isPlain tok = true := by
  apply plain_of <;> intro htype <;> rw [htype] at h <;> cases h

theorem tagged_type (h : tagKindFromToken type ≠ .none) :
    type = .kwStruct ∨ type = .kwUnion ∨ type = .kwEnum := by
  unfold tagKindFromToken at h
  split at h
  · exact .inl rfl
  · exact .inr (.inl rfl)
  · exact .inr (.inr rfl)
  · cases h rfl

theorem tagged_not_word (h : tagKindFromToken type ≠ .none) : isSpecifierWord type = false := by
  rcases tagged_type h with rfl | rfl | rfl <;> rfl

theorem plain_of_tagged (h : tagKindFromToken tok.type ≠ .none) : isPlain tok = true := by
  apply plain_of <;> rcases tagged_type h with h | h | h <;> simp [h]

theorem endsSpecifiers_cons (h : endsSpecifiers (tok :: rest) = true) :
    isSpecifierWord tok.type = false ∧ tagKindFromToken tok.type = .none ∧ tok.type ≠ .lbrace ∧
      isPlain tok = true := by
  simp only [endsSpecifiers, Bool.and_eq_true, Bool.not_eq_true', beq_iff_eq, bne_iff_ne] at h
  obtain ⟨⟨⟨⟨⟨hword, htag⟩, hbrace⟩, hnoreturn⟩, hlocal⟩, hmarker⟩ := h
  exact ⟨hword, htag, hbrace, by simp [isPlain, hnoreturn, hlocal, hmarker]⟩

section
variable {step : Token → TypeSpec → Option TypeSpec} {accepts : TokenType → Bool}

theorem Records.rejects (h : Records step accepts) (tok : Token) (rest : List Token) (t : TypeSpec)
    (hplain : isPlain tok = true) (hword : accepts tok.type = false) :
    consumeWhile step (tok :: rest) t = (t, tok :: rest) := by
  rw [consumeWhile, h.stops tok t hplain hword]

theorem Records.not_word (h : Records step accepts) (hword : isSpecifierWord type = false) :
    accepts type = false :=
  Bool.not_eq_true _ ▸ fun haccepts => Bool.noConfusion ((h.words type haccepts).symm.trans hword)

theorem Records.consume (h : Records step accepts) (hfollowing : endsSpecifiers following = true)
    (ps : List Specifier) (base : BaseType) (ms : List Meaning) :
    consumeWhile step (tokensOf ps ++ following) (flagged base ms) =
      (flagged base (ms ++ (meaningsOf ps).takeWhile (·.isWord accepts)),
        tokensOf (ps.dropWhile (·.meaning.isWord accepts)) ++ following) := by
  induction ps generalizing ms with
  | nil =>
    cases following with
    | nil => simp [tokensOf, meaningsOf, consumeWhile]
    | cons tok rest =>
      obtain ⟨hword, -, -, hplain⟩ := endsSpecifiers_cons hfollowing
      simp [tokensOf, meaningsOf, h.rejects tok rest _ hplain (h.not_word hword)]
  | cons s ps ih =>
    cases s with
    | word tok hspecifier =>
      cases haccepts : accepts tok.type with
      | true => ?_
      | false =>
        simp [tokensOf, meaningsOf, Specifier.tokens, meaning, Meaning.isWord, haccepts,
          h.rejects tok _ _ (plain_of_word hspecifier) haccepts]
      have htail := ih (ms ++ [.word tok.type])
      simp only [tokensOf, meaningsOf] at htail
      simp [tokensOf, meaningsOf, Specifier.tokens, meaning, Meaning.isWord, haccepts,
        consumeWhile, h.takes base ms tok haccepts, htail]
    | tagged keyword htag name =>
      simp [tokensOf, meaningsOf, Specifier.tokens, meaning, Meaning.isWord,
        h.rejects keyword _ _ (plain_of_tagged htag) (h.not_word (tagged_not_word htag))]
    | typeName name hmarker =>
      have hplain : isPlain name.1 = true := by simp [isPlain, name.2, hmarker]
      have hword : accepts name.1.type = false := by
        rw [name.2]
        exact h.not_word rfl
      simp [tokensOf, meaningsOf, Specifier.tokens, meaning, Meaning.isWord,
        h.rejects name.1 _ _ hplain hword]

end

-- The base type

def runOf (ms : List Meaning) : List Meaning :=
  ms.takeWhile (·.isWord isStorageWord) ++
    (ms.dropWhile (·.isWord isStorageWord)).takeWhile (·.isWord isModifierWord)

def behindOf (ms : List Meaning) : List Meaning :=
  (ms.dropWhile (·.isWord isStorageWord)).dropWhile (·.isWord isModifierWord)

def behindRun (ps : List Specifier) : List Specifier :=
  (ps.dropWhile (·.meaning.isWord isStorageWord)).dropWhile (·.meaning.isWord isModifierWord)

theorem meaningsOf_dropWhile (f : Meaning → Bool) (ps : List Specifier) :
    meaningsOf (ps.dropWhile fun s => f s.meaning) = (meaningsOf ps).dropWhile f := by
  rw [meaningsOf, meaningsOf, List.dropWhile_map]
  rfl

theorem meaningsOf_behindRun (ps : List Specifier) : meaningsOf (behindRun ps) = behindOf (meaningsOf ps) := by
  rw [behindRun, behindOf, meaningsOf_dropWhile (·.isWord isModifierWord),
    meaningsOf_dropWhile (·.isWord isStorageWord)]

def goOn (env : TypeEnvironment) (ctx : TypeContext) : BaseRead → ParsedTypeResult
  | .error (t, rest) => ⟨t, [], rest⟩
  | .ok (t, tokens) =>
    let (t, tokens) := consumeWhile trailingStep tokens t
    readPointers env ctx t tokens

variable {env : TypeEnvironment} {ctx : TypeContext}

theorem parseTypeCore_eq (hfollowing : endsSpecifiers following = true) (ps : List Specifier) :
    parseTypeCore env ctx (tokensOf ps ++ following) =
      goOn env ctx (readBase env ctx (flagged noBase (runOf (meaningsOf ps)))
        (tokensOf (behindRun ps) ++ following)) := by
  rw [parseTypeCore, ← flagged_nil, storage_records.consume hfollowing]
  simp only [List.nil_append]
  rw [modifier_records.consume hfollowing, meaningsOf_dropWhile (·.isWord isStorageWord)]
  rfl

theorem goOn_ok (hfollowing : endsSpecifiers following = true) (base : BaseType) (ms : List Meaning)
    (ps : List Specifier) :
    goOn env ctx (.ok (flagged base ms, tokensOf ps ++ following)) =
      readPointers env ctx (flagged base (ms ++ (meaningsOf ps).takeWhile (·.isWord isTrailingWord)))
        (tokensOf (ps.dropWhile (·.meaning.isWord isTrailingWord)) ++ following) := by
  rw [goOn, trailing_records.consume hfollowing]

theorem primitive_word (h : isPrimitiveTypeToken type = true) : isSpecifierWord type = true := by
  simp only [isPrimitiveTypeToken, Bool.or_eq_true, beq_iff_eq] at h
  rcases h with ((((((((h | h) | h) | h) | h) | h) | h) | h) | h) | h <;> rw [h] <;> rfl

theorem not_primitive (h : isSpecifierWord type = false) : isPrimitiveTypeToken type = false := by
  cases hprimitive : isPrimitiveTypeToken type with
  | false => rfl
  | true => exact Bool.noConfusion ((primitive_word hprimitive).symm.trans h)

theorem drop_primitives (hfollowing : endsSpecifiers following = true) (ps : List Specifier) :
    (tokensOf ps ++ following).dropWhile (fun tok => isPrimitiveTypeToken tok.type) =
      tokensOf (ps.dropWhile (·.meaning.isWord isPrimitiveTypeToken)) ++ following := by
  induction ps with
  | nil =>
    cases following with
    | nil => rfl
    | cons tok rest =>
      obtain ⟨hword, -⟩ := endsSpecifiers_cons hfollowing
      simp [tokensOf, not_primitive hword]
  | cons s ps ih =>
    rw [tokensOf] at ih
    cases s with
    | word tok hspecifier =>
      cases hprimitive : isPrimitiveTypeToken tok.type <;>
        simp [tokensOf, Specifier.tokens, meaning, Meaning.isWord, hprimitive, ih]
    | tagged keyword htag name =>
      simp [tokensOf, Specifier.tokens, meaning, Meaning.isWord,
        not_primitive (tagged_not_word htag)]
    | typeName name hmarker =>
      have hprimitive : isPrimitiveTypeToken name.1.type = false := by
        rw [name.2]
        rfl
      simp [tokensOf, Specifier.tokens, meaning, Meaning.isWord, hprimitive]

def baseOfMeaning : Meaning → BaseType
  | .word type => ⟨.primitive, .none, type, none⟩
  | .tagged tag name => ⟨kindOfTag tag, tag, .kwVoid, some name⟩
  | .typeName name => ⟨.named, .none, .kwVoid, some name⟩

theorem baseWord_primitive (h : isBaseWord type = true) : isPrimitiveTypeToken type = true := by
  simp only [isBaseWord, contains_iff_mem, mem_cons, not_mem_nil, or_false] at h
  rcases h with rfl | rfl | rfl | rfl | rfl | rfl <;> rfl

theorem readBase_word (hfollowing : endsSpecifiers following = true) (tok : Token)
    (hbase : isBaseWord tok.type = true) (ms : List Meaning) (ps : List Specifier) :
    readBase env ctx (flagged noBase ms) (tok :: (tokensOf ps ++ following)) =
      .ok (flagged (baseOfMeaning (.word tok.type)) ms,
        tokensOf (ps.dropWhile (·.meaning.isWord isPrimitiveTypeToken)) ++ following) := by
  rw [readBase, if_pos (baseWord_primitive hbase), drop_primitives hfollowing]
  rfl

theorem following_not_brace (hfollowing : endsSpecifiers following = true) (ps : List Specifier) :
    currentType (tokensOf ps ++ following) ≠ .lbrace := by
  intro hbrace
  cases ps with
  | nil =>
    cases following with
    | nil => cases hbrace
    | cons tok rest => exact (endsSpecifiers_cons hfollowing).2.2.1 hbrace
  | cons s ps => ?_
  cases s with
  | word tok hspecifier =>
    rw [show tok.type = .lbrace from hbrace] at hspecifier
    cases hspecifier
  | tagged keyword htag name =>
    rw [show keyword.type = .lbrace from hbrace] at htag
    cases htag rfl
  | typeName name hmarker => cases name.2.symm.trans hbrace

theorem readBase_tagged (hfollowing : endsSpecifiers following = true) (keyword : Token)
    (htag : tagKindFromToken keyword.type ≠ .none) (name : TokenOf .identifier) (ms : List Meaning)
    (ps : List Specifier) :
    readBase env ctx (flagged noBase ms) (keyword :: name.1 :: (tokensOf ps ++ following)) =
      if ctx = .strict && !env.tagIsKnown (tagKindFromToken keyword.type) (tokenText name.1) then
        .error (parsedTypeDefault [], tokensOf ps ++ following)
      else
        .ok (flagged (baseOfMeaning (.tagged (tagKindFromToken keyword.type) (tokenText name.1))) ms,
          tokensOf ps ++ following) := by
  have hname : currentType (name.1 :: (tokensOf ps ++ following)) = .identifier := name.2
  have hprimitive := not_primitive (tagged_not_word htag)
  rw [readBase, if_neg (by simp [hprimitive]), if_pos htag, readTag]
  simp only [hname, if_true, List.tail_cons, if_neg (following_not_brace hfollowing ps), List.head?_cons,
    Option.map_some]
  rfl

theorem readBase_typeName (name : TokenOf .identifier) (ms : List Meaning) (rest : List Token)
    (hsizes : ∀ type, isSizeWord type = true → .word type ∉ ms)
    (hknown : env.knownType (tokenText name.1) = true) :
    readBase env ctx (flagged noBase ms) (name.1 :: rest) =
      .ok (flagged (baseOfMeaning (.typeName (tokenText name.1))) ms, rest) := by
  have hmodifiers : hasTypeModifiers (flagged noBase ms) = false := by
    simp [hasTypeModifiers, flagged, hsizes .kwUnsigned rfl, hsizes .kwSigned rfl, hsizes .kwShort rfl,
      hsizes .kwLong rfl]
  rw [readBase, name.2, if_neg (by decide), if_neg (by decide), if_pos rfl, readIdentifier,
    if_pos (by simp [hmodifiers, hknown])]
  rfl

theorem readBase_other (tok : Token) (hspecifier : isSpecifierWord tok.type = true)
    (hbase : isBaseWord tok.type = false) (hmodifier : isModifierWord tok.type = false) (t : TypeSpec)
    (rest : List Token) : readBase env ctx t (tok :: rest) = readImplicit ctx t (tok :: rest) := by
  have hprimitive : isPrimitiveTypeToken tok.type = false := by
    simp_all [isPrimitiveTypeToken, isBaseWord, isModifierWord, isSizeWord]
  have htag : tagKindFromToken tok.type = .none := by
    cases htag : tagKindFromToken tok.type with
    | none => rfl
    | _ =>
      have hnone : tagKindFromToken tok.type ≠ .none := by simp [htag]
      cases (tagged_not_word hnone).symm.trans hspecifier
  have hidentifier : tok.type ≠ .identifier := by
    intro htype
    rw [htype] at hspecifier
    cases hspecifier
  rw [readBase, if_neg (by simp [hprimitive]), if_neg (by simp [htag]), if_neg hidentifier]

-- What is left behind

theorem consumePointerQualifiers_length (layer : Declarators.PointerDeclaratorLayer) (tokens : List Token) :
    (consumePointerQualifiers layer tokens).2.length ≤ tokens.length := by
  induction tokens generalizing layer with
  | nil => exact Nat.le_refl _
  | cons tok rest ih =>
    rw [consumePointerQualifiers]
    iterate 4
      split
      · exact Nat.le_succ_of_le (ih _)
    · exact Nat.le_refl _

theorem pointerChainFrom_length (blocks : Bool) (fuel : Nat) (tokens : List Token) :
    (pointerChainFrom blocks fuel tokens).2.length ≤ tokens.length := by
  induction fuel generalizing tokens with
  | zero => exact Nat.le_refl _
  | succ fuel ih =>
    rw [pointerChainFrom]
    split
    · calc (pointerChainFrom blocks fuel
        (consumePointerQualifiers ⟨false, false, false⟩ tokens.tail).2).2.length
          ≤ (consumePointerQualifiers ⟨false, false, false⟩ tokens.tail).2.length := ih _
        _ ≤ tokens.tail.length := consumePointerQualifiers_length _ _
        _ ≤ tokens.length := by simp
    · exact Nat.le_refl _

@[simp] theorem readPointers_type (t : TypeSpec) (tokens : List Token) :
    (readPointers env ctx t tokens).type = t := by
  rw [readPointers]
  split <;> rfl

theorem readPointers_rest_length (t : TypeSpec) (tokens : List Token) :
    (readPointers env ctx t tokens).rest.length ≤ tokens.length := by
  rw [readPointers]
  split
  · exact Nat.le_refl _
  · exact pointerChainFrom_length _ _ _

theorem readPointers_rest (t : TypeSpec) (tok : Token) (rest : List Token)
    (hstar : tok.type ≠ .asterisk) (hblock : tok.type ≠ .bitwiseXor) :
    (readPointers env ctx t (tok :: rest)).rest = tok :: rest := by
  rw [readPointers]
  split
  · rfl
  · simp [parsePointerChain, pointerChainFrom, startsPointer, hstar, hblock]

theorem leftover (t t' : TypeSpec) (ps : List Specifier)
    (h : readPointers env ctx t (tokensOf ps ++ following) = readPointers env ctx t' following) :
    ps = [] ∧ t = t' := by
  have htype : t = t' := by simpa using congrArg ParsedTypeResult.type h
  refine ⟨?_, htype⟩
  cases ps with
  | nil => rfl
  | cons s ps => ?_
  have hlength : (tokensOf (s :: ps) ++ following).length ≤ following.length := by
    obtain ⟨tok, rest, htokens, hstar, hblock⟩ : ∃ tok rest, s.tokens = tok :: rest ∧
        tok.type ≠ .asterisk ∧ tok.type ≠ .bitwiseXor := by
      cases s with
      | word tok hspecifier =>
        refine ⟨tok, [], rfl, ?_, ?_⟩ <;> intro htype <;> rw [htype] at hspecifier <;> cases hspecifier
      | tagged keyword htag name =>
        refine ⟨keyword, [name.1], rfl, ?_, ?_⟩ <;> rcases tagged_type htag with h | h | h <;> simp [h]
      | typeName name hmarker => refine ⟨name.1, [], rfl, ?_, ?_⟩ <;> simp [name.2]
    have hrest : (readPointers env ctx t (tokensOf (s :: ps) ++ following)).rest =
        tokensOf (s :: ps) ++ following := by
      rw [tokensOf, List.flatMap_cons, htokens]
      exact readPointers_rest t tok _ hstar hblock
    rw [← hrest, h]
    exact readPointers_rest_length t' following
  have htokens : 0 < s.tokens.length := by cases s <;> simp [Specifier.tokens]
  simp only [tokensOf, List.flatMap_cons, List.length_append] at hlength
  omega

theorem goOn_iff (hfollowing : endsSpecifiers following = true) (base : BaseType)
    (hbase : base.kind ≠ .invalid) (ms : List Meaning) (ps : List Specifier) (t : TypeSpec) :
    (t.specifiers.kind ≠ .invalid ∧
        goOn env ctx (.ok (flagged base ms, tokensOf ps ++ following)) = readPointers env ctx t following) ↔
      (meaningsOf ps).all (·.isWord isTrailingWord) = true ∧
        t = flagged base (ms ++ (meaningsOf ps).takeWhile (·.isWord isTrailingWord)) := by
  rw [goOn_ok hfollowing]
  constructor
  · rintro ⟨-, h⟩
    obtain ⟨hread, rfl⟩ := leftover _ _ _ h
    refine ⟨?_, rfl⟩
    have hall := congrArg meaningsOf hread
    rw [meaningsOf_dropWhile (·.isWord isTrailingWord)] at hall
    exact all_eq_true.mpr (List.dropWhile_eq_nil_iff.mp hall)
  · rintro ⟨hall, rfl⟩
    have hread : ps.dropWhile (·.meaning.isWord isTrailingWord) = [] := by
      rw [List.dropWhile_eq_nil_iff]
      intro s hs
      exact all_eq_true.mp hall _ (List.mem_map_of_mem hs)
    rw [hread]
    exact ⟨hbase, rfl⟩

theorem goOn_error (t t' : TypeSpec) (rest : List Token) (ht : t.specifiers.kind = .invalid) :
    ¬ (t'.specifiers.kind ≠ .invalid ∧
      goOn env ctx (.error (t, rest)) = readPointers env ctx t' following) := by
  rintro ⟨hkind, h⟩
  have htype : t = t' := by simpa [goOn] using congrArg ParsedTypeResult.type h
  exact hkind (htype ▸ ht)

-- Valid specifiers

theorem filter_typeWords (q : TokenType → Bool) (hq : ∀ type, q type = true → isTypeWord type = true)
    (ms : List Meaning) : (typeWords ms).filter (·.isWord q) = ms.filter (·.isWord q) := by
  rw [typeWords, List.filter_filter]
  apply List.filter_congr
  intro m _
  cases m with
  | word type =>
    cases hword : q type with
    | false => simp [Meaning.isWord, hword]
    | true => simp [Meaning.isWord, hword, hq type hword]
  | tagged tag name => rfl
  | typeName name => rfl

theorem baseWord_type (h : isBaseWord type = true) : isTypeWord type = true := by
  simp [isTypeWord, h]

theorem sizeWord_type (h : isSizeWord type = true) : isTypeWord type = true := by
  simp [isTypeWord, h]

theorem complexWord_type (h : isComplexWord type = true) : isTypeWord type = true := by
  simp [isTypeWord, h]

theorem isBase_filter (ms : List Meaning) (h : ms.filter isReference = []) :
    ms.filter isBase = ms.filter (·.isWord isBaseWord) := by
  apply List.filter_congr
  intro m hm
  have hreference := filter_eq_nil_iff.mp h m hm
  simp [isBase, Bool.not_eq_true _ ▸ hreference]

theorem words_filter (q : TokenType → Bool) (c : List TokenType) :
    ((c.map Meaning.word).filter (·.isWord q)).length = (c.filter q).length := by
  rw [List.filter_map, List.length_map]
  rfl

variable {ms : List Meaning}

theorem Valid.base_length (h : Valid env ms) : (ms.filter isBase).length ≤ 1 := by
  rcases h.types with ⟨hreferences, c, hc, hwords⟩ | ⟨hwords, hreference⟩
  · have hcombination : ∀ c ∈ typeCombinations, (c.filter isBaseWord).length ≤ 1 := by decide
    rw [isBase_filter ms hreferences, ← filter_typeWords isBaseWord (fun _ => baseWord_type),
      (hwords.filter _).length_eq, words_filter]
    exact hcombination c hc
  · have hbase : ms.filter isBase = ms.filter isReference := by
      apply List.filter_congr
      intro m hm
      cases m with
      | word type =>
        have hword := filter_eq_nil_iff.mp hwords _ hm
        cases htype : isBaseWord type with
        | false => simp [isBase, isReference, Meaning.isWord, htype]
        | true => exact absurd (baseWord_type htype) hword
      | tagged tag name => rfl
      | typeName name => rfl
    rw [hbase, hreference]

theorem Valid.reference_sizes (h : Valid env ms) (hm : m ∈ ms) (hreference : m.isReference = true)
    (hsize : isSizeWord type = true) : .word type ∉ ms := by
  rcases h.types with ⟨hreferences, -⟩ | ⟨hwords, -⟩
  · exact absurd hreference (filter_eq_nil_iff.mp hreferences m hm)
  · exact fun hword => filter_eq_nil_iff.mp hwords _ hword (sizeWord_type hsize)

theorem Valid.implicit (h : Valid env ms) (hbase : ∀ m ∈ ms, m.isBase = false) :
    (∃ type, isSizeWord type = true ∧ .word type ∈ ms) ∧
      ∀ type, isComplexWord type = true → .word type ∉ ms := by
  rcases h.types with ⟨hreferences, c, hc, hwords⟩ | ⟨-, hreference⟩
  · have hcombination : ∀ c ∈ typeCombinations, c.filter isBaseWord = [] →
        (∃ type ∈ c, isSizeWord type = true) ∧ c.filter isComplexWord = [] := by decide
    have hnone : c.filter isBaseWord = [] := by
      rw [← List.length_eq_zero_iff, ← words_filter, ← (hwords.filter _).length_eq,
        filter_typeWords isBaseWord (fun _ => baseWord_type), ← isBase_filter ms hreferences,
        List.length_eq_zero_iff, filter_eq_nil_iff]
      exact fun m hm => by simp [hbase m hm]
    obtain ⟨⟨type, htype, hsize⟩, hcomplex⟩ := hcombination c hc hnone
    refine ⟨⟨type, hsize, ?_⟩, fun type hcomplexType hword => ?_⟩
    · exact (mem_filter.mp (hwords.mem_iff.mpr (List.mem_map_of_mem htype))).1
    · have hmem : .word type ∈ typeWords ms := mem_filter.mpr ⟨hword, complexWord_type hcomplexType⟩
      obtain ⟨type', htype', heq⟩ := List.mem_map.mp (hwords.mem_iff.mp hmem)
      obtain rfl := Meaning.word.inj heq
      exact filter_eq_nil_iff.mp hcomplex type' htype' hcomplexType
  · obtain ⟨m, hm⟩ := List.exists_mem_of_length_pos (Nat.lt_of_lt_of_eq Nat.zero_lt_one hreference.symm)
    obtain ⟨hmem, hreference⟩ := mem_filter.mp hm
    simpa [isBase, hreference] using hbase m hmem

theorem base_unique (h : (ms.filter isBase).length ≤ 1) (hm : m ∈ ms) (hm' : m' ∈ ms)
    (hbase : m.isBase = true) (hbase' : m'.isBase = true) : m = m' := by
  have hmem : m ∈ ms.filter isBase := mem_filter.mpr ⟨hm, hbase⟩
  have hmem' : m' ∈ ms.filter isBase := mem_filter.mpr ⟨hm', hbase'⟩
  match ms.filter isBase, h, hmem, hmem' with
  | [_], _, hmem, hmem' => rw [List.mem_singleton.mp hmem, List.mem_singleton.mp hmem']

-- One order

def trailingOf (ms : List Meaning) : List Meaning :=
  match behindOf ms with
  | [] => []
  | base :: rest =>
    (if base.isReference then rest else rest.dropWhile (·.isWord isPrimitiveTypeToken)).takeWhile
      (·.isWord isTrailingWord)

def baseTypeOf (ms : List Meaning) : BaseType :=
  match behindOf ms with
  | [] => ⟨.primitive, .none, .kwInt, none⟩
  | base :: _ => baseOfMeaning base

def resultOf (ms : List Meaning) : TypeSpec := flagged (baseTypeOf ms) (runOf ms ++ trailingOf ms)

theorem run_append (ms : List Meaning) : runOf ms ++ behindOf ms = ms := by
  rw [runOf, behindOf, List.append_assoc, List.takeWhile_append_dropWhile, List.takeWhile_append_dropWhile]

theorem run_word (h : m ∈ runOf ms) : ∃ type, m = .word type ∧
    (isStorageWord type = true ∨ isModifierWord type = true) := by
  rcases mem_append.mp h with h | h
  · cases m with
    | word type =>
      have hword : (Meaning.word type).isWord isStorageWord = true := mem_takeWhile_imp h
      exact ⟨type, rfl, .inl hword⟩
    | tagged tag name | typeName name => cases mem_takeWhile_imp h
  · cases m with
    | word type =>
      have hword : (Meaning.word type).isWord isModifierWord = true := mem_takeWhile_imp h
      exact ⟨type, rfl, .inr hword⟩
    | tagged tag name | typeName name => cases mem_takeWhile_imp h

theorem storage_not_base (h : isStorageWord type = true) : isBaseWord type = false := by
  simp only [isStorageWord, contains_iff_mem, mem_cons, not_mem_nil, or_false] at h
  rcases h with rfl | rfl | rfl | rfl | rfl <;> rfl

theorem modifier_not_base (h : isModifierWord type = true) : isBaseWord type = false := by
  simp only [isModifierWord, isQualifierWord, isSizeWord, isComplexWord, Bool.or_eq_true, beq_iff_eq,
    contains_iff_mem, mem_cons, not_mem_nil, or_false] at h
  rcases h with (((rfl | rfl | rfl) | rfl) | rfl | rfl | rfl | rfl) | rfl | rfl <;> rfl

theorem run_not_base (h : m ∈ runOf ms) : m.isBase = false := by
  obtain ⟨type, rfl, hstorage | hmodifier⟩ := run_word h
  · exact storage_not_base hstorage
  · exact modifier_not_base hmodifier

theorem head_not_modifier (h : behindOf ms = m :: rest) : m.isWord isModifierWord = false := by
  have hhead := List.head?_dropWhile_not (·.isWord isModifierWord) (ms.dropWhile (·.isWord isStorageWord))
  rw [← behindOf, h] at hhead
  exact hhead

theorem wellOrdered_eq (ms : List Meaning) : wellOrdered ms =
    match behindOf ms with
    | [] => true
    | base :: rest =>
      base.isBase &&
        (if base.isReference then rest else rest.dropWhile (·.isWord isPrimitiveTypeToken)).all
          (·.isWord isTrailingWord) := rfl

theorem reads_implicit (hvalid : Valid env ms) (hfollowing : endsSpecifiers following = true)
    (hbehind : behindOf ms = []) (t : TypeSpec) :
    (t.specifiers.kind ≠ .invalid ∧ goOn env ctx (readBase env ctx (flagged noBase (runOf ms)) following) =
        readPointers env ctx t following) ↔
      FollowFits env ctx ms following ∧ t = resultOf ms := by
  have hrun : runOf ms = ms := by simpa [hbehind] using run_append ms
  have hbase : ∀ m ∈ ms, m.isBase = false := fun m hm => run_not_base (hrun ▸ hm)
  obtain ⟨⟨size, hsize, hmem⟩, hcomplex⟩ := hvalid.implicit hbase
  have hmodifiers : hasTypeModifiers (flagged noBase ms) = true := by
    simp only [isSizeWord, contains_iff_mem, mem_cons, not_mem_nil, or_false] at hsize
    rcases hsize with rfl | rfl | rfl | rfl <;> simp [hasTypeModifiers, flagged, hmem]
  have himplicit (tokens : List Token) : readImplicit ctx (flagged noBase ms) tokens =
      .ok (flagged ⟨.primitive, .none, .kwInt, none⟩ ms, tokens) := by
    have hnone : ((flagged noBase ms).specifiers.isComplex || (flagged noBase ms).specifiers.isImaginary) =
        false := by
      simp [flagged, hcomplex .kwComplex rfl, hcomplex .kwImaginary rfl]
    simp only [readImplicit, hnone, hmodifiers]
    rfl
  have hresult : resultOf ms = flagged ⟨.primitive, .none, .kwInt, none⟩ ms := by
    rw [resultOf, baseTypeOf, trailingOf, hbehind, hrun, List.append_nil]
  have hgo : (t.specifiers.kind ≠ .invalid ∧
      goOn env ctx (.ok (flagged ⟨.primitive, .none, .kwInt, none⟩ ms, following)) =
        readPointers env ctx t following) ↔ t = resultOf ms := by
    have hiff : (t.specifiers.kind ≠ .invalid ∧
        goOn env ctx (.ok (flagged ⟨.primitive, .none, .kwInt, none⟩ ms, tokensOf [] ++ following)) =
          readPointers env ctx t following) ↔ _ := goOn_iff hfollowing _ (by simp) ms [] t
    simpa [tokensOf, meaningsOf, hresult] using hiff
  have htags : ∀ tag name, Meaning.tagged tag name ∉ ms := fun tag name hm => by
    cases hbase _ hm
  rw [hrun]
  cases following with
  | nil =>
    rw [readBase, himplicit, hgo]
    exact ⟨fun h => ⟨⟨fun _ _ => by simp, fun _ tag name hm => absurd hm (htags tag name)⟩, h⟩, And.right⟩
  | cons tok rest => ?_
  obtain ⟨hword, htag, -, -⟩ := endsSpecifiers_cons hfollowing
  by_cases hidentifier : tok.type = .identifier
  · have hread : readBase env ctx (flagged noBase ms) (tok :: rest) =
        readIdentifier env ctx (flagged noBase ms) tok rest := by
      rw [readBase, if_neg (by simp [not_primitive hword]), if_neg (by simp [htag]), if_pos hidentifier]
    have hfits : FollowFits env ctx ms (tok :: rest) ↔
        ctx = .declaration ∧ env.hiddenTypedef (tokenText tok) = false := by
      refine ⟨fun h => h.1 ?_ tok rfl hidentifier, fun h => ⟨fun _ tok' htok' _ => ?_, fun _ tag name hm =>
        absurd hm (htags tag name)⟩⟩
      · exact all_eq_true.mpr fun m hm => by simp [hbase m hm]
      · obtain rfl : tok = tok' := by simpa using htok'
        exact h
    rw [hread, hfits, readIdentifier, hmodifiers]
    cases hhidden : env.hiddenTypedef (tokenText tok) with
    | true => simpa using goOn_error (parsedTypeDefault _) t _ rfl
    | false => ?_
    cases ctx with
    | strict => simpa using goOn_error (parsedTypeDefault _) t _ rfl
    | declaration =>
      have hprimitive : withPrimitive (flagged noBase ms) .kwInt =
          flagged ⟨.primitive, .none, .kwInt, none⟩ ms := rfl
      simpa [hprimitive] using hgo
  · have hread : readBase env ctx (flagged noBase ms) (tok :: rest) =
        readImplicit ctx (flagged noBase ms) (tok :: rest) := by
      rw [readBase, if_neg (by simp [not_primitive hword]), if_neg (by simp [htag]), if_neg hidentifier]
    rw [hread, himplicit, hgo]
    refine ⟨fun h => ⟨⟨fun _ tok' htok' htype => ?_, fun _ tag name hm => absurd hm (htags tag name)⟩, h⟩,
      And.right⟩
    obtain rfl : tok = tok' := by simpa using htok'
    exact absurd htype hidentifier

theorem baseOfMeaning_kind (m : Meaning) : (baseOfMeaning m).kind ≠ .invalid := by
  cases m with
  | word type | typeName name => simp [baseOfMeaning]
  | tagged tag name => cases tag <;> simp [baseOfMeaning, kindOfTag]

theorem result_of_base (hbehind : behindOf ms = m :: rest) (hrest : trailing =
    if m.isReference then rest else rest.dropWhile (·.isWord isPrimitiveTypeToken)) :
    resultOf ms = flagged (baseOfMeaning m) (runOf ms ++ trailing.takeWhile (·.isWord isTrailingWord)) := by
  rw [resultOf, baseTypeOf, trailingOf, hbehind, hrest]

theorem wellOrdered_of_base (hbehind : behindOf ms = m :: rest) (hbase : m.isBase = true) (hrest : trailing =
    if m.isReference then rest else rest.dropWhile (·.isWord isPrimitiveTypeToken)) :
    wellOrdered ms = trailing.all (·.isWord isTrailingWord) := by
  rw [wellOrdered_eq, hbehind, hrest]
  simp [hbase]

theorem followFits_of_base (hvalid : Valid env ms) (hm : m ∈ ms) (hbase : m.isBase = true) :
    FollowFits env ctx ms following ↔
      (ctx = .strict → ∀ tag name, m = .tagged tag name → env.tagIsKnown tag name = true) := by
  constructor
  · rintro ⟨-, htags⟩ hstrict tag name rfl
    exact htags hstrict tag name hm
  · intro htags
    refine ⟨fun hall => ?_, fun hstrict tag name hmem => htags hstrict tag name ?_⟩
    · simpa [hbase] using all_eq_true.mp hall m hm
    · exact base_unique hvalid.base_length hm hmem hbase rfl

theorem reads_iff (env : TypeEnvironment) (ctx : TypeContext) (ps : List Specifier)
    (hvalid : Valid env (meaningsOf ps))
    (hfollowing : endsSpecifiers following = true) (t : TypeSpec) :
    (t.specifiers.kind ≠ .invalid ∧
        parseTypeCore env ctx (tokensOf ps ++ following) = readPointers env ctx t following) ↔
      wellOrdered (meaningsOf ps) = true ∧ FollowFits env ctx (meaningsOf ps) following ∧
        t = resultOf (meaningsOf ps) := by
  have hbehind := meaningsOf_behindRun ps
  rw [parseTypeCore_eq hfollowing]
  cases hps : behindRun ps with
  | nil =>
    rw [hps] at hbehind
    have hordered : wellOrdered (meaningsOf ps) = true := by rw [wellOrdered_eq, ← hbehind]; rfl
    simpa [tokensOf, hordered] using reads_implicit hvalid hfollowing hbehind.symm t
  | cons s rest => ?_
  rw [hps] at hbehind
  have hbehind : behindOf (meaningsOf ps) = s.meaning :: meaningsOf rest := hbehind.symm
  have hmem : s.meaning ∈ meaningsOf ps := by
    rw [← run_append (meaningsOf ps), hbehind]
    exact List.mem_append_right _ List.mem_cons_self
  cases s with
  | word tok hspecifier =>
    cases hword : isBaseWord tok.type with
    | true =>
      have hbase : (Meaning.word tok.type).isBase = true := hword
      have hrest := meaningsOf_dropWhile (·.isWord isPrimitiveTypeToken) rest
      have hfits : FollowFits env ctx (meaningsOf ps) following :=
        (followFits_of_base hvalid hmem hbase).mpr (by rintro - _ _ ⟨⟩)
      refine (iff_of_eq (congrArg (fun read => _ ∧ goOn env ctx read = _)
        (readBase_word hfollowing tok hword _ rest))).trans ?_
      rw [goOn_iff hfollowing _ (baseOfMeaning_kind _), wellOrdered_of_base hbehind hbase hrest,
        result_of_base hbehind hrest]
      simp only [hfits, true_and, meaning]
    | false =>
      have hmodifier : isModifierWord tok.type = false := head_not_modifier hbehind
      have htrailing : isTrailingWord tok.type = false := by
        simp only [isModifierWord, Bool.or_eq_false_iff] at hmodifier
        simp [isTrailingWord, hmodifier]
      have hunordered : wellOrdered (meaningsOf ps) = false := by
        rw [wellOrdered_eq, hbehind]
        simp [meaning, isBase, isReference, Meaning.isWord, hword]
      refine iff_of_false ?_ (by simp [hunordered])
      have hread : readBase env ctx (flagged noBase (runOf (meaningsOf ps)))
          (tokensOf (.word tok hspecifier :: rest) ++ following) =
          readImplicit ctx (flagged noBase (runOf (meaningsOf ps)))
            (tokensOf (.word tok hspecifier :: rest) ++ following) :=
        readBase_other tok hspecifier hword hmodifier _ _
      rw [hread, readImplicit]
      split
      · intro h
        have hall := ((goOn_iff hfollowing ⟨.primitive, .none, _, none⟩ (by simp) _ _ t).mp h).1
        simp [meaningsOf, meaning, Meaning.isWord, htrailing] at hall
      · exact goOn_error _ t _ rfl
  | tagged keyword htag name =>
    have hbase : (Meaning.tagged (tagKindFromToken keyword.type) (tokenText name.1)).isBase = true := rfl
    have hfits : FollowFits env ctx (meaningsOf ps) following ↔ _ := followFits_of_base hvalid hmem hbase
    refine (iff_of_eq (congrArg (fun read => _ ∧ goOn env ctx read = _)
      (readBase_tagged hfollowing keyword htag name _ rest))).trans ?_
    rw [hfits]
    by_cases hknown : ctx = .strict ∧ env.tagIsKnown (tagKindFromToken keyword.type) (tokenText name.1) = false
    · obtain ⟨hstrict, hunknown⟩ := hknown
      rw [if_pos (by simp [hstrict, hunknown])]
      refine iff_of_false (goOn_error _ t _ rfl) ?_
      rintro ⟨-, htags, -⟩
      exact Bool.noConfusion ((htags hstrict _ _ rfl).symm.trans hunknown)
    · have hfits : ctx = .strict → ∀ tag name',
        Meaning.tagged (tagKindFromToken keyword.type) (tokenText name.1) =
          .tagged tag name' → env.tagIsKnown tag name' = true := by
        rintro hstrict _ _ ⟨rfl, rfl⟩
        simpa [hstrict] using hknown
      rw [if_neg (by simpa using hknown), goOn_iff hfollowing _ (baseOfMeaning_kind _),
        wellOrdered_of_base hbehind hbase rfl, result_of_base hbehind rfl]
      simp only [meaning, eq_true hfits, true_and]
      rfl
  | typeName name hmarker =>
    have hbase : (Meaning.typeName (tokenText name.1)).isBase = true := rfl
    have hfits : FollowFits env ctx (meaningsOf ps) following :=
      (followFits_of_base hvalid hmem hbase).mpr (by rintro - _ _ ⟨⟩)
    have hsizes (type : TokenType) (hsize : isSizeWord type = true) :
        Meaning.word type ∉ runOf (meaningsOf ps) := fun hrun =>
      hvalid.reference_sizes hmem rfl hsize
        (by rw [← run_append (meaningsOf ps)]; exact List.mem_append_left _ hrun)
    refine (iff_of_eq (congrArg (fun read => _ ∧ goOn env ctx read = _)
      (readBase_typeName name _ (tokensOf rest ++ following) hsizes (hvalid.known _ hmem)))).trans ?_
    rw [goOn_iff hfollowing _ (baseOfMeaning_kind _), wellOrdered_of_base hbehind hbase rfl,
      result_of_base hbehind rfl]
    simp only [hfits, true_and, meaning]
    rfl

-- Two orders

theorem ordered_cases (h : wellOrdered ms = true) : (behindOf ms = [] ∧ trailingOf ms = []) ∨
    ∃ base skipped, behindOf ms = base :: (skipped ++ trailingOf ms) ∧ base.isBase = true ∧
      (∀ m ∈ skipped, m.isWord isPrimitiveTypeToken = true) ∧
      (∀ m ∈ trailingOf ms, m.isWord isTrailingWord = true) := by
  cases hbehind : behindOf ms with
  | nil => exact .inl ⟨rfl, by rw [trailingOf, hbehind]⟩
  | cons base rest => ?_
  rw [wellOrdered_eq, hbehind, Bool.and_eq_true] at h
  obtain ⟨hbase, hall⟩ := h
  have htrailing : trailingOf ms =
      if base.isReference then rest else rest.dropWhile (·.isWord isPrimitiveTypeToken) := by
    rw [trailingOf, hbehind]
    exact List.takeWhile_eq_self_iff.mpr (all_eq_true.mp hall)
  rw [← htrailing] at hall
  refine .inr ⟨base, if base.isReference then [] else rest.takeWhile (·.isWord isPrimitiveTypeToken), ?_, hbase,
    fun m hm => ?_, all_eq_true.mp hall⟩
  · rw [htrailing]
    split
    · rfl
    · rw [List.takeWhile_append_dropWhile]
  · split at hm
    · cases hm
    · exact mem_takeWhile_imp hm

theorem beforeBase_eq (h : wellOrdered ms = true) : beforeBase ms = runOf ms := by
  have hrun : ∀ m ∈ runOf ms, (!m.isBase) = true := fun m hm => by simp [run_not_base hm]
  have happend : (runOf ms ++ behindOf ms).takeWhile (!·.isBase) =
      runOf ms ++ (behindOf ms).takeWhile (!·.isBase) := List.takeWhile_append_of_pos hrun
  rw [run_append] at happend
  rw [beforeBase, happend]
  rcases ordered_cases h with ⟨hbehind, -⟩ | ⟨base, skipped, hbehind, hbase, -⟩
  · simp [hbehind]
  · simp [hbehind, hbase]

theorem recorded_not_base (h : isRecordedWord type = true) : isBaseWord type = false := by
  simp only [isRecordedWord, isQualifierWord, isComplexWord, isSizeWord, Bool.or_eq_true,
    contains_iff_mem, mem_cons, not_mem_nil, or_false, beq_iff_eq] at h
  rcases h with ((((rfl | rfl | rfl) | rfl | rfl) | rfl | rfl | rfl | rfl) | rfl) | rfl | rfl | rfl | rfl
    <;> rfl

theorem primitive_size (hprimitive : isPrimitiveTypeToken type = true) (hbase : isBaseWord type = false) :
    isSizeWord type = true := by
  simp_all only [isPrimitiveTypeToken, isBaseWord, Bool.or_eq_true, beq_iff_eq, List.contains_eq_mem,
    decide_eq_false_iff_not, mem_cons, not_mem_nil, or_false, not_or, false_or]
  rcases hprimitive with ((rfl | rfl) | rfl) | rfl <;> rfl

theorem trailing_not_size (h : isTrailingWord type = true) : isSizeWord type = false := by
  simp only [isTrailingWord, isQualifierWord, isComplexWord, Bool.or_eq_true, contains_iff_mem,
    mem_cons, not_mem_nil, or_false] at h
  rcases h with (rfl | rfl | rfl) | rfl | rfl <;> rfl

theorem recorded_iff (h : wellOrdered ms = true) (hrecorded : isRecordedWord type = true) :
    .word type ∈ runOf ms ++ trailingOf ms ↔
      if isSizeWord type then .word type ∈ beforeBase ms else .word type ∈ ms := by
  rw [beforeBase_eq h, mem_append]
  have hmem : .word type ∈ ms ↔ .word type ∈ runOf ms ∨ .word type ∈ behindOf ms := by
    rw [← mem_append, run_append]
  rcases ordered_cases h with ⟨hbehind, htrailing⟩ | ⟨base, skipped, hbehind, hbase, hskipped, htrailing⟩
  · rw [hmem, hbehind, htrailing]
    simp only [not_mem_nil, or_false, ite_self]
  · have hnot : Meaning.word type ≠ base := by
      rintro rfl
      exact Bool.noConfusion (hbase.symm.trans (recorded_not_base hrecorded))
    split
    next hsize =>
      refine or_iff_left fun hmem => ?_
      exact Bool.noConfusion ((trailing_not_size (htrailing _ hmem)).symm.trans hsize)
    next hsize =>
      have hnotSkipped : .word type ∉ skipped := fun hmem =>
        hsize (primitive_size (hskipped _ hmem) (recorded_not_base hrecorded))
      rw [hmem, hbehind, mem_cons, mem_append]
      simp only [hnot, hnotSkipped, false_or]

theorem baseTypeOf_eq (h : wellOrdered ms = true) : baseTypeOf ms =
    match (ms.filter isBase).head? with
    | none => ⟨.primitive, .none, .kwInt, none⟩
    | some base => baseOfMeaning base := by
  have hrun : (runOf ms).filter isBase = [] :=
    filter_eq_nil_iff.mpr fun m hm => by simp [run_not_base hm]
  have hfilter : ms.filter isBase = (behindOf ms).filter isBase := by
    calc ms.filter isBase = (runOf ms ++ behindOf ms).filter isBase := by rw [run_append]
      _ = (behindOf ms).filter isBase := by rw [List.filter_append, hrun, List.nil_append]
  rw [hfilter, baseTypeOf]
  rcases ordered_cases h with ⟨hbehind, -⟩ | ⟨base, skipped, hbehind, hbase, -⟩
  · rw [hbehind]
    rfl
  · rw [hbehind, List.filter_cons_of_pos hbase]
    rfl

variable {ms' : List Meaning}

theorem typeWords_perm (hperm : ms.Perm ms') : (typeWords ms).Perm (typeWords ms') := hperm.filter _

theorem Valid.perm (h : Valid env ms) (hperm : ms.Perm ms') : Valid env ms' where
  storage := by
    rw [← (hperm.filter _).length_eq]
    exact h.storage
  types := by
    rcases h.types with ⟨hreferences, c, hc, hwords⟩ | ⟨hwords, hreference⟩
    · refine .inl ⟨?_, c, hc, (typeWords_perm hperm).symm.trans hwords⟩
      have hfilter := hperm.filter isReference
      rw [hreferences] at hfilter
      exact hfilter.nil_eq.symm
    · refine .inr ⟨?_, (hperm.filter _).length_eq.symm.trans hreference⟩
      have hfilter := typeWords_perm hperm
      rw [hwords] at hfilter
      exact hfilter.nil_eq.symm
  known name hname := h.known name (hperm.mem_iff.mpr hname)

theorem base_perm (h : Valid env ms) (hperm : ms.Perm ms') :
    ms.filter isBase = ms'.filter isBase := by
  have hfilter := hperm.filter isBase
  have hlength := h.base_length
  match ms.filter isBase, hlength, hfilter with
  | [], _, hfilter => exact hfilter.nil_eq
  | [_], _, hfilter => exact (List.singleton_perm.mp hfilter)

theorem followFits_perm (hperm : ms.Perm ms') :
    FollowFits env ctx ms following ↔ FollowFits env ctx ms' following := by
  have hall : (ms.all (!·.isBase) = true) ↔ (ms'.all (!·.isBase) = true) := by
    simp only [all_eq_true, hperm.mem_iff]
  simp only [FollowFits, hall, hperm.mem_iff]

/-- The same is read from two orders exactly when they have the same sign and size words
before the base type. -/
theorem result_eq_iff (hvalid : Valid env ms) (hperm : ms.Perm ms') (h : wellOrdered ms = true)
    (h' : wellOrdered ms' = true) : resultOf ms = resultOf ms' ↔ SameSizes ms ms' := by
  have hbase : baseTypeOf ms = baseTypeOf ms' := by
    rw [baseTypeOf_eq h, baseTypeOf_eq h', base_perm hvalid hperm]
  rw [resultOf, resultOf, flagged_inj]
  constructor
  · rintro ⟨-, hrecorded⟩ type hsize
    have htype : isRecordedWord type = true := by simp [isRecordedWord, hsize]
    simpa [recorded_iff h htype, recorded_iff h' htype, hsize] using hrecorded type htype
  · intro hsizes
    refine ⟨hbase, fun type htype => ?_⟩
    rw [recorded_iff h htype, recorded_iff h' htype]
    split
    next hsize => exact hsizes type hsize
    next => exact hperm.mem_iff

/-- Two orders of valid specifiers are read alike exactly when both are in the order of
the phases, have the same sign and size words before the base type and fit what follows. -/
theorem readAlike_iff (env : TypeEnvironment) (ctx : TypeContext) (ps qs : List Specifier)
    (following : List Token) (hvalid : Valid env (meaningsOf ps))
    (hperm : (meaningsOf ps).Perm (meaningsOf qs)) (hfollowing : endsSpecifiers following = true) :
    ReadAlike env ctx ps qs following ↔
      wellOrdered (meaningsOf ps) = true ∧ wellOrdered (meaningsOf qs) = true ∧
        SameSizes (meaningsOf ps) (meaningsOf qs) ∧ FollowFits env ctx (meaningsOf ps) following := by
  have hp := reads_iff env ctx ps hvalid hfollowing
  have hq := reads_iff env ctx qs (hvalid.perm hperm) hfollowing
  constructor
  · rintro ⟨t, hkind, hleft, hright⟩
    obtain ⟨hordered, hfits, rfl⟩ := (hp t).mp ⟨hkind, hleft⟩
    obtain ⟨hordered', -, heq⟩ := (hq _).mp ⟨hkind, hright⟩
    exact ⟨hordered, hordered', (result_eq_iff hvalid hperm hordered hordered').mp heq, hfits⟩
  · rintro ⟨hordered, hordered', hsizes, hfits⟩
    have heq := (result_eq_iff hvalid hperm hordered hordered').mpr hsizes
    obtain ⟨hkind, hleft⟩ := (hp (resultOf (meaningsOf ps))).mpr ⟨hordered, hfits, rfl⟩
    obtain ⟨-, hright⟩ := (hq (resultOf (meaningsOf ps))).mpr ⟨hordered', (followFits_perm hperm).mp hfits, heq⟩
    exact ⟨_, hkind, hleft, hright⟩

-- Two ways to write `unsigned int`

def tokenFor (type : TokenType) (value : Option String) : Token :=
  ⟨type, value, 1, 1, 1, emptyRange, emptyRange, emptyRange⟩

def staticWord : Specifier := .word (tokenFor .kwStatic none) rfl

def constWord : Specifier := .word (tokenFor .kwConst none) rfl

def unsignedWord : Specifier := .word (tokenFor .kwUnsigned none) rfl

def intWord : Specifier := .word (tokenFor .kwInt none) rfl

def declared : List Token := [tokenFor .identifier (some "x"), tokenFor .semicolon none]

/-- Nothing is declared yet. -/
def freshEnvironment : TypeEnvironment where
  knownType _ := false
  hiddenTypedef _ := false
  tagIsKnown _ _ := false
  parseBody _ _ _ := .error "Expected '\x7d' to close struct/union body"
  blockPointers := false

theorem valid_static_const_int : Valid freshEnvironment (meaningsOf [staticWord, constWord, intWord]) where
  storage := by decide
  types := .inl ⟨rfl, [.kwInt], by decide, .refl _⟩
  known name hname := by simp [meaningsOf, staticWord, constWord, intWord, meaning] at hname

theorem valid_unsigned_int : Valid freshEnvironment (meaningsOf [unsignedWord, intWord]) where
  storage := by decide
  types := .inl ⟨rfl, [.kwUnsigned, .kwInt], by decide, .refl _⟩
  known name hname := by simp [meaningsOf, unsignedWord, intWord, meaning] at hname

/-- `static const int x;` and `static int const x;` -/
theorem static_const_int_read_alike :
    ReadAlike freshEnvironment .declaration [staticWord, constWord, intWord] [staticWord, intWord, constWord]
      declared := by
  have hperm : (meaningsOf [staticWord, constWord, intWord]).Perm
      (meaningsOf [staticWord, intWord, constWord]) := .cons _ (.swap _ _ _)
  refine (readAlike_iff _ _ _ _ _ valid_static_const_int hperm rfl).mpr
    ⟨rfl, rfl, fun type hsize => ?_, fun _ tok htok _ => ⟨rfl, rfl⟩, by rintro ⟨⟩⟩
  simp only [isSizeWord, List.contains_iff_mem, List.mem_cons, List.not_mem_nil, or_false] at hsize
  rcases hsize with rfl | rfl | rfl | rfl <;> decide

/-- `unsigned int x;` and `int unsigned x;`, `static const int x;` and `const static int x;` -/
theorem specifiers_ordered :
    (Valid freshEnvironment (meaningsOf [unsignedWord, intWord]) ∧
      ¬ ReadAlike freshEnvironment .declaration [unsignedWord, intWord] [intWord, unsignedWord] declared) ∧
    (Valid freshEnvironment (meaningsOf [staticWord, constWord, intWord]) ∧
      ¬ ReadAlike freshEnvironment .declaration [staticWord, constWord, intWord]
        [constWord, staticWord, intWord]
        declared) := by
  refine ⟨⟨valid_unsigned_int, ?_⟩, valid_static_const_int, ?_⟩
  · rintro ⟨t, -, hleft, hright⟩
    have hunsigned : t.specifiers.isUnsigned = true := congrArg (·.type.specifiers.isUnsigned) hleft.symm
    have hsigned : false = t.specifiers.isUnsigned := congrArg (·.type.specifiers.isUnsigned) hright
    exact Bool.noConfusion (hsigned.trans hunsigned)
  · rintro ⟨t, hkind, -, hright⟩
    have hinvalid : .invalid = t.specifiers.kind := congrArg (·.type.specifiers.kind) hright
    exact hkind hinvalid.symm

end Fisics.Specifiers
