import Fisics.Parser.Declarator

/-!
# Declarators and their reading

A declarator is a tree over its tokens; C reads it from the name outwards. Its parts
carry that the parsers of the environment read them. `Declarator.declared` computes over
the tree what the parser does to the type, and the parser gives it on every spelling.
-/

namespace Fisics.Declarators

variable {E P : Type} {env : Environment E P}

-- Trees

abbrev TokenOf (type : TokenType) := { tok : Token // tok.type = type }

def isPointerQualifier (type : TokenType) : Bool :=
  type == .kwConst || type == .kwVolatile || type == .kwRestrict

def isArrayKeyword (type : TokenType) : Bool :=
  type == .kwStatic || type == .kwConst || type == .kwVolatile || type == .kwRestrict

structure PointerSyntax where
  star : TokenOf .asterisk
  qualifiers : List { tok : Token // isPointerQualifier tok.type }

def PointerSyntax.tokens (p : PointerSyntax) : List Token := p.star :: p.qualifiers.map (·.1)

def PointerSyntax.layer (p : PointerSyntax) : PointerDeclaratorLayer where
  isConst := p.qualifiers.any (·.1.type = .kwConst)
  isVolatile := p.qualifiers.any (·.1.type = .kwVolatile)
  isRestrict := p.qualifiers.any (·.1.type = .kwRestrict)

def startsSize (tokens : List Token) : Bool :=
  !isArrayKeyword (currentType tokens) && currentType tokens != .lbracket &&
    currentType tokens != .rbracket && currentType tokens != .eof

structure SizeSyntax (env : Environment E P) where
  tokens : List Token
  size : E
  starts : startsSize tokens
  reads : ∀ closing rest, closing.type = .rbracket →
    env.parseAssignmentExpression (tokens ++ closing :: rest) = (some size, closing :: rest)

inductive ArraySize (env : Environment E P)
  | unspecified
  | star (tok : TokenOf .asterisk)
  | expr (size : SizeSyntax env)

def ArraySize.tokens : ArraySize env → List Token
  | .unspecified => []
  | .star tok => [tok.1]
  | .expr size => size.tokens

def ArraySize.isExpr : ArraySize env → Bool
  | .expr _ => true
  | _ => false

structure ArraySyntax (env : Environment E P) where
  opening : TokenOf .lbracket
  keywords : List { tok : Token // isArrayKeyword tok.type }
  size : ArraySize env
  closing : TokenOf .rbracket
  static_sized : keywords.any (·.1.type = .kwStatic) → size.isExpr

def ArraySyntax.tokens (a : ArraySyntax env) : List Token :=
  a.opening.1 :: (a.keywords.map (·.1) ++ (a.size.tokens ++ [a.closing.1]))

def ArraySyntax.info (a : ArraySyntax env) : ArrayInfo E where
  sizeExpr := match a.size with
    | .expr size => some size.size
    | _ => none
  isVLA := match a.size with
    | .star _ => true
    | _ => false
  constantSize := match a.size with
    | .expr size => env.numberLiteral size.size
    | _ => none
  hasStatic := a.keywords.any (·.1.type = .kwStatic)
  qualConst := a.keywords.any (·.1.type = .kwConst)
  qualVolatile := a.keywords.any (·.1.type = .kwVolatile)
  qualRestrict := a.keywords.any (·.1.type = .kwRestrict)

structure FunctionSyntax (env : Environment E P) where
  opening : TokenOf .lparen
  params : List Token
  signature : FunctionSignature P
  closing : TokenOf .rparen
  reads : ∀ rest, env.parseFunctionTypeParameterList (params ++ closing.1 :: rest) =
    some (signature, closing.1 :: rest)
  captures : env.captureFunctionParams → ∀ rest, env.parseParameterList (params ++ closing.1 :: rest) =
    some (signature, closing.1 :: rest)

def FunctionSyntax.tokens (f : FunctionSyntax env) : List Token :=
  f.opening.1 :: (f.params ++ [f.closing.1])

inductive Suffix (env : Environment E P)
  | array (a : ArraySyntax env)
  | function (f : FunctionSyntax env)

def Suffix.tokens : Suffix env → List Token
  | .array a => a.tokens
  | .function f => f.tokens

def Suffix.derivation : Suffix env → TypeDerivation E P
  | .array a => .array a.info
  | .function f => .function f.signature

inductive Declarator (env : Environment E P)
  | bare (pointers : List PointerSyntax) (suffixes : List (Suffix env))
  | group (pointers : List PointerSyntax) (opening : TokenOf .lparen) (inner : Declarator env)
    (closing : TokenOf .rparen) (suffixes : List (Suffix env))

def Declarator.tokens (name : Option (TokenOf .identifier)) : Declarator env → List Token
  | .bare pointers suffixes =>
    pointers.flatMap (·.tokens) ++ ((name.map (·.1)).toList ++ suffixes.flatMap (·.tokens))
  | .group pointers opening inner closing suffixes =>
    pointers.flatMap (·.tokens) ++
      (opening.1 :: (inner.tokens name ++ (closing.1 :: suffixes.flatMap (·.tokens))))

def levelReading (pointers : List PointerSyntax) (suffixes : List (Suffix env)) :
    List (TypeDerivation E P) :=
  suffixes.map (·.derivation) ++ (pointers.map fun p => .pointer p.layer).reverse

/-- From the name outwards. -/
def Declarator.reading : Declarator env → List (TypeDerivation E P)
  | .bare pointers suffixes => levelReading pointers suffixes
  | .group pointers _ inner _ suffixes => inner.reading ++ levelReading pointers suffixes

def Declarator.isName : Declarator env → Bool
  | .bare [] [] => true
  | _ => false

-- What the parser does to the type

def Suffix.isArray : Suffix env → Bool
  | .array _ => true
  | .function _ => false

@[simp] theorem Suffix.isArray_array (a : ArraySyntax env) : (Suffix.array a).isArray = true := rfl

@[simp] theorem Suffix.isArray_function (f : FunctionSyntax env) :
    (Suffix.function f).isArray = false := rfl

def Suffix.append (grouped : Bool) (t : DeclaredType E P) : Suffix env → DeclaredType E P
  | .array a => parsedTypeAppendArray t a.info
  | .function f => appendFunctionSuffix grouped t f.signature

def levelDeclared (pointers : List PointerSyntax) (suffixes : List (Suffix env)) (grouped : Bool)
    (t : DeclaredType E P) : DeclaredType E P :=
  finishType (pointers.map (·.layer)) grouped (suffixes.any (·.isArray))
    (suffixes.foldl (Suffix.append grouped) t)

def Declarator.declared (named : Bool) : Declarator env → DeclaredType E P → DeclaredType E P
  | .bare pointers suffixes, t => levelDeclared pointers suffixes false t
  | .group pointers _ inner _ suffixes, t =>
    levelDeclared pointers suffixes (!(named && inner.isName)) (inner.declared named t)

/-- Not a size expression that begins with `*`, which the parser takes for `[*]`. -/
def ArraySize.isRead : ArraySize env → Bool
  | .expr size => currentType size.tokens != .asterisk
  | _ => true

def Suffix.isRead : Suffix env → Bool
  | .array a => a.size.isRead
  | .function _ => true

def Declarator.isRead : Declarator env → Bool
  | .bare _ suffixes => suffixes.all (·.isRead)
  | .group _ _ inner _ suffixes => inner.isRead && suffixes.all (·.isRead)

-- The parser on a spelling: pointers and sizes

theorem consumePointerQualifiers_spelled (layer : PointerDeclaratorLayer)
    (qualifiers : List { tok : Token // isPointerQualifier tok.type })
    (hq : isPointerQualifier (currentType rest) = false) (ha : currentType rest ≠ .kwAtomic) :
    consumePointerQualifiers layer (qualifiers.map (·.1) ++ rest) =
      (⟨layer.isConst || qualifiers.any (·.1.type = .kwConst),
        layer.isVolatile || qualifiers.any (·.1.type = .kwVolatile),
        layer.isRestrict || qualifiers.any (·.1.type = .kwRestrict)⟩, rest) := by
  induction qualifiers generalizing layer with
  | nil =>
    cases rest with
    | nil => simp [consumePointerQualifiers]
    | cons tok rest =>
      simp only [currentType_cons, isPointerQualifier, Bool.or_eq_false_iff, beq_eq_false_iff_ne] at hq ha
      simp [consumePointerQualifiers, hq, ha]
  | cons q qs ih =>
    obtain ⟨tok, htok⟩ := q
    simp only [isPointerQualifier, Bool.or_eq_true, beq_iff_eq] at htok
    obtain (h | h) | h := htok <;>
      simp only [List.map_cons, List.cons_append, consumePointerQualifiers, h, reduceCtorEq,
        if_true, if_false, ih, List.any_cons] <;>
      simp

def endsPointers (blockPointers : Bool) (rest : List Token) : Bool :=
  !startsPointer blockPointers rest && !isPointerQualifier (currentType rest) &&
    currentType rest != .kwAtomic

section
variable (ps : List PointerSyntax) (h : endsPointers blocks rest = true)

include h

theorem pointer_tokens_not_qualifier :
    isPointerQualifier (currentType (ps.flatMap (·.tokens) ++ rest)) = false ∧
      currentType (ps.flatMap (·.tokens) ++ rest) ≠ .kwAtomic := by
  cases ps with
  | nil =>
    simp only [endsPointers, Bool.and_eq_true, Bool.not_eq_true', bne_iff_ne] at h
    simpa using ⟨h.1.2, h.2⟩
  | cons p ps => simp [PointerSyntax.tokens, p.star.2, isPointerQualifier]

theorem pointerChainFrom_spelled (hf : ps.length ≤ fuel) :
    pointerChainFrom blocks fuel (ps.flatMap (·.tokens) ++ rest) = (ps.map (·.layer), rest) := by
  induction ps generalizing fuel with
  | nil =>
    have hs : startsPointer blocks rest = false := by
      simp only [endsPointers, Bool.and_eq_true, Bool.not_eq_true'] at h
      exact h.1.1
    cases fuel <;> simp [pointerChainFrom, hs]
  | cons p ps ih =>
    obtain ⟨fuel, rfl⟩ : ∃ n, fuel = n + 1 := Nat.exists_eq_succ_of_ne_zero (by simp at hf; omega)
    obtain ⟨hq, ha⟩ := pointer_tokens_not_qualifier ps h
    have hstar : startsPointer blocks ((p :: ps).flatMap (·.tokens) ++ rest) = true := by
      simp [startsPointer, PointerSyntax.tokens, p.star.2]
    have htail : ((p :: ps).flatMap (·.tokens) ++ rest).tail =
        p.qualifiers.map (·.1) ++ (ps.flatMap (·.tokens) ++ rest) := by
      simp [PointerSyntax.tokens]
    simp only [pointerChainFrom, hstar, if_true, htail,
      consumePointerQualifiers_spelled _ _ hq ha, ih (by simpa using hf)]
    simp [PointerSyntax.layer]

theorem parsePointerChain_spelled :
    parsePointerChain blocks (ps.flatMap (·.tokens) ++ rest) = (ps.map (·.layer), rest) := by
  apply pointerChainFrom_spelled ps h
  induction ps with
  | nil => exact Nat.zero_le _
  | cons p ps ih =>
    simp only [List.flatMap_cons, PointerSyntax.tokens, List.cons_append, List.length_cons,
      List.length_append] at ih ⊢
    omega

end

theorem scanArrayKeywords_spelled (info : ArrayInfo E)
    (keywords : List { tok : Token // isArrayKeyword tok.type })
    (h : isArrayKeyword (currentType rest) = false) :
    scanArrayKeywords info (keywords.map (·.1) ++ rest) =
      ({ info with
        hasStatic := info.hasStatic || keywords.any (·.1.type = .kwStatic)
        qualConst := info.qualConst || keywords.any (·.1.type = .kwConst)
        qualVolatile := info.qualVolatile || keywords.any (·.1.type = .kwVolatile)
        qualRestrict := info.qualRestrict || keywords.any (·.1.type = .kwRestrict) }, rest) := by
  induction keywords generalizing info with
  | nil =>
    cases rest with
    | nil => simp [scanArrayKeywords]
    | cons tok rest =>
      simp only [currentType_cons, isArrayKeyword, Bool.or_eq_false_iff, beq_eq_false_iff_ne] at h
      simp [scanArrayKeywords, h]
  | cons k ks ih =>
    obtain ⟨tok, htok⟩ := k
    simp only [isArrayKeyword, Bool.or_eq_true, beq_iff_eq] at htok
    obtain ((h | h) | h) | h := htok <;>
      simp only [List.map_cons, List.cons_append, scanArrayKeywords, h, reduceCtorEq,
        if_true, if_false, ih, List.any_cons] <;>
      simp

theorem SizeSyntax.starts_spec (size : SizeSyntax env) :
    isArrayKeyword (currentType size.tokens) = false ∧ currentType size.tokens ≠ .lbracket ∧
      currentType size.tokens ≠ .rbracket ∧ size.tokens ≠ [] := by
  have hs := size.starts
  simp only [startsSize, Bool.and_eq_true, Bool.not_eq_true', bne_iff_ne] at hs
  refine ⟨hs.1.1.1, hs.1.1.2, hs.1.2, ?_⟩
  intro ht
  exact hs.2 (by rw [ht, currentType])

theorem SizeSyntax.currentType_append (size : SizeSyntax env) (more : List Token) :
    currentType (size.tokens ++ more) = currentType size.tokens := by
  obtain ⟨tok, tokens, ht⟩ := List.exists_cons_of_ne_nil size.starts_spec.2.2.2
  rw [ht]
  rfl

theorem ArraySize.isArrayKeyword_closing (a : ArraySize env) (closing : TokenOf .rbracket) :
    isArrayKeyword (currentType (a.tokens ++ closing.1 :: rest)) = false := by
  cases a with
  | unspecified => simp [ArraySize.tokens, closing.2, isArrayKeyword]
  | star tok => simp [ArraySize.tokens, tok.2, isArrayKeyword]
  | expr size =>
    rw [ArraySize.tokens, size.currentType_append]
    exact size.starts_spec.1

theorem parseArraySize_spelled (a : ArraySyntax env) (h : a.size.isRead = true) :
    parseArraySize env (a.tokens.tail ++ rest) = (a.info, rest) := by
  obtain ⟨opening, keywords, size, closing, static_sized⟩ := a
  have htokens : (ArraySyntax.mk opening keywords size closing static_sized).tokens.tail ++ rest =
      keywords.map (·.1) ++ (size.tokens ++ closing.1 :: rest) := by
    simp [ArraySyntax.tokens]
  simp only [parseArraySize, htokens,
    scanArrayKeywords_spelled _ _ (size.isArrayKeyword_closing closing), Bool.false_or]
  cases size with
  | unspecified =>
    have hstatic : (keywords.any fun k => k.1.type = .kwStatic) = false := by
      simpa [ArraySize.isExpr] using static_sized
    simp [ArraySize.tokens, closing.2, hstatic, ArraySyntax.info]
  | star tok =>
    have hstatic : (keywords.any fun k => k.1.type = .kwStatic) = false := by
      simpa [ArraySize.isExpr] using static_sized
    simp [ArraySize.tokens, tok.2, closing.2, hstatic, ArraySyntax.info]
  | expr size =>
    obtain ⟨-, -, hbracket, -⟩ := size.starts_spec
    have hstar : currentType size.tokens ≠ .asterisk := by simpa [ArraySize.isRead] using h
    simp only [ArraySize.tokens, size.currentType_append, hstar, hbracket, if_false,
      size.reads closing.1 rest closing.2, currentType_cons, closing.2, ne_eq, not_true_eq_false,
      List.tail_cons, ArraySyntax.info]

-- The parser on a spelling: suffixes and declarators

theorem ArraySyntax.startsArray_tokens (a : ArraySyntax env) : startsArray (a.tokens ++ rest) = true := by
  have hnext : currentType (a.keywords.map (·.1) ++ (a.size.tokens ++ a.closing.1 :: rest)) ≠
      .lbracket := by
    cases hk : a.keywords with
    | cons k ks =>
      obtain ⟨tok, htok⟩ := k
      intro (h : tok.type = _)
      simp [h, isArrayKeyword] at htok
    | nil => ?_
    cases hz : a.size with
    | unspecified => simp [ArraySize.tokens, a.closing.2]
    | star tok => simp [ArraySize.tokens, tok.2]
    | expr size => simpa [ArraySize.tokens, size.currentType_append] using size.starts_spec.2.1
  have htail : (a.tokens ++ rest).tail =
      a.keywords.map (·.1) ++ (a.size.tokens ++ a.closing.1 :: rest) := by
    simp [ArraySyntax.tokens]
  have hopen : currentType (a.tokens ++ rest) = .lbracket := a.opening.2
  simp only [startsArray, htail, hopen, Bool.and_eq_true, beq_self_eq_true, bne_iff_ne, true_and]
  exact hnext

theorem parseFunctionSuffix_spelled (opts : Options) (grouped : Bool) (f : FunctionSyntax env)
    (s : DeclaratorState E P) (rest : List Token) :
    ∃ s', parseFunctionSuffix env opts grouped s (f.tokens.tail ++ rest) = .ok s' ∧
      s'.tokens = rest ∧ s'.type = appendFunctionSuffix grouped s.type f.signature ∧
      s'.identifier = s.identifier := by
  have htail : f.tokens.tail ++ rest = f.params ++ f.closing.1 :: rest := by
    simp [FunctionSyntax.tokens]
  -- either list parser reads the parameters
  have hparsed : (if env.captureFunctionParams && !grouped && s.functionParameters.isNone then
      env.parseParameterList (f.params ++ f.closing.1 :: rest)
      else env.parseFunctionTypeParameterList (f.params ++ f.closing.1 :: rest)) =
      some (f.signature, f.closing.1 :: rest) := by
    split
    · rename_i hc
      simp only [Bool.and_eq_true] at hc
      exact f.captures hc.1.1 rest
    · exact f.reads rest
  simp only [parseFunctionSuffix, htail, hparsed, currentType_cons, f.closing.2, ne_eq,
    not_true_eq_false, if_false, Except.ok.injEq, exists_eq_left', List.tail_cons, and_self]

def endsSuffixes (rest : List Token) : Bool := !startsArray rest && currentType rest != .lparen

theorem parseSuffixes_spelled (opts : Options) (grouped : Bool) (suffixes : List (Suffix env))
    (hread : suffixes.all (·.isRead) = true) (hrest : endsSuffixes rest = true)
    (hf : suffixes.length < fuel) (saw : Bool) (s : DeclaratorState E P)
    (hs : s.tokens = suffixes.flatMap (·.tokens) ++ rest) :
    ∃ s', parseSuffixes env opts grouped fuel saw s =
        .ok (saw || suffixes.any (·.isArray), s') ∧
      s'.tokens = rest ∧ s'.type = suffixes.foldl (Suffix.append grouped) s.type ∧
      s'.identifier = s.identifier := by
  induction suffixes generalizing fuel saw s with
  | nil =>
    obtain ⟨fuel, rfl⟩ : ∃ n, fuel = n + 1 := Nat.exists_eq_succ_of_ne_zero (by simp at hf; omega)
    simp only [endsSuffixes, Bool.and_eq_true, Bool.not_eq_true', bne_iff_ne] at hrest
    exact ⟨s, by simp [parseSuffixes, hs, hrest], hs, rfl, rfl⟩
  | cons suffix suffixes ih =>
    obtain ⟨fuel, rfl⟩ : ∃ n, fuel = n + 1 := Nat.exists_eq_succ_of_ne_zero (by simp at hf; omega)
    simp only [List.all_cons, Bool.and_eq_true] at hread
    simp only [List.flatMap_cons, List.append_assoc] at hs
    have hf' : suffixes.length < fuel := by simpa using hf
    cases suffix with
    | array a =>
      have htail : s.tokens.tail = a.tokens.tail ++ (suffixes.flatMap (·.tokens) ++ rest) := by
        rw [hs]
        rfl
      have hstep : parseSuffixes env opts grouped (fuel + 1) saw s =
          parseSuffixes env opts grouped fuel true
            { s with
              tokens := suffixes.flatMap (·.tokens) ++ rest
              type := parsedTypeAppendArray s.type a.info } := by
        simp only [parseSuffixes]
        rw [if_pos (by rw [hs]; exact a.startsArray_tokens), htail, parseArraySize_spelled a hread.1]
      obtain ⟨s', h, htok, htype, hid⟩ := ih hread.2 hf' true
        { s with
          tokens := suffixes.flatMap (·.tokens) ++ rest
          type := parsedTypeAppendArray s.type a.info } rfl
      refine ⟨s', ?_, htok, htype, hid⟩
      rw [hstep, h]
      simp
    | function f =>
      have htail : s.tokens.tail = f.tokens.tail ++ (suffixes.flatMap (·.tokens) ++ rest) := by
        rw [hs]
        rfl
      have hopen : currentType s.tokens = .lparen := by
        rw [hs]
        exact f.opening.2
      obtain ⟨s₁, h₁, htok₁, htype₁, hid₁⟩ := parseFunctionSuffix_spelled opts grouped f s
        (suffixes.flatMap (·.tokens) ++ rest)
      obtain ⟨s', h, htok, htype, hid⟩ := ih hread.2 hf' saw s₁ htok₁
      refine ⟨s', ?_, htok, htype.trans (by rw [htype₁]; rfl), hid.trans hid₁⟩
      have harr : startsArray s.tokens = false := by simp [startsArray, hopen]
      simp only [parseSuffixes, harr, hopen, htail, h₁, if_true, Bool.false_eq_true, if_false, h]
      simp

theorem Suffix.endsPointers_tokens (suffixes : List (Suffix env)) (hs : suffixes ≠ []) :
    endsPointers blocks (suffixes.flatMap (·.tokens) ++ rest) = true := by
  obtain ⟨suffix, suffixes, rfl⟩ := List.exists_cons_of_ne_nil hs
  cases suffix with
  | array a =>
    simp [Suffix.tokens, ArraySyntax.tokens, endsPointers, startsPointer, a.opening.2, isPointerQualifier]
  | function f =>
    simp [Suffix.tokens, FunctionSyntax.tokens, endsPointers, startsPointer, f.opening.2,
      isPointerQualifier]

def Declarator.startsWithFunction : Declarator env → Bool
  | .bare _ (.function _ :: _) => true
  | .bare _ _ => false
  | .group _ _ inner _ _ => inner.startsWithFunction

def Declarator.hasEmptyGroup : Declarator env → Bool
  | .bare _ _ => false
  | .group _ _ inner _ _ => inner.isName || inner.hasEmptyGroup

/-- The spellings the parser reads as intended: with a name all, without one those in
which each `(` it meets first opens a group. -/
def Declarator.isSpelled (d : Declarator env) (name : Option (TokenOf .identifier)) : Bool :=
  name.isSome || (!d.startsWithFunction && !d.hasEmptyGroup)

def endsDeclarator (env : Environment E P) (name : Option (TokenOf .identifier))
    (rest : List Token) : Bool :=
  endsSuffixes rest && (name.isSome ||
    (endsPointers env.blockPointers rest && currentType rest != .identifier))

theorem suffixes_ne_identifier (suffixes : List (Suffix env)) (h : currentType rest ≠ .identifier) :
    currentType (suffixes.flatMap (·.tokens) ++ rest) ≠ .identifier := by
  cases suffixes with
  | nil => exact h
  | cons suffix suffixes =>
    cases suffix with
    | array a => simp [Suffix.tokens, ArraySyntax.tokens, a.opening.2]
    | function f => simp [Suffix.tokens, FunctionSyntax.tokens, f.opening.2]

theorem suffixes_ne_lparen {suffixes : List (Suffix env)}
    (hs : (Declarator.bare pointers suffixes).startsWithFunction = false)
    (h : currentType rest ≠ .lparen) :
    currentType (suffixes.flatMap (·.tokens) ++ rest) ≠ .lparen := by
  cases suffixes with
  | nil => exact h
  | cons suffix suffixes =>
    cases suffix with
    | array a => simp [Suffix.tokens, ArraySyntax.tokens, a.opening.2]
    | function f => simp [Declarator.startsWithFunction] at hs

theorem transparent_iff (opening : Token) (inner : Declarator env)
    (name : Option (TokenOf .identifier)) (closing : TokenOf .rparen) :
    declaratorGroupIsTransparentIdentifier
      (opening :: (inner.tokens name ++ (closing.1 :: rest))) = (name.isSome && inner.isName) := by
  have hclosing : currentType (closing.1 :: rest) ≠ .identifier := by simp [closing.2]
  cases inner with
  | group ps op inner cl ss =>
    cases ps with
    | nil =>
      simp [declaratorGroupIsTransparentIdentifier, Declarator.tokens, Declarator.isName, op.2]
    | cons p ps =>
      simp [declaratorGroupIsTransparentIdentifier, Declarator.tokens, Declarator.isName,
        PointerSyntax.tokens, p.star.2]
  | bare ps ss =>
    cases ps with
    | cons p ps =>
      simp [declaratorGroupIsTransparentIdentifier, Declarator.tokens, Declarator.isName,
        PointerSyntax.tokens, p.star.2]
    | nil => ?_
    cases name with
    | none =>
      simp only [declaratorGroupIsTransparentIdentifier, Declarator.tokens, List.flatMap_nil,
        Option.map_none, Option.toList_none, List.nil_append, List.tail_cons,
        beq_eq_false_iff_ne.mpr (suffixes_ne_identifier ss hclosing), Bool.false_and,
        Option.isSome_none]
    | some x =>
      match ss with
      | [] =>
        simp [declaratorGroupIsTransparentIdentifier, Declarator.tokens, Declarator.isName, x.2,
          closing.2]
      | .array a :: ss =>
        simp [declaratorGroupIsTransparentIdentifier, Declarator.tokens, Declarator.isName,
          Suffix.tokens, ArraySyntax.tokens, a.opening.2]
      | .function f :: ss =>
        simp [declaratorGroupIsTransparentIdentifier, Declarator.tokens, Declarator.isName,
          Suffix.tokens, FunctionSyntax.tokens, f.opening.2]

theorem level_spelled (pointers : List PointerSyntax) (suffixes : List (Suffix env))
    (hread : suffixes.all (·.isRead) = true) (hrest : endsSuffixes rest = true)
    (hf : suffixes.length < fuel) (opts : Options) (grouped : Bool) (s : DeclaratorState E P)
    (hs : s.tokens = suffixes.flatMap (·.tokens) ++ rest)
    (hid : opts.requireIdentifier → s.identifier.isSome) :
    ∃ s', parseDeclaratorTail env opts (pointers.map (·.layer)) grouped fuel s = .ok s' ∧
      s'.tokens = rest ∧ s'.type = levelDeclared pointers suffixes grouped s.type ∧
      s'.identifier = s.identifier := by
  obtain ⟨s₁, h, htok, htype, hid₁⟩ :=
    parseSuffixes_spelled opts grouped suffixes hread hrest hf false s hs
  have hok : (opts.requireIdentifier && s₁.identifier.isNone) = false := by
    cases hr : opts.requireIdentifier with
    | false => rfl
    | true => simpa [hid₁, Option.isSome_iff_ne_none] using hid hr
  simp only [parseDeclaratorTail, h, Bool.false_or, finishDeclarator, hok, Bool.false_eq_true,
    if_false, Except.ok.injEq, exists_eq_left']
  exact ⟨htok, by rw [htype]; rfl, hid₁⟩

theorem suffixes_length_le (suffixes : List (Suffix env)) :
    suffixes.length ≤ (suffixes.flatMap (·.tokens)).length := by
  induction suffixes with
  | nil => exact Nat.zero_le _
  | cons suffix suffixes ih =>
    have : 1 ≤ suffix.tokens.length := by
      cases suffix <;> simp [Suffix.tokens, ArraySyntax.tokens, FunctionSyntax.tokens]
    simp only [List.flatMap_cons, List.length_cons, List.length_append]
    omega

theorem endsDeclarator_closing (name : Option (TokenOf .identifier)) (closing : TokenOf .rparen)
    (rest : List Token) :
    endsDeclarator env name (closing.1 :: rest) = true := by
  simp [endsDeclarator, endsSuffixes, endsPointers, startsArray, startsPointer, closing.2,
    isPointerQualifier]

theorem parseDeclaratorInternal_bare (opts : Options) (pointers : List PointerSyntax)
    (suffixes : List (Suffix env)) (name : Option (TokenOf .identifier))
    (hread : suffixes.all (·.isRead) = true)
    (hsp : (Declarator.bare pointers suffixes).isSpelled name = true)
    (hrest : endsDeclarator env name rest = true) (hf : suffixes.length < fuel)
    (s : DeclaratorState E P)
    (hs : s.tokens = (Declarator.bare pointers suffixes).tokens name ++ rest)
    (hid : opts.requireIdentifier → name.isSome ∨ s.identifier.isSome) :
    ∃ s', parseDeclaratorInternal env opts (fuel + 1) s = .ok s' ∧ s'.tokens = rest ∧
      s'.type = levelDeclared pointers suffixes false s.type ∧
      s'.identifier = (s.identifier <|> name.map (·.1)) := by
  simp only [endsDeclarator, Bool.and_eq_true] at hrest
  simp only [Declarator.tokens, List.append_assoc] at hs
  cases name with
  | some x =>
    have hends : endsPointers env.blockPointers
        (x.1 :: (suffixes.flatMap (·.tokens) ++ rest)) = true := by
      simp [endsPointers, startsPointer, x.2, isPointerQualifier]
    simp only [Option.map_some, Option.toList_some, List.cons_append, List.nil_append] at hs
    obtain ⟨s', h, htok, htype, hid'⟩ := level_spelled pointers suffixes hread hrest.1 hf opts false
      { s with
        tokens := suffixes.flatMap (·.tokens) ++ rest
        identifier := s.identifier <|> some x.1 } rfl
      (by intro _; cases s.identifier <;> rfl)
    refine ⟨s', ?_, htok, htype, hid'⟩
    simp only [parseDeclaratorInternal, hs, parsePointerChain_spelled pointers hends,
      currentType_cons, x.2, if_true, List.tail_cons, List.head?_cons]
    exact h
  | none =>
    simp only [Declarator.isSpelled, Option.isSome_none, Bool.false_or, Bool.and_eq_true,
      Bool.not_eq_true'] at hsp
    simp only [Option.isSome_none, Bool.false_or, Bool.and_eq_true, bne_iff_ne] at hrest
    simp only [Option.map_none, Option.toList_none, List.nil_append] at hs
    have hends : endsPointers env.blockPointers (suffixes.flatMap (·.tokens) ++ rest) = true := by
      by_cases hnil : suffixes = []
      · simpa [hnil] using hrest.2.1
      · exact Suffix.endsPointers_tokens suffixes hnil
    have hname := suffixes_ne_identifier suffixes hrest.2.2
    have hparen : currentType (suffixes.flatMap (·.tokens) ++ rest) ≠ .lparen := by
      have hstop := hrest.1
      simp only [endsSuffixes, Bool.and_eq_true, bne_iff_ne] at hstop
      exact suffixes_ne_lparen hsp.1 hstop.2
    have hsome : opts.requireIdentifier → s.identifier.isSome := by simpa using hid
    have hok : (opts.requireIdentifier && s.identifier.isNone) = false := by
      cases hr : opts.requireIdentifier with
      | false => rfl
      | true => simpa [Option.isSome_iff_ne_none] using hsome hr
    obtain ⟨s', h, htok, htype, hid'⟩ := level_spelled pointers suffixes hread hrest.1 hf opts false
      { s with tokens := suffixes.flatMap (·.tokens) ++ rest } rfl hsome
    refine ⟨s', ?_, htok, htype, by rw [hid']; cases s.identifier <;> rfl⟩
    simp only [parseDeclaratorInternal, hs, parsePointerChain_spelled pointers hends, hname,
      hparen, hok, if_false, Bool.false_eq_true]
    exact h

theorem parseDeclaratorInternal_spelled (opts : Options) (d : Declarator env)
    (name : Option (TokenOf .identifier)) (hread : d.isRead = true)
    (hsp : d.isSpelled name = true) (hrest : endsDeclarator env name rest = true)
    (hf : (d.tokens name).length + 1 < fuel) (s : DeclaratorState E P)
    (hs : s.tokens = d.tokens name ++ rest)
    (hid : opts.requireIdentifier → name.isSome ∨ s.identifier.isSome) :
    ∃ s', parseDeclaratorInternal env opts fuel s = .ok s' ∧ s'.tokens = rest ∧
      s'.type = d.declared name.isSome s.type ∧
      s'.identifier = (s.identifier <|> name.map (·.1)) := by
  induction d generalizing fuel s rest with
  | bare pointers suffixes =>
    obtain ⟨fuel, rfl⟩ : ∃ n, fuel = n + 1 := Nat.exists_eq_succ_of_ne_zero (by omega)
    have hlen := suffixes_length_le suffixes
    simp only [Declarator.tokens, List.length_append] at hf
    exact parseDeclaratorInternal_bare opts pointers suffixes name hread hsp hrest (by omega) s hs hid
  | group pointers opening inner closing suffixes ih =>
    obtain ⟨fuel, rfl⟩ : ∃ n, fuel = n + 1 := Nat.exists_eq_succ_of_ne_zero (by omega)
    have hlen := suffixes_length_le suffixes
    simp only [Declarator.tokens, List.length_append, List.length_cons] at hf
    simp only [Declarator.tokens, List.append_assoc, List.cons_append] at hs
    simp only [Declarator.isRead, Bool.and_eq_true] at hread
    have hsp' : inner.isSpelled name = true := by
      simp only [Declarator.isSpelled, Declarator.startsWithFunction, Declarator.hasEmptyGroup,
        Bool.or_eq_true, Bool.and_eq_true, Bool.not_eq_true', Bool.or_eq_false_iff] at hsp ⊢
      obtain h | ⟨h, -, h'⟩ := hsp
      · exact .inl h
      · exact .inr ⟨h, h'⟩
    have hends : endsPointers env.blockPointers (opening.1 :: (inner.tokens name ++
        (closing.1 :: (suffixes.flatMap (·.tokens) ++ rest)))) = true := by
      simp [endsPointers, startsPointer, opening.2, isPointerQualifier]
    have hinner : (inner.tokens name).length + 1 < fuel := by omega
    have hclose : endsDeclarator env name (closing.1 :: (suffixes.flatMap (·.tokens) ++ rest)) =
        true := endsDeclarator_closing name closing _
    obtain ⟨s₁, h₁, htok₁, htype₁, hid₁⟩ := ih hread.1 hsp' hclose hinner
      { s with tokens := inner.tokens name ++ (closing.1 :: (suffixes.flatMap (·.tokens) ++ rest)) }
      rfl hid
    simp only [endsDeclarator, Bool.and_eq_true] at hrest
    have hsome : opts.requireIdentifier → s₁.identifier.isSome := by
      intro hr
      cases hi : s.identifier <;> simp_all
    have hlevel : suffixes.length < fuel := by omega
    obtain ⟨s', h, htok, htype, hid'⟩ := level_spelled pointers suffixes hread.2 hrest.1
      hlevel opts (!(name.isSome && inner.isName))
      { s₁ with tokens := suffixes.flatMap (·.tokens) ++ rest } rfl hsome
    refine ⟨s', ?_, htok, htype.trans (by rw [htype₁]; rfl), hid'.trans hid₁⟩
    simp only [parseDeclaratorInternal, hs, parsePointerChain_spelled pointers hends,
      currentType_cons, opening.2, reduceCtorEq, if_false, if_true, List.tail_cons,
      transparent_iff, h₁, htok₁, closing.2, ne_eq, not_true_eq_false]
    exact h

end Fisics.Declarators
