import Fisics.Parser.DeclaratorReading
import Fisics.Parser.TypeStructure

/-!
# Declaration specifiers

`parseTypeCore` reads the specifiers of a declaration in four phases: storage classes,
then modifiers, then the base type, then qualifiers behind it. A specifier that comes in
another phase is dropped, left behind or an error. Attributes, alignments and `_Atomic`
are left out; C99 has none of them.
-/

namespace Fisics.Specifiers

open Declarators (PointerDeclaratorLayer parsePointerChain currentType TokenOf)

-- The parser

inductive TypeContext
  | strict | declaration
  deriving DecidableEq

structure TypeEnvironment where
  /-- `identifierMatchesKnownType`: a visible typedef or a builtin type. -/
  knownType : String → Bool
  /-- A typedef behind an ordinary identifier. -/
  hiddenTypedef : String → Bool
  tagIsKnown : Types.TagKind → String → Bool
  /-- The body behind a brace: the tag that it defines and the tokens behind it. -/
  parseBody : Types.TagKind → Option String → List Token → Except String (String × List Token)
  blockPointers : Bool

/-- The part of a `ParsedType` that the specifiers decide, with the reported errors. -/
structure TypeSpec where
  specifiers : Types.Specifiers
  storage : Types.StorageSpecifiers
  errors : List String
  deriving DecidableEq

def parsedTypeDefault (errors : List String) : TypeSpec :=
  ⟨⟨.invalid, .none, .kwVoid, none, false, false, false, false, false, false, false, false, false⟩,
    ⟨false, false, false, false, false, false⟩, errors⟩

def isPrimitiveTypeToken (type : TokenType) : Bool :=
  type == .kwInt || type == .kwFloat || type == .kwDouble || type == .kwChar || type == .kwBool ||
    type == .kwVoid || type == .kwLong || type == .kwShort || type == .kwSigned || type == .kwUnsigned

def isInteropCallingConventionMarker (tok : Token) : Bool :=
  tok.type == .identifier &&
    (match tok.value with
      | some value => ["VKAPI_ATTR", "VKAPI_CALL", "VKAPI_PTR", "APIENTRY", "WINAPI", "CALLBACK",
          "STDMETHODCALLTYPE", "__stdcall", "__cdecl", "__fastcall"].contains value
      | none => false)

def tagKindFromToken : TokenType → Types.TagKind
  | .kwStruct => .struct
  | .kwUnion => .union
  | .kwEnum => .enum
  | _ => .none

def kindOfTag : Types.TagKind → Types.TypeKind
  | .struct => .struct
  | .union => .union
  | .enum => .enum
  | .none => .named

/-- `for (;;) switch (…)`: go on as long as a token is taken. -/
def consumeWhile (step : Token → TypeSpec → Option TypeSpec) :
    List Token → TypeSpec → TypeSpec × List Token
  | [], t => (t, [])
  | tok :: rest, t =>
    match step tok t with
    | some t => consumeWhile step rest t
    | none => (t, tok :: rest)

def storageStep (tok : Token) (t : TypeSpec) : Option TypeSpec :=
  match tok.type with
  | .kwTypedef => some t
  | .kwStatic => some { t with storage.isStatic := true }
  | .kwExtern => some { t with storage.isExtern := true }
  | .kwRegister => some { t with storage.isRegister := true }
  | .kwAuto => some { t with storage.isAuto := true }
  | _ => none

def reportThreadLocal (t : TypeSpec) : TypeSpec :=
  let message := "_Thread_local is not supported yet"
  if t.errors.contains message then t else { t with errors := t.errors ++ [message] }

def modifierStep (tok : Token) (t : TypeSpec) : Option TypeSpec :=
  match tok.type with
  | .kwConst => some { t with specifiers.isConst := true }
  | .kwSigned => some { t with specifiers.isSigned := true }
  | .kwUnsigned => some { t with specifiers.isUnsigned := true }
  | .kwShort => some { t with specifiers.isShort := true }
  | .kwLong => some { t with specifiers.isLong := true }
  | .kwVolatile => some { t with specifiers.isVolatile := true }
  | .kwRestrict => some { t with specifiers.isRestrict := true }
  | .kwInline => some { t with storage.isInline := true }
  | .kwNoreturn => some t
  | .kwComplex => some { t with specifiers.isComplex := true }
  | .kwImaginary => some { t with specifiers.isImaginary := true }
  | .kwThreadLocal =>
    if tok.value = some "__thread" then some { t with storage.isThreadLocal := true }
    else some (reportThreadLocal t)
  | _ => if isInteropCallingConventionMarker tok then some t else none

def trailingStep (tok : Token) (t : TypeSpec) : Option TypeSpec :=
  match tok.type with
  | .kwConst => some { t with specifiers.isConst := true }
  | .kwVolatile => some { t with specifiers.isVolatile := true }
  | .kwRestrict => some { t with specifiers.isRestrict := true }
  | .kwNoreturn => some t
  | .kwComplex => some { t with specifiers.isComplex := true }
  | .kwImaginary => some { t with specifiers.isImaginary := true }
  | _ => if isInteropCallingConventionMarker tok then some t else none

def hasTypeModifiers (t : TypeSpec) : Bool :=
  t.specifiers.isUnsigned || t.specifiers.isSigned || t.specifiers.isShort || t.specifiers.isLong

def withPrimitive (t : TypeSpec) (type : TokenType) : TypeSpec :=
  { t with specifiers.kind := .primitive, specifiers.primitiveType := type }

def withNamed (t : TypeSpec) (name : String) : TypeSpec :=
  { t with specifiers.kind := .named, specifiers.userTypeName := some name }

def withTag (t : TypeSpec) (tag : Types.TagKind) (name : String) : TypeSpec :=
  { t with specifiers.tag := tag, specifiers.kind := kindOfTag tag, specifiers.userTypeName := some name }

def reportIn (ctx : TypeContext) (errors : List String) (message : String) : List String :=
  if ctx = .declaration then errors ++ [message] else errors

abbrev BaseRead := Except (TypeSpec × List Token) (TypeSpec × List Token)

/-- The branch of `struct`, `union` and `enum`, behind the keyword. -/
def readTag (env : TypeEnvironment) (ctx : TypeContext) (t : TypeSpec) (tag : Types.TagKind)
    (tokens : List Token) : BaseRead :=
  let tagName := if currentType tokens = .identifier then tokens.head?.map tokenText else none
  let tokens := if currentType tokens = .identifier then tokens.tail else tokens
  if currentType tokens = .lbrace then
    match env.parseBody tag tagName tokens.tail with
    | .error message => .error (parsedTypeDefault (t.errors ++ [message]), tokens)
    | .ok (name, rest) => .ok (withTag t tag name, rest)
  else
    match tagName with
    | none =>
      .error (parsedTypeDefault (reportIn ctx t.errors "Expected identifier after aggregate keyword"), tokens)
    | some name =>
      if ctx = .strict && !env.tagIsKnown tag name then .error (parsedTypeDefault t.errors, tokens)
      else .ok (withTag t tag name, tokens)

def readIdentifier (env : TypeEnvironment) (ctx : TypeContext) (t : TypeSpec) (tok : Token)
    (rest : List Token) : BaseRead :=
  let ident := tokenText tok
  if !hasTypeModifiers t && env.knownType ident then .ok (withNamed t ident, rest)
  else if env.hiddenTypedef ident then
    .error (parsedTypeDefault (reportIn ctx t.errors "type name hidden by ordinary identifier"), tok :: rest)
  else if ctx = .strict then .error (parsedTypeDefault t.errors, tok :: rest)
  -- the identifier is left to the declarator
  else if hasTypeModifiers t then .ok (withPrimitive t .kwInt, tok :: rest)
  else .ok (withNamed t ident, rest)

/-- No base type: an implicit `int`, or `double` for a complex type. -/
def readImplicit (ctx : TypeContext) (t : TypeSpec) (tokens : List Token) : BaseRead :=
  let complex := t.specifiers.isComplex || t.specifiers.isImaginary
  if hasTypeModifiers t || complex then .ok (withPrimitive t (if complex then .kwDouble else .kwInt), tokens)
  else .error ({ t with errors := reportIn ctx t.errors "Expected type name" }, tokens)

def readBase (env : TypeEnvironment) (ctx : TypeContext) (t : TypeSpec) : List Token → BaseRead
  | [] => readImplicit ctx t []
  | tok :: rest =>
    if isPrimitiveTypeToken tok.type then
      -- further ones are skipped
      .ok (withPrimitive t tok.type, rest.dropWhile fun tok => isPrimitiveTypeToken tok.type)
    else if tagKindFromToken tok.type ≠ .none then readTag env ctx t (tagKindFromToken tok.type) rest
    else if tok.type = .identifier then readIdentifier env ctx t tok rest
    else readImplicit ctx t (tok :: rest)

structure ParsedTypeResult where
  type : TypeSpec
  pointers : List PointerDeclaratorLayer
  rest : List Token

def readPointers (env : TypeEnvironment) (ctx : TypeContext) (t : TypeSpec) (tokens : List Token) :
    ParsedTypeResult :=
  if ctx = .declaration then ⟨t, [], tokens⟩
  else
    let (chain, rest) := parsePointerChain env.blockPointers tokens
    ⟨t, chain, rest⟩

def parseTypeCore (env : TypeEnvironment) (ctx : TypeContext) (tokens : List Token) : ParsedTypeResult :=
  let (t, tokens) := consumeWhile storageStep tokens (parsedTypeDefault [])
  let (t, tokens) := consumeWhile modifierStep tokens t
  match readBase env ctx t tokens with
  | .error (t, rest) => ⟨t, [], rest⟩
  | .ok (t, tokens) =>
    let (t, tokens) := consumeWhile trailingStep tokens t
    readPointers env ctx t tokens

-- Specifiers of C99

def isStorageWord (type : TokenType) : Bool :=
  [.kwTypedef, .kwStatic, .kwExtern, .kwAuto, .kwRegister].contains type

def isQualifierWord (type : TokenType) : Bool := [.kwConst, .kwVolatile, .kwRestrict].contains type

def isComplexWord (type : TokenType) : Bool := [.kwComplex, .kwImaginary].contains type

def isSizeWord (type : TokenType) : Bool := [.kwSigned, .kwUnsigned, .kwShort, .kwLong].contains type

def isBaseWord (type : TokenType) : Bool :=
  [.kwVoid, .kwChar, .kwInt, .kwFloat, .kwDouble, .kwBool].contains type

def isSpecifierWord (type : TokenType) : Bool :=
  isStorageWord type || isQualifierWord type || type == .kwInline || isComplexWord type ||
    isSizeWord type || isBaseWord type

inductive Specifier
  | word (tok : Token) (h : isSpecifierWord tok.type = true)
  | tagged (keyword : Token) (h : tagKindFromToken keyword.type ≠ .none) (name : TokenOf .identifier)
  | typeName (name : TokenOf .identifier) (h : isInteropCallingConventionMarker name.1 = false)

def Specifier.tokens : Specifier → List Token
  | .word tok _ => [tok]
  | .tagged keyword _ name => [keyword, name.1]
  | .typeName name _ => [name.1]

inductive Meaning
  | word (type : TokenType)
  | tagged (tag : Types.TagKind) (name : String)
  | typeName (name : String)
  deriving DecidableEq

def Specifier.meaning : Specifier → Meaning
  | .word tok _ => .word tok.type
  | .tagged keyword _ name => .tagged (tagKindFromToken keyword.type) (tokenText name.1)
  | .typeName name _ => .typeName (tokenText name.1)

def Meaning.isWord (p : TokenType → Bool) : Meaning → Bool
  | .word type => p type
  | .tagged _ _ => false
  | .typeName _ => false

def Meaning.isReference : Meaning → Bool
  | .word _ => false
  | .tagged _ _ => true
  | .typeName _ => true

def Meaning.isBase (m : Meaning) : Bool := m.isReference || m.isWord isBaseWord

def typeCombinations : List (List TokenType) :=
  [[.kwVoid], [.kwChar], [.kwSigned, .kwChar], [.kwUnsigned, .kwChar],
    [.kwShort], [.kwSigned, .kwShort], [.kwShort, .kwInt], [.kwSigned, .kwShort, .kwInt],
    [.kwUnsigned, .kwShort], [.kwUnsigned, .kwShort, .kwInt],
    [.kwInt], [.kwSigned], [.kwSigned, .kwInt], [.kwUnsigned], [.kwUnsigned, .kwInt],
    [.kwLong], [.kwSigned, .kwLong], [.kwLong, .kwInt], [.kwSigned, .kwLong, .kwInt],
    [.kwUnsigned, .kwLong], [.kwUnsigned, .kwLong, .kwInt],
    [.kwLong, .kwLong], [.kwSigned, .kwLong, .kwLong], [.kwLong, .kwLong, .kwInt],
    [.kwSigned, .kwLong, .kwLong, .kwInt], [.kwUnsigned, .kwLong, .kwLong],
    [.kwUnsigned, .kwLong, .kwLong, .kwInt],
    [.kwFloat], [.kwDouble], [.kwLong, .kwDouble], [.kwBool],
    [.kwFloat, .kwComplex], [.kwDouble, .kwComplex], [.kwLong, .kwDouble, .kwComplex],
    [.kwFloat, .kwImaginary], [.kwDouble, .kwImaginary], [.kwLong, .kwDouble, .kwImaginary]]

def isTypeWord (type : TokenType) : Bool := isComplexWord type || isSizeWord type || isBaseWord type

def typeWords (ms : List Meaning) : List Meaning := ms.filter (·.isWord isTypeWord)

/-- The specifiers of a declaration: at most one storage class, and one of the combinations
or one reference to a type. -/
structure Valid (env : TypeEnvironment) (ms : List Meaning) : Prop where
  storage : (ms.filter (·.isWord isStorageWord)).length ≤ 1
  types : (ms.filter Meaning.isReference = [] ∧
      ∃ c ∈ typeCombinations, (typeWords ms).Perm (c.map Meaning.word)) ∨
    (typeWords ms = [] ∧ (ms.filter Meaning.isReference).length = 1)
  known : ∀ name, Meaning.typeName name ∈ ms → env.knownType name = true

/-- What may follow the specifiers: no further one, and no body of a tag. -/
def endsSpecifiers : List Token → Bool
  | [] => true
  | tok :: _ =>
    !isSpecifierWord tok.type && tagKindFromToken tok.type == .none && tok.type != .lbrace &&
      tok.type != .kwNoreturn && tok.type != .kwThreadLocal && !isInteropCallingConventionMarker tok

def tokensOf (ps : List Specifier) : List Token := ps.flatMap Specifier.tokens

def meaningsOf (ps : List Specifier) : List Meaning := ps.map Specifier.meaning

/-- Both orders are read to their end, with one valid type. -/
def ReadAlike (env : TypeEnvironment) (ctx : TypeContext) (ps qs : List Specifier)
    (following : List Token) : Prop :=
  ∃ t : TypeSpec, t.specifiers.kind ≠ .invalid ∧
    parseTypeCore env ctx (tokensOf ps ++ following) = readPointers env ctx t following ∧
    parseTypeCore env ctx (tokensOf qs ++ following) = readPointers env ctx t following

-- Orders that are read

def isModifierWord (type : TokenType) : Bool :=
  isQualifierWord type || type == .kwInline || isSizeWord type || isComplexWord type

def isTrailingWord (type : TokenType) : Bool := isQualifierWord type || isComplexWord type

/-- Storage classes, modifiers, a base type, directly behind a base word further words of
its kind, and qualifiers. -/
def wellOrdered (ms : List Meaning) : Bool :=
  match (ms.dropWhile (·.isWord isStorageWord)).dropWhile (·.isWord isModifierWord) with
  | [] => true
  | base :: rest =>
    base.isBase &&
      (if base.isReference then rest else rest.dropWhile (·.isWord isPrimitiveTypeToken)).all
        (·.isWord isTrailingWord)

def beforeBase (ms : List Meaning) : List Meaning := ms.takeWhile (!·.isBase)

def SameSizes (ms ms' : List Meaning) : Prop :=
  ∀ type, isSizeWord type = true → (.word type ∈ beforeBase ms ↔ .word type ∈ beforeBase ms')

/-- Without a base type an identifier behind the specifiers must be one that a declaration
takes for its own; in a type name a tag must be known. -/
def FollowFits (env : TypeEnvironment) (ctx : TypeContext) (ms : List Meaning)
    (following : List Token) : Prop :=
  (ms.all (!·.isBase) = true → ∀ tok ∈ following.head?, tok.type = .identifier →
    ctx = .declaration ∧ env.hiddenTypedef (tokenText tok) = false) ∧
  (ctx = .strict → ∀ tag name, .tagged tag name ∈ ms → env.tagIsKnown tag name = true)

end Fisics.Specifiers
