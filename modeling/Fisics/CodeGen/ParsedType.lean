import Fisics.Syntax.ScalarExpr

/-!
# Parsed types and their text

A `ParsedType` is a base with specifiers and a list of derivations, the outermost
first. `parsed_type_to_string` prints the specifiers and the base, then all pointers,
then all arrays and functions: where a pointer stands among these is not printed, and
of a base that is no primitive type only a name and `struct` or `union`.
-/

namespace Fisics

-- Types

inductive Specifier
  | static | external | register | auto | thread | const | signed | unsigned | short | long
  | complex | imaginary | volatile | restrict | inline
  deriving DecidableEq

inductive BaseKind
  | primitive (t : PrimitiveType)
  | enum | struct | union | named | invalid
  deriving DecidableEq

def isWordChar (c : Char) : Bool := c.isAlphanum || c == '_'

/-- A tag or a typedef name. -/
structure TypeName where
  text : List Char
  nonempty : text ≠ []
  word : ∀ c ∈ text, isWordChar c = true
  deriving DecidableEq

structure PointerQualifiers where
  isConst : Bool
  isVolatile : Bool
  isRestrict : Bool
  deriving DecidableEq

/-- A size expression is known by a number. -/
structure ParsedArrayInfo where
  sizeExpr : Option Nat
  isVLA : Bool
  isFlexible : Bool
  constantSize : Option Int
  deriving DecidableEq

structure FunctionFlags where
  hasPrototype : Bool
  isVariadic : Bool
  deriving DecidableEq

/-- What a type has besides its derivations. An inline definition is known by a
number; of attributes and an alignment it only matters whether there are any. -/
structure TypeHead where
  kind : BaseKind
  name : Option TypeName
  has : Specifier → Bool
  isFunctionPointer : Bool
  pointerDepth : Nat
  inlineDefinition : Option Nat
  isVLA : Bool
  isAdorned : Bool

mutual

inductive ParsedType
  | mk (head : TypeHead) (derivations : Derivations) (fpParams : ParamTypes)

inductive Derivations
  | nil
  | pointer (qualifiers : PointerQualifiers) (rest : Derivations)
  | array (info : ParsedArrayInfo) (rest : Derivations)
  | function (flags : FunctionFlags) (params : ParamTypes) (rest : Derivations)

inductive ParamTypes
  | nil
  | cons (param : ParsedType) (rest : ParamTypes)

end

def ParsedType.head : ParsedType → TypeHead
  | .mk head _ _ => head

def ParsedType.derivations : ParsedType → Derivations
  | .mk _ derivations _ => derivations

def ParamTypes.isEmpty : ParamTypes → Bool
  | .nil => true
  | .cons _ _ => false

def Derivations.pointerCount : Derivations → Nat
  | .nil => 0
  | .pointer _ rest => rest.pointerCount + 1
  | .array _ rest | .function _ _ rest => rest.pointerCount

-- Text

def Specifier.word : Specifier → List Char
  | .static => ['s', 't', 'a', 't', 'i', 'c']
  | .external => ['e', 'x', 't', 'e', 'r', 'n']
  | .register => ['r', 'e', 'g', 'i', 's', 't', 'e', 'r']
  | .auto => ['a', 'u', 't', 'o']
  | .thread => ['_', '_', 't', 'h', 'r', 'e', 'a', 'd']
  | .const => ['c', 'o', 'n', 's', 't']
  | .signed => ['s', 'i', 'g', 'n', 'e', 'd']
  | .unsigned => ['u', 'n', 's', 'i', 'g', 'n', 'e', 'd']
  | .short => ['s', 'h', 'o', 'r', 't']
  | .long => ['l', 'o', 'n', 'g']
  | .complex => ['_', 'C', 'o', 'm', 'p', 'l', 'e', 'x']
  | .imaginary => ['_', 'I', 'm', 'a', 'g', 'i', 'n', 'a', 'r', 'y']
  | .volatile => ['v', 'o', 'l', 'a', 't', 'i', 'l', 'e']
  | .restrict => ['r', 'e', 's', 't', 'r', 'i', 'c', 't']
  | .inline => ['i', 'n', 'l', 'i', 'n', 'e']

def Specifier.order : List Specifier :=
  [.static, .external, .register, .auto, .thread, .const, .signed, .unsigned, .short, .long,
    .complex, .imaginary, .volatile, .restrict, .inline]

def getTokenTypeName : PrimitiveType → List Char
  | .void => ['v', 'o', 'i', 'd']
  | .bool => ['_', 'B', 'o', 'o', 'l']
  | .char => ['c', 'h', 'a', 'r']
  | .short => ['s', 'h', 'o', 'r', 't']
  | .int => ['i', 'n', 't']
  | .unsigned => ['u', 'n', 's', 'i', 'g', 'n', 'e', 'd']
  | .long => ['l', 'o', 'n', 'g']
  | .float => ['f', 'l', 'o', 'a', 't']
  | .double => ['d', 'o', 'u', 'b', 'l', 'e']

def specifiersText (order : List Specifier) (has : Specifier → Bool) : List Char :=
  order.flatMap fun s => if has s then s.word ++ [' '] else []

def structWord : List Char := ['s', 't', 'r', 'u', 'c', 't']
def unionWord : List Char := ['u', 'n', 'i', 'o', 'n']
def anonText : List Char := ['<', 'a', 'n', 'o', 'n', '>']

def nameText (name : Option TypeName) : List Char :=
  match name with
  | some name => name.text
  | none => anonText

def baseText (kind : BaseKind) (name : Option TypeName) : List Char :=
  match kind with
  | .primitive t => getTokenTypeName t
  | .struct => structWord ++ ' ' :: nameText name
  | .union => unionWord ++ ' ' :: nameText name
  | .enum | .named | .invalid => nameText name

def starText (q : PointerQualifiers) : List Char :=
  '*' :: ((if q.isConst then ' ' :: Specifier.const.word else []) ++
    ((if q.isVolatile then ' ' :: Specifier.volatile.word else []) ++
      if q.isRestrict then ' ' :: Specifier.restrict.word else []))

/-- The pointers, the innermost first. -/
def Derivations.stars : Derivations → List Char
  | .nil => []
  | .pointer q rest => rest.stars ++ starText q
  | .array _ rest | .function _ _ rest => rest.stars

def starsText (derivations : Derivations) (pointerDepth : Nat) : List Char :=
  if derivations.pointerCount = 0 then List.replicate pointerDepth '*' else derivations.stars

/-- Decimal digits as `%lld` prints them. -/
def decimalText (n : Int) : List Char :=
  match n with
  | .ofNat n => Nat.toDigits 10 n
  | .negSucc n => '-' :: Nat.toDigits 10 (n + 1)

def arrayText (info : ParsedArrayInfo) : List Char :=
  [' ', '['] ++
    (if info.isVLA then ['V', 'L', 'A']
    else if info.isFlexible then ['f', 'l', 'e', 'x']
    else
      match info.constantSize with
      | some size => decimalText size
      | none => if info.sizeExpr.isSome then ['e', 'x', 'p', 'r'] else ['?']) ++ [']']

def voidText : List Char := ['v', 'o', 'i', 'd']
def dotsText : List Char := ['.', '.', '.']
def commaText : List Char := [',', ' ']

def Derivations.firstFunction : Derivations → Option (FunctionFlags × ParamTypes)
  | .nil => none
  | .function flags params _ => some (flags, params)
  | .pointer _ rest | .array _ rest => rest.firstFunction

/-- The first line of a signature: `void` where there are no parameters. -/
def emptyParamsText (isVoid : Bool) : List Char := if isVoid then voidText else []

mutual

def appendParsedType : ParsedType → List Char
  | .mk head derivations fpParams =>
    specifiersText Specifier.order head.has ++ (baseText head.kind head.name ++
      ((if head.isFunctionPointer then
        [' ', '('] ++ (starsText derivations (max 1 head.pointerDepth) ++ ([')', '('] ++
          ((if fpParams.isEmpty then appendSignature derivations
            else appendParams fpParams) ++ [')'])))
      else starsText derivations head.pointerDepth) ++
        appendDerivations head.isFunctionPointer derivations))

def appendSignature : Derivations → List Char
  | .nil => []
  | .function flags params _ =>
    emptyParamsText (flags.hasPrototype && params.isEmpty) ++ appendParams params
  | .pointer _ rest | .array _ rest => appendSignature rest

def appendDerivations (isFunctionPointer : Bool) : Derivations → List Char
  | .nil => []
  | .pointer _ rest => appendDerivations isFunctionPointer rest
  | .array info rest => arrayText info ++ appendDerivations isFunctionPointer rest
  | .function flags params rest =>
    (if isFunctionPointer then []
    else
      [' ', '('] ++ (emptyParamsText (flags.hasPrototype && params.isEmpty && !flags.isVariadic) ++
        (appendParams params ++ ((if flags.isVariadic then
          (if params.isEmpty then [] else commaText) ++ dotsText else []) ++ [')'])))) ++
      appendDerivations isFunctionPointer rest

def appendParams : ParamTypes → List Char
  | .nil => []
  | .cons param rest => appendParsedType param ++ appendMoreParams rest

def appendMoreParams : ParamTypes → List Char
  | .nil => []
  | .cons param rest => commaText ++ (appendParsedType param ++ appendMoreParams rest)

end

def parsedTypeToString (t : ParsedType) : List Char := appendParsedType t

end Fisics
