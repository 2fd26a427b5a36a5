/-!
# Tokens

`TokenType` lists the constructors of the source's enumeration in its order:
the preprocessor compares token types with `<`, so a type's position matters.
A `char*` of the source is an `Option String` where `none` is `NULL`, and each
`Char` stands for one byte.
-/

namespace Fisics

inductive TokenType
  -- data types
  | kwInt | kwFloat | kwChar | kwDouble | kwLong | kwShort | kwSigned | kwUnsigned
  | kwVoid | kwBool | kwEnum | kwUnion | kwStruct | kwTypedef
  -- control flow
  | kwIf | kwElse | kwWhile | kwFor | kwDo | kwSwitch | kwCase | kwDefault
  | kwReturn | kwGoto | kwBreak | kwContinue
  -- storage classes and modifiers
  | kwExtern | kwStatic | kwAuto | kwRegister | kwThreadLocal
  | kwConst | kwVolatile | kwRestrict | kwInline | kwAtomic | kwNoreturn
  | kwComplex | kwImaginary
  -- special values
  | kwNull | kwSizeof | kwAlignof | kwStaticAssert
  -- identifiers, directives and literals
  | identifier
  | include | includeNext | define | undef
  | ifdef | ifndef | endif
  | pragma | once
  | preprocessorOther
  | ppIf | ppElif | ppElse
  | number | floatLiteral | string | charLiteral
  -- operators
  | assign | plusAssign | minusAssign | multAssign | divAssign | modAssign
  | plus | minus | asterisk | divide | modulo
  | increment | decrement
  | equal | notEqual | less | lessEqual | greater | greaterEqual
  | logicalAnd | logicalOr | logicalNot
  | bitwiseAnd | bitwiseOr | bitwiseXor | bitwiseNot
  | leftShift | rightShift
  | bitwiseAndAssign | bitwiseOrAssign | bitwiseXorAssign
  | leftShiftAssign | rightShiftAssign
  -- punctuation
  | semicolon | colon | comma | dot | ellipsis | question
  | hash | doubleHash
  | lparen | rparen | lbrace | rbrace | lbracket | rbracket
  | arrow
  -- comments and special tokens
  | lineComment | blockComment
  | asm | eof | unknown
  deriving DecidableEq, Inhabited

/-- The `tok->type < TOKEN_IDENTIFIER` test: the reserved words. -/
def TokenType.isKeyword (t : TokenType) : Bool :=
  decide (t.ctorIdx < TokenType.identifier.ctorIdx)

structure SourceLocation where
  file : Option String
  line : Int
  column : Int
  deriving DecidableEq, Inhabited

structure SourceRange where
  start : SourceLocation
  stop : SourceLocation
  deriving DecidableEq, Inhabited

def emptyRange : SourceRange := ⟨⟨none, 0, 0⟩, ⟨none, 0, 0⟩⟩

def rangeIsInitialized (range : SourceRange) : Bool :=
  range.start.file.isSome || range.start.line != 0 || range.start.column != 0

structure Token where
  type : TokenType
  value : Option String
  line : Int
  spellingLine : Int
  spellingColumn : Int
  location : SourceRange
  macroCallSite : SourceRange
  macroDefinition : SourceRange
  deriving DecidableEq, Inhabited

/-- A token that is an identifier or a reserved word with a spelling; the same
test is `token_is_macro_identifier` in the directive handlers and
`token_is_pp_identifier` in the expression evaluator. -/
def tokenIsMacroIdentifier (tok : Token) : Bool :=
  tok.value.isSome && (tok.type == .identifier || tok.type.isKeyword)

def tokenFile (tok : Token) : Option String := tok.location.start.file

def tokenText (tok : Token) : String := tok.value.getD ""

end Fisics
