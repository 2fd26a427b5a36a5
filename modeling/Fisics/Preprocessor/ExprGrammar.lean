import Fisics.Lexer.Handlers
import Fisics.Preprocessor.Expr
import Fisics.Library.Word

/-!
# Conditional expressions of C and what they mean

The reference the evaluator is measured against: the trees of the conditional
expression grammar, their spellings as tokens, and their value. A value is an
integer of the 64-bit type that the expression has, so arithmetic is that of
the integers followed by a reduction into the type. C leaves a shift by a count
outside 0..63 undefined; the reference takes the count modulo 64.
-/

namespace Fisics

open Word (wrap)

-- Integer constants

inductive Radix
  | decimal
  | octal
  | hexadecimal
  deriving DecidableEq

def Radix.base : Radix → Nat
  | .decimal => 10
  | .octal => 8
  | .hexadecimal => 16

/-- What may precede the digits: nothing, `0`, or `0x`. -/
def Radix.marks : Radix → List (List Char)
  | .decimal => [[]]
  | .octal => [['0']]
  | .hexadecimal => [['0', 'x'], ['0', 'X']]

/-- A decimal constant starts with a nonzero digit; a hexadecimal one has a
digit. -/
def Radix.startOk : Radix → Option Char → Bool
  | .decimal, first => first.isSome && first != some '0'
  | .octal, _ => true
  | .hexadecimal, first => first.isSome

def digitOf (c : Char) : Nat := (lexerHexValue c).getD 0

def digitsValue (base : Nat) (digits : List Char) : Nat :=
  digits.foldl (fun value c => value * base + digitOf c) 0

/-- The suffixes of C: an optional `u` and an optional `l` or `ll`, either
first. -/
def integerSuffixes : List (List Char) :=
  let us := [['u'], ['U']]
  let ls := [['l'], ['L'], ['l', 'l'], ['L', 'L']]
  [[]] ++ us ++ ls ++ us.flatMap (fun u => ls.map (u ++ ·)) ++ ls.flatMap (fun l => us.map (l ++ ·))

structure IntConstant where
  radix : Radix
  mark : List Char
  digits : List Char
  suffix : List Char
  mark_ok : mark ∈ radix.marks
  digits_ok : ∀ c ∈ digits, ∃ d, lexerHexValue c = some d ∧ d < radix.base
  start_ok : radix.startOk digits.head? = true
  suffix_ok : suffix ∈ integerSuffixes
  fits : digitsValue radix.base digits < 2 ^ 64

def IntConstant.value (c : IntConstant) : Nat := digitsValue c.radix.base c.digits

def IntConstant.spelling (c : IntConstant) : String :=
  String.ofList (c.mark ++ c.digits ++ c.suffix)

/-- A constant with a `u` suffix, or too large for the signed type. -/
def IntConstant.isUnsigned (c : IntConstant) : Bool :=
  c.suffix.any (fun x => x == 'u' || x == 'U') || decide (2 ^ 63 ≤ c.value)

-- Trees

inductive UnaryOp
  | plus | minus | logicalNot | bitwiseNot
  deriving DecidableEq

inductive BinaryOp
  | mul | div | mod
  | add | sub
  | shl | shr
  | lt | le | gt | ge
  | eq | ne
  | bitAnd | bitXor | bitOr
  | logAnd | logOr
  deriving DecidableEq

inductive CondExpr
  | const (c : IntConstant)
  | ident (name : String) (hn : name ≠ "defined")
  | defined (name : String)
  | unary (op : UnaryOp) (operand : CondExpr)
  | binary (op : BinaryOp) (lhs rhs : CondExpr)
  | cond (condition yes no : CondExpr)

def UnaryOp.token : UnaryOp → TokenType
  | .plus => .plus
  | .minus => .minus
  | .logicalNot => .logicalNot
  | .bitwiseNot => .bitwiseNot

def BinaryOp.token : BinaryOp → TokenType
  | .mul => .asterisk
  | .div => .divide
  | .mod => .modulo
  | .add => .plus
  | .sub => .minus
  | .shl => .leftShift
  | .shr => .rightShift
  | .lt => .less
  | .le => .lessEqual
  | .gt => .greater
  | .ge => .greaterEqual
  | .eq => .equal
  | .ne => .notEqual
  | .bitAnd => .bitwiseAnd
  | .bitXor => .bitwiseXor
  | .bitOr => .bitwiseOr
  | .logAnd => .logicalAnd
  | .logOr => .logicalOr

def BinaryOp.level : BinaryOp → Nat
  | .mul | .div | .mod => 2
  | .add | .sub => 3
  | .shl | .shr => 4
  | .lt | .le | .gt | .ge => 5
  | .eq | .ne => 6
  | .bitAnd => 7
  | .bitXor => 8
  | .bitOr => 9
  | .logAnd => 10
  | .logOr => 11

-- Spellings

def IsWord (name : String) (tok : Token) : Prop :=
  tok.type = identifierTokenType name ∧ tok.value = some name

/-- The grammar: the tokens spell the tree at the precedence level, with
parentheses wherever the grammar allows them. -/
inductive Derives : Nat → CondExpr → List Token → Prop
  | const (ht : tok.type = .number) (hv : tok.value = some c.spelling) :
      Derives 0 (.const c) [tok]
  | ident (hw : IsWord name tok) : Derives 0 (.ident name hn) [tok]
  | defined (hd : IsWord "defined" word) (hw : IsWord name tok) :
      Derives 0 (.defined name) [word, tok]
  | definedParen (hd : IsWord "defined" word) (hl : lpar.type = .lparen) (hw : IsWord name tok)
      (hr : rpar.type = .rparen) : Derives 0 (.defined name) [word, lpar, tok, rpar]
  | paren (hl : lpar.type = .lparen) (he : Derives 12 e ts) (hr : rpar.type = .rparen) :
      Derives 0 e (lpar :: (ts ++ [rpar]))
  | unary (ht : tok.type = op.token) (he : Derives 1 e ts) : Derives 1 (.unary op e) (tok :: ts)
  | lift (he : Derives l e ts) (hl : l < 12) : Derives (l + 1) e ts
  | binary (hl : op.level = l + 1) (h₁ : Derives (l + 1) e₁ ts₁) (ht : tok.type = op.token)
      (h₂ : Derives l e₂ ts₂) : Derives (l + 1) (.binary op e₁ e₂) (ts₁ ++ tok :: ts₂)
  | cond (h₁ : Derives 11 e₁ ts₁) (hq : q.type = .question) (h₂ : Derives 12 e₂ ts₂)
      (hc : c.type = .colon) (h₃ : Derives 12 e₃ ts₃) :
      Derives 12 (.cond e₁ e₂ e₃) (ts₁ ++ q :: (ts₂ ++ c :: ts₃))

def Spells (e : CondExpr) (ts : List Token) : Prop := Derives 12 e ts

def CondExpr.level : CondExpr → Nat
  | .const _ | .ident _ _ | .defined _ => 0
  | .unary _ _ => 1
  | .binary op _ _ => op.level
  | .cond _ _ _ => 12

def punctuator (type : TokenType) : Token := ⟨type, none, 1, 1, 1, emptyRange, emptyRange, emptyRange⟩

def word (name : String) : Token := { punctuator (identifierTokenType name) with value := some name }

/-- The tokens of a tree that may stand at the level: fully parenthesised, or
with no more parentheses than the grammar needs. -/
def CondExpr.tokens (full : Bool) (level : Nat) (e : CondExpr) : List Token :=
  let inner := match e with
    | .const c => [{ punctuator .number with value := some c.spelling }]
    | .ident name _ => [word name]
    | .defined name => [word "defined", punctuator .lparen, word name, punctuator .rparen]
    | .unary op e => punctuator op.token :: e.tokens full 1
    | .binary op l r => l.tokens full op.level ++ punctuator op.token :: r.tokens full (op.level - 1)
    | .cond c a b =>
      c.tokens full 11 ++ punctuator .question ::
        (a.tokens full 12 ++ punctuator .colon :: b.tokens full 12)
  if level < e.level ∨ (full ∧ 0 < e.level) then
    punctuator .lparen :: (inner ++ [punctuator .rparen])
  else inner

-- Values

def UnaryOp.isUnsigned : UnaryOp → Bool → Bool
  | .logicalNot, _ => false
  | _, u => u

def BinaryOp.isUnsigned : BinaryOp → Bool → Bool → Bool
  | .mul, u, v | .div, u, v | .mod, u, v | .add, u, v | .sub, u, v => u || v
  | .bitAnd, u, v | .bitXor, u, v | .bitOr, u, v => u || v
  | .shl, u, _ | .shr, u, _ => u
  | _, _, _ => false

def CondExpr.isUnsigned : CondExpr → Bool
  | .const c => c.isUnsigned
  | .ident _ _ | .defined _ => false
  | .unary op e => op.isUnsigned e.isUnsigned
  | .binary op l r => op.isUnsigned l.isUnsigned r.isUnsigned
  | .cond _ a b => a.isUnsigned || b.isUnsigned

def truth (p : Prop) [Decidable p] : Int := if p then 1 else 0

def UnaryOp.denote (op : UnaryOp) (u : Bool) (x : Int) : Int :=
  match op with
  | .plus => x
  | .minus => wrap 64 u (-x)
  | .logicalNot => truth (x = 0)
  | .bitwiseNot => wrap 64 u (-x - 1)

/-- `u` and `v` say whether the operands have the unsigned type; `none` is a
division by zero. -/
def BinaryOp.denote (op : BinaryOp) (u v : Bool) (x y : Int) : Option Int :=
  let both := u || v
  let a := wrap 64 both x
  let b := wrap 64 both y
  let count := (y % 64).toNat
  match op with
  | .mul => some (wrap 64 both (a * b))
  | .div => if b = 0 then none else some (wrap 64 both (a.tdiv b))
  | .mod => if b = 0 then none else some (wrap 64 both (a.tmod b))
  | .add => some (wrap 64 both (a + b))
  | .sub => some (wrap 64 both (a - b))
  | .shl => some (wrap 64 u (x * 2 ^ count))
  | .shr => some (wrap 64 u (x / 2 ^ count))
  | .lt => some (truth (a < b))
  | .le => some (truth (a ≤ b))
  | .gt => some (truth (b < a))
  | .ge => some (truth (b ≤ a))
  | .eq => some (truth (a = b))
  | .ne => some (truth (a ≠ b))
  | .bitAnd => some (wrap 64 both (BitVec.ofInt 64 x &&& BitVec.ofInt 64 y).toInt)
  | .bitXor => some (wrap 64 both (BitVec.ofInt 64 x ^^^ BitVec.ofInt 64 y).toInt)
  | .bitOr => some (wrap 64 both (BitVec.ofInt 64 x ||| BitVec.ofInt 64 y).toInt)
  | .logAnd => some (truth (x ≠ 0 ∧ y ≠ 0))
  | .logOr => some (truth (x ≠ 0 ∨ y ≠ 0))

section
variable (isDefined : String → Bool)

/-- The value of an expression; `none` when a division or remainder by zero is
evaluated. -/
def CondExpr.denote : CondExpr → Option Int
  | .const c => some c.value
  | .ident _ _ => some 0
  | .defined name => some (truth (isDefined name))
  | .unary op e => e.denote.map (op.denote e.isUnsigned)
  | .binary .logAnd l r => l.denote.bind fun x =>
      if x = 0 then some 0 else r.denote.map fun y => truth (y ≠ 0)
  | .binary .logOr l r => l.denote.bind fun x =>
      if x ≠ 0 then some 1 else r.denote.map fun y => truth (y ≠ 0)
  | .binary op l r => l.denote.bind fun x => r.denote.bind fun y =>
      op.denote l.isUnsigned r.isUnsigned x y
  | .cond c a b => c.denote.bind fun x =>
      (if x ≠ 0 then a.denote else b.denote).map (wrap 64 (a.isUnsigned || b.isUnsigned))

/-- The subexpressions that evaluating the expression evaluates, itself
included. -/
def CondExpr.evaluated : CondExpr → List CondExpr
  | .const c => [.const c]
  | .ident name hn => [.ident name hn]
  | .defined name => [.defined name]
  | .unary op e => .unary op e :: e.evaluated
  | .binary op l r => .binary op l r :: (l.evaluated ++
      match op, l.denote isDefined with
      | .logAnd, some x => if x = 0 then [] else r.evaluated
      | .logOr, some x => if x = 0 then r.evaluated else []
      | .logAnd, none | .logOr, none => []
      | _, _ => r.evaluated)
  | .cond c a b => .cond c a b :: (c.evaluated ++
      match c.denote isDefined with
      | some x => if x ≠ 0 then a.evaluated else b.evaluated
      | none => [])

end

end Fisics
