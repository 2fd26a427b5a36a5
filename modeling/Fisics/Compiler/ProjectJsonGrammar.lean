import Fisics.Compiler.ProjectJson
import Fisics.Library.Utf8

/-!
# The JSON grammar

RFC 8259 over characters, with the value that a text denotes. A string is read as its
code points: two `\u` escapes that form a surrogate pair are one of them, and a
surrogate without its partner stays as it is, which the grammar allows.
-/

namespace Fisics.Json

/-- `ws` -/
def IsWs (cs : List Char) : Prop := ∀ c ∈ cs, c = ' ' ∨ c = '\t' ∨ c = '\n' ∨ c = '\r'

-- Numbers

/-- `DIGIT` -/
def DigitChar (c : Char) : Prop := '0' ≤ c ∧ c ≤ '9'

/-- `1*DIGIT` -/
def DigitsText (cs : List Char) : Prop := cs ≠ [] ∧ ∀ c ∈ cs, DigitChar c

/-- `int = zero / ( digit1-9 *DIGIT )` -/
inductive IntText : List Char → Prop
  | zero : IntText ['0']
  | digits (hc : '1' ≤ c ∧ c ≤ '9') (hds : ∀ d ∈ ds, DigitChar d) : IntText (c :: ds)

/-- `[ frac ]` -/
inductive FracText : List Char → Prop
  | none : FracText []
  | frac (h : DigitsText ds) : FracText ('.' :: ds)

/-- `[ exp ]` -/
inductive ExpText : List Char → Prop
  | none : ExpText []
  | exp (he : e = 'e' ∨ e = 'E') (hsign : sign = [] ∨ sign = ['+'] ∨ sign = ['-'])
      (h : DigitsText ds) : ExpText (e :: (sign ++ ds))

/-- `number = [ minus ] int [ frac ] [ exp ]` -/
inductive NumberText : List Char → Prop
  | number (hminus : minus = [] ∨ minus = ['-']) (hint : IntText int) (hfrac : FracText frac)
      (hexp : ExpText exp) : NumberText (minus ++ (int ++ (frac ++ exp)))

-- Strings

/-- What one `char` of a string denotes: a character, or one UTF-16 unit. -/
inductive StringItem
  | point (p : Nat)
  | unit (u : Nat)

def escapes : List (Char × Nat) :=
  [('"', 0x22), ('\\', 0x5c), ('/', 0x2f), ('b', 0x8), ('f', 0xc), ('n', 0xa), ('r', 0xd), ('t', 0x9)]

/-- `HEXDIG`, in either case. -/
inductive HexDigit : Char → Nat → Prop
  | digit (hc : DigitChar c) : HexDigit c (c.toNat - 48)
  | lower (hc : 'a' ≤ c ∧ c ≤ 'f') : HexDigit c (c.toNat - 87)
  | upper (hc : 'A' ≤ c ∧ c ≤ 'F') : HexDigit c (c.toNat - 55)

/-- `*char` -/
inductive CharsText : List Char → List StringItem → Prop
  | nil : CharsText [] []
  | unescaped (hc : 0x20 ≤ c.toNat ∧ c ≠ '"' ∧ c ≠ '\\') (hcs : CharsText cs items) :
      CharsText (c :: cs) (.point c.toNat :: items)
  | escape (hc : (c, p) ∈ escapes) (hcs : CharsText cs items) :
      CharsText ('\\' :: c :: cs) (.point p :: items)
  | unicode (ha : HexDigit a x₁) (hb : HexDigit b x₂) (hc : HexDigit c x₃) (hd : HexDigit d x₄)
      (hcs : CharsText cs items) :
      CharsText ('\\' :: 'u' :: a :: b :: c :: d :: cs)
        (.unit (x₁ * 4096 + x₂ * 256 + x₃ * 16 + x₄) :: items)

def IsHigh (u : Nat) : Prop := 0xd800 ≤ u ∧ u ≤ 0xdbff
def IsLow (u : Nat) : Prop := 0xdc00 ≤ u ∧ u ≤ 0xdfff

instance (u : Nat) : Decidable (IsHigh u) := inferInstanceAs (Decidable (_ ∧ _))
instance (u : Nat) : Decidable (IsLow u) := inferInstanceAs (Decidable (_ ∧ _))

def pairPoint (high low : Nat) : Nat := 0x10000 + (high - 0xd800) * 1024 + (low - 0xdc00)

@[grind] def codePoints : List StringItem → List Nat
  | [] => []
  | .point p :: items => p :: codePoints items
  | .unit u :: .unit v :: items =>
    if IsHigh u ∧ IsLow v then pairPoint u v :: codePoints items
    else u :: codePoints (.unit v :: items)
  | .unit u :: items => u :: codePoints items

/-- `string = quotation-mark *char quotation-mark` -/
inductive StringText : List Char → List Nat → Prop
  | string (h : CharsText cs items) : StringText ('"' :: (cs ++ ['"'])) (codePoints items)

-- Values

mutual

/-- `value` -/
inductive ValueText : List Char → JsonValue (List Nat) → Prop
  | null : ValueText ['n', 'u', 'l', 'l'] .null
  | true : ValueText ['t', 'r', 'u', 'e'] (.bool true)
  | false : ValueText ['f', 'a', 'l', 's', 'e'] (.bool false)
  | number (h : NumberText cs) : ValueText cs (.number (cs.map Char.toNat))
  | string (h : StringText cs text) : ValueText cs (.string text)
  | emptyArray (hw : IsWs w) : ValueText ('[' :: (w ++ [']'])) (.array [])
  | array (h : ItemsText cs items) : ValueText ('[' :: (cs ++ [']'])) (.array items)
  | emptyObject (hw : IsWs w) : ValueText ('\x7b' :: (w ++ ['\x7d'])) (.object [])
  | object (h : MembersText cs members) : ValueText ('\x7b' :: (cs ++ ['\x7d'])) (.object members)

/-- `value *( value-separator value )`, with the white space of the brackets. -/
inductive ItemsText : List Char → List (JsonValue (List Nat)) → Prop
  | last (hb : IsWs before) (hv : ValueText cs v) (ha : IsWs after) :
      ItemsText (before ++ (cs ++ after)) [v]
  | more (hb : IsWs before) (hv : ValueText cs v) (ha : IsWs after) (hs : ItemsText rest vs) :
      ItemsText (before ++ (cs ++ (after ++ ',' :: rest))) (v :: vs)

/-- `member *( value-separator member )`, with the white space of the braces. -/
inductive MembersText : List Char → List (List Nat × JsonValue (List Nat)) → Prop
  | last (hb : IsWs before) (hk : StringText ks key) (hw : IsWs w) (hw' : IsWs w')
      (hv : ValueText cs v) (ha : IsWs after) :
      MembersText (before ++ (ks ++ (w ++ ':' :: (w' ++ (cs ++ after))))) [(key, v)]
  | more (hb : IsWs before) (hk : StringText ks key) (hw : IsWs w) (hw' : IsWs w')
      (hv : ValueText cs v) (ha : IsWs after) (hs : MembersText rest ms) :
      MembersText (before ++ (ks ++ (w ++ ':' :: (w' ++ (cs ++ (after ++ ',' :: rest)))))) ((key, v) :: ms)

end

/-- `JSON-text = ws value ws` -/
inductive DocumentText : List Char → JsonValue (List Nat) → Prop
  | document (hb : IsWs before) (hv : ValueText cs v) (ha : IsWs after) :
      DocumentText (before ++ (cs ++ after)) v

-- Values as trees

section
variable {σ τ : Type}

mutual

/-- How deep values stand in values; a value by itself is one deep. -/
def JsonValue.nesting : JsonValue σ → Nat
  | .array items => nestingItems items + 1
  | .object members => nestingMembers members + 1
  | _ => 1

def nestingItems : List (JsonValue σ) → Nat
  | [] => 0
  | v :: items => max v.nesting (nestingItems items)

def nestingMembers : List (σ × JsonValue σ) → Nat
  | [] => 0
  | (_, v) :: members => max v.nesting (nestingMembers members)

end

mutual

/-- All strings, the keys with them, have the property. -/
def JsonValue.Strings (P : σ → Prop) : JsonValue σ → Prop
  | .string text => P text
  | .array items => stringsItems P items
  | .object members => stringsMembers P members
  | _ => True

def stringsItems (P : σ → Prop) : List (JsonValue σ) → Prop
  | [] => True
  | v :: items => v.Strings P ∧ stringsItems P items

def stringsMembers (P : σ → Prop) : List (σ × JsonValue σ) → Prop
  | [] => True
  | (key, v) :: members => P key ∧ v.Strings P ∧ stringsMembers P members

end

mutual

def JsonValue.DistinctKeys : JsonValue σ → Prop
  | .array items => distinctItems items
  | .object members => (members.map Prod.fst).Nodup ∧ distinctMembers members
  | _ => True

def distinctItems : List (JsonValue σ) → Prop
  | [] => True
  | v :: items => v.DistinctKeys ∧ distinctItems items

def distinctMembers : List (σ × JsonValue σ) → Prop
  | [] => True
  | (_, v) :: members => v.DistinctKeys ∧ distinctMembers members

end

mutual

def JsonValue.map (f : σ → τ) : JsonValue σ → JsonValue τ
  | .null => .null
  | .bool value => .bool value
  | .number text => .number (f text)
  | .string text => .string (f text)
  | .array items => .array (mapItems f items)
  | .object members => .object (mapMembers f members)

def mapItems (f : σ → τ) : List (JsonValue σ) → List (JsonValue τ)
  | [] => []
  | v :: items => v.map f :: mapItems f items

def mapMembers (f : σ → τ) : List (σ × JsonValue σ) → List (τ × JsonValue τ)
  | [] => []
  | (key, v) :: members => (f key, v.map f) :: mapMembers f members

end

end

def encodePoints (points : List Nat) : Bytes := Utf8.encode (points.map Char.ofNat)

end Fisics.Json
