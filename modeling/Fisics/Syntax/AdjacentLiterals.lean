import Fisics.Syntax.LiteralTags

/-!
# Adjacent string literals

The parser joins the texts of adjacent literals and tags what it has joined. An escape at
the end of one text goes on in the next where the next begins with a digit that it takes,
and a tag may come about that no literal has.
-/

namespace Fisics

-- The parser

structure StringPieces where
  buf : List Char
  sawWide : Bool
  sawUtf8 : Bool
  sawEscapedNarrow : Bool
  deriving DecidableEq

namespace StringPieces

def empty : StringPieces := ⟨[], false, false, false⟩

def add (pieces : StringPieces) (text : List Char) : StringPieces :=
  let (enc, payload) := astLiteralEncoding text
  { buf := pieces.buf ++ payload
    sawWide := pieces.sawWide || enc == .wide
    sawUtf8 := pieces.sawUtf8 || enc == .utf8
    sawEscapedNarrow := pieces.sawEscapedNarrow || (enc == .narrow && ['N', '|'].isPrefixOf text) }

def merged (pieces : StringPieces) : List Char :=
  if pieces.sawWide then 'W' :: '|' :: pieces.buf
  else if pieces.sawUtf8 then 'U' :: '8' :: '|' :: pieces.buf
  else if pieces.sawEscapedNarrow then 'N' :: '|' :: pieces.buf
  else pieces.buf

end StringPieces

def nudStringPieces (pieces : StringPieces) : List Token → StringPieces × List Token
  | [] => (pieces, [])
  | tok :: rest =>
    if tok.type = .string then nudStringPieces (pieces.add (tokenText tok).toList) rest
    else (pieces, tok :: rest)

/-- `nud` at a string token: the text of the literal's node, and the tokens left. -/
def nudStringLiteral (token : Token) (stream : List Token) : List Char × List Token :=
  let r := nudStringPieces (StringPieces.empty.add (tokenText token).toList) stream
  (r.1.merged, r.2)

-- Escapes that go on

/-- The digits that an escape would take behind its text. -/
def escapeTakes (taken : List Char) : Option (Char → Bool) :=
  if taken.head? = some 'x' then some isxdigit
  else if taken.length < 3 && taken.head?.any isOctalDigit then some isOctalDigit
  else none

/-- The digits that the last escape of a text takes, where the text ends in one; `skip` is as in the
decoder. -/
@[grind] def openEscape : (skip : Nat) → List Char → Option (Char → Bool)
  | _, [] => none
  | skip + 1, _ :: rest => openEscape skip rest
  | 0, c :: rest =>
    if c = '\\' then
      match decodeEscape rest with
      | none => none
      | some (consumed, _) => if consumed < rest.length then openEscape consumed rest else escapeTakes rest
    else openEscape 0 rest

def takesHead (takes : Option (Char → Bool)) (text : List Char) : Bool :=
  takes.any fun p => text.head?.any p

/-- The last escape of a text goes on in what is put behind it. -/
def absorbs (text behind : List Char) : Bool := takesHead (openEscape 0 text) behind

/-- No text goes on in those behind it. -/
def separate : List (List Char) → Bool
  | [] => true
  | text :: texts => !absorbs text texts.flatten && separate texts

/-- The text behind a backslash, its value and the digits that it would go on with. -/
inductive Escape : List Char → Nat → Option (Char → Bool) → Prop
  | simple : c ∈ simpleEscapes → Escape [c] (simpleEscapeValue c).toNat none
  | octal : digits ≠ [] → digits.length ≤ 3 → (∀ d ∈ digits, isOctalDigit d = true) →
      Escape digits (octalNumber digits) (if digits.length < 3 then some isOctalDigit else none)
  | hex : digits ≠ [] → (∀ d ∈ digits, isxdigit d = true) →
      Escape ('x' :: digits) (hexNumber digits % 2 ^ 32) (some isxdigit)
  | universalName : letter = 'u' ∧ digits.length = 4 ∨ letter = 'U' ∧ digits.length = 8 →
      (∀ d ∈ digits, isxdigit d = true) → Escape (letter :: digits) (hexNumber digits) none

/-- A text that decodes to these values. -/
inductive EscapedText : List Char → List Nat → Prop
  | nil : EscapedText [] []
  | plain : c ∉ ['"', '\\', '\n'] → EscapedText rest values → EscapedText (c :: rest) (c.toNat :: values)
  | escape : Escape taken value takes → takesHead takes rest = false → EscapedText rest values →
      EscapedText ('\\' :: (taken ++ rest)) (value :: values)

theorem takesHead_some (h : takesHead (some p) rest = false) : ∀ d ∈ rest.head?, p d = false := by
  intro d hd
  cases rest with
  | nil => cases hd
  | cons c rest =>
    cases hd
    simpa [takesHead] using h

theorem Escape.decode (h : Escape taken value takes) (hrest : takesHead takes rest = false) :
    decodeEscape (taken ++ rest) = some (taken.length, value) := by
  cases h with
  | simple hc => exact decodeEscape_simple hc rest
  | octal hne hlen hdigits =>
    refine decodeEscape_octal hne hlen hdigits fun hshort => ?_
    rw [if_pos hshort] at hrest
    exact takesHead_some hrest
  | hex hne hdigits =>
    rw [List.length_cons, Nat.add_comm]
    exact decodeEscape_hex hne hdigits (takesHead_some hrest)
  | universalName hform hdigits =>
    rw [List.length_cons, Nat.add_comm]
    exact decodeEscape_universalName hform hdigits rest

theorem simpleEscape_takes (hc : c ∈ simpleEscapes) : escapeTakes [c] = none := by
  have hall : ∀ c ∈ simpleEscapes, c ≠ 'x' ∧ isOctalDigit c = false := by
    unfold simpleEscapes
    simp [isOctalDigit]
  obtain ⟨hx, hoctal⟩ := hall c hc
  simp [escapeTakes, hx, hoctal]

theorem Escape.takes_eq (h : Escape taken value takes) : escapeTakes taken = takes := by
  cases h with
  | simple hc => exact simpleEscape_takes hc
  | octal hne hlen hdigits =>
    cases taken with
    | nil => exact absurd rfl hne
    | cons d digits =>
      have hd := hdigits d List.mem_cons_self
      have hx := (octal_ne hd).2.1
      simp [escapeTakes, hx, hd]
  | hex hne hdigits => rfl
  | universalName hform hdigits =>
    rcases hform with ⟨rfl, -⟩ | ⟨rfl, -⟩
    all_goals simp [escapeTakes, isOctalDigit]

theorem Escape.extend (h : Escape taken value (some p)) (hc : p c = true) :
    ∃ longer takes, Escape (taken ++ [c]) longer takes := by
  generalize htakes : some p = takes at h
  cases h with
  | simple _ | universalName _ _ => cases htakes
  | octal hne hlen hdigits =>
    split_ifs at htakes with hshort
    obtain rfl : p = isOctalDigit := Option.some.inj htakes
    have hall : ∀ d ∈ taken ++ [c], isOctalDigit d = true := by
      simpa [or_imp, forall_and] using ⟨hdigits, hc⟩
    exact ⟨_, _, .octal (by simp) (by simp only [List.length_append, List.length_singleton]; omega) hall⟩
  | @hex digits hne hdigits =>
    obtain rfl : p = isxdigit := Option.some.inj htakes
    have hall : ∀ d ∈ digits ++ [c], isxdigit d = true := by
      simpa [or_imp, forall_and] using ⟨hdigits, hc⟩
    exact ⟨_, _, .hex (by simp) hall⟩

theorem Escape.not_backslash (h : Escape taken value (some p)) : p '\\' = false := by
  generalize htakes : some p = takes at h
  cases h with
  | simple _ | universalName _ _ => cases htakes
  | octal _ _ _ =>
    split_ifs at htakes
    cases htakes
    decide
  | hex _ _ =>
    cases htakes
    decide

-- Texts behind each other

theorem Escape.behind (h : Escape taken value takes) (hr : EscapedText rest values) :
    ∃ joined, EscapedText ('\\' :: (taken ++ rest)) joined ∧
      if takesHead takes rest then joined.length < values.length + 1 else joined = value :: values := by
  induction hr generalizing taken value takes with
  | nil =>
    have hnone : takesHead takes [] = false := by simp [takesHead]
    refine ⟨_, .escape h hnone .nil, ?_⟩
    rw [hnone]
    rfl
  | @plain c rest values hc hrest ih =>
    cases htakes : takesHead takes (c :: rest) with
    | false => exact ⟨_, .escape h htakes (.plain hc hrest), by simp⟩
    | true => ?_
    cases takes with
    | none => cases htakes
    | some p => ?_
    have hpc : p c = true := by simpa [takesHead] using htakes
    obtain ⟨longer, further, hlonger⟩ := h.extend hpc
    obtain ⟨joined, htext, hjoined⟩ := ih hlonger
    rw [List.append_assoc, List.singleton_append] at htext
    refine ⟨joined, htext, ?_⟩
    rw [if_pos rfl, List.length_cons]
    split_ifs at hjoined with hmore
    · omega
    · rw [hjoined, List.length_cons]
      omega
  | @escape behind next nextTakes rest values hnext hfree hrest _ =>
    have hnone : takesHead takes ('\\' :: (behind ++ rest)) = false := by
      cases takes with
      | none => rfl
      | some p => simp [takesHead, h.not_backslash]
    refine ⟨_, .escape h hnone (.escape hnext hfree hrest), ?_⟩
    rw [hnone]
    rfl

theorem openEscape_plain (hc : c ∉ ['"', '\\', '\n']) (rest : List Char) :
    openEscape 0 (c :: rest) = openEscape 0 rest := by
  have hne : ¬ c = '\\' := by
    rintro rfl
    exact hc (by decide)
  rw [openEscape, if_neg hne]

theorem openEscape_behind (taken rest : List Char) :
    openEscape taken.length (taken ++ rest) = openEscape 0 rest := by
  induction taken with
  | nil => rfl
  | cons c taken ih => exact ih

theorem openEscape_escape (h : Escape taken value takes) (hrest : takesHead takes rest = false) :
    openEscape 0 ('\\' :: (taken ++ rest)) = if rest = [] then takes else openEscape 0 rest := by
  rw [openEscape, if_pos rfl, h.decode hrest]
  dsimp only
  split_ifs with hmore hnil hnil
  · subst hnil
    simp at hmore
  · exact openEscape_behind taken rest
  · rw [hnil, List.append_nil, h.takes_eq]
  · have hlength := List.length_pos_of_ne_nil hnil
    rw [List.length_append] at hmore
    omega

theorem takesHead_append (h : text ≠ []) :
    takesHead takes (text ++ behind) = takesHead takes text := by
  cases text with
  | nil => exact absurd rfl h
  | cons c text => rfl

theorem EscapedText.join (hp : EscapedText text values) (hr : EscapedText behind others) :
    ∃ joined, EscapedText (text ++ behind) joined ∧
      if absorbs text behind then joined.length < values.length + others.length else joined = values ++
        others := by
  induction hp with
  | nil => exact ⟨others, hr, by simp [absorbs, openEscape, takesHead]⟩
  | @plain c rest values hc hrest ih =>
    obtain ⟨joined, htext, hjoined⟩ := ih
    refine ⟨c.toNat :: joined, .plain hc htext, ?_⟩
    have habsorbs : absorbs (c :: rest) behind = absorbs rest behind := by
      rw [absorbs, openEscape_plain hc]
      rfl
    rw [habsorbs]
    split_ifs at hjoined ⊢
    · simp only [List.length_cons]
      omega
    · rw [hjoined]
      rfl
  | @escape taken value takes rest values hescape hfree hrest ih =>
    have hopen := openEscape_escape hescape hfree
    by_cases hnil : rest = []
    · subst hnil
      cases hrest
      obtain ⟨joined, htext, hjoined⟩ := hescape.behind hr
      refine ⟨joined, by simpa using htext, ?_⟩
      rw [if_pos rfl] at hopen
      rw [absorbs, hopen]
      split_ifs at hjoined ⊢
      · simp only [List.length_cons, List.length_nil]
        omega
      · exact hjoined
    · obtain ⟨joined, htext, hjoined⟩ := ih
      have hfree' : takesHead takes (rest ++ behind) = false := by rw [takesHead_append hnil, hfree]
      refine ⟨value :: joined, ?_, ?_⟩
      · have hwhole := EscapedText.escape hescape hfree' htext
        rwa [← List.append_assoc, ← List.cons_append] at hwhole
      · rw [absorbs, hopen]
        rw [absorbs] at hjoined
        split_ifs at hjoined ⊢
        · simp only [List.length_cons]
          omega
        · rw [hjoined]
          rfl

theorem EscapedText.flatten (h : List.Forall₂ EscapedText texts values) :
    ∃ joined, EscapedText texts.flatten joined ∧
      if separate texts then joined = values.flatten else joined.length < values.flatten.length := by
  induction h with
  | nil => exact ⟨[], .nil, rfl⟩
  | @cons text value texts values htext _ ih =>
    obtain ⟨behind, hbehind, hrest⟩ := ih
    obtain ⟨joined, hjoined, hfirst⟩ := htext.join hbehind
    refine ⟨joined, hjoined, ?_⟩
    have hlength : behind.length ≤ values.flatten.length := by
      split_ifs at hrest
      · rw [hrest]
      · exact Nat.le_of_lt hrest
    simp only [separate, List.flatten_cons, List.length_append]
    cases habsorbs : absorbs text texts.flatten with
    | true =>
      rw [habsorbs, if_pos rfl] at hfirst
      rw [Bool.not_true, Bool.false_and, if_neg Bool.false_ne_true]
      omega
    | false => ?_
    rw [habsorbs, if_neg Bool.false_ne_true] at hfirst
    rw [Bool.not_false, Bool.true_and, hfirst]
    split_ifs at hrest ⊢
    · rw [hrest]
    · rw [List.length_append]
      omega

-- What the decoders make of a text

theorem StringDecoder.loop_text (d : StringDecoder maxVal σ) (h : EscapedText text values) (res : σ) :
    d.loop 0 res text = values.foldl d.push res := by
  induction h generalizing res with
  | nil => exact d.loop_nil 0 res
  | plain hc _ ih =>
    have hplain := d.loop_plain (List.forall_mem_singleton.mpr hc)
    exact (hplain _ res).trans (ih _)
  | escape hescape hfree _ ih => exact (d.loop_taken (hescape.decode hfree) res).trans (ih _)

theorem EscapedText.values_length (h : EscapedText text values) : values.length ≤ text.length := by
  induction h with
  | nil => exact Nat.le_refl 0
  | plain _ _ ih => exact Nat.succ_le_succ ih
  | escape _ _ _ ih =>
    simp only [List.length_cons, List.length_append]
    omega

def NoCharacter (value : Nat) : Prop := 0x10FFFF < value ∨ 0xD800 ≤ value ∧ value ≤ 0xDFFF

instance (value : Nat) : Decidable (NoCharacter value) := inferInstanceAs (Decidable (_ ∨ _))

/-- The result for these values in a buffer with room for them. -/
def narrowResult (charBitWidth : Int) (values : List Nat) : LiteralDecode where
  ok := values.all fun value => ¬ NoCharacter value
  overflow := values.any fun value => literalMaxVal charBitWidth < value
  length := values.length
  bytes := if charBitWidth ≤ 8 then values.map lowByte else []

def wideResult (charBitWidth : Int) (values : List Nat) : WideLiteralDecode where
  ok := values.all fun value => ¬ NoCharacter value
  overflow := values.any fun value => literalMaxVal charBitWidth < value
  length := values.length
  elements := values

theorem StringDecoder.flags (d : StringDecoder maxVal σ) (values : List Nat) (res : σ) (hok : d.ok res = true)
    (hoverflow : d.overflow res = false) :
    d.ok (values.foldl d.push res) = values.all (fun value => ¬ NoCharacter value) ∧
      d.overflow (values.foldl d.push res) = values.any fun value => maxVal < value := by
  constructor
  · rw [Bool.eq_iff_iff, ← not_iff_not, Bool.not_eq_true, Bool.not_eq_true, d.ok_foldl]
    simp only [hok, Bool.true_eq_false, false_or, List.all_eq_false, decide_eq_true_eq, not_not]
    rfl
  · rw [Bool.eq_iff_iff, d.overflow_foldl]
    simp [hoverflow]

theorem bytes_unbuffered (values : List Nat) (res : LiteralDecode) :
    (values.foldl (LiteralDecode.push maxVal 0) res).bytes = res.bytes := by
  induction values generalizing res with
  | nil => rfl
  | cons value values ih =>
    rw [List.foldl_cons, ih]
    rfl

theorem decodeCStringLiteral_text (h : EscapedText text values) (charBitWidth : Int) :
    decodeCStringLiteral text charBitWidth = narrowResult charBitWidth values := by
  let cap := if charBitWidth ≤ 8 then text.length + 1 else 0
  let d := narrowDecoder (literalMaxVal charBitWidth) cap
  have hrun : decodeCStringLiteral text charBitWidth = values.foldl d.push ⟨true, false, 0, []⟩ :=
    d.loop_text h _
  obtain ⟨hok, hoverflow⟩ := d.flags values ⟨true, false, 0, []⟩ rfl rfl
  have hlength := d.length_foldl values ⟨true, false, 0, []⟩
  have hbytes : (values.foldl d.push ⟨true, false, 0, []⟩).bytes =
      if charBitWidth ≤ 8 then values.map lowByte else [] := by
    have hfit := h.values_length
    split_ifs with hnarrow
    · have hcap : cap = text.length + 1 := if_pos hnarrow
      refine (bytes_foldl values _ ?_).trans (List.nil_append _)
      rw [hcap, List.length_nil]
      omega
    · have hcap : cap = 0 := if_neg hnarrow
      exact (congrArg (fun cap => (values.foldl (LiteralDecode.push _ cap) ⟨true, false, 0, []⟩).bytes)
        hcap).trans
        (bytes_unbuffered values _)
  rw [hrun]
  rw [narrowResult, ← hok, ← hoverflow, ← hbytes, (hlength.trans (Nat.zero_add _)).symm]
  rfl

theorem decodeCStringLiteralWide_text (h : EscapedText text values) (charBitWidth : Int) :
    decodeCStringLiteralWide text charBitWidth = wideResult charBitWidth values := by
  let d := wideDecoder (literalMaxVal charBitWidth)
  have hrun : decodeCStringLiteralWide text charBitWidth = values.foldl d.push ⟨true, false, 0, []⟩ :=
    d.loop_text h _
  obtain ⟨hok, hoverflow⟩ := d.flags values ⟨true, false, 0, []⟩ rfl rfl
  have hlength := d.length_foldl values ⟨true, false, 0, []⟩
  have helements : (values.foldl d.push ⟨true, false, 0, []⟩).elements = values := elements_foldl values _
  rw [hrun]
  generalize values.foldl d.push ⟨true, false, 0, []⟩ = res at hok hoverflow hlength helements
  obtain ⟨ok, overflow, length, elements⟩ := res
  simp only [wideResult, WideLiteralDecode.mk.injEq]
  exact ⟨hok, hoverflow, hlength.trans (Nat.zero_add _), helements⟩

-- Literals one by one

def LiteralDecode.append (a b : LiteralDecode) : LiteralDecode :=
  ⟨a.ok && b.ok, a.overflow || b.overflow, a.length + b.length, a.bytes ++ b.bytes⟩

def WideLiteralDecode.append (a b : WideLiteralDecode) : WideLiteralDecode :=
  ⟨a.ok && b.ok, a.overflow || b.overflow, a.length + b.length, a.elements ++ b.elements⟩

def concatNarrow (results : List LiteralDecode) : LiteralDecode :=
  results.foldr LiteralDecode.append ⟨true, false, 0, []⟩

def concatWide (results : List WideLiteralDecode) : WideLiteralDecode :=
  results.foldr WideLiteralDecode.append ⟨true, false, 0, []⟩

/-- A token that the lexer makes of a string literal. -/
def LiteralToken (tok : Token) : Prop :=
  ∃ lexer p body, (∀ c ∈ lexer.source, c.toNat < 256) ∧ AtLiteral lexer p body ∧ tok = (getNextToken lexer).1

def encodingOf (tok : Token) : LiteralEncoding := (astLiteralEncoding (tokenText tok).toList).1

def payloadOf (tok : Token) : List Char := (astLiteralEncoding (tokenText tok).toList).2

/-- Wide if one of them is wide, and UTF-8 if one of the others is. -/
def joinedEncoding (tokens : List Token) : LiteralEncoding :=
  if ∃ tok ∈ tokens, encodingOf tok = .wide then .wide
  else if ∃ tok ∈ tokens, encodingOf tok = .utf8 then .utf8
  else .narrow

/-- The text of a node decodes to what the literals decode to one by one. -/
structure DecodesJoined (tokens : List Token) (text : List Char) : Prop where
  encoding : (astLiteralEncoding text).1 = joinedEncoding tokens
  narrow : joinedEncoding tokens ≠ .wide → ∀ charBitWidth,
    decodeCStringLiteral (astLiteralEncoding text).2 charBitWidth =
      concatNarrow (tokens.map fun tok => decodeCStringLiteral (payloadOf tok) charBitWidth)
  wide : joinedEncoding tokens = .wide → ∀ charBitWidth,
    decodeCStringLiteralWide (astLiteralEncoding text).2 charBitWidth =
      concatWide (tokens.map fun tok => decodeCStringLiteralWide (payloadOf tok) charBitWidth)

/-- The reader takes the beginning of the text for a tag. -/
def HasTag (text : List Char) : Bool :=
  ['N', '|'].isPrefixOf text || ['W', '|'].isPrefixOf text || ['U', '8', '|'].isPrefixOf text

/-- Where no literal has a tag, their joined text has none. -/
def NoTagJoined (tokens : List Token) : Prop :=
  (∃ tok ∈ tokens, HasTag (tokenText tok).toList = true) ∨ HasTag (tokens.map payloadOf).flatten = false

theorem foldr_results (hempty : empty = f [])
    (h : ∀ first rest, append (f first) (f rest) = f (first ++ rest)) (values : List (List Nat)) :
    (values.map f).foldr append empty = f values.flatten := by
  induction values with
  | nil => exact hempty
  | cons first rest ih => rw [List.map_cons, List.foldr_cons, ih, h, List.flatten_cons]

theorem concatNarrow_results (charBitWidth : Int) (values : List (List Nat)) :
    concatNarrow (values.map (narrowResult charBitWidth)) = narrowResult charBitWidth values.flatten := by
  refine foldr_results (by simp [narrowResult]) (fun first rest => ?_) values
  simp only [LiteralDecode.append, narrowResult, List.all_append, List.any_append,
    List.length_append, List.map_append, LiteralDecode.mk.injEq, true_and]
  split_ifs <;> rfl

theorem concatWide_results (charBitWidth : Int) (values : List (List Nat)) :
    concatWide (values.map (wideResult charBitWidth)) = wideResult charBitWidth values.flatten := by
  refine foldr_results (by simp [wideResult]) (fun first rest => ?_) values
  simp only [WideLiteralDecode.append, wideResult, List.all_append, List.any_append, List.length_append]

-- The texts of tokens

theorem EscapedText.run (hbytes : ∀ b ∈ bytes, b ∉ ['"', '\\', '\n']) (h : EscapedText rest values) :
    EscapedText (bytes ++ rest) (bytes.map Char.toNat ++ values) := by
  induction bytes with
  | nil => exact h
  | cons b bytes ih =>
    obtain ⟨hb, hrest⟩ := List.forall_mem_cons.mp hbytes
    exact .plain hb (ih hrest)

theorem EscapedText.tail (h : EscapedText (c :: rest) values) (hc : c ≠ '\\') :
    ∃ others, EscapedText rest others := by
  cases h with
  | plain _ hrest => exact ⟨_, hrest⟩
  | escape _ _ _ => exact absurd rfl hc

theorem takesHead_of_forall (h : ∀ d ∈ rest.head?, p d = false) : takesHead (some p) rest = false := by
  cases rest with
  | nil => rfl
  | cons c rest => simpa [takesHead] using h

theorem LiteralBody.escapedText (h : LiteralBody body items) :
    EscapedText body (items.flatMap LiteralItem.values) := by
  induction h with
  | nil => exact .nil
  | direct hbytes _ ih => exact ih.run hbytes.plain
  | simpleEscape hc _ ih => exact .escape (.simple hc) rfl ih
  | @octal digits rest items hne hlen hdigits hrest _ ih =>
    have hvalue : LiteralItem.values (.numericEscape (octalNumber digits)) = [octalNumber digits] := by
      rw [LiteralItem.values, Nat.mod_eq_of_lt (octalNumber_lt hdigits hlen)]
    rw [List.flatMap_cons, hvalue]
    refine .escape (.octal hne hlen hdigits) ?_ ih
    split_ifs with hshort
    · exact takesHead_of_forall (hrest hshort)
    · rfl
  | hex hne hdigits hrest _ ih => exact .escape (.hex hne hdigits) (takesHead_of_forall hrest) ih
  | universalName hform hdigits _ ih => exact .escape (.universalName hform hdigits) rfl ih

theorem AtLiteral.accepted (hbytes : ∀ c ∈ lexer.source, c.toNat < 256) (h : AtLiteral lexer p body) :
    ∃ items, LiteralBody body items := by
  obtain ⟨back, hrest, hscan⟩ := h
  have hsource : (skipWhitespace lexer).source = lexer.source := skipBlank_source _ lexer
  have htext : ∀ c ∈ body ++ '"' :: back, c.toNat < 256 := by
    intro c hc
    refine hbytes c ?_
    rw [← hsource]
    refine List.mem_of_mem_drop (i := (skipWhitespace lexer).position) ?_
    show c ∈ (skipWhitespace lexer).rest
    rw [hrest]
    exact List.mem_append_right _ (List.mem_cons_of_mem _ hc)
  obtain ⟨items, hitems⟩ := stringScan_items _ (Nat.le_refl _) htext hscan
  rw [List.take_left] at hitems
  exact ⟨items, hitems⟩

theorem LiteralToken.type_eq (h : LiteralToken tok) : tok.type = .string := by
  obtain ⟨lexer, p, body, -, hat, rfl⟩ := h
  exact (getNextToken_literal hat).1

theorem LiteralToken.payload (h : LiteralToken tok) : ∃ values, EscapedText (payloadOf tok) values := by
  obtain ⟨lexer, p, body, hbytes, hat, rfl⟩ := h
  obtain ⟨items, hitems⟩ := hat.accepted hbytes
  have hpayload : payloadOf (getNextToken lexer).1 = if p.Misread body then body.drop 2 else body := by
    rw [payloadOf, tokenText, (getNextToken_literal hat).2, Option.getD_some, String.toList_ofList,
      astLiteralEncoding_tagged]
  rw [hpayload]
  split_ifs with hmisread
  · obtain ⟨-, rest, rfl⟩ := hmisread
    obtain ⟨_, htail⟩ := hitems.escapedText.tail (by decide)
    exact htail.tail (by decide)
  · exact ⟨_, hitems.escapedText⟩

theorem hasTag_false (h : HasTag text = false) : astLiteralEncoding text = (.narrow, text) := by
  unfold astLiteralEncoding
  split
  iterate 3
    · simp [HasTag] at h
  · rfl

theorem hasTag_cases (h : HasTag text = true) :
    ∃ rest, text = 'N' :: '|' :: rest ∨ text = 'W' :: '|' :: rest ∨ text = 'U' :: '8' :: '|' :: rest := by
  simp only [HasTag, Bool.or_eq_true, List.isPrefixOf_iff_prefix] at h
  rcases h with (⟨rest, rfl⟩ | ⟨rest, rfl⟩) | ⟨rest, rfl⟩
  · exact ⟨rest, .inl rfl⟩
  · exact ⟨rest, .inr (.inl rfl)⟩
  · exact ⟨rest, .inr (.inr rfl)⟩

theorem hasTag_eq (text : List Char) :
    HasTag text = ((astLiteralEncoding text).1 == .wide || (astLiteralEncoding text).1 == .utf8 ||
      ((astLiteralEncoding text).1 == .narrow && ['N', '|'].isPrefixOf text)) := by
  cases htag : HasTag text with
  | false =>
    rw [hasTag_false htag]
    simp only [HasTag, Bool.or_eq_false_iff] at htag
    simp [htag.1.1]
  | true =>
    obtain ⟨rest, rfl | rfl | rfl⟩ := hasTag_cases htag
    all_goals rfl

-- The pieces

def addTokens (pieces : StringPieces) (tokens : List Token) : StringPieces :=
  tokens.foldl (fun pieces tok => pieces.add (tokenText tok).toList) pieces

theorem nudStringPieces_tokens (hothers : ∀ tok ∈ others, tok.type = .string)
    (hstop : ∀ tok ∈ stream.head?, tok.type ≠ .string) (pieces : StringPieces) :
    nudStringPieces pieces (others ++ stream) = (addTokens pieces others, stream) := by
  induction others generalizing pieces with
  | nil =>
    cases stream with
    | nil => rfl
    | cons tok rest => exact if_neg (hstop tok rfl)
  | cons tok others ih =>
    obtain ⟨htok, hrest⟩ := List.forall_mem_cons.mp hothers
    rw [List.cons_append, nudStringPieces, if_pos htok]
    exact ih hrest _

theorem addTokens_eq (pieces : StringPieces) (tokens : List Token) :
    addTokens pieces tokens =
      ⟨pieces.buf ++ (tokens.map payloadOf).flatten,
        pieces.sawWide || tokens.any (encodingOf · == .wide),
        pieces.sawUtf8 || tokens.any (encodingOf · == .utf8),
        pieces.sawEscapedNarrow ||
          tokens.any fun tok => encodingOf tok == .narrow && ['N', '|'].isPrefixOf (tokenText tok).toList⟩ := by
  induction tokens generalizing pieces with
  | nil => simp [addTokens]
  | cons tok tokens ih =>
    have hstep : addTokens pieces (tok :: tokens) = addTokens (pieces.add (tokenText tok).toList) tokens := rfl
    rw [hstep, ih]
    simp only [StringPieces.add, payloadOf, encodingOf, List.map_cons, List.flatten_cons, List.any_cons,
      List.append_assoc, Bool.or_assoc]

theorem exists_hasTag (tokens : List Token) :
    (∃ tok ∈ tokens, HasTag (tokenText tok).toList = true) ↔
      (tokens.any (encodingOf · == .wide) = true ∨ tokens.any (encodingOf · == .utf8) = true) ∨
        tokens.any (fun tok => encodingOf tok == .narrow && ['N', '|'].isPrefixOf (tokenText tok).toList) =
          true := by
  simp only [hasTag_eq, Bool.or_eq_true, List.any_eq_true, encodingOf, and_or_left, exists_or]

theorem merged_tokens (tokens : List Token) :
    if ∃ tok ∈ tokens, HasTag (tokenText tok).toList = true then
      astLiteralEncoding (addTokens .empty tokens).merged =
        (joinedEncoding tokens, (tokens.map payloadOf).flatten)
    else (addTokens .empty tokens).merged = (tokens.map payloadOf).flatten ∧ joinedEncoding tokens =
      .narrow := by
  have hwide : (∃ tok ∈ tokens, encodingOf tok = .wide) ↔ tokens.any (encodingOf · == .wide) = true := by
    simp [List.any_eq_true]
  have hutf8 : (∃ tok ∈ tokens, encodingOf tok = .utf8) ↔ tokens.any (encodingOf · == .utf8) = true := by
    simp [List.any_eq_true]
  simp only [exists_hasTag, joinedEncoding, hwide, hutf8, addTokens_eq, StringPieces.merged, StringPieces.empty,
    Bool.false_or, List.nil_append]
  cases tokens.any (encodingOf · == .wide) with
  | true => simp [astLiteralEncoding]
  | false => ?_
  cases tokens.any (encodingOf · == .utf8) with
  | true => simp [astLiteralEncoding]
  | false =>
    cases tokens.any (fun tok => encodingOf tok == .narrow && ['N', '|'].isPrefixOf (tokenText tok).toList) with
    | true => simp [astLiteralEncoding]
    | false => simp

-- Where joining keeps what the literals say

theorem map_results (hf : ∀ {text values}, EscapedText text values → f text = g values)
    (h : List.Forall₂ EscapedText texts values) : texts.map f = values.map g := by
  induction h with
  | nil => rfl
  | cons htext _ ih => rw [List.map_cons, List.map_cons, hf htext, ih]

section
variable {tokens : List Token} {text : List Char} {values : List (List Nat)} {joined : List Nat}

section
variable (hvalues : List.Forall₂ EscapedText (tokens.map payloadOf) values)

include hvalues

theorem concatNarrow_tokens (charBitWidth : Int) :
    concatNarrow (tokens.map fun tok => decodeCStringLiteral (payloadOf tok) charBitWidth) =
      narrowResult charBitWidth values.flatten := by
  have hresults := map_results (fun h => decodeCStringLiteral_text h charBitWidth) hvalues
  rw [List.map_map] at hresults
  rw [← concatNarrow_results, ← hresults]
  rfl

theorem concatWide_tokens (charBitWidth : Int) :
    concatWide (tokens.map fun tok => decodeCStringLiteralWide (payloadOf tok) charBitWidth) =
      wideResult charBitWidth values.flatten := by
  have hresults := map_results (fun h => decodeCStringLiteralWide_text h charBitWidth) hvalues
  rw [List.map_map] at hresults
  rw [← concatWide_results, ← hresults]
  rfl

theorem DecodesJoined.of_values (hencoding : (astLiteralEncoding text).1 = joinedEncoding tokens)
    (hjoined : EscapedText (astLiteralEncoding text).2 values.flatten) : DecodesJoined tokens text where
  encoding := hencoding
  narrow := by
    intro _ charBitWidth
    rw [decodeCStringLiteral_text hjoined, concatNarrow_tokens hvalues]
  wide := by
    intro _ charBitWidth
    rw [decodeCStringLiteralWide_text hjoined, concatWide_tokens hvalues]

end

theorem DecodesJoined.length_eq (h : DecodesJoined tokens text)
    (hvalues : List.Forall₂ EscapedText (tokens.map payloadOf) values)
    (hjoined : EscapedText (astLiteralEncoding text).2 joined) : joined.length = values.flatten.length := by
  by_cases hwide : joinedEncoding tokens = .wide
  · have hresult := h.wide hwide 32
    rw [decodeCStringLiteralWide_text hjoined, concatWide_tokens hvalues] at hresult
    exact congrArg WideLiteralDecode.length hresult
  · have hresult := h.narrow hwide 8
    rw [decodeCStringLiteral_text hjoined, concatNarrow_tokens hvalues] at hresult
    exact congrArg LiteralDecode.length hresult

theorem decodesJoined_iff_separate (hvalues : List.Forall₂ EscapedText (tokens.map payloadOf) values)
    (htext : astLiteralEncoding text = (joinedEncoding tokens, (tokens.map payloadOf).flatten)) :
    DecodesJoined tokens text ↔ separate (tokens.map payloadOf) = true := by
  obtain ⟨joined, hjoined, hsame⟩ := EscapedText.flatten hvalues
  have hpayload : EscapedText (astLiteralEncoding text).2 joined := by
    rw [htext]
    exact hjoined
  constructor
  · intro h
    by_contra hnot
    rw [if_neg hnot] at hsame
    exact absurd (h.length_eq hvalues hpayload) (Nat.ne_of_lt hsame)
  · intro h
    rw [if_pos h] at hsame
    subst hsame
    exact .of_values hvalues (congrArg Prod.fst htext) hpayload

/-- A tag that no literal has changes the encoding or takes characters away. -/
theorem not_decodesJoined_of_tag (hvalues : List.Forall₂ EscapedText (tokens.map payloadOf) values)
    (hencoding : joinedEncoding tokens = .narrow) (htag : HasTag (tokens.map payloadOf).flatten = true) :
    ¬ DecodesJoined tokens (tokens.map payloadOf).flatten := by
  intro h
  have hnarrow := h.encoding
  rw [hencoding] at hnarrow
  obtain ⟨joined, hjoined, hsame⟩ := EscapedText.flatten hvalues
  have hlength : joined.length ≤ values.flatten.length := by
    split_ifs at hsame
    · rw [hsame]
    · exact Nat.le_of_lt hsame
  obtain ⟨rest, htext | htext | htext⟩ := hasTag_cases htag
  · rw [htext] at hjoined h
    cases hjoined with
    | plain _ hfirst =>
      cases hfirst with
      | plain _ hsecond =>
        have hfewer := h.length_eq hvalues hsecond
        simp only [List.length_cons] at hlength
        omega
  all_goals
    rw [htext] at hnarrow
    cases hnarrow

end

theorem exists_values {tokens : List Token} (h : ∀ tok ∈ tokens, LiteralToken tok) :
    ∃ values, List.Forall₂ EscapedText (tokens.map payloadOf) values := by
  induction tokens with
  | nil => exact ⟨[], .nil⟩
  | cons tok tokens ih =>
    obtain ⟨htok, hrest⟩ := List.forall_mem_cons.mp h
    obtain ⟨first, hfirst⟩ := htok.payload
    obtain ⟨rest, hvalues⟩ := ih hrest
    exact ⟨first :: rest, .cons hfirst hvalues⟩

/-- Adjacent literals are joined as they decode one by one exactly when no escape goes on in the texts
behind it and no tag comes about that none of them has. -/
theorem nudStringLiteral_decodes_iff (first : Token) (others stream : List Token)
    (htokens : ∀ tok ∈ first :: others, LiteralToken tok) (hstop : ∀ tok ∈ stream.head?, tok.type ≠ .string) :
    (nudStringLiteral first (others ++ stream)).2 = stream ∧
      (DecodesJoined (first :: others) (nudStringLiteral first (others ++ stream)).1 ↔
        separate ((first :: others).map payloadOf) = true ∧ NoTagJoined (first :: others)) := by
  have hothers : ∀ tok ∈ others, tok.type = .string :=
    fun tok h => (htokens tok (List.mem_cons_of_mem _ h)).type_eq
  have hrun := nudStringPieces_tokens hothers hstop (StringPieces.empty.add (tokenText first).toList)
  obtain ⟨values, hvalues⟩ := exists_values htokens
  have htext : (nudStringLiteral first (others ++ stream)).1 = (addTokens .empty (first :: others)).merged := by
    rw [nudStringLiteral, hrun]
    rfl
  refine ⟨by rw [nudStringLiteral, hrun], ?_⟩
  have hmerged := merged_tokens (first :: others)
  rw [htext]
  generalize first :: others = tokens at *
  split_ifs at hmerged with htagged
  · rw [decodesJoined_iff_separate hvalues hmerged]
    exact (and_iff_left (.inl htagged)).symm
  · obtain ⟨hflat, hencoding⟩ := hmerged
    cases htag : HasTag (tokens.map payloadOf).flatten with
    | false =>
      have hread : astLiteralEncoding (addTokens .empty tokens).merged =
          (joinedEncoding tokens, (tokens.map payloadOf).flatten) := by
        rw [hflat, hencoding]
        exact hasTag_false htag
      rw [decodesJoined_iff_separate hvalues hread]
      exact (and_iff_left (.inr htag)).symm
    | true =>
      rw [hflat]
      refine iff_of_false (not_decodesJoined_of_tag hvalues hencoding htag) ?_
      rintro ⟨-, htag' | htag'⟩
      · exact htagged htag'
      · rw [htag] at htag'
        cases htag'

def literalToken (body : List Char) : Token := (getNextToken (initLexer ('"' :: (body ++ ['"'])) none false)).1

theorem literalToken_of
    (hbytes : (initLexer ('"' :: (body ++ ['"'])) none false).source.all (fun c => decide (c.toNat < 256)) =
      true)
    (hrest : (skipWhitespace (initLexer ('"' :: (body ++ ['"'])) none false)).rest = '"' :: (body ++ ['"']))
    (hscan : stringScan 0 (body ++ ['"']) = (body.length, .closed)) : LiteralToken (literalToken body) := by
  refine ⟨_, .narrow, body, ?_, ⟨[], hrest, hscan⟩, rfl⟩
  intro c hc
  exact of_decide_eq_true (List.all_eq_true.mp hbytes c hc)

/-- `"\\1" "a"` -/
theorem nudStringLiteral_decodes_octal :
    DecodesJoined [literalToken "\\1".toList, literalToken "a".toList]
      (nudStringLiteral (literalToken "\\1".toList) ([literalToken "a".toList] ++ [])).1 := by
  refine (nudStringLiteral_decodes_iff (literalToken "\\1".toList) [literalToken "a".toList] [] ?_ ?_).2.mpr
    ⟨by decide, .inr (by decide)⟩
  · exact List.forall_mem_cons.mpr
      ⟨literalToken_of rfl rfl rfl, List.forall_mem_singleton.mpr (literalToken_of rfl rfl rfl)⟩
  · intro tok htok
    cases htok

/-- `"\\x1" "2"` has one character. -/
theorem hexEscape_goes_on :
    ¬ ∀ (first : Token) (others stream : List Token), (∀ tok ∈ first :: others, LiteralToken tok) →
      (∀ tok ∈ stream.head?, tok.type ≠ .string) →
      DecodesJoined (first :: others) (nudStringLiteral first (others ++ stream)).1 := by
  intro hall
  have hjoined := hall (literalToken "\\x1".toList) [literalToken "2".toList] []
    (List.forall_mem_cons.mpr
      ⟨literalToken_of rfl rfl rfl, List.forall_mem_singleton.mpr (literalToken_of rfl rfl rfl)⟩)
    (by intro tok htok; cases htok)
  have hlength := congrArg LiteralDecode.length (hjoined.narrow (by decide) 8)
  revert hlength
  decide

end Fisics
