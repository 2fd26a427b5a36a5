import Fisics.CodeGen.TypeCache

/-!
# What the text of a type tells

Two types with the same text are the same up to what is not printed: the kind of a
named base, where the pointers stand among the other derivations, the depth of a
pointer that has derivations, the signature of a function pointer beyond its
parameters. So the cache does not show in a run of calls where no two of the types
that are stored differ only in these, and where two scopes in which a type is cached
give it the same meaning.
-/

namespace Fisics

open MemoCall (Calls Called Memoized Shared Transparent)
open List (append_assoc append_cancel_left cons_append mem_cons)

variable {p : Char → Bool} {w text rest rest' : List Char} {d d' : Derivations} {head head' : TypeHead}
  {fpParams : ParamTypes}

-- Words

def Stops (p : Char → Bool) (text : List Char) : Prop := ∀ c rest, text = c :: rest → p c = false

theorem stops_cons (h : p c = false) (rest : List Char) : Stops p (c :: rest) := by
  rintro c' rest' heq
  obtain ⟨rfl, -⟩ := List.cons.inj heq
  exact h

theorem split_at_end (hw : ∀ c ∈ w, p c = true)
    (hw' : ∀ c ∈ w', p c = true) (hs : Stops p s) (hs' : Stops p s') (h : w ++ s = w' ++ s') :
    w = w' ∧ s = s' := by
  have htake : ∀ {w s : List Char}, (∀ c ∈ w, p c = true) → Stops p s → (w ++ s).takeWhile p = w := by
    intro w s hw hs
    rw [List.takeWhile_append_of_pos hw]
    cases s with
    | nil => simp
    | cons c rest => simp [hs c rest rfl]
  have heq : w = w' := by rw [← htake hw hs, ← htake hw' hs', h]
  subst heq
  exact ⟨rfl, append_cancel_left h⟩

def OpensAfterSpace (text : List Char) : Prop :=
  ∀ rest, text = ' ' :: rest → ∃ more, rest = '(' :: more ∨ rest = '[' :: more

structure AfterBase (text : List Char) : Prop where
  stops : Stops isWordChar text
  space : OpensAfterSpace text

theorem afterBase_cons (hword : isWordChar c = false) (hspace : c ≠ ' ') (rest : List Char) :
    AfterBase (c :: rest) := by
  refine ⟨stops_cons hword rest, ?_⟩
  rintro rest' heq
  exact absurd (List.cons.inj heq).1 hspace

theorem afterBase_open (rest : List Char) : AfterBase (' ' :: '(' :: rest) := by
  refine ⟨stops_cons (by decide) _, ?_⟩
  rintro rest' heq
  exact ⟨rest, .inl (List.cons.inj heq).2.symm⟩

theorem afterBase_bracket (rest : List Char) : AfterBase (' ' :: '[' :: rest) := by
  refine ⟨stops_cons (by decide) _, ?_⟩
  rintro rest' heq
  exact ⟨rest, .inr (List.cons.inj heq).2.symm⟩

-- Specifiers

theorem Specifier.word_chars (s : Specifier) : ∀ c ∈ s.word, isWordChar c = true := by
  cases s <;> exact List.all_eq_true.mp (by decide)

theorem Specifier.word_injective {s s' : Specifier} (h : s.word = s'.word) : s = s' := by
  cases s <;> cases s' <;> first | rfl | exact absurd h (by decide)

def StartsBase (text : List Char) : Prop := ∃ c rest, text = c :: rest ∧ c ≠ '(' ∧ c ≠ '['

theorem startsBase_word (hne : w ≠ []) (hw : ∀ c ∈ w, isWordChar c = true)
    (rest : List Char) : StartsBase (w ++ rest) := by
  cases w with
  | nil => exact absurd rfl hne
  | cons c w => ?_
  have hc := hw c List.mem_cons_self
  refine ⟨c, w ++ rest, rfl, ?_, ?_⟩
  all_goals
    rintro rfl
    exact absurd hc (by decide)

def NoSpecifier (text : List Char) : Prop :=
  ∀ (s : Specifier) rest, text = s.word ++ ' ' :: rest → ¬StartsBase rest

theorem startsBase_specifiers (order : List Specifier) (has : Specifier → Bool)
    (h : StartsBase text) : StartsBase (specifiersText order has ++ text) := by
  induction order with
  | nil => exact h
  | cons s order ih =>
    simp only [specifiersText, List.flatMap_cons] at ih ⊢
    split
    · rw [append_assoc, append_assoc]
      exact startsBase_word (by cases s <;> exact nofun) s.word_chars _
    · exact ih

theorem specifiers_no_word (order : List Specifier) (has : Specifier → Bool)
    {s : Specifier} (hs : s ∉ order) (hrest : StartsBase rest) (htext : NoSpecifier text) :
    specifiersText order has ++ text ≠ s.word ++ ' ' :: rest := by
  induction order with
  | nil =>
    intro h
    exact htext s rest h hrest
  | cons s' order ih =>
    obtain ⟨hne, hs⟩ := not_or.mp (mem_cons.not.mp hs)
    simp only [specifiersText, List.flatMap_cons] at ih ⊢
    split
    · intro h
      rw [append_assoc, append_assoc] at h
      obtain ⟨hword, -⟩ := split_at_end s'.word_chars s.word_chars (stops_cons (by decide) _)
          (stops_cons (by decide) _) h
      exact hne (Specifier.word_injective hword).symm
    · exact ih hs

theorem specifiers_decode (hnodup : order.Nodup)
    (hstart : StartsBase text) (hstart' : StartsBase text')
    (hno : NoSpecifier text) (hno' : NoSpecifier text')
    (h : specifiersText order has ++ text = specifiersText order has' ++ text') :
    (∀ s ∈ order, has s = has' s) ∧ text = text' := by
  induction order with
  | nil => exact ⟨nofun, h⟩
  | cons s order ih =>
    obtain ⟨hs, hnodup⟩ := List.nodup_cons.mp hnodup
    have hcons : ∀ has : Specifier → Bool, specifiersText (s :: order) has =
        (if has s then s.word ++ [' '] else []) ++ specifiersText order has := fun has => rfl
    rw [hcons, hcons] at h
    cases hthis : has s with
    | true =>
      cases hthat : has' s with
      | true => ?_
      | false =>
        simp only [hthis, hthat, if_true, Bool.false_eq_true, if_false, append_assoc, List.nil_append] at h
        exact absurd h.symm (specifiers_no_word order has' hs (startsBase_specifiers order has hstart) hno')
      simp only [hthis, hthat, if_true, append_assoc] at h
      have h := append_cancel_left (append_cancel_left h)
      obtain ⟨hrest, htext⟩ := ih hnodup h
      refine ⟨?_, htext⟩
      intro s' hs'
      rcases mem_cons.mp hs' with rfl | hs'
      · rw [hthis, hthat]
      · exact hrest s' hs'
    | false =>
      cases hthat : has' s with
      | true =>
        simp only [hthis, hthat, if_true, Bool.false_eq_true, if_false, append_assoc, List.nil_append] at h
        exact absurd h (specifiers_no_word order has hs (startsBase_specifiers order has' hstart') hno)
      | false => ?_
      simp only [hthis, hthat, Bool.false_eq_true, if_false, List.nil_append] at h
      obtain ⟨hrest, htext⟩ := ih hnodup h
      refine ⟨?_, htext⟩
      intro s' hs'
      rcases mem_cons.mp hs' with rfl | hs'
      · rw [hthis, hthat]
      · exact hrest s' hs'

-- Bases

def BaseKind.unprinted : BaseKind → BaseKind
  | .primitive _ => .primitive .int
  | kind => kind

def unprintedName (kind : BaseKind) (name : Option TypeName) : Option TypeName :=
  match kind with
  | .primitive _ => name
  | _ => none

theorem getTokenTypeName_chars (t : PrimitiveType) :
    getTokenTypeName t ≠ [] ∧ ∀ c ∈ getTokenTypeName t, isWordChar c = true := by
  cases t <;> exact ⟨by decide, List.all_eq_true.mp (by decide)⟩

theorem getTokenTypeName_injective (h : getTokenTypeName t = getTokenTypeName t') :
    t = t' := by
  cases t <;> cases t' <;> first | rfl | exact absurd h (by decide)

theorem TypeName.ext_text {name name' : TypeName} (h : name.text = name'.text) : name = name' := by
  cases name
  cases name'
  cases h
  rfl

theorem name_decode {name name' : Option TypeName} (hrest : AfterBase rest)
    (hrest' : AfterBase rest') (h : nameText name ++ rest = nameText name' ++ rest') :
    name = name' ∧ rest = rest' := by
  have hanon : ∀ {name : TypeName} {rest rest' : List Char},
      nameText none ++ rest ≠ nameText (some name) ++ rest' := by
    intro name rest rest' h
    obtain ⟨c, text, htext⟩ := List.exists_cons_of_ne_nil name.nonempty
    have hc := name.word c (by rw [htext]; exact List.mem_cons_self)
    simp only [nameText, htext, anonText, cons_append] at h
    obtain ⟨rfl, -⟩ := List.cons.inj h
    exact absurd hc (by decide)
  cases name with
  | none =>
    cases name' with
    | none => exact ⟨rfl, append_cancel_left h⟩
    | some name' => exact absurd h hanon
  | some name => ?_
  cases name' with
  | none => exact absurd h.symm hanon
  | some name' =>
    obtain ⟨htext, hrest⟩ := split_at_end name.word name'.word hrest.stops hrest'.stops h
    exact ⟨congrArg some (TypeName.ext_text htext), hrest⟩

theorem base_decode
    (hkind : kind.unprinted = kind'.unprinted) (hname : unprintedName kind name = unprintedName kind' name')
    (hrest : AfterBase rest) (hrest' : AfterBase rest')
    (h : baseText kind name ++ rest = baseText kind' name' ++ rest') :
    kind = kind' ∧ name = name' ∧ rest = rest' := by
  cases kind with
  | primitive t =>
    cases kind' with
    | primitive t' =>
      obtain ⟨htext, hrest⟩ := split_at_end (getTokenTypeName_chars t).2 (getTokenTypeName_chars t').2
        hrest.stops hrest'.stops h
      exact ⟨congrArg _ (getTokenTypeName_injective htext), hname, hrest⟩
    | _ => cases hkind
  | struct =>
    cases kind' with
    | struct =>
      simp only [baseText, append_assoc, cons_append] at h
      obtain ⟨hname, hrest⟩ := name_decode hrest hrest' (List.cons.inj (append_cancel_left h)).2
      exact ⟨rfl, hname, hrest⟩
    | _ => cases hkind
  | union =>
    cases kind' with
    | union =>
      simp only [baseText, append_assoc, cons_append] at h
      obtain ⟨hname, hrest⟩ := name_decode hrest hrest' (List.cons.inj (append_cancel_left h)).2
      exact ⟨rfl, hname, hrest⟩
    | _ => cases hkind
  | enum =>
    cases kind' with
    | enum => exact ⟨rfl, name_decode hrest hrest' h⟩
    | _ => cases hkind
  | named =>
    cases kind' with
    | named => exact ⟨rfl, name_decode hrest hrest' h⟩
    | _ => cases hkind
  | invalid =>
    cases kind' with
    | invalid => exact ⟨rfl, name_decode hrest hrest' h⟩
    | _ => cases hkind

theorem noSpecifier_word (hw : ∀ c ∈ w, isWordChar c = true) (hrest : AfterBase rest) :
    NoSpecifier (w ++ rest) := by
  rintro s more h ⟨c, text, rfl, hparen, hbracket⟩
  obtain ⟨-, rfl⟩ := split_at_end hw s.word_chars hrest.stops (stops_cons (by decide) _) h
  obtain ⟨more', hopen | hopen⟩ := hrest.space _ rfl
  · exact hparen (List.cons.inj hopen).1
  · exact hbracket (List.cons.inj hopen).1

theorem noSpecifier_tag (hw : ∀ c ∈ w, isWordChar c = true)
    (hne : ∀ s : Specifier, w ≠ s.word) (rest : List Char) : NoSpecifier (w ++ ' ' :: rest) := by
  rintro s more h
  obtain ⟨hword, -⟩ := split_at_end hw s.word_chars (stops_cons (by decide) _) (stops_cons (by decide) _) h
  exact absurd hword (hne s)

theorem noSpecifier_name (name : Option TypeName) (hrest : AfterBase rest) :
    NoSpecifier (nameText name ++ rest) := by
  cases name with
  | some name => exact noSpecifier_word name.word hrest
  | none =>
    rintro s more h
    cases s <;> exact absurd (List.cons.inj h).1 (by decide)

theorem noSpecifier_base (kind : BaseKind) (name : Option TypeName)
    (hrest : AfterBase rest) : NoSpecifier (baseText kind name ++ rest) := by
  cases kind with
  | primitive t => exact noSpecifier_word (getTokenTypeName_chars t).2 hrest
  | struct | union =>
    rw [baseText, append_assoc]
    exact noSpecifier_tag (List.all_eq_true.mp (by decide)) (by intro s; cases s <;> decide) _
  | enum | named | invalid => exact noSpecifier_name name hrest

theorem startsBase_name (name : Option TypeName) (rest : List Char) : StartsBase (nameText name ++ rest) := by
  cases name with
  | some name => exact startsBase_word name.nonempty name.word rest
  | none => exact ⟨'<', _, rfl, by decide, by decide⟩

theorem startsBase_base (kind : BaseKind) (name : Option TypeName) (rest : List Char) :
    StartsBase (baseText kind name ++ rest) := by
  cases kind with
  | primitive t => exact startsBase_word (getTokenTypeName_chars t).1 (getTokenTypeName_chars t).2 rest
  | struct => exact ⟨'s', _, rfl, by decide, by decide⟩
  | union => exact ⟨'u', _, rfl, by decide, by decide⟩
  | enum | named | invalid => exact startsBase_name name rest

-- Pointers and arrays

theorem word_decode {b b' : Bool}
    (hrest : ∀ more, rest ≠ ' ' :: w ++ more) (hrest' : ∀ more, rest' ≠ ' ' :: w ++ more)
    (h : (if b then ' ' :: w else []) ++ rest = (if b' then ' ' :: w else []) ++ rest') :
    b = b' ∧ rest = rest' := by
  cases b with
  | true =>
    cases b' with
    | true => exact ⟨rfl, append_cancel_left h⟩
    | false => exact absurd h.symm (hrest' rest)
  | false =>
    cases b' with
    | true => exact absurd h (hrest rest')
    | false => exact ⟨rfl, h⟩

theorem OpensAfterSpace.not_word (h : OpensAfterSpace text) (hc : isWordChar c = true)
    (w more : List Char) : text ≠ ' ' :: (c :: w) ++ more := by
  rintro rfl
  obtain ⟨rest, hopen | hopen⟩ := h _ rfl
  all_goals
    obtain ⟨rfl, -⟩ := List.cons.inj hopen
    exact absurd hc (by decide)

theorem star_decode {q q' : PointerQualifiers} (hrest : OpensAfterSpace rest)
    (hrest' : OpensAfterSpace rest') (h : starText q ++ rest = starText q' ++ rest') :
    q = q' ∧ rest = rest' := by
  obtain ⟨isConst, isVolatile, isRestrict⟩ := q
  obtain ⟨isConst', isVolatile', isRestrict'⟩ := q'
  simp only [starText, cons_append, append_assoc] at h
  have hwords := (List.cons.inj h).2
  have hvolatile : ∀ {b b' : Bool} {rest : List Char}, OpensAfterSpace rest → ∀ more,
      (if b then ' ' :: Specifier.volatile.word else []) ++
        ((if b' then ' ' :: Specifier.restrict.word else []) ++ rest) ≠
      ' ' :: Specifier.const.word ++ more := by
    intro b b' rest hrest more
    cases b with
    | true => simp [Specifier.word]
    | false =>
      cases b' with
      | true => simp [Specifier.word]
      | false => exact hrest.not_word (by decide) _ more
  have hrestrict : ∀ {b : Bool} {rest : List Char}, OpensAfterSpace rest → ∀ more,
      (if b then ' ' :: Specifier.restrict.word else []) ++ rest ≠
        ' ' :: Specifier.volatile.word ++ more := by
    intro b rest hrest more
    cases b with
    | true => simp [Specifier.word]
    | false => exact hrest.not_word (by decide) _ more
  obtain ⟨hc, hwords⟩ := word_decode (hvolatile hrest) (hvolatile hrest') hwords
  obtain ⟨hv, hwords⟩ := word_decode (hrestrict hrest) (hrestrict hrest') hwords
  obtain ⟨hr, hwords⟩ := word_decode (hrest.not_word (by decide) _) (hrest'.not_word (by decide) _) hwords
  exact ⟨by rw [hc, hv, hr], hwords⟩

theorem decimalText_chars (n : Int) : ∀ c ∈ decimalText n, (c != ']') = true := by
  have hdigits : ∀ n, ∀ c ∈ Nat.toDigits 10 n, (c != ']') = true := by
    intro n c hc
    have hdigit := Nat.isDigit_of_mem_toDigits (by decide) (by decide) hc
    rw [bne_iff_ne]
    rintro rfl
    exact absurd hdigit (by decide)
  cases n with
  | ofNat n => exact hdigits n
  | negSucc n => ?_
  intro c hc
  rcases mem_cons.mp hc with rfl | hc
  · decide
  · exact hdigits (n + 1) c hc

theorem toDigits_injective (h : Nat.toDigits 10 n = Nat.toDigits 10 n') : n = n' := by
  have hread := congrArg (Nat.ofDigitChars 10 · 0) h
  simpa using hread

theorem decimalText_injective (h : decimalText n = decimalText n') : n = n' := by
  have hminus : ∀ {n : Nat} {rest : List Char}, Nat.toDigits 10 n ≠ '-' :: rest := by
    intro n rest h
    have hdigit := Nat.isDigit_of_mem_toDigits (b := 10) (n := n) (c := '-') (by decide) (by decide)
      (by rw [h]; exact List.mem_cons_self)
    exact absurd hdigit (by decide)
  cases n with
  | ofNat n =>
    cases n' with
    | ofNat n' => exact congrArg _ (toDigits_injective h)
    | negSucc n' => exact absurd h hminus
  | negSucc n => ?_
  cases n' with
  | ofNat n' => exact absurd h.symm hminus
  | negSucc n' =>
    have hsucc := toDigits_injective (List.cons.inj h).2
    exact congrArg _ (Nat.succ.inj hsucc)

/-- An array up to the length that its text tells. -/
def ParsedArrayInfo.unprinted (info : ParsedArrayInfo) : ParsedArrayInfo :=
  if info.isVLA || info.isFlexible then info
  else { info with constantSize := info.constantSize.map fun _ => 0 }

theorem ParsedArrayInfo.unprinted_flags (info : ParsedArrayInfo) :
    info.unprinted.sizeExpr = info.sizeExpr ∧ info.unprinted.isVLA = info.isVLA ∧
      info.unprinted.isFlexible = info.isFlexible := by
  unfold unprinted
  split <;> exact ⟨rfl, rfl, rfl⟩

theorem array_decode (hinfo : info.unprinted = info'.unprinted)
    (h : arrayText info ++ rest = arrayText info' ++ rest') : info = info' ∧ rest = rest' := by
  have hsame : info = info' → info = info' ∧ rest = rest' := by
    rintro rfl
    exact ⟨rfl, append_cancel_left h⟩
  have hflags := info.unprinted_flags
  rw [hinfo] at hflags
  obtain ⟨hsizeExpr, hVLA, hflexible⟩ := hflags
  rw [info'.unprinted_flags.1] at hsizeExpr
  rw [info'.unprinted_flags.2.1] at hVLA
  rw [info'.unprinted_flags.2.2] at hflexible
  obtain ⟨sizeExpr, isVLA, isFlexible, constantSize⟩ := info
  obtain ⟨sizeExpr', isVLA', isFlexible', constantSize'⟩ := info'
  subst hsizeExpr hVLA hflexible
  cases hopen : isVLA' || isFlexible' with
  | true =>
    simp only [ParsedArrayInfo.unprinted, hopen, if_true] at hinfo
    exact hsame hinfo
  | false => ?_
  obtain ⟨rfl, rfl⟩ := Bool.or_eq_false_iff.mp hopen
  have hsize : constantSize.map (fun _ => (0 : Int)) = constantSize'.map fun _ => 0 :=
    congrArg ParsedArrayInfo.constantSize hinfo
  cases constantSize with
  | none =>
    cases constantSize' with
    | none => exact hsame rfl
    | some size' => cases hsize
  | some size => ?_
  cases constantSize' with
  | none => cases hsize
  | some size' => ?_
  simp only [arrayText, Bool.false_eq_true, if_false, append_assoc] at h
  obtain ⟨htext, -⟩ := split_at_end (decimalText_chars size) (decimalText_chars size')
    (stops_cons (by decide) _) (stops_cons (by decide) _) (append_cancel_left h)
  rw [decimalText_injective htext] at hsame ⊢
  exact hsame rfl

-- Types

def TypeHead.unprinted (head : TypeHead) : TypeHead :=
  { head with
    kind := head.kind.unprinted
    name := unprintedName head.kind head.name
    has := fun _ => false }

mutual

/-- What the text of a type does not tell. Of a function pointer the signature is
kept, since its text has only one of the two places it is recorded in. -/
def ParsedType.unprinted : ParsedType → ParsedType
  | .mk head derivations fpParams =>
    .mk head.unprinted (derivations.unprinted head.isFunctionPointer) fpParams

def Derivations.unprinted (isFunctionPointer : Bool) : Derivations → Derivations
  | .nil => .nil
  | .pointer _ rest => .pointer ⟨false, false, false⟩ (rest.unprinted isFunctionPointer)
  | .array info rest => .array info.unprinted (rest.unprinted isFunctionPointer)
  | .function flags params rest =>
    .function flags (if isFunctionPointer then params else params.unprinted)
      (rest.unprinted isFunctionPointer)

def ParamTypes.unprinted : ParamTypes → ParamTypes
  | .nil => .nil
  | .cons param rest => .cons param.unprinted rest.unprinted

end

def Derivations.qualifiers : Derivations → List PointerQualifiers
  | .nil => []
  | .pointer q rest => q :: rest.qualifiers
  | .array _ rest | .function _ _ rest => rest.qualifiers

def Derivations.unqualified : Derivations → Derivations
  | .nil => .nil
  | .pointer _ rest => .pointer ⟨false, false, false⟩ rest.unqualified
  | .array info rest => .array info rest.unqualified
  | .function flags params rest => .function flags params rest.unqualified

theorem derivations_ext : ∀ (d d' : Derivations), d.unqualified = d'.unqualified →
    d.qualifiers = d'.qualifiers → d = d'
  | .nil, .nil, _, _ => rfl
  | .pointer q rest, .pointer q' rest', h, hq => by
    obtain ⟨hhead, htail⟩ := List.cons.inj hq
    rw [hhead, derivations_ext rest rest' (Derivations.pointer.inj h).2 htail]
  | .array info rest, .array info' rest', h, hq => by
    obtain ⟨hinfo, hrest⟩ := Derivations.array.inj h
    rw [hinfo, derivations_ext rest rest' hrest hq]
  | .function flags params rest, .function flags' params' rest', h, hq => by
    obtain ⟨hflags, hparams, hrest⟩ := Derivations.function.inj h
    rw [hflags, hparams, derivations_ext rest rest' hrest hq]

theorem stars_eq : ∀ d : Derivations, d.stars = d.qualifiers.reverse.flatMap starText
  | .nil => rfl
  | .pointer q rest => by simp [Derivations.stars, Derivations.qualifiers, stars_eq rest]
  | .array _ rest => stars_eq rest
  | .function _ _ rest => stars_eq rest

theorem qualifiers_length : ∀ d : Derivations, d.qualifiers.length = d.pointerCount
  | .nil => rfl
  | .pointer _ rest => congrArg (· + 1) (qualifiers_length rest)
  | .array _ rest => qualifiers_length rest
  | .function _ _ rest => qualifiers_length rest

theorem unprinted_pointerCount (b : Bool) : ∀ d : Derivations, (d.unprinted b).pointerCount = d.pointerCount
  | .nil => rfl
  | .pointer _ rest => congrArg (· + 1) (unprinted_pointerCount b rest)
  | .array _ rest => unprinted_pointerCount b rest
  | .function _ _ rest => unprinted_pointerCount b rest

theorem opensAfterSpace_stars (h : OpensAfterSpace rest)
    (qs : List PointerQualifiers) : OpensAfterSpace (qs.flatMap starText ++ rest) := by
  cases qs with
  | nil => exact h
  | cons q qs =>
    rintro more heq
    exact absurd (List.cons.inj heq).1 (by decide)

theorem starList_decode {qs qs' : List PointerQualifiers}
    (hlength : qs.length = qs'.length) (hrest : OpensAfterSpace rest) (hrest' : OpensAfterSpace rest')
    (h : qs.flatMap starText ++ rest = qs'.flatMap starText ++ rest') : qs = qs' ∧ rest = rest' := by
  induction qs generalizing qs' with
  | nil =>
    obtain rfl := List.length_eq_zero_iff.mp hlength.symm
    exact ⟨rfl, h⟩
  | cons q qs ih =>
    cases qs' with
    | nil => cases hlength
    | cons q' qs' => ?_
    simp only [List.flatMap_cons, append_assoc] at h
    obtain ⟨hq, hmore⟩ := star_decode (opensAfterSpace_stars hrest qs) (opensAfterSpace_stars hrest' qs') h
    obtain ⟨hqs, hmore⟩ := ih (Nat.succ.inj hlength) hmore
    exact ⟨by rw [hq, hqs], hmore⟩

theorem starsText_decode {n : Nat}
    (hcount : d.pointerCount = d'.pointerCount) (hrest : OpensAfterSpace rest)
    (hrest' : OpensAfterSpace rest') (h : starsText d n ++ rest = starsText d' n ++ rest') :
    d.qualifiers = d'.qualifiers ∧ rest = rest' := by
  have hlength : d.qualifiers.length = d'.qualifiers.length := by
    rw [qualifiers_length, qualifiers_length, hcount]
  unfold starsText at h
  rw [hcount] at h
  split at h
  · rename_i hzero
    have hnil : ∀ {d : Derivations}, d.pointerCount = 0 → d.qualifiers = [] := by
      intro d hd
      rw [← List.length_eq_zero_iff, qualifiers_length, hd]
    exact ⟨by rw [hnil (hcount.trans hzero), hnil hzero], append_cancel_left h⟩
  · rw [stars_eq, stars_eq] at h
    obtain ⟨hqs, hrest⟩ := starList_decode (by simpa using hlength) hrest hrest' h
    exact ⟨List.reverse_injective hqs, hrest⟩

theorem signature_decode : ∀ (d d' : Derivations), d.unprinted true = d'.unprinted true →
    appendSignature d = appendSignature d'
  | .nil, .nil, _ => rfl
  | .pointer q rest, .pointer q' rest', h => by
    rw [appendSignature, appendSignature, signature_decode rest rest' (Derivations.pointer.inj h).2]
  | .array info rest, .array info' rest', h => by
    rw [appendSignature, appendSignature, signature_decode rest rest' (Derivations.array.inj h).2]
  | .function flags params rest, .function flags' params' rest', h => by
    obtain ⟨hflags, hparams, -⟩ := Derivations.function.inj h
    have hparams : params = params' := hparams
    rw [appendSignature, appendSignature, hflags, hparams]

def AfterType (text : List Char) : Prop :=
  text = [] ∨ (∃ rest, text = ',' :: rest) ∨ ∃ rest, text = ')' :: rest

theorem AfterType.afterBase (h : AfterType text) : AfterBase text := by
  rcases h with rfl | ⟨rest, rfl⟩ | ⟨rest, rfl⟩
  · exact ⟨nofun, nofun⟩
  all_goals exact afterBase_cons (by decide) (by decide) rest

theorem afterBase_derivations (b : Bool) (h : AfterType rest) :
    ∀ d : Derivations, AfterBase (appendDerivations b d ++ rest)
  | .nil => h.afterBase
  | .pointer q more => by
    exact afterBase_derivations b h more
  | .array info more => by
    exact afterBase_bracket _
  | .function flags params more => by
    cases b with
    | true => exact afterBase_derivations true h more
    | false => exact afterBase_open _

theorem head_ext (hkind : head.kind = head'.kind) (hname : head.name = head'.name)
    (hhas : head.has = head'.has) (h : head.unprinted = head'.unprinted) : head = head' := by
  obtain ⟨kind, name, has, isFunctionPointer, pointerDepth, inlineDefinition, isVLA, isAdorned⟩ := head
  obtain ⟨kind', name', has', isFunctionPointer', pointerDepth', inlineDefinition', isVLA', isAdorned'⟩ :=
    head'
  subst hkind hname hhas
  simpa [TypeHead.unprinted] using h

theorem unprinted_pointers (h : head.unprinted = head'.unprinted) :
    head.isFunctionPointer = head'.isFunctionPointer ∧ head.pointerDepth = head'.pointerDepth := by
  simp only [TypeHead.unprinted, TypeHead.mk.injEq] at h
  exact ⟨h.2.2.2.1, h.2.2.2.2.1⟩

def pointersText (head : TypeHead) (derivations : Derivations) (fpParams : ParamTypes) : List Char :=
  if head.isFunctionPointer then
    [' ', '('] ++ (starsText derivations (max 1 head.pointerDepth) ++ ([')', '('] ++
      ((if fpParams.isEmpty then appendSignature derivations else appendParams fpParams) ++ [')'])))
  else starsText derivations head.pointerDepth

theorem pointers_decode (hhead : head.unprinted = head'.unprinted)
    (hd : d.unprinted head.isFunctionPointer = d'.unprinted head.isFunctionPointer)
    (hrest : AfterBase rest) (hrest' : AfterBase rest')
    (h : pointersText head d fpParams ++ rest = pointersText head' d' fpParams ++ rest') :
    d.qualifiers = d'.qualifiers ∧ rest = rest' := by
  obtain ⟨hfp, hdepth⟩ := unprinted_pointers hhead
  have hcount : d.pointerCount = d'.pointerCount := by
    rw [← unprinted_pointerCount head.isFunctionPointer d, hd, unprinted_pointerCount]
  unfold pointersText at h
  rw [← hfp, ← hdepth] at h
  cases hcase : head.isFunctionPointer with
  | false =>
    simp only [hcase, Bool.false_eq_true, if_false] at h
    exact starsText_decode hcount hrest.space hrest'.space h
  | true => ?_
  rw [hcase] at hd
  simp only [hcase, if_true, signature_decode d d' hd, append_assoc] at h
  have hclose : ∀ text : List Char, OpensAfterSpace ([')', '('] ++ text) := by
    rintro text more heq
    exact absurd (List.cons.inj heq).1 (by decide)
  obtain ⟨hqualifiers, htext⟩ := starsText_decode hcount (hclose _) (hclose _) (append_cancel_left h)
  refine ⟨hqualifiers, ?_⟩
  have htext := append_cancel_left (append_cancel_left htext)
  exact append_cancel_left htext

theorem afterBase_pointers (hrest : AfterBase rest) : AfterBase (pointersText head d fpParams ++ rest) := by
  unfold pointersText
  split
  · exact afterBase_open _
  unfold starsText
  split
  · cases head.pointerDepth with
    | zero => exact hrest
    | succ n => exact afterBase_cons (by decide) (by decide) _
  rw [stars_eq]
  cases d.qualifiers.reverse with
  | nil => exact hrest
  | cons q qs => exact afterBase_cons (by decide) (by decide) _

theorem head_decode
    (hhead : head.unprinted = head'.unprinted) (hrest : AfterBase rest) (hrest' : AfterBase rest')
    (h : specifiersText Specifier.order head.has ++ (baseText head.kind head.name ++ rest) =
      specifiersText Specifier.order head'.has ++ (baseText head'.kind head'.name ++ rest')) :
    head = head' ∧ rest = rest' := by
  obtain ⟨hhas, htext⟩ := specifiers_decode (by decide) (startsBase_base _ _ _) (startsBase_base _ _ _)
    (noSpecifier_base _ _ hrest) (noSpecifier_base _ _ hrest') h
  obtain ⟨hkind, hname, hmore⟩ := base_decode (congrArg TypeHead.kind hhead)
    (congrArg TypeHead.name hhead) hrest hrest' htext
  refine ⟨head_ext hkind hname ?_ hhead, hmore⟩
  funext s
  exact hhas s (by cases s <;> decide)

def closeText (flags : FunctionFlags) (params : ParamTypes) : List Char :=
  (if flags.isVariadic then (if params.isEmpty then [] else commaText) ++ dotsText else []) ++ [')']

theorem function_text (flags : FunctionFlags) (params : ParamTypes) (d : Derivations) (rest : List Char) :
    appendDerivations false (.function flags params d) ++ rest =
      [' ', '('] ++ (emptyParamsText (flags.hasPrototype && params.isEmpty && !flags.isVariadic) ++
        (appendParams params ++ (closeText flags params ++ (appendDerivations false d ++ rest)))) := by
  simp [appendDerivations, closeText]

theorem afterType_close (flags : FunctionFlags) (param : ParsedType) (params : ParamTypes)
    (rest : List Char) : AfterType (closeText flags (.cons param params) ++ rest) := by
  unfold closeText
  split
  · exact .inr (.inl ⟨_, rfl⟩)
  · exact .inr (.inr ⟨_, rfl⟩)

theorem afterType_moreParams (h : AfterType rest) :
    ∀ ps : ParamTypes, AfterType (appendMoreParams ps ++ rest)
  | .nil => h
  | .cons param ps => .inr (.inl ⟨_, by rw [appendMoreParams]; rfl⟩)

mutual

/-- Types that differ in nothing that is not printed are told apart by their text. -/
theorem parsedType_decode : ∀ (t t' : ParsedType) {rest rest' : List Char},
    t.unprinted = t'.unprinted → AfterType rest → AfterType rest' →
    appendParsedType t ++ rest = appendParsedType t' ++ rest' → t = t' ∧ rest = rest'
  | .mk head d fpParams, .mk head' d' fpParams', rest, rest', hsame, hrest, hrest', h => by
    obtain ⟨hhead, hd, hparams⟩ := ParsedType.mk.inj hsame
    have hfp := (unprinted_pointers hhead).1
    rw [← hfp] at hd
    subst hparams
    have hafter := afterBase_derivations head.isFunctionPointer hrest d
    have hafter' := afterBase_derivations head.isFunctionPointer hrest' d'
    have htext : ∀ (head : TypeHead) (d : Derivations) (rest : List Char),
        appendParsedType (.mk head d fpParams) ++ rest =
          specifiersText Specifier.order head.has ++ (baseText head.kind head.name ++
            (pointersText head d fpParams ++ (appendDerivations head.isFunctionPointer d ++ rest))) := by
      intro head d rest
      rw [appendParsedType, append_assoc, append_assoc, append_assoc]
      rfl
    rw [htext, htext, ← hfp] at h
    obtain ⟨hhead', hpointers⟩ := head_decode hhead (afterBase_pointers hafter) (afterBase_pointers hafter') h
    obtain ⟨hqualifiers, hderivations⟩ := pointers_decode hhead hd hafter hafter' hpointers
    obtain ⟨hunqualified, hmore⟩ :=
      derivations_decode head.isFunctionPointer d d' hd hrest hrest' hderivations
    refine ⟨?_, hmore⟩
    rw [hhead', derivations_ext d d' hunqualified hqualifiers]

theorem derivations_decode (b : Bool) : ∀ (d d' : Derivations) {rest rest' : List Char},
    d.unprinted b = d'.unprinted b → AfterType rest → AfterType rest' →
    appendDerivations b d ++ rest = appendDerivations b d' ++ rest' →
    d.unqualified = d'.unqualified ∧ rest = rest'
  | .nil, .nil, rest, rest', _, _, _, h => ⟨rfl, h⟩
  | .pointer q d, .pointer q' d', rest, rest', hsame, hrest, hrest', h => by
    obtain ⟨hd, hmore⟩ := derivations_decode b d d' (Derivations.pointer.inj hsame).2 hrest hrest' h
    refine ⟨?_, hmore⟩
    rw [Derivations.unqualified, Derivations.unqualified, hd]
  | .array info d, .array info' d', rest, rest', hsame, hrest, hrest', h => by
    obtain ⟨hinfo, hsame⟩ := Derivations.array.inj hsame
    rw [appendDerivations, appendDerivations, append_assoc, append_assoc] at h
    obtain ⟨hinfo, htext⟩ := array_decode hinfo h
    obtain ⟨hd, hmore⟩ := derivations_decode b d d' hsame hrest hrest' htext
    refine ⟨?_, hmore⟩
    rw [Derivations.unqualified, Derivations.unqualified, hinfo, hd]
  | .function flags params d, .function flags' params' d', rest, rest', hsame, hrest, hrest', h => by
    obtain ⟨rfl, hparams, hrest_same⟩ := Derivations.function.inj hsame
    cases b with
    | true =>
      have hparams : params = params' := hparams
      obtain ⟨hd, hmore⟩ := derivations_decode true d d' hrest_same hrest hrest' h
      refine ⟨?_, hmore⟩
      rw [Derivations.unqualified, Derivations.unqualified, hparams, hd]
    | false =>
      rw [function_text, function_text] at h
      have hboth : params = params' ∧
          appendDerivations false d ++ rest = appendDerivations false d' ++ rest' := by
        cases params with
        | nil =>
          cases params' with
          | nil => exact ⟨rfl, by simpa using h⟩
          | cons param' params' => cases hparams
        | cons param params => ?_
        cases params' with
        | nil => cases hparams
        | cons param' params' => ?_
        obtain ⟨heq, htext⟩ := moreParams_decode (.cons param params) (.cons param' params') hparams
          (afterType_close flags param params _) (afterType_close flags param' params' _)
          (by simpa [appendParams, appendMoreParams, emptyParamsText, ParamTypes.isEmpty] using h)
        exact ⟨heq, append_cancel_left htext⟩
      obtain ⟨hd, hmore⟩ := derivations_decode false d d' hrest_same hrest hrest' hboth.2
      refine ⟨?_, hmore⟩
      rw [Derivations.unqualified, Derivations.unqualified, hboth.1, hd]

theorem moreParams_decode : ∀ (ps ps' : ParamTypes) {rest rest' : List Char},
    ps.unprinted = ps'.unprinted → AfterType rest → AfterType rest' →
    appendMoreParams ps ++ rest = appendMoreParams ps' ++ rest' → ps = ps' ∧ rest = rest'
  | .nil, .nil, rest, rest', _, _, _, h => ⟨rfl, h⟩
  | .cons param ps, .cons param' ps', rest, rest', hsame, hrest, hrest', h => by
    obtain ⟨hparam, hsame⟩ := ParamTypes.cons.inj hsame
    simp only [appendMoreParams, append_assoc] at h
    obtain ⟨hparam, htext⟩ := parsedType_decode param param' hparam
      (afterType_moreParams hrest ps) (afterType_moreParams hrest' ps') (append_cancel_left h)
    obtain ⟨hps, hmore⟩ := moreParams_decode ps ps' hsame hrest hrest' htext
    exact ⟨by rw [hparam, hps], hmore⟩

end

theorem text_determines {t t' : ParsedType} (hsame : t.unprinted = t'.unprinted)
    (h : parsedTypeToString t = parsedTypeToString t') : t = t' :=
  (parsedType_decode t t' hsame (.inl rfl) (.inl rfl) (by rw [List.append_nil, List.append_nil]; exact h)).1

-- Scopes

def ParamTypes.mem (p : ParsedType) : ParamTypes → Prop
  | .nil => False
  | .cons param rest => p = param ∨ rest.mem p

def Derivations.hasParam (p : ParsedType) : Derivations → Prop
  | .nil => False
  | .pointer _ rest | .array _ rest => rest.hasParam p
  | .function _ params rest => params.mem p ∨ rest.hasParam p

def ParsedType.hasParam : ParsedType → ParsedType → Prop
  | .mk _ derivations fpParams, p => derivations.hasParam p ∨ fpParams.mem p

/-- What a typedef name stands for: the scope comes before the file. -/
def TypeEnv.aliased (env : TypeEnv) (name : TypeName) : Option ParsedType :=
  (env.lookupTypedef name).or (env.typedefs name)

/-- The definition that a scope has for a name: a tag's, or that of a typedef of the same kind. -/
def TypeEnv.scopedDefinition (env : TypeEnv) (kind : BaseKind) (name : TypeName) : Option Nat :=
  (env.lookupTag name (isUnionKind kind)).or <| (env.lookupTypedef name).bind fun target =>
    if isRecordKind kind ∧ target.head.kind = kind then target.head.inlineDefinition else none

/-- What is looked up for a type, itself and its parameters, is the same in two
contexts of one file. -/
structure SameLookups (env env' : TypeEnv) (t : ParsedType) : Prop where
  definitionType : env.definitionType = env'.definitionType
  recordType : env.recordType = env'.recordType
  constEvalInteger : env.constEvalInteger = env'.constEvalInteger
  longDoubleBits : env.longDoubleBits = env'.longDoubleBits
  aliased : ∀ name, t.head.kind = .named → t.head.name = some name → env.aliased name = env'.aliased name
  definition : ∀ name, isRecordKind t.head.kind = true ∨ t.head.kind = .named ∧ env.aliased name = none →
    t.head.name = some name → env.scopedDefinition t.head.kind name = env'.scopedDefinition t.head.kind name
  prepareParameter : ∀ p, t.hasParam p → env.prepareParameter p = env'.prepareParameter p
  passParameter : ∀ p, t.hasParam p →
    env.passParameter (env.prepareParameter p) = env'.passParameter (env.prepareParameter p)

theorem SameLookups.refl (env : TypeEnv) (t : ParsedType) : SameLookups env env t :=
  ⟨rfl, rfl, rfl, rfl, fun _ _ _ => rfl, fun _ _ _ => rfl, fun _ _ => rfl, fun _ _ => rfl⟩

theorem structOrUnionType_eq (env : TypeEnv) (head : TypeHead) :
    structOrUnionType env head =
      match head.inlineDefinition, head.name with
      | some id, _ => env.definitionType id
      | none, none => .ptr (.int 8)
      | none, some name =>
        match env.scopedDefinition head.kind name with
        | some id => env.definitionType id
        | none => env.recordType name := by
  unfold structOrUnionType TypeEnv.scopedDefinition
  cases head.inlineDefinition with
  | some id => rfl
  | none => ?_
  cases head.name with
  | none => rfl
  | some name => ?_
  dsimp only
  cases env.lookupTag name (isUnionKind head.kind) with
  | some id => rfl
  | none => ?_
  cases env.lookupTypedef name with
  | none => rfl
  | some target => ?_
  have hkind : ((head.kind = .struct ∨ head.kind = .union) ∧ target.head.kind = head.kind) ↔
      isRecordKind head.kind ∧ target.head.kind = head.kind := by simp [isRecordKind]
  simp only [hkind, Option.none_or, Option.bind_some]
  split <;> split <;> simp_all

section
variable {env env' : TypeEnv} {t : ParsedType}

theorem SameLookups.lowerParams (h : SameLookups env env' t) : ∀ ps : ParamTypes,
    (∀ p, ps.mem p → t.hasParam p) → lowerParams env ps = lowerParams env' ps
  | .nil, _ => rfl
  | .cons param rest, hps => by
    have hparam := hps param (.inl rfl)
    rw [Fisics.lowerParams, Fisics.lowerParams, h.lowerParams rest fun p hp => hps p (.inr hp),
      cgLowerParameterType, cgLowerParameterType]
    rw [h.passParameter param hparam, h.prepareParameter param hparam]

theorem SameLookups.structOrUnionType (h : SameLookups env env' t)
    (hkind : ∀ name, t.head.name = some name →
      isRecordKind t.head.kind = true ∨ t.head.kind = .named ∧ env.aliased name = none) :
    structOrUnionType env t.head = structOrUnionType env' t.head := by
  rw [structOrUnionType_eq, structOrUnionType_eq, h.definitionType, h.recordType]
  cases t.head.inlineDefinition with
  | some id => rfl
  | none => ?_
  cases hname : t.head.name with
  | none => rfl
  | some name =>
    dsimp only
    rw [h.definition name (hkind name hname) hname]

theorem SameLookups.baseType (h : SameLookups env env' t) : baseType env t.head = baseType env' t.head := by
  unfold Fisics.baseType
  have hrecord (hk : isRecordKind t.head.kind = true) := h.structOrUnionType fun _ _ => .inl hk
  cases hkind : t.head.kind with
  | primitive p =>
    unfold primitiveType longDoubleType
    rw [h.longDoubleBits]
  | struct | union => exact congrArg _ (hrecord (by rw [hkind]; rfl))
  | named =>
    unfold namedAliasType
    cases hname : t.head.name with
    | none => rfl
    | some name => ?_
    have halias := h.aliased name hkind hname
    have hnone (hn : env.aliased name = none) := h.structOrUnionType fun name' hname' =>
      .inr ⟨hkind, (Option.some.inj (hname.symm.trans hname')) ▸ hn⟩
    unfold TypeEnv.aliased at halias hnone
    dsimp only
    rw [← halias]
    cases hfound : (env.lookupTypedef name).or (env.typedefs name) with
    | some target => rfl
    | none => rw [hnone hfound]
  | _ => rfl

theorem SameLookups.buildDerivedType (h : SameLookups env env' t) : ∀ d : Derivations,
    (∀ p, d.hasParam p → t.hasParam p) → buildDerivedType env t.head d = buildDerivedType env' t.head d
  | .nil, _ => h.baseType
  | .pointer q d, hd => by
    rw [Fisics.buildDerivedType, Fisics.buildDerivedType, h.buildDerivedType d hd]
  | .array info d, hd => by
    rw [Fisics.buildDerivedType, Fisics.buildDerivedType, h.buildDerivedType d hd, cgConstantArrayLength,
      cgConstantArrayLength, h.constEvalInteger]
  | .function flags params d, hd => by
    rw [Fisics.buildDerivedType, Fisics.buildDerivedType, h.buildDerivedType d fun p hp => hd p (.inr hp),
      h.lowerParams params fun p hp => hd p (.inl hp)]

theorem SameLookups.lowerParsedType (h : SameLookups env env' t) :
    lowerParsedType env t = lowerParsedType env' t := by
  obtain ⟨head, d, fpParams⟩ := t
  have hbuild := h.buildDerivedType d fun p hp => Or.inl hp
  have hparams := h.lowerParams fpParams fun p hp => Or.inr hp
  unfold Fisics.lowerParsedType functionPointerType
  dsimp only
  rw [hparams]
  exact congrArg (Bind.bind · _) hbuild

end

-- Runs

/-- No two types that may be cached have the same text and differ in something that is
not printed, and nothing that is looked up for a type that may be cached in two
scopes, or for what it calls for, differs between these. -/
structure Unambiguous (calls : List (TypeEnv × ParsedType)) : Prop where
  lookups : ∀ env env' t, Shared cgTypeCache calls env env' t → SameLookups env env' t
  unprinted : ∀ env env' t t', Called cgTypeCache calls env t → Called cgTypeCache calls env' t' →
    cgTypeCacheableKeyAllowed env t = true → cgTypeCacheableKeyAllowed env' t' = true →
    parsedTypeToString t = parsedTypeToString t' → t.unprinted = t'.unprinted

theorem Unambiguous.transparent (h : Unambiguous calls) :
    Transparent cgTypeCache calls where
  body env env' t ht := (h.lookups env env' t ht).lowerParsedType
  key env env' t t' ht ht' hc hc' htext := text_determines (h.unprinted env env' t t' ht ht' hc hc' htext) htext

def bareEnv : TypeEnv where
  lookupTypedef := fun _ => none
  lookupTag := fun _ _ => none
  typedefs := fun _ => none
  definitionType := .definition
  recordType := .named
  constEvalInteger := fun _ => none
  longDoubleBits := 80
  prepareParameter := id
  passParameter := fun _ => id

def intHead (pointerDepth : Nat) : TypeHead :=
  ⟨.primitive .int, none, fun _ => false, false, pointerDepth, none, false, false⟩

/-- `int *[3]` -/
def arrayOfPointers : ParsedType :=
  .mk (intHead 1) (.array ⟨none, false, false, some 3⟩ (.pointer ⟨false, false, false⟩ .nil)) .nil

/-- `int (*)[3]` -/
def pointerToArray : ParsedType :=
  .mk (intHead 1) (.pointer ⟨false, false, false⟩ (.array ⟨none, false, false, some 3⟩ .nil)) .nil

/-- `int *` -/
def pointerToInt : ParsedType := .mk (intHead 1) (.pointer ⟨false, false, false⟩ .nil) .nil

/-- Both are printed `int* [3]`. -/
theorem arrayOfPointers_text : parsedTypeToString arrayOfPointers = parsedTypeToString pointerToArray := by
  decide

def namedT : TypeHead :=
  ⟨.named, some ⟨['T'], by decide, List.forall_mem_singleton.mpr rfl⟩, fun _ => false, false, 0, none, false, false⟩

def charType : ParsedType := .mk ⟨.primitive .char, none, fun _ => false, false, 0, none, false, false⟩ .nil
    .nil

/-- At file scope `T` is `int *`. -/
def fileEnv : TypeEnv := { bareEnv with typedefs := fun _ => some pointerToInt }

/-- In a block `T` is `char`. -/
def blockEnv : TypeEnv := { fileEnv with lookupTypedef := fun _ => some charType }

/-- `T` of a file and of a block in it. -/
def typeT : ParsedType := .mk namedT .nil .nil

def shadowed : List (TypeEnv × ParsedType) :=
  [(fileEnv, typeT), (blockEnv, typeT), (fileEnv, arrayOfPointers), (blockEnv, arrayOfPointers),
    (fileEnv, typeT)]

theorem typeT_asks (h : env = fileEnv ∧ target = pointerToInt ∨ env = blockEnv ∧ target = charType)
    (hasks : (cgTypeCache.body env typeT).Asks u) : u = target := by
  rcases h with ⟨rfl, rfl⟩ | ⟨rfl, rfl⟩
  all_goals
    change (Calls.call _ fun t => .ret (applyPointerDepth t 0)).Asks u at hasks
    cases hasks with
    | here => rfl
    | later h => cases h

/-- What is called for, and where. -/
def InScope (env : TypeEnv) (t : ParsedType) : Prop :=
  env = fileEnv ∧ (t = typeT ∨ t = arrayOfPointers ∨ t = pointerToInt) ∨
    env = blockEnv ∧ (t = typeT ∨ t = arrayOfPointers ∨ t = charType)

theorem called_shadowed (h : Called cgTypeCache shadowed env t) : InScope env t := by
  have hret {c : LLVMType} {u : ParsedType} (h : (Calls.ret c : Lowering LLVMType).Asks u) : False := by cases h
  induction h with
  | call h =>
    simp only [shadowed, List.mem_cons, List.not_mem_nil, or_false, Prod.mk.injEq] at h
    rcases h with ⟨rfl, rfl⟩ | ⟨rfl, rfl⟩ | ⟨rfl, rfl⟩ | ⟨rfl, rfl⟩ | ⟨rfl, rfl⟩
    all_goals simp [InScope]
  | asked _ hasks ih =>
    rcases ih with ⟨rfl, rfl | rfl | rfl⟩ | ⟨rfl, rfl | rfl | rfl⟩
    · exact .inl ⟨rfl, .inr (.inr (typeT_asks (.inl ⟨rfl, rfl⟩) hasks))⟩
    · exact (hret hasks).elim
    · exact (hret hasks).elim
    · exact .inr ⟨rfl, .inr (.inr (typeT_asks (.inr ⟨rfl, rfl⟩) hasks))⟩
    · exact (hret hasks).elim
    · exact (hret hasks).elim

theorem shadowed_texts : parsedTypeToString typeT = ['T'] ∧
    parsedTypeToString arrayOfPointers = ['i', 'n', 't', '*', ' ', '[', '3', ']'] ∧
    parsedTypeToString pointerToInt = ['i', 'n', 't', '*'] ∧
    parsedTypeToString charType = ['c', 'h', 'a', 'r'] := by
  decide

/-- Only `int *[3]` is kept for both scopes. -/
theorem shared_shadowed (h : Shared cgTypeCache shadowed env env' t) :
    env = env' ∨ t = arrayOfPointers ∧ (env = fileEnv ∨ env = blockEnv) ∧
      (env' = fileEnv ∨ env' = blockEnv) := by
  induction h with
  | stored h h' hc hc' =>
    have hboth {t : ParsedType} (hfile : t = typeT ∨ t = arrayOfPointers ∨ t = pointerToInt)
        (hblock : t = typeT ∨ t = arrayOfPointers ∨ t = charType)
        (hc : cgTypeCacheableKeyAllowed blockEnv t = true) : t = arrayOfPointers := by
      obtain ⟨htypeT, harray, hpointer, hchar⟩ := shadowed_texts
      rcases hfile with rfl | rfl | rfl
      · exact absurd hc (by decide)
      · rfl
      · rcases hblock with h | h | h
        all_goals
          have htext := congrArg parsedTypeToString h
          simp_all
    rcases called_shadowed h with ⟨rfl, ht⟩ | ⟨rfl, ht⟩
    all_goals rcases called_shadowed h' with ⟨rfl, ht'⟩ | ⟨rfl, ht'⟩
    · exact .inl rfl
    · exact .inr ⟨hboth ht ht' hc', .inl rfl, .inr rfl⟩
    · exact .inr ⟨hboth ht' ht hc, .inr rfl, .inl rfl⟩
    · exact .inl rfl
  | asked _ hasks ih =>
    refine ih.imp_right fun ⟨ht, _⟩ => ?_
    subst ht
    cases (show (Calls.ret _ : Lowering LLVMType).Asks _ from hasks)

end Fisics
