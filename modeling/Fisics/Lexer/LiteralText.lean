import Fisics.Lexer.Phases
import Fisics.Lexer.Scan

/-!
# Literals under translation

Translation reads digraphs everywhere, in literals too. A string literal, a
character constant or a header name arrives as it was written exactly when no two
of its characters next to each other are a digraph.
-/

namespace Fisics

-- Texts without trigraphs and splices

structure PlainSource (source : List Char) : Prop where
  noTrigraph : ∀ c, ['?', '?', c] <:+: source → translateTrigraphChar c = none
  noSplice : ¬['\\', '\n'] <:+: source
  noSpliceReturn : ¬['\\', '\r', '\n'] <:+: source

theorem PlainSource.ofPart (h : PlainSource source) (hpart : part <:+: source) : PlainSource part where
  noTrigraph := fun c hc => h.noTrigraph c (hc.trans hpart)
  noSplice := fun hc => h.noSplice (hc.trans hpart)
  noSpliceReturn := fun hc => h.noSpliceReturn (hc.trans hpart)

theorem PlainSource.trigraphAt (h : PlainSource source) : trigraphAt source = none := by
  unfold Fisics.trigraphAt
  split
  · exact h.noTrigraph _ ⟨[], _, rfl⟩
  · rfl

theorem PlainSource.spliceAt (h : PlainSource source) : spliceAt source = 0 := by
  unfold Fisics.spliceAt
  split
  · exact absurd ⟨[], _, rfl⟩ h.noSplice
  · exact absurd ⟨[], _, rfl⟩ h.noSpliceReturn
  · rfl

theorem PlainSource.spliced (h : PlainSource source) (enableTrigraphs : Bool) :
    spliced enableTrigraphs false source = source.map (·, false) := by
  induction source with
  | nil => cases enableTrigraphs <;> rfl
  | cons c rest ih =>
    rw [spliced_cons enableTrigraphs false (withoutTrigraphs_cons enableTrigraphs fun _ => h.trigraphAt)
      h.spliceAt, ih (h.ofPart (List.suffix_cons c rest).isInfix), List.map_cons]

theorem noSplitDigraph_unmarked : (text : List Char) → NoSplitDigraph (text.map (·, false))
  | [] => trivial
  | [_] => trivial
  | a :: b :: rest => by
    cases h : digraphChar a b with
    | some mapped => simpa [NoSplitDigraph, h] using noSplitDigraph_unmarked rest
    | none => simpa [NoSplitDigraph, h] using noSplitDigraph_unmarked (b :: rest)

theorem PlainSource.translatedText (h : PlainSource source) (enableTrigraphs : Bool) :
    translatedText enableTrigraphs source = digraphPhase source := by
  have hmarks := h.spliced enableTrigraphs
  have hphases := (translation_phases_iff enableTrigraphs source).mpr (by
    rw [hmarks]
    exact noSplitDigraph_unmarked source)
  rw [hphases, translationPhases, hmarks, List.map_map]
  simp [Function.comp_def]

-- Digraphs in a part of the text

def NoDigraph : List Char → Prop
  | [] => True
  | [_] => True
  | a :: b :: rest => digraphChar a b = none ∧ NoDigraph (b :: rest)

theorem digraphPhase_eq_self_iff : (text : List Char) → (digraphPhase text = text ↔ NoDigraph text)
  | [] => by simp [digraphPhase, NoDigraph]
  | [c] => by simp [digraphPhase, NoDigraph]
  | a :: b :: rest => by
    cases h : digraphChar a b with
    | some mapped => simp [digraphPhase, NoDigraph, h, digraphChar_ne h]
    | none =>
      have ih := digraphPhase_eq_self_iff (b :: rest)
      simpa [digraphPhase, NoDigraph, h] using ih

/-- Before a character that ends no digraph the text can be cut. -/
theorem digraphPhase_before (hsecond : ∀ a, digraphChar a y = none) (ys : List Char) :
    (xs : List Char) → digraphPhase (xs ++ y :: ys) = digraphPhase xs ++ digraphPhase (y :: ys)
  | [] => rfl
  | [c] => by simp [digraphPhase, hsecond]
  | a :: b :: rest => by
    cases h : digraphChar a b with
    | some mapped => simp [digraphPhase, h, digraphPhase_before hsecond ys rest]
    | none =>
      have ih := digraphPhase_before hsecond ys (b :: rest)
      simp only [List.cons_append] at ih
      simp [digraphPhase, h, ih]

/-- Behind a character that begins no digraph the text can be cut. -/
theorem digraphPhase_behind (hfirst : ∀ b, digraphChar x b = none) (ys : List Char) :
    (xs : List Char) → digraphPhase (xs ++ x :: ys) = digraphPhase (xs ++ [x]) ++ digraphPhase ys
  | [] => by cases ys <;> simp [digraphPhase, hfirst]
  | [c] => by
    have hhead : digraphPhase (x :: ys) = x :: digraphPhase ys := by
      cases ys <;> simp [digraphPhase, hfirst]
    cases h : digraphChar c x <;> simp [digraphPhase, h, hhead]
  | a :: b :: rest => by
    cases h : digraphChar a b with
    | some mapped => simp [digraphPhase, h, digraphPhase_behind hfirst ys rest]
    | none =>
      have ih := digraphPhase_behind hfirst ys (b :: rest)
      simp only [List.cons_append] at ih
      simp [digraphPhase, h, ih]

-- Literals

inductive QuotedBody (quote : Char) : List Char → Prop
  | nil : QuotedBody quote []
  | char : c ≠ quote → c ≠ '\\' → c ≠ '\n' → QuotedBody quote rest → QuotedBody quote (c :: rest)
  | escape : c ≠ '\n' → QuotedBody quote rest → QuotedBody quote ('\\' :: c :: rest)

/-- String literals, character constants and header names as they are written. -/
inductive LiteralText : List Char → Prop
  | string : QuotedBody '"' body → LiteralText ('"' :: (body ++ ['"']))
  | character : QuotedBody '\'' body → LiteralText ('\'' :: (body ++ ['\'']))
  | header : '>' ∉ body → '\n' ∉ body → LiteralText ('<' :: (body ++ ['>']))
  | quotedHeader : '"' ∉ body → '\n' ∉ body → LiteralText ('"' :: (body ++ ['"']))

theorem LiteralText.ends (h : LiteralText text) :
    ∃ first body last, text = first :: (body ++ [last]) ∧ (∀ a, digraphChar a first = none) ∧
      ∀ b, digraphChar last b = none := by
  have hsecond : ∀ c, c ≠ ':' → c ≠ '>' → c ≠ '%' → ∀ a, digraphChar a c = none := by
    intro c hcolon hgreater hpercent a
    by_contra hsome
    obtain ⟨mapped, hmapped⟩ := Option.ne_none_iff_exists'.mp hsome
    rcases digraphChar_second hmapped with h | h | h
    · exact hcolon h
    · exact hgreater h
    · exact hpercent h
  have hfirst : ∀ c, c ≠ '%' → c ≠ '<' → c ≠ ':' → ∀ b, digraphChar c b = none := by
    intro c hpercent hless hcolon b
    by_contra hsome
    obtain ⟨mapped, hmapped⟩ := Option.ne_none_iff_exists'.mp hsome
    rcases digraphChar_first hmapped with h | h | h
    · exact hpercent h
    · exact hless h
    · exact hcolon h
  cases h with
  | string _ | character _ | header _ _ | quotedHeader _ _ =>
    exact ⟨_, _, _, rfl, hsecond _ (by decide) (by decide) (by decide),
      hfirst _ (by decide) (by decide) (by decide)⟩

theorem digraphPhase_literal (h : LiteralText text) (before after : List Char) :
    digraphPhase (before ++ text ++ after)
      = digraphPhase before ++ digraphPhase text ++ digraphPhase after := by
  obtain ⟨first, body, last, rfl, hsecond, hfirst⟩ := h.ends
  have hbehind := digraphPhase_behind hfirst after (first :: body)
  rw [List.append_assoc, List.append_assoc, List.cons_append, digraphPhase_before hsecond,
    List.append_assoc, List.singleton_append, ← List.cons_append, hbehind, List.cons_append]

theorem translatedText_literal (enableTrigraphs : Bool) (hplain : PlainSource (before ++ text ++ after))
    (h : LiteralText text) :
    translatedText enableTrigraphs (before ++ text ++ after)
      = translatedText enableTrigraphs before ++ digraphPhase text ++
        translatedText enableTrigraphs after := by
  have hbefore : PlainSource before := hplain.ofPart ⟨[], text ++ after, by simp⟩
  have hafter : PlainSource after := hplain.ofPart ⟨before ++ text, [], by simp⟩
  rw [hplain.translatedText, hbefore.translatedText, hafter.translatedText, digraphPhase_literal h]

theorem handleStringLiteral_contents
    (hsource : lexer.source = front ++ '"' :: (body ++ '"' :: back))
    (hposition : lexer.position = front.length)
    (hscan : stringScan 0 (body ++ '"' :: back) = (body.length, .closed)) :
    (handleStringLiteral lexer).1.value = some (String.ofList body) := by
  have hrest : (lexer.advance 1).rest = body ++ '"' :: back := by
    simp [Lexer.rest, Lexer.advance, hsource, hposition]
  unfold handleStringLiteral
  simp only [hrest, hscan, emit, makeToken]
  simp [Lexer.textFrom, Lexer.advance, hsource, hposition]

/-- The literal stands in the translated text as it was written, between the
translations of what stands around it, and the token of a string literal has the
written characters for its value. -/
def KeepsLiteral (enableTrigraphs : Bool) (filePath : Option String)
    (before text after : List Char) : Prop :=
  translatedText enableTrigraphs (before ++ text ++ after)
      = translatedText enableTrigraphs before ++ text ++ translatedText enableTrigraphs after ∧
    ∀ body, text = '"' :: (body ++ ['"']) →
      stringScan 0 (body ++ '"' :: translatedText enableTrigraphs after) = (body.length, .closed) →
      (handleStringLiteral ((initLexer (before ++ text ++ after) filePath enableTrigraphs).advance
        (translatedText enableTrigraphs before).length)).1.value = some (String.ofList body)

/-- In a text without trigraphs and splices a literal is kept exactly when it has
no digraph. -/
theorem literal_kept_iff (enableTrigraphs : Bool) (filePath : Option String)
    (hplain : PlainSource (before ++ text ++ after)) (h : LiteralText text) :
    KeepsLiteral enableTrigraphs filePath before text after ↔ NoDigraph text := by
  have htranslated := translatedText_literal enableTrigraphs hplain h
  rw [← digraphPhase_eq_self_iff]
  constructor
  · rintro ⟨hkept, -⟩
    rw [htranslated, List.append_assoc, List.append_assoc] at hkept
    exact List.append_cancel_right (List.append_cancel_left hkept)
  · intro hsame
    rw [hsame] at htranslated
    refine ⟨htranslated, ?_⟩
    rintro body rfl hscan
    refine handleStringLiteral_contents ?_ (Nat.zero_add _) hscan
    show translatedText enableTrigraphs _ = _
    rw [htranslated]
    simp

theorem plainSource_word : PlainSource (['x'] ++ ['"', 'a', '"'] ++ [';']) where
  noTrigraph := by
    intro c h
    have hmem : '?' ∈ ['x'] ++ ['"', 'a', '"'] ++ [';'] := h.subset (by simp)
    simp at hmem
  noSplice := by decide
  noSpliceReturn := by decide

/-- `x"a";` -/
theorem wordLiteral_kept : KeepsLiteral false none ['x'] ['"', 'a', '"'] [';'] := by
  have hbody : QuotedBody '"' ['a'] := .char (by decide) (by decide) (by decide) .nil
  exact (literal_kept_iff false none plainSource_word (.string hbody)).mpr ⟨by decide, by decide, trivial⟩

/-- The literal `"<:"` becomes `"["`. -/
theorem digraphLiteral_changed :
    ¬KeepsLiteral false none ['x'] ['"', '<', ':', '"'] [';'] ∧
      ((lexSource ['"', '<', ':', '"'] none false).1.map fun tok => (tok.type, tok.value))
        = [(.string, some "["), (.eof, some "EOF")] := by
  refine ⟨?_, by decide⟩
  rintro ⟨hkept, -⟩
  exact absurd hkept (by decide)

end Fisics
