import Fisics.Lexer.SourceMap

/-!
# Translation phases

C translates trigraphs, joins spliced lines and reads digraphs, in this order.
The translation does all three in one pass, which misses the digraphs that a
splice cuts in two.
-/

namespace Fisics

-- The phases

@[grind] def trigraphAt : List Char → Option Char
  | '?' :: '?' :: c :: _ => translateTrigraphChar c
  | _ => none

/-- Every trigraph is replaced; `skip` passes over the rest of one. -/
@[grind] def trigraphPhase : (skip : Nat) → List Char → List Char
  | _, [] => []
  | skip + 1, _ :: rest => trigraphPhase skip rest
  | 0, c :: rest =>
    match trigraphAt (c :: rest) with
    | some mapped => mapped :: trigraphPhase 2 rest
    | none => c :: trigraphPhase 0 rest

@[grind] def spliceAt : List Char → Nat
  | '\\' :: '\n' :: _ => 2
  | '\\' :: '\r' :: '\n' :: _ => 3
  | _ => 0

@[grind] def splicePhase : (skip : Nat) → (split : Bool) → List Char → List (Char × Bool)
  | _, _, [] => []
  | skip + 1, split, _ :: rest => splicePhase skip split rest
  | 0, split, c :: rest =>
    match spliceAt (c :: rest) with
    | 0 => (c, split) :: splicePhase 0 false rest
    | n + 1 => splicePhase n true rest

@[grind] def digraphPhase : List Char → List Char
  | [] => []
  | [c] => [c]
  | a :: b :: rest =>
    match digraphChar a b with
    | some mapped => mapped :: digraphPhase rest
    | none => a :: digraphPhase (b :: rest)

/-- No digraph that the phase reads has a splice between its two characters. -/
@[grind] def NoSplitDigraph : List (Char × Bool) → Prop
  | [] => True
  | [_] => True
  | a :: b :: rest =>
    match digraphChar a.1 b.1 with
    | some _ => b.2 = false ∧ NoSplitDigraph rest
    | none => NoSplitDigraph (b :: rest)

def withoutTrigraphs (enableTrigraphs : Bool) (text : List Char) : List Char :=
  if enableTrigraphs then trigraphPhase 0 text else text

def spliced (enableTrigraphs split : Bool) (text : List Char) : List (Char × Bool) :=
  splicePhase 0 split (withoutTrigraphs enableTrigraphs text)

def translatedText (enableTrigraphs : Bool) (source : List Char) : List Char :=
  (translateSource enableTrigraphs source).1.map MappedChar.char

-- The rounds of the translation

theorem translateLoop_chars (enableTrigraphs : Bool) (skip : Nat) (pos pos' : Nat × Nat)
    (text : List Char) :
    (translateLoop enableTrigraphs skip pos text).1.map MappedChar.char
      = (translateLoop enableTrigraphs skip pos' text).1.map MappedChar.char := by
  induction text generalizing skip pos pos' with
  | nil => cases skip <;> rfl
  | cons c rest ih =>
    cases skip with
    | succ skip => exact ih _ _ _
    | zero =>
      simp only [translateLoop, List.map_append, List.map_map]
      rw [ih _ _ (advanceRawPosition c pos')]
      rfl

theorem translatedText_round (taken rest : List Char)
    (h : translateAt enableTrigraphs (c :: taken ++ rest) = (written, taken.length + 1)) :
    translatedText enableTrigraphs (c :: taken ++ rest)
      = written.map Prod.fst ++ translatedText enableTrigraphs rest := by
  rw [List.cons_append] at h ⊢
  rw [translatedText, translateSource, translateLoop, h]
  simp only [List.map_append, List.map_map, Nat.add_sub_cancel, translateLoop_skip]
  rw [translatedText, translateSource, translateLoop_chars _ _ _ (1, 1)]
  rfl

theorem translateTrigraph_none (h : trigraphAt text = none) : translateTrigraph text = none := by
  unfold trigraphAt at h
  split at h
  · simp [translateTrigraph, h]
  unfold translateTrigraph
  split <;> simp_all

theorem translateAt_noTrigraph (h : enableTrigraphs = true → trigraphAt text = none) :
    translateAt enableTrigraphs text = translateDigraph text := by
  cases enableTrigraphs with
  | false => rfl
  | true => simp [translateAt, translateTrigraph_none (h rfl)]

theorem digraphChar_first (h : digraphChar a b = some mapped) : a = '%' ∨ a = '<' ∨ a = ':' := by
  unfold digraphChar at h
  split at h <;> simp at h ⊢

theorem digraphChar_second (h : digraphChar a b = some mapped) : b = ':' ∨ b = '>' ∨ b = '%' := by
  unfold digraphChar at h
  split at h <;> simp at h ⊢

theorem digraphChar_ne (h : digraphChar a b = some mapped) : mapped ≠ a := by
  unfold digraphChar at h
  split at h <;> cases h <;> decide

theorem translateTrigraphChar_mapped (h : translateTrigraphChar c = some mapped) :
    mapped ∈ ['#', '\\', '^', '\x7b', '\x7d', '|', '[', ']', '~'] := by
  unfold translateTrigraphChar at h
  split at h <;> cases h <;> decide

theorem trigraphAt_head (h : c ≠ '?') : trigraphAt (c :: rest) = none := by
  unfold trigraphAt
  split
  · rename_i heq
    exact absurd (List.cons.inj heq).1 h
  · rfl

theorem translatedText_digraph (enableTrigraphs : Bool) (h : digraphChar a b = some mapped)
    (rest : List Char) :
    translatedText enableTrigraphs (a :: b :: rest) = mapped :: translatedText enableTrigraphs rest := by
  have hat : ∀ rest, translateAt enableTrigraphs (a :: b :: rest) = translateDigraph (a :: b :: rest) := by
    intro rest
    refine translateAt_noTrigraph fun _ => trigraphAt_head ?_
    rcases digraphChar_first h with rfl | rfl | rfl <;> decide
  induction hn : rest.length using Nat.strongRecOn generalizing rest with
  | _ n ih =>
    by_cases hdouble : ∃ tail, a = '%' ∧ b = ':' ∧ rest = '%' :: ':' :: tail
    · -- a round of two digraphs
      obtain ⟨tail, rfl, rfl, rfl⟩ := hdouble
      cases h
      have hround := translatedText_round [':', '%', ':'] tail (hat ('%' :: ':' :: tail))
      have htail := ih tail.length (by rw [← hn]; simp only [List.length_cons]; omega) tail rfl
      rw [htail]
      exact hround
    · have hone : translateDigraph (a :: b :: rest) = ([(mapped, 0)], 2) := by
        unfold digraphChar at h
        split at h <;> cases h
        · simp only [true_and, not_exists] at hdouble
          simp [translateDigraph]
        all_goals rfl
      exact translatedText_round [b] rest ((hat rest).trans hone)

/-- The characters that a trigraph can give are in no digraph and end no line. -/
theorem mapped_plain (h : translateTrigraphChar c = some mapped) :
    mapped ≠ '\n' ∧ mapped ≠ '\r' ∧ mapped ≠ ':' ∧ mapped ≠ '>' ∧ mapped ≠ '%' ∧ mapped ≠ '<' := by
  have hmem := translateTrigraphChar_mapped h
  simp only [List.mem_cons, List.not_mem_nil, or_false] at hmem
  rcases hmem with rfl | rfl | rfl | rfl | rfl | rfl | rfl | rfl | rfl <;> decide

/-- Trigraph replacement keeps such a character, and makes none. -/
theorem withoutTrigraphs_cons (enableTrigraphs : Bool)
    (h : enableTrigraphs = true → trigraphAt (c :: rest) = none) :
    withoutTrigraphs enableTrigraphs (c :: rest) = c :: withoutTrigraphs enableTrigraphs rest := by
  cases enableTrigraphs with
  | false => rfl
  | true => simp [withoutTrigraphs, trigraphPhase, h rfl]

theorem withoutTrigraphs_head (enableTrigraphs : Bool) (text : List Char)
    (h : withoutTrigraphs enableTrigraphs text = c :: tail)
    (hc : c = '\n' ∨ c = '\r' ∨ c = ':' ∨ c = '>' ∨ c = '%') :
    ∃ rest, text = c :: rest ∧ tail = withoutTrigraphs enableTrigraphs rest := by
  cases text with
  | nil => cases enableTrigraphs <;> cases h
  | cons d rest => ?_
  by_cases htri : enableTrigraphs = true ∧ ∃ mapped, trigraphAt (d :: rest) = some mapped
  · obtain ⟨rfl, mapped, hmapped⟩ := htri
    simp only [withoutTrigraphs, if_true, trigraphPhase, hmapped] at h
    obtain ⟨rfl, -⟩ := List.cons.inj h
    unfold trigraphAt at hmapped
    split at hmapped
    · obtain ⟨h1, h2, h3, h4, h5, -⟩ := mapped_plain hmapped
      simp_all
    · cases hmapped
  · have hnone : enableTrigraphs = true → trigraphAt (d :: rest) = none := by
      intro henable
      by_contra hsome
      exact htri ⟨henable, Option.ne_none_iff_exists'.mp hsome⟩
    rw [withoutTrigraphs_cons enableTrigraphs hnone] at h
    obtain ⟨rfl, rfl⟩ := List.cons.inj h
    exact ⟨rest, rfl, rfl⟩

theorem splicePhase_true (skip : Nat) (text : List Char) :
    ∀ m tail, splicePhase skip true text = m :: tail → m.2 = true := by
  induction text generalizing skip with
  | nil =>
    intro m tail h
    cases skip <;> cases h
  | cons c rest ih =>
    intro m tail h
    cases skip with
    | succ skip => exact ih skip m tail h
    | zero => ?_
    unfold splicePhase at h
    split at h
    · obtain ⟨rfl, -⟩ := List.cons.inj h
      rfl
    · exact ih _ m tail h

/-- The head of a text after a plain character: an unmarked mark comes from the next
raw character. -/
theorem spliced_next (enableTrigraphs : Bool) (text : List Char)
    (h : spliced enableTrigraphs false text = (b, false) :: tail)
    (hb : b = '\n' ∨ b = '\r' ∨ b = ':' ∨ b = '>' ∨ b = '%') : ∃ rest, text = b :: rest := by
  unfold spliced at h
  cases hphase : withoutTrigraphs enableTrigraphs text with
  | nil =>
    rw [hphase] at h
    cases h
  | cons c rest => ?_
  rw [hphase] at h
  unfold splicePhase at h
  split at h
  · obtain ⟨heq, -⟩ := List.cons.inj h
    cases heq
    obtain ⟨rest, hrest, -⟩ := withoutTrigraphs_head enableTrigraphs text hphase hb
    exact ⟨rest, hrest⟩
  · cases splicePhase_true _ _ _ _ h

theorem spliced_cons (enableTrigraphs split : Bool)
    (hphase : withoutTrigraphs enableTrigraphs text = c :: withoutTrigraphs enableTrigraphs rest)
    (h : spliceAt (c :: rest) = 0) :
    spliced enableTrigraphs split text = (c, split) :: spliced enableTrigraphs false rest := by
  have hsplice : spliceAt (c :: withoutTrigraphs enableTrigraphs rest) = 0 := by
    by_contra hne
    unfold spliceAt at hne
    split at hne
    · rename_i heq
      obtain ⟨rfl, hnewline⟩ := List.cons.inj heq
      obtain ⟨after, rfl, -⟩ := withoutTrigraphs_head enableTrigraphs rest hnewline (.inl rfl)
      simp [spliceAt] at h
    · rename_i heq
      obtain ⟨rfl, hreturn⟩ := List.cons.inj heq
      obtain ⟨after, rfl, htail⟩ := withoutTrigraphs_head enableTrigraphs rest hreturn (.inr (.inl rfl))
      obtain ⟨after', rfl, -⟩ := withoutTrigraphs_head enableTrigraphs after htail.symm (.inl rfl)
      simp [spliceAt] at h
    · exact hne rfl
  rw [spliced, hphase, splicePhase, hsplice]
  rfl

-- One round in both readings

/-- What a round of the translation does, and what the first two phases make of
the same raw characters. -/
inductive RoundStep (enableTrigraphs : Bool) (text : List Char) : Prop
  | splice (rest : List Char) : rest.length < text.length →
      translatedText enableTrigraphs text = translatedText enableTrigraphs rest →
      (∀ split, spliced enableTrigraphs split text = spliced enableTrigraphs true rest) →
      RoundStep enableTrigraphs text
  | digraph (rest : List Char) : digraphChar a b = some mapped → rest.length < text.length →
      translatedText enableTrigraphs text = mapped :: translatedText enableTrigraphs rest →
      (∀ split, spliced enableTrigraphs split text
        = (a, split) :: (b, false) :: spliced enableTrigraphs false rest) →
      RoundStep enableTrigraphs text
  | single (rest : List Char) : rest.length < text.length →
      translatedText enableTrigraphs text = c :: translatedText enableTrigraphs rest →
      (∀ split, spliced enableTrigraphs split text = (c, split) :: spliced enableTrigraphs false rest) →
      (∀ b tail, spliced enableTrigraphs false rest = (b, false) :: tail → digraphChar c b = none) →
      RoundStep enableTrigraphs text

theorem roundStep_splice (enableTrigraphs : Bool) (rest : List Char) :
    RoundStep enableTrigraphs ('\\' :: '\n' :: rest) := by
  have hnone : trigraphAt ('\\' :: '\n' :: rest) = none := trigraphAt_head (by decide)
  have hat := translateAt_noTrigraph fun _ : enableTrigraphs = true => hnone
  refine .splice rest (by simp only [List.length_cons]; omega)
    (translatedText_round ['\n'] rest hat) fun split => ?_
  rw [spliced, withoutTrigraphs_cons _ fun _ => trigraphAt_head (by decide),
    withoutTrigraphs_cons _ fun _ => trigraphAt_head (by decide)]
  rfl

theorem roundStep_spliceReturn (enableTrigraphs : Bool) (rest : List Char) :
    RoundStep enableTrigraphs ('\\' :: '\r' :: '\n' :: rest) := by
  have hnone : trigraphAt ('\\' :: '\r' :: '\n' :: rest) = none := trigraphAt_head (by decide)
  have hat := translateAt_noTrigraph fun _ : enableTrigraphs = true => hnone
  refine .splice rest (by simp only [List.length_cons]; omega)
    (translatedText_round ['\r', '\n'] rest hat) fun split => ?_
  rw [spliced, withoutTrigraphs_cons _ fun _ => trigraphAt_head (by decide),
    withoutTrigraphs_cons _ fun _ => trigraphAt_head (by decide),
    withoutTrigraphs_cons _ fun _ => trigraphAt_head (by decide)]
  rfl

/-- A trigraph is one character, or a splice when it is a backslash before a
newline. -/
theorem roundStep_trigraph (h : translateTrigraphChar x = some mapped) (rest : List Char) :
    RoundStep true ('?' :: '?' :: x :: rest) := by
  have hphase : ∀ rest, withoutTrigraphs true ('?' :: '?' :: x :: rest)
      = mapped :: withoutTrigraphs true rest := by
    intro rest
    simp [withoutTrigraphs, trigraphPhase, trigraphAt, h]
  by_cases hsplice : spliceAt (mapped :: rest) = 0
  · have hat : translateAt true ('?' :: '?' :: x :: rest) = ([(mapped, 0)], 3) := by
      simp only [translateAt, translateTrigraph, h, if_true]
      split
      iterate 2
        · rename_i heq
          cases heq
          simp [spliceAt] at hsplice
      · rename_i heq _ _
        cases heq
        rfl
      · rename_i heq
        cases heq
    refine .single rest (by simp only [List.length_cons]; omega)
      (translatedText_round ['?', x] rest hat)
      (fun split => spliced_cons true split (hphase rest) hsplice) ?_
    intro b tail _
    obtain ⟨-, -, hcolon, hgreater, hpercent, hless⟩ := mapped_plain h
    by_contra hdigraph
    obtain ⟨m, hm⟩ := Option.ne_none_iff_exists'.mp hdigraph
    rcases digraphChar_first hm with rfl | rfl | rfl
    · exact hpercent rfl
    · exact hless rfl
    · exact hcolon rfl
  · unfold spliceAt at hsplice
    split at hsplice
    · rename_i after heq
      obtain ⟨rfl, rfl⟩ := List.cons.inj heq
      cases translateTrigraphChar_backslash h
      have hat : translateAt true ('?' :: ['?', '/', '\n'] ++ after) = ([], 4) := rfl
      refine .splice after (by simp only [List.length_cons]; omega)
        (translatedText_round ['?', '/', '\n'] after hat) fun split => ?_
      rw [spliced, hphase, withoutTrigraphs_cons _ fun _ => trigraphAt_head (by decide)]
      rfl
    · rename_i after heq
      obtain ⟨rfl, rfl⟩ := List.cons.inj heq
      cases translateTrigraphChar_backslash h
      have hat : translateAt true ('?' :: ['?', '/', '\r', '\n'] ++ after) = ([], 5) := rfl
      refine .splice after (by simp only [List.length_cons]; omega)
        (translatedText_round ['?', '/', '\r', '\n'] after hat) fun split => ?_
      rw [spliced, hphase, withoutTrigraphs_cons _ fun _ => trigraphAt_head (by decide),
        withoutTrigraphs_cons _ fun _ => trigraphAt_head (by decide)]
      rfl
    · exact absurd rfl hsplice

theorem translateDigraph_plain (hsplice : spliceAt (c :: rest) = 0)
    (hdigraph : ∀ b tail, rest = b :: tail → digraphChar c b = none) :
    translateDigraph (c :: rest) = ([(c, 0)], 1) := by
  generalize htext : c :: rest = text at hsplice ⊢
  unfold translateDigraph
  split
  · cases hsplice
  · cases hsplice
  iterate 6
    · cases htext
      cases hdigraph _ _ rfl
  · cases htext
    rfl
  · cases htext

theorem roundStep_plain (hplain : enableTrigraphs = true → trigraphAt (c :: rest) = none)
    (hsplice : spliceAt (c :: rest) = 0) : RoundStep enableTrigraphs (c :: rest) := by
  have hphase := withoutTrigraphs_cons enableTrigraphs hplain
  have hcons := fun split => spliced_cons enableTrigraphs split hphase hsplice
  by_cases hdigraph : ∃ b tail mapped, rest = b :: tail ∧ digraphChar c b = some mapped
  · obtain ⟨b, tail, mapped, rfl, hmapped⟩ := hdigraph
    have hb : b = ':' ∨ b = '>' ∨ b = '%' := digraphChar_second hmapped
    have hnext : ∀ split, spliced enableTrigraphs split (b :: tail)
        = (b, split) :: spliced enableTrigraphs false tail := by
      intro split
      refine spliced_cons enableTrigraphs split (withoutTrigraphs_cons enableTrigraphs fun _ =>
        trigraphAt_head ?_) ?_
      · rcases hb with rfl | rfl | rfl <;> decide
      · rcases hb with rfl | rfl | rfl <;> rfl
    refine .digraph tail hmapped (by simp only [List.length_cons]; omega)
      (translatedText_digraph enableTrigraphs hmapped tail) fun split => ?_
    rw [hcons, hnext]
  · have hnone : ∀ b tail, rest = b :: tail → digraphChar c b = none := by
      intro b tail heq
      by_contra hsome
      obtain ⟨mapped, hmapped⟩ := Option.ne_none_iff_exists'.mp hsome
      exact hdigraph ⟨b, tail, mapped, heq, hmapped⟩
    have hat := (translateAt_noTrigraph hplain).trans (translateDigraph_plain hsplice hnone)
    refine .single rest (by simp) (translatedText_round [] rest hat) hcons ?_
    intro b tail hhead
    by_contra hsome
    obtain ⟨mapped, hmapped⟩ := Option.ne_none_iff_exists'.mp hsome
    obtain ⟨after, rfl⟩ := spliced_next enableTrigraphs rest hhead (.inr (.inr (digraphChar_second hmapped)))
    exact hsome (hnone b after rfl)

theorem roundStep (enableTrigraphs : Bool) (c : Char) (rest : List Char) :
    RoundStep enableTrigraphs (c :: rest) := by
  by_cases htri : enableTrigraphs = true ∧ ∃ mapped, trigraphAt (c :: rest) = some mapped
  · obtain ⟨rfl, mapped, hmapped⟩ := htri
    unfold trigraphAt at hmapped
    split at hmapped
    · rename_i heq
      rw [heq]
      exact roundStep_trigraph hmapped _
    · cases hmapped
  · have hplain : enableTrigraphs = true → trigraphAt (c :: rest) = none := by
      intro henable
      by_contra hsome
      exact htri ⟨henable, Option.ne_none_iff_exists'.mp hsome⟩
    by_cases hsplice : spliceAt (c :: rest) = 0
    · exact roundStep_plain hplain hsplice
    unfold spliceAt at hsplice
    split at hsplice
    · rename_i heq
      rw [heq]
      exact roundStep_splice enableTrigraphs _
    · rename_i heq
      rw [heq]
      exact roundStep_spliceReturn enableTrigraphs _
    · exact absurd rfl hsplice

-- All rounds

/-- The induction goes round by round; a split digraph is where the two readings
part. -/
theorem translatedText_eq_iff (enableTrigraphs split : Bool) (text : List Char) :
    translatedText enableTrigraphs text
        = digraphPhase ((spliced enableTrigraphs split text).map Prod.fst) ↔
      NoSplitDigraph (spliced enableTrigraphs split text) := by
  induction hn : text.length using Nat.strongRecOn generalizing text split with
  | _ n ih =>
    have ih := fun {rest : List Char} (split : Bool) (hlt : rest.length < text.length) =>
      ih rest.length (hn ▸ hlt) split rest rfl
    cases text with
    | nil =>
      have hempty : spliced enableTrigraphs split [] = [] := by cases enableTrigraphs <;> rfl
      rw [hempty]
      exact ⟨fun _ => trivial, fun _ => rfl⟩
    | cons c text => ?_
    cases roundStep enableTrigraphs c text with
    | splice rest hlt htext hspliced =>
      rw [htext, hspliced]
      exact ih true hlt
    | digraph rest hmapped hlt htext hspliced =>
      rw [htext, hspliced]
      simpa [digraphPhase, NoSplitDigraph, hmapped] using ih false hlt
    | @single d rest hlt htext hspliced hnext =>
      have htail := ih false hlt
      rw [htext, hspliced]
      cases hrest : spliced enableTrigraphs false rest with
      | nil =>
        rw [hrest] at htail
        simpa [digraphPhase, NoSplitDigraph] using htail
      | cons m tail => ?_
      rw [hrest] at htail
      cases hmapped : digraphChar d m.1 with
      | none => simpa [digraphPhase, NoSplitDigraph, hmapped] using htail
      | some mapped => ?_
      have hsplit : m.2 = true := by
        cases hm : m.2 with
        | true => rfl
        | false =>
          have hnone := hnext m.1 tail (by rw [hrest, ← hm])
          cases hnone.symm.trans hmapped
      have hne : d ≠ mapped := fun heq => digraphChar_ne hmapped heq.symm
      simp [digraphPhase, NoSplitDigraph, hmapped, hsplit, hne]

def translationPhases (enableTrigraphs : Bool) (source : List Char) : List Char :=
  digraphPhase ((spliced enableTrigraphs false source).map Prod.fst)

/-- The translation is the three phases when no digraph is cut by a splice. -/
theorem translation_phases_iff (enableTrigraphs : Bool) (source : List Char) :
    translatedText enableTrigraphs source = translationPhases enableTrigraphs source ↔
      NoSplitDigraph (spliced enableTrigraphs false source) :=
  translatedText_eq_iff enableTrigraphs false source

-- What is written for a character

/-- The characters of the translation, each with what the text has for it after the
first two phases. -/
@[grind] def writtenCells : List (Char × Bool) → List (Char × List Char)
  | [] => []
  | [a] => [(a.1, [a.1])]
  | a :: b :: rest =>
    match digraphChar a.1 b.1, b.2 with
    | some mapped, false => (mapped, [a.1, b.1]) :: writtenCells rest
    | _, _ => (a.1, [a.1]) :: writtenCells (b :: rest)

theorem mem_writtenCells (h : cell ∈ writtenCells text) :
    cell.2 = [cell.1] ∨ ∃ a b, digraphChar a b = some cell.1 ∧ cell.2 = [a, b] := by
  fun_induction writtenCells text with
  | case1 => cases h
  | case2 a =>
    obtain rfl := List.mem_singleton.mp h
    exact .inl rfl
  | case3 a b rest mapped _ hmapped ih =>
    rcases List.mem_cons.mp h with rfl | h
    · exact .inr ⟨_, _, hmapped, rfl⟩
    · exact ih h
  | case4 a b rest _ ih =>
    rcases List.mem_cons.mp h with rfl | h
    · exact .inl rfl
    · exact ih h

/-- The translation has these characters, also where a splice cuts a digraph. -/
theorem writtenCells_chars (enableTrigraphs split : Bool) (text : List Char) :
    (writtenCells (spliced enableTrigraphs split text)).map Prod.fst = translatedText enableTrigraphs text := by
  induction hn : text.length using Nat.strongRecOn generalizing text split with
  | _ n ih =>
    have ih := fun {rest : List Char} (split : Bool) (hlt : rest.length < text.length) =>
      ih rest.length (hn ▸ hlt) split rest rfl
    cases text with
    | nil => cases enableTrigraphs <;> rfl
    | cons c text => ?_
    cases roundStep enableTrigraphs c text with
    | splice rest hlt htext hspliced => rw [htext, hspliced, ih true hlt]
    | digraph rest hmapped hlt htext hspliced =>
      rw [htext, hspliced, ← ih false hlt]
      simp [writtenCells, hmapped]
    | @single d rest hlt htext hspliced hnext =>
      rw [htext, hspliced, ← ih false hlt]
      cases hrest : spliced enableTrigraphs false rest with
      | nil => rfl
      | cons m tail => ?_
      rw [writtenCells]
      split
      · rename_i hmapped hwhole
        have hnone := hnext m.1 tail (by rw [hrest, ← hwhole])
        cases hnone.symm.trans hmapped
      · rfl

/-- `<`, a line splice and `:` stay two characters. -/
theorem splitDigraph_missed :
    translatedText false ['<', '\\', '\n', ':'] ≠ translationPhases false ['<', '\\', '\n', ':'] := by
  decide

end Fisics
