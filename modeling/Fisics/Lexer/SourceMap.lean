import Fisics.Lexer.Source
import Mathlib.Data.List.Basic

/-!
# The source map

Translation cuts the raw text into pieces. A piece is the spelling of one
character of the result or a line splice, and the map has the line and column of
the piece of every character.
-/

namespace Fisics

-- Pieces

@[grind] def digraphChar : Char → Char → Option Char
  | '%', ':' => some '#'
  | '<', ':' => some '['
  | ':', '>' => some ']'
  | '<', '%' => some '\x7b'
  | '%', '>' => some '\x7d'
  | _, _ => none

structure Piece where
  raw : List Char
  char : Option Char

inductive Produces (enableTrigraphs : Bool) : List Char → Option Char → Prop
  | plain (c : Char) : Produces enableTrigraphs [c] (some c)
  | trigraph : enableTrigraphs = true → translateTrigraphChar c = some mapped →
      Produces enableTrigraphs ['?', '?', c] (some mapped)
  | digraph : digraphChar a b = some mapped → Produces enableTrigraphs [a, b] (some mapped)
  | splice : Produces enableTrigraphs ['\\', '\n'] none
  | spliceReturn : Produces enableTrigraphs ['\\', '\r', '\n'] none
  | trigraphSplice : enableTrigraphs = true → Produces enableTrigraphs ['?', '?', '/', '\n'] none
  | trigraphSpliceReturn : enableTrigraphs = true →
      Produces enableTrigraphs ['?', '?', '/', '\r', '\n'] none

def rawText (pieces : List Piece) : List Char := (pieces.map Piece.raw).flatten

/-- The raw position behind a text that begins at `pos`. -/
def advanceOver (pos : Nat × Nat) (text : List Char) : Nat × Nat :=
  text.foldl (fun pos c => advanceRawPosition c pos) pos

def placed : (pos : Nat × Nat) → List Piece → List MappedChar
  | _, [] => []
  | pos, piece :: rest =>
    (piece.char.map fun c => ⟨c, pos.1, pos.2⟩).toList ++ placed (advanceOver pos piece.raw) rest

@[simp] theorem rawText_nil : rawText [] = [] := rfl

@[simp] theorem rawText_cons (piece : Piece) (rest : List Piece) :
    rawText (piece :: rest) = piece.raw ++ rawText rest := by simp [rawText]

@[simp] theorem rawText_append (xs ys : List Piece) : rawText (xs ++ ys) = rawText xs ++ rawText ys := by
  simp [rawText]

@[simp] theorem advanceOver_append (pos : Nat × Nat) (xs ys : List Char) :
    advanceOver pos (xs ++ ys) = advanceOver (advanceOver pos xs) ys := List.foldl_append

theorem placed_append (pos : Nat × Nat) (xs ys : List Piece) :
    placed pos (xs ++ ys) = placed pos xs ++ placed (advanceOver pos (rawText xs)) ys := by
  induction xs generalizing pos with
  | nil => rfl
  | cons piece xs ih => simp [placed, ih]

-- The loop

theorem translateTrigraphChar_backslash (h : translateTrigraphChar c = some '\\') : c = '/' := by
  unfold translateTrigraphChar at h
  split at h <;> simp_all

structure Round (enableTrigraphs : Bool) (text : List Char) (r : List (Char × Nat) × Nat)
    (pieces : List Piece) : Prop where
  produces : ∀ piece ∈ pieces, Produces enableTrigraphs piece.raw piece.char
  taken : ∃ rest, text = rawText pieces ++ rest
  length : (rawText pieces).length = r.2
  positive : 0 < r.2
  written : ∀ pos : Nat × Nat,
    (r.1.map fun w => MappedChar.mk w.1 pos.1 (pos.2 + w.2)) = placed pos pieces

theorem round_single (h : Produces enableTrigraphs raw char) (hpos : 0 < raw.length) (rest : List Char) :
    Round enableTrigraphs (raw ++ rest) ((char.map fun c => (c, 0)).toList, raw.length) [⟨raw, char⟩] where
  produces := List.forall_mem_singleton.mpr h
  taken := ⟨rest, by simp⟩
  length := by simp
  positive := hpos
  written := fun pos => by cases char <;> simp [placed]

theorem translateTrigraph_round (h : translateTrigraph text = some r) :
    ∃ pieces, Round true text r pieces := by
  unfold translateTrigraph at h
  split at h
  · split at h
    · rename_i _ hc
      cases h
      rw [translateTrigraphChar_backslash hc]
      exact ⟨_, round_single (.trigraphSplice rfl) (by decide) _⟩
    · rename_i _ hc
      cases h
      rw [translateTrigraphChar_backslash hc]
      exact ⟨_, round_single (.trigraphSpliceReturn rfl) (by decide) _⟩
    · rename_i hc _ _
      cases h
      exact ⟨_, round_single (.trigraph rfl hc) (Nat.zero_lt_succ _) _⟩
    · cases h
  · cases h

theorem translateDigraph_round (enableTrigraphs : Bool) (c : Char) (rest : List Char) :
    ∃ pieces, Round enableTrigraphs (c :: rest) (translateDigraph (c :: rest)) pieces := by
  generalize htext : c :: rest = text
  unfold translateDigraph
  split
  · exact ⟨_, round_single .splice (by decide) _⟩
  · exact ⟨_, round_single .spliceReturn (by decide) _⟩
  · -- two digraphs in one round
    rename_i after
    have hhash : Produces enableTrigraphs ['%', ':'] (some '#') := .digraph rfl
    refine ⟨[⟨['%', ':'], some '#'⟩, ⟨['%', ':'], some '#'⟩], ?_, ⟨after, rfl⟩, rfl, by decide, ?_⟩
    · simp [hhash]
    · intro pos
      rfl
  iterate 5
    · exact ⟨_, round_single (.digraph rfl) (by decide) _⟩
  · exact ⟨_, round_single (.plain _) (Nat.zero_lt_one) _⟩
  · cases htext

theorem translateAt_round (enableTrigraphs : Bool) (c : Char) (rest : List Char) :
    ∃ pieces, Round enableTrigraphs (c :: rest) (translateAt enableTrigraphs (c :: rest)) pieces := by
  unfold translateAt
  split
  · rename_i htrigraphs
    subst htrigraphs
    cases h : translateTrigraph (c :: rest) with
    | none => exact translateDigraph_round true c rest
    | some r => exact translateTrigraph_round h
  · exact translateDigraph_round enableTrigraphs c rest

theorem translateLoop_skip (enableTrigraphs : Bool) (pos : Nat × Nat) (taken rest : List Char) :
    translateLoop enableTrigraphs taken.length pos (taken ++ rest)
      = translateLoop enableTrigraphs 0 (advanceOver pos taken) rest := by
  induction taken generalizing pos with
  | nil => rfl
  | cons c taken ih => exact ih _

theorem translateLoop_round (h : Round enableTrigraphs (c :: text)
    (translateAt enableTrigraphs (c :: text)) pieces)
    (pos : Nat × Nat) :
    ∃ rest, c :: text = rawText pieces ++ rest ∧ rest.length < (c :: text).length ∧
      translateLoop enableTrigraphs 0 pos (c :: text)
        = (placed pos pieces ++ (translateLoop enableTrigraphs 0 (advanceOver pos (rawText pieces)) rest).1,
          (translateLoop enableTrigraphs 0 (advanceOver pos (rawText pieces)) rest).2) := by
  obtain ⟨rest, hrest⟩ := h.taken
  have hlen := h.length
  have hpos := h.positive
  cases hraw : rawText pieces with
  | nil =>
    rw [hraw, List.length_nil] at hlen
    omega
  | cons first raw => ?_
  rw [hraw] at hrest hlen
  simp only [List.cons_append, List.cons.injEq] at hrest
  obtain ⟨rfl, rfl⟩ := hrest
  refine ⟨rest, rfl, by simp only [List.length_cons, List.length_append]; omega, ?_⟩
  rw [translateLoop, h.written pos, ← hlen, List.length_cons, Nat.add_sub_cancel, translateLoop_skip]
  rfl

theorem translateLoop_pieces (enableTrigraphs : Bool) (text : List Char) (pos : Nat × Nat) :
    ∃ pieces, (∀ piece ∈ pieces, Produces enableTrigraphs piece.raw piece.char) ∧
      rawText pieces = text ∧
      translateLoop enableTrigraphs 0 pos text = (placed pos pieces, advanceOver pos text) := by
  induction hn : text.length using Nat.strongRecOn generalizing text pos with
  | _ n ih =>
    cases text with
    | nil => exact ⟨[], by simp, rfl, rfl⟩
    | cons c text => ?_
    obtain ⟨first, hround⟩ := translateAt_round enableTrigraphs c text
    obtain ⟨rest, hrest, hlt, hloop⟩ := translateLoop_round hround pos
    obtain ⟨pieces, hproduces, hraw, htail⟩ :=
      ih rest.length (hn ▸ hlt) rest (advanceOver pos (rawText first)) rfl
    refine ⟨first ++ pieces, List.forall_mem_append.mpr ⟨hround.produces, hproduces⟩, ?_, ?_⟩
    · rw [rawText_append, hraw, hrest]
    · rw [hloop, htail, placed_append, hrest, advanceOver_append]

-- Positions

/-- Line and column, from 1, of what stands behind `before`. -/
def rawPosition (before : List Char) : Nat × Nat :=
  (1 + before.count '\n', 1 + (before.reverse.takeWhile (· != '\n')).length)

def positionAt (source : List Char) (i : Nat) : Nat × Nat := rawPosition (source.take i)

def NotBehind (a b : Nat × Nat) : Prop := a.1 < b.1 ∨ a.1 = b.1 ∧ a.2 ≤ b.2

theorem advanceRawPosition_rawPosition (before : List Char) (c : Char) :
    advanceRawPosition c (rawPosition before) = rawPosition (before ++ [c]) := by
  by_cases hc : c = '\n'
  · simp [advanceRawPosition, rawPosition, hc, Nat.add_assoc]
  have hne : (c != '\n') = true := by simp [hc]
  simp [advanceRawPosition, rawPosition, hc, hne, Nat.add_comm]

theorem advanceOver_rawPosition (before text : List Char) :
    advanceOver (rawPosition before) text = rawPosition (before ++ text) := by
  induction text generalizing before with
  | nil => simp [advanceOver]
  | cons c text ih =>
    have h := ih (before ++ [c])
    rw [← advanceRawPosition_rawPosition] at h
    simpa [advanceOver] using h

theorem NotBehind.refl (a : Nat × Nat) : NotBehind a a := .inr ⟨rfl, Nat.le_refl _⟩

theorem NotBehind.trans (h : NotBehind a b) (h' : NotBehind b c) : NotBehind a c := by
  unfold NotBehind at *
  omega

theorem advanceOver_notBehind (pos : Nat × Nat) (text : List Char) :
    NotBehind pos (advanceOver pos text) := by
  induction text generalizing pos with
  | nil => exact .refl pos
  | cons c text ih =>
    have hstep : NotBehind pos (advanceRawPosition c pos) := by
      unfold advanceRawPosition NotBehind
      split
      · exact .inl (Nat.lt_succ_self _)
      · exact .inr ⟨rfl, Nat.le_succ _⟩
    exact hstep.trans (ih _)

theorem positionAt_notBehind (source : List Char) (h : i ≤ j) :
    NotBehind (positionAt source i) (positionAt source j) := by
  obtain ⟨between, hbetween⟩ : source.take i <+: source.take j := List.take_prefix_take_left h
  rw [positionAt, positionAt, ← hbetween, ← advanceOver_rawPosition]
  exact advanceOver_notBehind _ _

-- The map

def outputStarts : (start : Nat) → List Piece → List Nat
  | start, [] => [start]
  | start, piece :: rest =>
    (piece.char.map fun _ => start).toList ++ outputStarts (start + piece.raw.length) rest

theorem placed_chars (pos : Nat × Nat) (pieces : List Piece) :
    (placed pos pieces).map MappedChar.char = pieces.filterMap Piece.char := by
  induction pieces generalizing pos with
  | nil => rfl
  | cons piece rest ih => cases hchar : piece.char <;> simp [placed, hchar, ih]

theorem placed_positions (before : List Char) (pieces : List Piece) :
    ((placed (rawPosition before) pieces).map fun m => (m.line, m.column)) ++
        [rawPosition (before ++ rawText pieces)]
      = (outputStarts before.length pieces).map (positionAt (before ++ rawText pieces)) := by
  induction pieces generalizing before with
  | nil => simp [placed, outputStarts, positionAt]
  | cons piece rest ih =>
    have htail := ih (before ++ piece.raw)
    rw [← advanceOver_rawPosition before, List.append_assoc, List.length_append] at htail
    rw [placed, outputStarts, List.map_append, List.map_append, List.append_assoc, rawText_cons, htail]
    cases piece.char <;> simp [positionAt]

theorem Produces.raw_ne_nil (h : Produces enableTrigraphs raw char) : 0 < raw.length := by
  cases h <;> simp

theorem outputStarts_ge (start : Nat) (pieces : List Piece) : ∀ i ∈ outputStarts start pieces, start ≤ i := by
  induction pieces generalizing start with
  | nil => simp [outputStarts]
  | cons piece rest ih =>
    intro i hi
    rcases List.mem_append.mp hi with hi | hi
    · cases hchar : piece.char <;> simp_all
    · have := ih _ i hi
      omega

theorem outputStarts_increasing (start : Nat)
    (h : ∀ piece ∈ pieces, Produces enableTrigraphs piece.raw piece.char) :
    (outputStarts start pieces).Pairwise (· < ·) := by
  induction pieces generalizing start with
  | nil => simp [outputStarts]
  | cons piece rest ih =>
    have hpos := (h piece (by simp)).raw_ne_nil
    have hrest := ih (start + piece.raw.length) fun p hp => h p (by simp [hp])
    rw [outputStarts]
    cases piece.char with
    | none => exact hrest
    | some c => ?_
    refine List.pairwise_cons.mpr ⟨?_, hrest⟩
    intro i hi
    have hge := outputStarts_ge _ _ i hi
    show start < i
    omega

/-- The raw text falls into pieces, and the map has the position where the piece
of each character begins, and the end of the text for the terminator. -/
theorem sourceMap_exact (source : List Char) (filePath : Option String) (enableTrigraphs : Bool) :
    ∃ pieces, (∀ piece ∈ pieces, Produces enableTrigraphs piece.raw piece.char) ∧
      rawText pieces = source ∧
      pieces.filterMap Piece.char = (initLexer source filePath enableTrigraphs).source ∧
      (initLexer source filePath enableTrigraphs).rawLineMap
        = (outputStarts 0 pieces).map (fun i => (positionAt source i).1) ∧
      (initLexer source filePath enableTrigraphs).rawColumnMap
        = (outputStarts 0 pieces).map (fun i => (positionAt source i).2) ∧
      (outputStarts 0 pieces).Pairwise (· < ·) ∧
      ((initLexer source filePath enableTrigraphs).rawLineMap.zip
        (initLexer source filePath enableTrigraphs).rawColumnMap).Pairwise NotBehind := by
  generalize hlexer : initLexer source filePath enableTrigraphs = lexer
  obtain ⟨pieces, hproduces, hraw, hloop⟩ := translateLoop_pieces enableTrigraphs source (1, 1)
  have hstarts := outputStarts_increasing 0 hproduces
  have hmap := placed_positions [] pieces
  have hend : advanceOver (1, 1) source = rawPosition source := advanceOver_rawPosition [] source
  rw [List.nil_append, hraw, show rawPosition [] = (1, 1) from rfl] at hmap
  have hlines : lexer.rawLineMap = (outputStarts 0 pieces).map fun i => (positionAt source i).1 := by
    have h := congrArg (List.map Prod.fst) hmap
    simpa [← hlexer, initLexer, translateSource, hloop, hend, Function.comp_def] using h
  have hcolumns : lexer.rawColumnMap = (outputStarts 0 pieces).map fun i => (positionAt source i).2 := by
    have h := congrArg (List.map Prod.snd) hmap
    simpa [← hlexer, initLexer, translateSource, hloop, hend, Function.comp_def] using h
  refine ⟨pieces, hproduces, hraw, ?_, hlines, hcolumns, hstarts, ?_⟩
  · simp [← hlexer, initLexer, translateSource, hloop, placed_chars]
  · rw [hlines, hcolumns, List.zip_map', List.pairwise_map]
    exact hstarts.imp fun hlt => positionAt_notBehind source (Nat.le_of_lt hlt)

end Fisics
