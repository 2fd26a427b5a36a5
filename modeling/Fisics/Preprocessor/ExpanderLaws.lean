import Fisics.Preprocessor.MacroExpander
import Mathlib.Data.List.Basic

/-!
# Laws of the macro expander

Expansion leaves the expander as it was, up to the two error records and the
counter: what is pushed on the expansion stack is popped again, on every path.
And it always returns: every recursive call has a shorter input, or one more
macro on the stack out of those in the table.
-/

namespace Fisics

open Option (bind_some map_some)

-- What expansion leaves alone

structure SameFrame (e e' : MacroExpander) : Prop where
  macros : e'.table.macros = e.table.macros
  stack : e'.table.expansionStack = e.table.expansionStack
  limit : e'.table.expansionLimit = e.table.expansionLimit
  serial : e'.table.mutationSerial = e.table.mutationSerial
  preserve : e'.preserveDefinedOperands = e.preserveDefinedOperands
  builtins : { e'.builtins with counter := none } = { e.builtins with counter := none }

theorem SameFrame.refl (e : MacroExpander) : SameFrame e e := ⟨rfl, rfl, rfl, rfl, rfl, rfl⟩

theorem SameFrame.trans (h : SameFrame e e') (h' : SameFrame e' e'') : SameFrame e e'' :=
  ⟨h'.macros.trans h.macros, h'.stack.trans h.stack, h'.limit.trans h.limit,
    h'.serial.trans h.serial, h'.preserve.trans h.preserve, h'.builtins.trans h.builtins⟩

theorem sameFrame_lastError (e : MacroExpander) (info : MacroExpandErrorInfo) :
    SameFrame e { e with lastError := info } := ⟨rfl, rfl, rfl, rfl, rfl, rfl⟩

theorem handleBuiltinIdentifier_frame (h : handleBuiltinIdentifier e tok = some (lit, e')) :
    SameFrame e e' := by
  unfold handleBuiltinIdentifier at h
  split at h
  · cases h
  split at h
  · cases h; exact .refl e
  split at h
  · cases h; exact .refl e
  · split at h
    · cases h; exact .refl e
    · split at h
      · cases h; exact ⟨rfl, rfl, rfl, rfl, rfl, rfl⟩
      · split at h
        · cases h; exact .refl e
        · split at h
          · cases h; exact .refl e
          · cases h

theorem substituteInto_frame (e : MacroExpander) (d : MacroDefinition)
    (args : Option MacroArgPack) (callRange : SourceRange) :
    SameFrame e (substituteInto e d args callRange).2 := by
  unfold substituteInto
  split
  · exact .refl e
  · exact .refl e
  · exact sameFrame_lastError e _

/-- A pop undoes a push, whatever happened in between, when the frame did not
change. -/
theorem pushMacro_popMacro (hpush : pushMacro e d callRange = (e₁, true))
    (hframe : SameFrame e₁ e₂) : SameFrame e (popMacro e₂ d) := by
  unfold pushMacro macroTablePushExpansion at hpush
  dsimp only at hpush
  split at hpush
  · cases hpush
  split at hpush
  · cases hpush
  cases hpush
  obtain ⟨hm, hs, hl, hserial, hp, hb⟩ := hframe
  refine ⟨hm, ?_, hl, hserial, hp, hb⟩
  simp [popMacro, macroTablePopExpansion, hs]

theorem pushMacro_frame (hpush : pushMacro e d callRange = (e₁, false)) : SameFrame e e₁ := by
  unfold pushMacro macroTablePushExpansion at hpush
  dsimp only at hpush
  iterate 2
    split at hpush
    · cases hpush; exact ⟨rfl, rfl, rfl, rfl, rfl, rfl⟩
  · cases hpush

-- The measure

def unexpanded (table : MacroTable) : Nat :=
  table.macros.countP (fun d => !macroTableIsExpanding table d.name)

theorem SameFrame.unexpanded (h : SameFrame e e') : unexpanded e'.table = unexpanded e.table := by
  simp [Fisics.unexpanded, macroTableIsExpanding, h.macros, h.stack]

theorem unexpanded_le (table : MacroTable) : unexpanded table ≤ table.macros.length :=
  List.countP_le_length

theorem macroTableLookup_mem (h : macroTableLookup table name = some d) :
    d ∈ table.macros ∧ d.name = name := by
  refine ⟨List.mem_of_find?_eq_some h, ?_⟩
  simpa using List.find?_some h

theorem countP_lt_of_imp (l : List α) (h : ∀ x, p x = true → q x = true)
    (hx : x ∈ l) (hp : p x = false) (hq : q x = true) : l.countP p < l.countP q := by
  induction l with
  | nil => cases hx
  | cons y l ih =>
    have hle : l.countP p ≤ l.countP q := List.countP_mono_left fun z _ hz => h z hz
    rcases List.mem_cons.mp hx with rfl | hx
    · rw [List.countP_cons_of_neg (by simp [hp]), List.countP_cons_of_pos hq]
      omega
    · have := ih hx
      rw [List.countP_cons, List.countP_cons]
      have hy : (if p y = true then 1 else 0) ≤ (if q y = true then 1 else 0) := by
        split
        · simp [h y ‹_›]
        · exact Nat.zero_le _
      omega

theorem pushMacro_unexpanded (hd : d ∈ e.table.macros) (hnot : macroTableIsExpanding e.table d.name = false)
    (hpush : pushMacro e d callRange = (e₁, true)) :
    unexpanded e₁.table < unexpanded e.table := by
  unfold pushMacro macroTablePushExpansion at hpush
  dsimp only at hpush
  split at hpush
  · cases hpush
  split at hpush
  · cases hpush
  cases hpush
  refine countP_lt_of_imp _ (fun x hx => ?_) hd ?_ ?_
  · simp only [macroTableIsExpanding, List.any_cons, Bool.not_or, Bool.and_eq_true] at hx ⊢
    exact hx.2
  · simp [macroTableIsExpanding]
  · simpa using hnot

-- Arguments are shorter than the input

theorem parseArgumentLoop_length (h : parseArgumentLoop depth args cur consumed input =
    some (args', cur', consumed')) :
    (∀ a ∈ args', a ∈ args ∨ a.length < cur.length + input.length) ∧
      cur'.length < cur.length + input.length ∧
      consumed' ≤ consumed + input.length := by
  induction input generalizing depth args cur consumed with
  | nil => cases h
  | cons tok rest ih =>
    unfold parseArgumentLoop at h
    split at h
    · cases h
      exact ⟨fun a ha => .inl ha, by simp, by simp⟩
    split at h
    · obtain ⟨h1, h2, h3⟩ := ih h
      simp only [List.length_nil, List.length_cons] at h1 h2 h3 ⊢
      refine ⟨fun a ha => ?_, by omega, by omega⟩
      rcases h1 a ha with h1 | h1
      · rcases List.mem_append.mp h1 with h1 | h1
        · exact .inl h1
        · rw [List.mem_singleton.mp h1]
          exact .inr (by omega)
      · exact .inr (by omega)
    · obtain ⟨h1, h2, h3⟩ := ih h
      simp only [List.length_append, List.length_cons, List.length_nil] at h1 h2 h3 ⊢
      exact ⟨fun a ha => (h1 a ha).imp_right (by omega), by omega, by omega⟩

theorem parseMacroArgumentTokens_length (h : parseMacroArgumentTokens input d = some (args, consumed)) :
    (∀ a ∈ args, a.length < input.length) ∧ consumed ≤ input.length := by
  unfold parseMacroArgumentTokens at h
  simp only [Option.map_eq_some_iff, Prod.exists] at h
  obtain ⟨args', cur, consumed', hloop, heq⟩ := h
  cases heq
  obtain ⟨h1, h2, h3⟩ := parseArgumentLoop_length hloop
  refine ⟨fun a ha => ?_, by simpa using h3⟩
  have hmem : a ∈ args' ∨ a = cur := by
    split at ha
    · simpa using ha
    · exact .inl ha
  rcases hmem with hmem | rfl
  · simpa using h1 a hmem
  · simpa using h2

theorem buildMacroArgPack_raw (h : buildMacroArgPack d rawArgs = .ok pack) :
    ∀ arg ∈ pack.positionals ++ pack.variadics, arg.raw ∈ rawArgs := by
  unfold buildMacroArgPack at h
  dsimp only at h
  split at h
  · cases h
  cases h
  intro arg harg
  have hmap : arg ∈ rawArgs.map (fun raw => MacroArg.mk raw []) := by
    rcases List.mem_append.mp harg with harg | harg
    · exact List.mem_of_mem_take harg
    · exact List.mem_of_mem_drop (List.mem_of_mem_take harg)
  obtain ⟨raw, hraw, rfl⟩ := List.mem_map.mp hmap
  exact hraw

-- Every call returns

def Returns (e : MacroExpander) (r : ExpandResult) : Prop :=
  ∃ ok out e', r = some (ok, out, e') ∧ SameFrame e e'

def StepReturns (e : MacroExpander) (r : StepResult) : Prop :=
  ∃ ok out taken e', r = some (ok, out, taken, e') ∧ SameFrame e e'

section
variable {argument nested : Expand} {k n : Nat}
  (harg : ∀ e input, unexpanded e.table ≤ k → input.length < n → Returns e (argument e input))
  (hnested : ∀ e input, unexpanded e.table < k → Returns e (nested e input))

include harg in
theorem expandArguments_returns (args : List MacroArg) (e : MacroExpander)
    (hk : unexpanded e.table ≤ k) (hn : ∀ arg ∈ args, arg.raw.length < n) :
    ∃ ok out e', expandArguments argument e args = some (ok, out, e') ∧ SameFrame e e' := by
  induction args generalizing e with
  | nil => exact ⟨true, [], e, rfl, .refl e⟩
  | cons arg args ih =>
    have hfirst : Returns e (if arg.raw.isEmpty then some (true, [], e) else argument e arg.raw) := by
      split
      · exact ⟨true, [], e, rfl, .refl e⟩
      · exact harg e arg.raw hk (hn arg List.mem_cons_self)
    obtain ⟨ok, out, e₁, h₁, hf₁⟩ := hfirst
    unfold expandArguments
    simp only [h₁, bind_some]
    cases ok with
    | false => exact ⟨false, [], e₁, rfl, hf₁⟩
    | true => ?_
    obtain ⟨ok, out', e₂, h₂, hf₂⟩ := ih e₁ (hf₁.unexpanded ▸ hk)
      (fun a ha => hn a (List.mem_cons_of_mem _ ha))
    simp only [↓reduceIte, h₂, map_some]
    exact ⟨ok, _, e₂, rfl, hf₁.trans hf₂⟩

include harg in
theorem expandMacroArguments_returns (e : MacroExpander) (pack : MacroArgPack) (hk : unexpanded e.table ≤ k)
    (hn : ∀ arg ∈ pack.positionals ++ pack.variadics, arg.raw.length < n) :
    ∃ ok out e', expandMacroArguments argument e pack = some (ok, out, e') ∧ SameFrame e e' := by
  obtain ⟨ok, out, e', h, hf⟩ := expandArguments_returns harg _ e hk hn
  simp only [expandMacroArguments, h, map_some]
  exact ⟨ok, _, e', rfl, hf⟩

include hnested in
theorem expandReplacement_returns (e : MacroExpander) (d : MacroDefinition)
    (args : Option MacroArgPack) (callRange : SourceRange) (hk : unexpanded e.table < k) :
    Returns e (expandReplacement nested e d args callRange) := by
  have hf := substituteInto_frame e d args callRange
  unfold expandReplacement
  generalize substituteInto e d args callRange = r at hf ⊢
  obtain ⟨tokens, e₁⟩ := r
  cases tokens with
  | none => exact ⟨false, [], e₁, rfl, hf⟩
  | some tokens =>
    obtain ⟨ok, out, e₂, h, hf₂⟩ := hnested e₁ tokens (hf.unexpanded ▸ hk)
    exact ⟨ok, out, e₂, h, hf.trans hf₂⟩

include hnested in
theorem pushed_returns (hk : unexpanded e.table ≤ k) (hd : d ∈ e.table.macros)
    (hnot : macroTableIsExpanding e.table d.name = false) (hf : SameFrame e e₁)
    (hpush : pushMacro e₁ d callRange = (e₂, true)) (args : Option MacroArgPack) :
    unexpanded e₂.table < k ∧ Returns e₂ (expandReplacement nested e₂ d args callRange) := by
  have hnot₁ : macroTableIsExpanding e₁.table d.name = false := by
    simpa [macroTableIsExpanding, hf.stack] using hnot
  have hlt := pushMacro_unexpanded (hf.macros ▸ hd) hnot₁ hpush
  rw [hf.unexpanded] at hlt
  have hk₂ := Nat.lt_of_lt_of_le hlt hk
  exact ⟨hk₂, expandReplacement_returns hnested e₂ d args callRange hk₂⟩

theorem pack_shorter (hparse : parseMacroArgumentTokens after.tail d = some (rawArgs, consumed))
    (hbuild : buildMacroArgPack d rawArgs = .ok pack) (hne : after ≠ []) (hn : after.length ≤ n) :
    ∀ arg ∈ pack.positionals ++ pack.variadics, arg.raw.length < n := by
  intro arg ha
  have hshort := (parseMacroArgumentTokens_length hparse).1 _ (buildMacroArgPack_raw hbuild arg ha)
  cases after with
  | nil => exact absurd rfl hne
  | cons tok rest => exact Nat.lt_trans hshort hn

theorem boundaryCallee_spec (h : boundaryCallee table expanded after = some (callee, d)) :
    d ∈ table.macros ∧ macroTableIsExpanding table d.name = false ∧ after ≠ [] := by
  unfold boundaryCallee at h
  split at h
  · split at h
    · split at h
      · rename_i hlookup
        split at h
        · rename_i hd
          cases h
          simp only [Option.bind_eq_some_iff] at hlookup
          obtain ⟨name, -, hname⟩ := hlookup
          exact ⟨(macroTableLookup_mem hname).1, hd.2, by simp⟩
        · cases h
      · cases h
    · cases h
  · cases h

include harg hnested in
theorem boundary_returns (e : MacroExpander) (expanded after : List Token)
    (hk : unexpanded e.table ≤ k) (hn : after.length ≤ n) :
    ∃ r, tryExpandFunctionLikeAliasBoundary argument nested e expanded after = some r ∧
      SameFrame e r.expander := by
  unfold tryExpandFunctionLikeAliasBoundary
  cases hcallee : boundaryCallee e.table expanded after with
  | none => exact ⟨_, rfl, .refl e⟩
  | some found => ?_
  obtain ⟨callee, d⟩ := found
  obtain ⟨hd, hnot, hne⟩ := boundaryCallee_spec hcallee
  dsimp only
  cases hparse : parseMacroArgumentTokens after.tail d with
  | none => exact ⟨_, rfl, .refl e⟩
  | some parsed => ?_
  obtain ⟨rawArgs, consumed⟩ := parsed
  dsimp only
  cases hbuild : buildMacroArgPack d rawArgs with
  | error counts => exact ⟨_, rfl, sameFrame_lastError e _⟩
  | ok pack => ?_
  obtain ⟨ok, pack', e₁, hargs, hf₁⟩ := expandMacroArguments_returns harg e pack hk
    (pack_shorter hparse hbuild hne hn)
  simp only [hargs, bind_some]
  cases ok with
  | false => exact ⟨_, rfl, hf₁⟩
  | true => ?_
  cases hpush : pushMacro e₁ d (tokenCallRange callee) with
  | mk e₂ pushed =>
    cases pushed with
    | false => exact ⟨_, rfl, hf₁.trans (pushMacro_frame hpush)⟩
    | true => ?_
    obtain ⟨-, ok, out, e₃, hrep, hf₃⟩ := pushed_returns hnested hk hd hnot hf₁ hpush (some pack')
    simp only [↓reduceIte, hrep, map_some]
    exact ⟨_, rfl, hf₁.trans (pushMacro_popMacro hpush hf₃)⟩

include harg hnested in
theorem accumulatedBoundaryLoop_returns (rounds : Nat) (out : List Token) (consumed : Nat)
    (e : MacroExpander) (after : List Token) (hk : unexpanded e.table ≤ k)
    (hn : after.length ≤ n) :
    StepReturns e (accumulatedBoundaryLoop argument nested rounds out consumed e after) := by
  induction rounds generalizing out consumed e after with
  | zero => exact ⟨true, out, consumed, e, rfl, .refl e⟩
  | succ rounds ih =>
    unfold accumulatedBoundaryLoop
    split
    · split
      · exact ⟨true, out, consumed, e, rfl, .refl e⟩
      · rename_i last _
        obtain ⟨r, hr, hf⟩ := boundary_returns harg hnested e [last] after hk hn
        simp only [hr, bind_some]
        split
        · obtain ⟨ok, out', taken, e', h, hf'⟩ := ih (out.dropLast ++ r.out) (consumed + r.consumed)
            r.expander (after.drop r.consumed) (hf.unexpanded ▸ hk)
            (Nat.le_trans (by simp) hn)
          exact ⟨ok, out', taken, e', h, hf.trans hf'⟩
        · exact ⟨r.ok, out, consumed, r.expander, rfl, hf⟩
    · exact ⟨true, out, consumed, e, rfl, .refl e⟩

section
variable {e : MacroExpander} {d : MacroDefinition} (hk : unexpanded e.table ≤ k)
  (hd : d ∈ e.table.macros) (hnot : macroTableIsExpanding e.table d.name = false)

include harg hnested hk hd hnot in
theorem expandObjectLike_returns (out : List Token) (callRange : SourceRange) (rest : List Token)
    (hn : rest.length ≤ n) :
    StepReturns e (expandObjectLike argument nested out e d callRange rest) := by
  unfold expandObjectLike
  cases hpush : pushMacro e d callRange with
  | mk e₁ pushed =>
    cases pushed with
    | false => exact ⟨false, out, 0, e₁, rfl, pushMacro_frame hpush⟩
    | true => ?_
    obtain ⟨-, ok, replacement, e₂, hrep, hf₂⟩ := pushed_returns hnested hk hd hnot (.refl e) hpush none
    have hf := pushMacro_popMacro hpush hf₂
    simp only [↓reduceIte, hrep, bind_some]
    cases ok with
    | false => exact ⟨false, out, 0, _, rfl, hf⟩
    | true => ?_
    obtain ⟨r, hr, hfr⟩ := boundary_returns harg hnested (popMacro e₂ d) replacement rest
      (hf.unexpanded ▸ hk) hn
    simp only [↓reduceIte, hr, map_some]
    split
    · split
      all_goals exact ⟨_, _, _, _, rfl, hf.trans hfr⟩
    · exact ⟨_, _, _, _, rfl, hf.trans hfr⟩

include harg hnested hk hd hnot in
theorem expandFunctionLike_returns (out : List Token) (tok : Token) (rest : List Token)
    (hn : rest.length ≤ n) :
    StepReturns e (expandFunctionLike argument nested out e d tok rest) := by
  unfold expandFunctionLike
  split
  · rename_i hlparen
    cases hparse : parseMacroArgumentTokens rest.tail d with
    | none => exact ⟨_, _, _, _, rfl, .refl e⟩
    | some parsed => ?_
    obtain ⟨rawArgs, consumed⟩ := parsed
    dsimp only
    cases hbuild : buildMacroArgPack d rawArgs with
    | error counts => exact ⟨_, _, _, _, rfl, sameFrame_lastError e _⟩
    | ok pack => ?_
    have hne : rest ≠ [] := by
      rintro rfl
      cases hlparen
    obtain ⟨ok, pack', e₁, hargs, hf₁⟩ := expandMacroArguments_returns harg e pack hk
      (pack_shorter hparse hbuild hne hn)
    simp only [hargs, bind_some]
    cases ok with
    | false => exact ⟨_, _, _, _, rfl, hf₁⟩
    | true => ?_
    cases hpush : pushMacro e₁ d (tokenCallRange tok) with
    | mk e₂ pushed =>
      cases pushed with
      | false => exact ⟨_, _, _, _, rfl, hf₁.trans (pushMacro_frame hpush)⟩
      | true => ?_
      obtain ⟨hk₂, ok, replacement, e₃, hrep, hf₃⟩ := pushed_returns hnested hk hd hnot hf₁ hpush
        (some pack')
      simp only [↓reduceIte, expandCall, hrep, bind_some]
      cases ok with
      | false =>
        exact ⟨_, _, _, _, rfl, hf₁.trans (pushMacro_popMacro hpush hf₃)⟩
      | true => ?_
      have hdrop : (rest.drop (consumed + 1)).length ≤ n := Nat.le_trans (by simp) hn
      obtain ⟨r, hr, hfr⟩ := boundary_returns harg hnested e₃ replacement
        (rest.drop (consumed + 1)) (hf₃.unexpanded ▸ Nat.le_of_lt hk₂) hdrop
      have hpop := hf₁.trans (pushMacro_popMacro hpush (hf₃.trans hfr))
      simp only [↓reduceIte, hr, bind_some]
      split
      · split
        · obtain ⟨ok, out', taken, e', h, hf'⟩ := accumulatedBoundaryLoop_returns harg hnested
            (rest.drop (consumed + 1)).length (out ++ r.out) r.consumed
            (popMacro r.expander d) ((rest.drop (consumed + 1)).drop r.consumed)
            (hpop.unexpanded ▸ hk) (Nat.le_trans (by rw [List.length_drop]; omega) hdrop)
          simp only [h, map_some]
          exact ⟨_, _, _, _, rfl, hpop.trans hf'⟩
        · exact ⟨_, _, _, _, rfl, hpop⟩
      · exact ⟨_, _, _, _, rfl, hpop⟩
  · exact ⟨_, _, _, _, rfl, .refl e⟩

end

include harg hnested in
theorem expandToken_returns (before out : List Token) (e : MacroExpander) (tok : Token)
    (rest : List Token) (hk : unexpanded e.table ≤ k) (hn : rest.length ≤ n) :
    StepReturns e (expandToken argument nested before out e tok rest) := by
  unfold expandToken
  split
  · exact ⟨_, _, _, _, rfl, .refl e⟩
  split
  · rename_i hbuiltin
    exact ⟨_, _, _, _, rfl, handleBuiltinIdentifier_frame hbuiltin⟩
  split
  · exact ⟨_, _, _, _, rfl, .refl e⟩
  · split
    · exact ⟨_, _, _, _, rfl, .refl e⟩
    · rename_i d hlookup
      simp only [Option.bind_eq_some_iff] at hlookup
      obtain ⟨name, -, hname⟩ := hlookup
      have hd := (macroTableLookup_mem hname).1
      split
      · exact ⟨_, _, _, _, rfl, .refl e⟩
      rename_i hnot
      have hnot : macroTableIsExpanding e.table d.name = false := by simpa using hnot
      split
      · exact expandObjectLike_returns harg hnested hk hd hnot out _ rest hn
      · exact expandFunctionLike_returns harg hnested hk hd hnot out tok rest hn

include harg hnested in
theorem expandLoop_returns (skip : Nat) (before out : List Token) (e : MacroExpander)
    (input : List Token) (hk : unexpanded e.table ≤ k) (hn : input.length ≤ n) :
    Returns e (expandLoop argument nested skip before out e input) := by
  induction input generalizing skip before out e with
  | nil => exact ⟨true, out, e, by cases skip <;> rfl, .refl e⟩
  | cons tok rest ih =>
    have hrest : rest.length ≤ n := Nat.le_of_succ_le hn
    cases skip with
    | succ skip => exact ih skip (tok :: before) out e hk hrest
    | zero => ?_
    obtain ⟨ok, out₁, taken, e₁, h, hf⟩ := expandToken_returns harg hnested before out e tok rest hk hrest
    unfold expandLoop
    simp only [h, bind_some]
    cases ok with
    | false => exact ⟨_, _, _, rfl, hf⟩
    | true =>
      obtain ⟨ok, out₂, e₂, h₂, hf₂⟩ := ih taken (tok :: before) out₁ e₁ (hf.unexpanded ▸ hk) hrest
      exact ⟨ok, out₂, e₂, h₂, hf.trans hf₂⟩

include hnested in
theorem expandInput_returns (size : Nat) (e : MacroExpander) (input : List Token)
    (hk : unexpanded e.table ≤ k) (hsize : input.length < size) :
    Returns e (expandInput nested size e input) := by
  induction size generalizing e input with
  | zero => omega
  | succ size ih =>
    have hclear := sameFrame_lastError e noExpandError
    obtain ⟨ok, out, e', h, hf⟩ := expandLoop_returns (n := size) ih hnested 0 [] []
      (macroExpanderClearError e) input (hclear.unexpanded ▸ hk) (by omega)
    exact ⟨ok, out, e', h, hclear.trans hf⟩

end

theorem expandBudget_returns (budget : Nat) (e : MacroExpander) (input : List Token)
    (h : unexpanded e.table ≤ budget) : Returns e (expandBudget budget e input) := by
  induction budget generalizing e input with
  | zero =>
    exact expandInput_returns (k := 0) (fun e input hlt => absurd hlt (Nat.not_lt_zero _)) _ e input h
      (Nat.lt_succ_self _)
  | succ budget ih =>
    refine expandInput_returns (k := budget + 1) (fun e input hlt => ih e input (by omega)) _ e input h
      (Nat.lt_succ_self _)

/-- Expansion returns, for every table and every input, and keeps the frame. -/
theorem macroExpanderExpand_returns (e : MacroExpander) (input : List Token) :
    Returns e (macroExpanderExpand e input) :=
  expandBudget_returns _ e input (unexpanded_le e.table)

-- Tokens that name no macro

def isBuiltinName (name : String) : Bool :=
  name ∈ ["__FILE__", "__LINE__", "__BASE_FILE__", "__COUNTER__", "__DATE__", "__TIME__"]

def NamesNoMacro (table : MacroTable) (tok : Token) : Prop :=
  tok.type = .identifier → ∀ name, tok.value = some name →
    isBuiltinName name = false ∧ macroTableLookup table name = none

theorem handleBuiltinIdentifier_none (h : ∀ name, tok.value = some name → isBuiltinName name = false) :
    handleBuiltinIdentifier e tok = none := by
  have hne : ∀ name, isBuiltinName name = true → tok.value ≠ some name := by
    intro name hname hv
    rw [h name hv] at hname
    cases hname
  simp [handleBuiltinIdentifier, hne "__FILE__" (by decide), hne "__LINE__" (by decide),
    hne "__BASE_FILE__" (by decide), hne "__COUNTER__" (by decide), hne "__DATE__" (by decide),
    hne "__TIME__" (by decide)]

theorem expandToken_inert (h : NamesNoMacro e.table tok) :
    expandToken argument nested before out e tok rest = some (true, out ++ [tok], 0, e) := by
  unfold expandToken
  by_cases ht : tok.type = .identifier
  · have hnone := handleBuiltinIdentifier_none (e := e) fun name hv => (h ht name hv).1
    have hlookup : tok.value.bind (macroTableLookup e.table) = none := by
      cases hv : tok.value with
      | none => rfl
      | some name => exact (h ht name hv).2
    simp [ht, hnone, hlookup]
  · simp [ht]

theorem expandLoop_inert (input : List Token) (h : ∀ tok ∈ input, NamesNoMacro e.table tok) :
    expandLoop argument nested 0 before out e input = some (true, out ++ input, e) := by
  induction input generalizing before out with
  | nil => simp [expandLoop]
  | cons tok rest ih =>
    unfold expandLoop
    rw [expandToken_inert (h tok List.mem_cons_self)]
    simp [ih fun t ht => h t (List.mem_cons_of_mem _ ht)]

theorem macroExpanderExpand_inert (e : MacroExpander) (input : List Token)
    (h : ∀ tok ∈ input, NamesNoMacro e.table tok) :
    macroExpanderExpand e input = some (true, input, macroExpanderClearError e) := by
  have hloop : ∀ argument nested, expandLoop argument nested 0 [] [] (macroExpanderClearError e)
      input = some (true, input, macroExpanderClearError e) :=
    fun argument nested => expandLoop_inert (e := macroExpanderClearError e) input h
  unfold macroExpanderExpand
  cases e.table.macros.length with
  | zero | succ n => exact hloop _ _

end Fisics
