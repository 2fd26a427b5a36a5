import Fisics.Preprocessor.ExpanderLaws

/-!
# The expansion stack during a run

Each definition of the expander has a companion here that lists, in their order,
the expansion stacks of its run: the stack at the entry of every call, after
every push and after every pop. No other step changes the stack. In no stack of
a run does a name occur twice.
-/

namespace Fisics

abbrev ExpansionStack := List MacroExpansionFrame

abbrev StackLog := MacroExpander → List Token → List ExpansionStack

def stackOf (expander : MacroExpander) : ExpansionStack := expander.table.expansionStack

-- The stacks of a run

section
variable (expandArgument nested : Expand) (argumentLog nestedLog : StackLog)

def argumentsStacks (expander : MacroExpander) : List MacroArg → List ExpansionStack
  | [] => []
  | arg :: rest =>
    if arg.raw.isEmpty then argumentsStacks expander rest
    else
      argumentLog expander arg.raw ++
        match expandArgument expander arg.raw with
        | some (true, _, expander) => argumentsStacks expander rest
        | _ => []

def replacementStacks (expander : MacroExpander) (d : MacroDefinition)
    (args : Option MacroArgPack) (callRange : SourceRange) : List ExpansionStack :=
  stackOf expander ::
    match substituteInto expander d args callRange with
    | (none, _) => []
    | (some replaced, expander) => nestedLog expander replaced

def boundaryStacks (expander : MacroExpander) (expanded after : List Token) : List ExpansionStack :=
  match boundaryCallee expander.table expanded after with
  | none => []
  | some (callee, d) =>
    let callRange := tokenCallRange callee
    match parseMacroArgumentTokens after.tail d with
    | none => []
    | some (rawArgs, _) =>
      match buildMacroArgPack d rawArgs with
      | .error _ => []
      | .ok pack =>
        argumentsStacks expandArgument argumentLog expander (pack.positionals ++ pack.variadics) ++
          match expandMacroArguments expandArgument expander pack with
          | some (true, pack, expander) =>
            match pushMacro expander d callRange with
            | (expander, true) =>
              replacementStacks nestedLog expander d (some pack) callRange ++
                match expandReplacement nested expander d (some pack) callRange with
                | some (_, _, expander) => [stackOf (popMacro expander d)]
                | none => []
            | (_, false) => []
          | _ => []

def accumulatedStacks : (rounds : Nat) → (out : List Token) → MacroExpander → List Token →
    List ExpansionStack
  | 0, _, _, _ => []
  | rounds + 1, out, expander, after =>
    if headIs .lparen after then
      match out.getLast? with
      | none => []
      | some last =>
        boundaryStacks expandArgument nested argumentLog nestedLog expander [last] after ++
          match tryExpandFunctionLikeAliasBoundary expandArgument nested expander [last] after with
          | some r =>
            if r.ok ∧ r.handled then
              accumulatedStacks rounds (out.dropLast ++ r.out) r.expander (after.drop r.consumed)
            else []
          | none => []
    else []

def objectLikeStacks (expander : MacroExpander) (d : MacroDefinition) (callRange : SourceRange)
    (rest : List Token) : List ExpansionStack :=
  match pushMacro expander d callRange with
  | (expander, true) =>
    replacementStacks nestedLog expander d none callRange ++
      match expandReplacement nested expander d none callRange with
      | some (ok, replacement, expander) =>
        stackOf (popMacro expander d) ::
          if ok then
            boundaryStacks expandArgument nested argumentLog nestedLog (popMacro expander d) replacement
              rest
          else []
      | none => []
  | (_, false) => []

def callStacks (out : List Token) (expander : MacroExpander) (d : MacroDefinition)
    (pack : MacroArgPack) (callRange : SourceRange) (after : List Token) : List ExpansionStack :=
  replacementStacks nestedLog expander d (some pack) callRange ++
    match expandReplacement nested expander d (some pack) callRange with
    | some (true, replacement, expander) =>
      -- the macro is still on the stack while the boundary is tried
      boundaryStacks expandArgument nested argumentLog nestedLog expander replacement after ++
        match tryExpandFunctionLikeAliasBoundary expandArgument nested expander replacement after with
        | some r =>
          stackOf (popMacro r.expander d) ::
            if r.ok ∧ r.handled then
              accumulatedStacks expandArgument nested argumentLog nestedLog after.length (out ++ r.out)
                (popMacro r.expander d) (after.drop r.consumed)
            else []
        | none => []
    | some (false, _, expander) => [stackOf (popMacro expander d)]
    | none => []

def functionLikeStacks (out : List Token) (expander : MacroExpander) (d : MacroDefinition)
    (tok : Token) (rest : List Token) : List ExpansionStack :=
  let callRange := tokenCallRange tok
  if headIs .lparen rest then
    match parseMacroArgumentTokens rest.tail d with
    | none => []
    | some (rawArgs, consumed) =>
      match buildMacroArgPack d rawArgs with
      | .error _ => []
      | .ok pack =>
        argumentsStacks expandArgument argumentLog expander (pack.positionals ++ pack.variadics) ++
          match expandMacroArguments expandArgument expander pack with
          | some (true, pack, expander) =>
            match pushMacro expander d callRange with
            | (expander, true) =>
              callStacks expandArgument nested argumentLog nestedLog out expander d pack callRange
                (rest.drop (consumed + 1))
            | (_, false) => []
          | _ => []
  else []

def tokenStacks (before out : List Token) (expander : MacroExpander) (tok : Token)
    (rest : List Token) : List ExpansionStack :=
  if tok.type ≠ .identifier then []
  else
    match handleBuiltinIdentifier expander tok with
    | some _ => []
    | none =>
      if expander.preserveDefinedOperands && definedOperandContext before then []
      else
        match tok.value.bind (macroTableLookup expander.table) with
        | none => []
        | some d =>
          if macroTableIsExpanding expander.table d.name then []
          else
            match d.kind with
            | .object =>
              objectLikeStacks expandArgument nested argumentLog nestedLog expander d
                (tokenCallRange tok) rest
            | .function =>
              functionLikeStacks expandArgument nested argumentLog nestedLog out expander d tok rest

def loopStacks : (skip : Nat) → (before out : List Token) → MacroExpander → List Token →
    List ExpansionStack
  | _, _, _, _, [] => []
  | skip + 1, before, out, expander, tok :: rest =>
    loopStacks skip (tok :: before) out expander rest
  | 0, before, out, expander, tok :: rest =>
    tokenStacks expandArgument nested argumentLog nestedLog before out expander tok rest ++
      match expandToken expandArgument nested before out expander tok rest with
      | some (true, out, taken, expander) => loopStacks taken (tok :: before) out expander rest
      | _ => []

end

def inputStacks (nested : Expand) (nestedLog : StackLog) : (size : Nat) → StackLog
  | 0 => fun _ _ => []
  | size + 1 => fun expander input =>
    stackOf expander ::
      loopStacks (expandInput nested size) nested (inputStacks nested nestedLog size) nestedLog 0 [] []
        (macroExpanderClearError expander) input

def budgetStacks : (budget : Nat) → StackLog
  | 0 => fun expander input =>
    inputStacks (fun _ _ => none) (fun _ _ => []) (input.length + 1) expander input
  | budget + 1 => fun expander input =>
    inputStacks (expandBudget budget) (budgetStacks budget) (input.length + 1) expander input

def expandStacks : StackLog := fun expander input =>
  budgetStacks expander.table.macros.length expander input

-- Distinct names

def DistinctNames (stack : ExpansionStack) : Prop :=
  (stack.map fun frame => frame.definition.name).Nodup

def AllDistinct (log : List ExpansionStack) : Prop := ∀ stack ∈ log, DistinctNames stack

theorem allDistinct_nil : AllDistinct [] := by simp [AllDistinct]

theorem AllDistinct.append (h : AllDistinct xs) (h' : AllDistinct ys) : AllDistinct (xs ++ ys) :=
  List.forall_mem_append.mpr ⟨h, h'⟩

theorem AllDistinct.cons (h : DistinctNames stack) (h' : AllDistinct log) :
    AllDistinct (stack :: log) := List.forall_mem_cons.mpr ⟨h, h'⟩

theorem SameFrame.distinct (h : SameFrame e e') (hd : DistinctNames (stackOf e)) :
    DistinctNames (stackOf e') := by
  rwa [stackOf, h.stack]

theorem pushMacro_distinct (hpush : pushMacro e d callRange = (e₁, true))
    (h : DistinctNames (stackOf e)) : DistinctNames (stackOf e₁) := by
  unfold pushMacro macroTablePushExpansion at hpush
  dsimp only at hpush
  split at hpush
  · cases hpush
  split at hpush
  · cases hpush
  rename_i hnot
  cases hpush
  refine List.nodup_cons.mpr ⟨?_, h⟩
  intro hmem
  obtain ⟨frame, hframe, hname⟩ := List.mem_map.mp hmem
  exact hnot (List.any_eq_true.mpr ⟨frame, hframe, by simp [hname]⟩)

section
variable {argument nested : Expand} {argumentLog nestedLog : StackLog} {k n : Nat}
  (harg : ∀ e input, unexpanded e.table ≤ k → input.length < n → Returns e (argument e input))
  (hnested : ∀ e input, unexpanded e.table < k → Returns e (nested e input))
  (hargLog : ∀ e input, unexpanded e.table ≤ k → input.length < n → DistinctNames (stackOf e) →
    AllDistinct (argumentLog e input))
  (hnestedLog : ∀ e input, unexpanded e.table < k → DistinctNames (stackOf e) →
    AllDistinct (nestedLog e input))

include harg hargLog in
theorem argumentsStacks_distinct (args : List MacroArg) (e : MacroExpander)
    (hk : unexpanded e.table ≤ k) (hn : ∀ arg ∈ args, arg.raw.length < n)
    (h : DistinctNames (stackOf e)) : AllDistinct (argumentsStacks argument argumentLog e args) := by
  induction args generalizing e with
  | nil => exact allDistinct_nil
  | cons arg args ih =>
    have hrest : ∀ a ∈ args, a.raw.length < n := fun a ha => hn a (List.mem_cons_of_mem _ ha)
    unfold argumentsStacks
    split
    · exact ih e hk hrest h
    have hlen := hn arg List.mem_cons_self
    obtain ⟨ok, out, e₁, hcall, hf⟩ := harg e arg.raw hk hlen
    refine (hargLog e arg.raw hk hlen h).append ?_
    rw [hcall]
    cases ok with
    | false => exact allDistinct_nil
    | true => exact ih e₁ (hf.unexpanded ▸ hk) hrest (hf.distinct h)

include hnestedLog in
theorem replacementStacks_distinct (e : MacroExpander) (d : MacroDefinition)
    (args : Option MacroArgPack) (callRange : SourceRange) (hk : unexpanded e.table < k)
    (h : DistinctNames (stackOf e)) :
    AllDistinct (replacementStacks nestedLog e d args callRange) := by
  have hf := substituteInto_frame e d args callRange
  refine .cons h ?_
  generalize substituteInto e d args callRange = r at hf ⊢
  obtain ⟨tokens, e₁⟩ := r
  cases tokens with
  | none => exact allDistinct_nil
  | some tokens => exact hnestedLog e₁ tokens (hf.unexpanded ▸ hk) (hf.distinct h)

include harg hnested hargLog hnestedLog in
theorem boundaryStacks_distinct (e : MacroExpander) (expanded after : List Token)
    (hk : unexpanded e.table ≤ k) (hn : after.length ≤ n) (h : DistinctNames (stackOf e)) :
    AllDistinct (boundaryStacks argument nested argumentLog nestedLog e expanded after) := by
  unfold boundaryStacks
  cases hcallee : boundaryCallee e.table expanded after with
  | none => exact allDistinct_nil
  | some found => ?_
  obtain ⟨callee, d⟩ := found
  obtain ⟨hd, hnot, hne⟩ := boundaryCallee_spec hcallee
  dsimp only
  cases hparse : parseMacroArgumentTokens after.tail d with
  | none => exact allDistinct_nil
  | some parsed => ?_
  obtain ⟨rawArgs, consumed⟩ := parsed
  dsimp only
  cases hbuild : buildMacroArgPack d rawArgs with
  | error counts => exact allDistinct_nil
  | ok pack => ?_
  have hshort := pack_shorter hparse hbuild hne hn
  obtain ⟨ok, pack', e₁, hargs, hf₁⟩ := expandMacroArguments_returns harg e pack hk hshort
  refine (argumentsStacks_distinct harg hargLog _ e hk hshort h).append ?_
  rw [hargs]
  cases ok with
  | false => exact allDistinct_nil
  | true => ?_
  dsimp only
  cases hpush : pushMacro e₁ d (tokenCallRange callee) with
  | mk e₂ pushed =>
    cases pushed with
    | false => exact allDistinct_nil
    | true => ?_
    have hpushed := pushMacro_distinct hpush (hf₁.distinct h)
    obtain ⟨hk₂, ok, out, e₃, hrep, hf₃⟩ := pushed_returns hnested hk hd hnot hf₁ hpush (some pack')
    refine (replacementStacks_distinct hnestedLog e₂ d _ _ hk₂ hpushed).append ?_
    rw [hrep]
    exact .cons ((hf₁.trans (pushMacro_popMacro hpush hf₃)).distinct h) allDistinct_nil

include harg hnested hargLog hnestedLog in
theorem accumulatedStacks_distinct (rounds : Nat) (out : List Token) (e : MacroExpander)
    (after : List Token) (hk : unexpanded e.table ≤ k) (hn : after.length ≤ n)
    (h : DistinctNames (stackOf e)) :
    AllDistinct (accumulatedStacks argument nested argumentLog nestedLog rounds out e after) := by
  induction rounds generalizing out e after with
  | zero => exact allDistinct_nil
  | succ rounds ih =>
    unfold accumulatedStacks
    split
    · split
      · exact allDistinct_nil
      · rename_i last _
        obtain ⟨r, hr, hf⟩ := boundary_returns harg hnested e [last] after hk hn
        refine (boundaryStacks_distinct harg hnested hargLog hnestedLog e [last] after hk hn h).append ?_
        rw [hr]
        dsimp only
        split
        · exact ih _ r.expander _ (hf.unexpanded ▸ hk) (Nat.le_trans (by simp) hn) (hf.distinct h)
        · exact allDistinct_nil
    · exact allDistinct_nil

section
variable {e : MacroExpander} {d : MacroDefinition} (hk : unexpanded e.table ≤ k)
  (hd : d ∈ e.table.macros) (hnot : macroTableIsExpanding e.table d.name = false)
  (h : DistinctNames (stackOf e))

include harg hnested hargLog hnestedLog hk hd hnot h in
theorem objectLikeStacks_distinct (callRange : SourceRange) (rest : List Token) (hn : rest.length ≤ n) :
    AllDistinct (objectLikeStacks argument nested argumentLog nestedLog e d callRange rest) := by
  unfold objectLikeStacks
  cases hpush : pushMacro e d callRange with
  | mk e₁ pushed =>
    cases pushed with
    | false => exact allDistinct_nil
    | true => ?_
    obtain ⟨hk₁, ok, replacement, e₂, hrep, hf₂⟩ := pushed_returns hnested hk hd hnot (.refl e) hpush none
    have hf := pushMacro_popMacro hpush hf₂
    refine (replacementStacks_distinct hnestedLog e₁ d _ _ hk₁ (pushMacro_distinct hpush h)).append ?_
    rw [hrep]
    refine .cons (hf.distinct h) ?_
    cases ok with
    | false => exact allDistinct_nil
    | true =>
      exact boundaryStacks_distinct harg hnested hargLog hnestedLog (popMacro e₂ d) replacement rest
        (hf.unexpanded ▸ hk) hn (hf.distinct h)

include harg hnested hargLog hnestedLog hk hd hnot h in
theorem functionLikeStacks_distinct (out : List Token) (tok : Token) (rest : List Token)
    (hn : rest.length ≤ n) :
    AllDistinct (functionLikeStacks argument nested argumentLog nestedLog out e d tok rest) := by
  unfold functionLikeStacks
  split
  · rename_i hlparen
    cases hparse : parseMacroArgumentTokens rest.tail d with
    | none => exact allDistinct_nil
    | some parsed => ?_
    obtain ⟨rawArgs, consumed⟩ := parsed
    dsimp only
    cases hbuild : buildMacroArgPack d rawArgs with
    | error counts => exact allDistinct_nil
    | ok pack => ?_
    have hne : rest ≠ [] := by
      rintro rfl
      cases hlparen
    have hshort := pack_shorter hparse hbuild hne hn
    obtain ⟨ok, pack', e₁, hargs, hf₁⟩ := expandMacroArguments_returns harg e pack hk hshort
    refine (argumentsStacks_distinct harg hargLog _ e hk hshort h).append ?_
    rw [hargs]
    cases ok with
    | false => exact allDistinct_nil
    | true => ?_
    dsimp only
    cases hpush : pushMacro e₁ d (tokenCallRange tok) with
    | mk e₂ pushed =>
      cases pushed with
      | false => exact allDistinct_nil
      | true => ?_
      have hpushed := pushMacro_distinct hpush (hf₁.distinct h)
      obtain ⟨hk₂, ok, replacement, e₃, hrep, hf₃⟩ := pushed_returns hnested hk hd hnot hf₁ hpush
        (some pack')
      refine (replacementStacks_distinct hnestedLog e₂ d _ _ hk₂ hpushed).append ?_
      rw [hrep]
      cases ok with
      | false =>
        exact .cons ((hf₁.trans (pushMacro_popMacro hpush hf₃)).distinct h) allDistinct_nil
      | true => ?_
      have hdrop : (rest.drop (consumed + 1)).length ≤ n := Nat.le_trans (by simp) hn
      have hk₃ : unexpanded e₃.table ≤ k := hf₃.unexpanded ▸ Nat.le_of_lt hk₂
      obtain ⟨r, hr, hfr⟩ := boundary_returns harg hnested e₃ replacement
        (rest.drop (consumed + 1)) hk₃ hdrop
      have hpop := hf₁.trans (pushMacro_popMacro hpush (hf₃.trans hfr))
      refine (boundaryStacks_distinct harg hnested hargLog hnestedLog e₃ replacement _ hk₃ hdrop
        (hf₃.distinct hpushed)).append ?_
      rw [hr]
      refine .cons (hpop.distinct h) ?_
      split
      · exact accumulatedStacks_distinct harg hnested hargLog hnestedLog _ _ _ _
          (hpop.unexpanded ▸ hk) (Nat.le_trans (by rw [List.length_drop]; omega) hdrop)
          (hpop.distinct h)
      · exact allDistinct_nil
  · exact allDistinct_nil

end

include harg hnested hargLog hnestedLog in
theorem tokenStacks_distinct (before out : List Token) (e : MacroExpander) (tok : Token)
    (rest : List Token) (hk : unexpanded e.table ≤ k) (hn : rest.length ≤ n)
    (h : DistinctNames (stackOf e)) :
    AllDistinct (tokenStacks argument nested argumentLog nestedLog before out e tok rest) := by
  unfold tokenStacks
  iterate 3
    split
    · exact allDistinct_nil
  · split
    · exact allDistinct_nil
    · rename_i d hlookup
      simp only [Option.bind_eq_some_iff] at hlookup
      obtain ⟨name, -, hname⟩ := hlookup
      have hd := (macroTableLookup_mem hname).1
      split
      · exact allDistinct_nil
      rename_i hnot
      have hnot : macroTableIsExpanding e.table d.name = false := by simpa using hnot
      split
      · exact objectLikeStacks_distinct harg hnested hargLog hnestedLog hk hd hnot h _ rest hn
      · exact functionLikeStacks_distinct harg hnested hargLog hnestedLog hk hd hnot h out tok rest hn

include harg hnested hargLog hnestedLog in
theorem loopStacks_distinct (skip : Nat) (before out : List Token) (e : MacroExpander)
    (input : List Token) (hk : unexpanded e.table ≤ k) (hn : input.length ≤ n)
    (h : DistinctNames (stackOf e)) :
    AllDistinct (loopStacks argument nested argumentLog nestedLog skip before out e input) := by
  induction input generalizing skip before out e with
  | nil => cases skip <;> exact allDistinct_nil
  | cons tok rest ih =>
    have hrest : rest.length ≤ n := Nat.le_of_succ_le hn
    cases skip with
    | succ skip => exact ih skip (tok :: before) out e hk hrest h
    | zero => ?_
    obtain ⟨ok, out₁, taken, e₁, hstep, hf⟩ := expandToken_returns harg hnested before out e tok rest hk
      hrest
    refine (tokenStacks_distinct harg hnested hargLog hnestedLog before out e tok rest hk hrest h).append ?_
    rw [hstep]
    cases ok with
    | false => exact allDistinct_nil
    | true => exact ih taken (tok :: before) out₁ e₁ (hf.unexpanded ▸ hk) hrest (hf.distinct h)

include hnested hnestedLog in
theorem inputStacks_distinct (size : Nat) (e : MacroExpander) (input : List Token)
    (hk : unexpanded e.table ≤ k) (hsize : input.length < size) (h : DistinctNames (stackOf e)) :
    AllDistinct (inputStacks nested nestedLog size e input) := by
  induction size generalizing e input with
  | zero => exact absurd hsize (Nat.not_lt_zero _)
  | succ size ih =>
    have hclear := sameFrame_lastError e noExpandError
    refine .cons h (loopStacks_distinct (n := size)
      (fun e input hk hlt => expandInput_returns hnested size e input hk hlt) hnested ih hnestedLog 0 []
      [] (macroExpanderClearError e) input (hclear.unexpanded ▸ hk) (by omega) (hclear.distinct h))

end

theorem budgetStacks_distinct (budget : Nat) (e : MacroExpander) (input : List Token)
    (hk : unexpanded e.table ≤ budget) (h : DistinctNames (stackOf e)) :
    AllDistinct (budgetStacks budget e input) := by
  induction budget generalizing e input with
  | zero =>
    exact inputStacks_distinct (k := 0) (fun e input hlt => absurd hlt (Nat.not_lt_zero _))
      (fun e input hlt => absurd hlt (Nat.not_lt_zero _)) _ e input hk (Nat.lt_succ_self _) h
  | succ budget ih =>
    exact inputStacks_distinct (k := budget + 1)
      (fun e input hlt => expandBudget_returns budget e input (by omega))
      (fun e input hlt h => ih e input (by omega) h) _ e input hk (Nat.lt_succ_self _) h

/-- However the expander returns, the stack is as it was before, and in no stack of
the run does a name occur twice. -/
theorem expansionStack_balanced (e : MacroExpander) (input : List Token) (h : DistinctNames (stackOf e)) :
    (∃ ok out e', macroExpanderExpand e input = some (ok, out, e') ∧ stackOf e' = stackOf e) ∧
      AllDistinct (expandStacks e input) := by
  obtain ⟨ok, out, e', hexpand, hframe⟩ := macroExpanderExpand_returns e input
  exact ⟨⟨ok, out, e', hexpand, hframe.stack⟩, budgetStacks_distinct _ e input (unexpanded_le e.table) h⟩

/-- `#define loop loop`, while `outer` is being expanded. -/
def loopExpander : MacroExpander :=
  let name : Token := { (default : Token) with type := .identifier, value := some "loop" }
  let outer : MacroDefinition := { (default : MacroDefinition) with name := "outer" }
  { (default : MacroExpander) with
    table :=
      { macroTableDefineObject macroTableCreate "loop" [name] emptyRange with
        expansionStack := [⟨outer, emptyRange, emptyRange⟩] } }

theorem expansionStack_balanced_loop :
    (∃ ok out e',
        macroExpanderExpand loopExpander (loopExpander.table.macros.flatMap (·.body)) = some (ok, out, e') ∧
        stackOf e' = stackOf loopExpander) ∧
      AllDistinct (expandStacks loopExpander (loopExpander.table.macros.flatMap (·.body))) :=
  expansionStack_balanced loopExpander _ (by simp [DistinctNames, stackOf, loopExpander])

end Fisics
