import Fisics.Preprocessor.Config

/-!
# Conditional groups as blocks

A well-nested stream of tokens is a tree: contents, and groups with their
branches. `Blocks.run` is the meaning of such a tree, by recursion: a group
selects its first branch whose condition is true, a condition is evaluated only
when the group is active and no branch was selected before, and a line is active
when every group around it has selected the branch it stands in. The walk keeps
a stack of frames instead. `walkTrace` is the walk with a record of its rounds:
the token a round starts at and the active flag there.
-/

namespace Fisics

-- Trees

def isConditionalType : TokenType → Bool
  | .ppIf | .ppElif | .ppElse | .endif | .ifdef | .ifndef => true
  | _ => false

structure CondLine where
  tok : Token
  line : List Token

def CondLine.tokens (d : CondLine) : List Token := d.tok :: d.line

mutual

inductive Blocks
  | content (tokens : List Token)
  | group (before : List Token) (opener : CondLine) (body : Blocks) (tail : Branches)
    (next : Blocks)

inductive Branches
  | endif (d : CondLine)
  | elif (d : CondLine) (body : Blocks) (tail : Branches)
  | otherwise (d : CondLine) (body : Blocks) (close : CondLine)

end

mutual

def Blocks.tokens : Blocks → List Token
  | .content tokens => tokens
  | .group before opener body tail next =>
    before ++ (opener.tokens ++ (body.tokens ++ (tail.tokens ++ next.tokens)))

def Branches.tokens : Branches → List Token
  | .endif d => d.tokens
  | .elif d body tail => d.tokens ++ (body.tokens ++ tail.tokens)
  | .otherwise d body close => d.tokens ++ (body.tokens ++ close.tokens)

end

-- Well-nested streams

/-- The directive has one of the types, and `line` is the rest of its line. -/
structure CondLine.Ok (d : CondLine) (types : List TokenType) (after : List Token) : Prop where
  type : d.tok.type ∈ types
  line : directiveLine d.tok (d.line ++ after) = d.line

structure DirectiveNext (tokens after : List Token) : Prop where
  next : ∀ u rest, after = u :: rest → isConditionalType u.type = true
  ownLine : ∀ u rest, after = u :: rest → ∀ t ∈ tokens, t.line ≠ u.line

structure ContentOk (tokens after : List Token) : Prop extends DirectiveNext tokens after where
  plain : ∀ t ∈ tokens, isConditionalType t.type = false

mutual

/-- `after` is what follows the tree in the stream. -/
def Blocks.WellNested : Blocks → (after : List Token) → Prop
  | .content tokens, after => ContentOk tokens after
  | .group before opener body tail next, after =>
    ContentOk before
        (opener.tokens ++ (body.tokens ++ (tail.tokens ++ (next.tokens ++ after)))) ∧
      opener.Ok [.ppIf, .ifdef, .ifndef] (body.tokens ++ (tail.tokens ++ (next.tokens ++ after))) ∧
      body.WellNested (tail.tokens ++ (next.tokens ++ after)) ∧
      tail.WellNested (next.tokens ++ after) ∧
      next.WellNested after

def Branches.WellNested : Branches → (after : List Token) → Prop
  | .endif d, after => d.Ok [.endif] after
  | .elif d body tail, after =>
    d.Ok [.ppElif] (body.tokens ++ (tail.tokens ++ after)) ∧
      body.WellNested (tail.tokens ++ after) ∧ tail.WellNested after
  | .otherwise d body close, after =>
    d.Ok [.ppElse] (body.tokens ++ (close.tokens ++ after)) ∧
      body.WellNested (close.tokens ++ after) ∧ close.Ok [.endif] after

end

instance : Decidable (CondLine.Ok d types after) :=
  decidable_of_iff (d.tok.type ∈ types ∧ directiveLine d.tok (d.line ++ after) = d.line)
    ⟨fun ⟨htype, hline⟩ => ⟨htype, hline⟩, fun h => ⟨h.type, h.line⟩⟩

theorem forall_head_iff {P : Token → Prop} :
    (∀ u ∈ after.head?, P u) ↔ ∀ u rest, after = u :: rest → P u := by
  cases after with
  | nil => simp
  | cons u rest => simp

instance : Decidable (ContentOk tokens after) :=
  decidable_of_iff
    ((∀ t ∈ tokens, isConditionalType t.type = false) ∧
      (∀ u ∈ after.head?, isConditionalType u.type = true) ∧
      ∀ u ∈ after.head?, ∀ t ∈ tokens, t.line ≠ u.line)
    (by
      rw [forall_head_iff, forall_head_iff]
      exact ⟨fun ⟨hplain, hnext, hline⟩ => ⟨⟨hnext, hline⟩, hplain⟩, fun h => ⟨h.plain, h.next, h.ownLine⟩⟩)

mutual

def Blocks.decWellNested : (b : Blocks) → (after : List Token) → Decidable (b.WellNested after)
  | .content tokens, after => inferInstanceAs (Decidable (ContentOk tokens after))
  | .group before opener body tail next, after =>
    have := body.decWellNested (tail.tokens ++ (next.tokens ++ after))
    have := tail.decWellNested (next.tokens ++ after)
    have := next.decWellNested after
    inferInstanceAs (Decidable (ContentOk before _ ∧ opener.Ok _ _ ∧ body.WellNested _ ∧
      tail.WellNested _ ∧ next.WellNested after))

def Branches.decWellNested : (b : Branches) → (after : List Token) →
    Decidable (b.WellNested after)
  | .endif d, after => inferInstanceAs (Decidable (d.Ok [.endif] after))
  | .elif d body tail, after =>
    have := body.decWellNested (tail.tokens ++ after)
    have := tail.decWellNested after
    inferInstanceAs (Decidable (d.Ok _ _ ∧ body.WellNested _ ∧ tail.WellNested after))
  | .otherwise d body close, after =>
    have := body.decWellNested (close.tokens ++ after)
    inferInstanceAs (Decidable (d.Ok _ _ ∧ body.WellNested _ ∧ close.Ok [.endif] after))

end

instance (b : Blocks) : Decidable (b.WellNested after) := b.decWellNested after

-- Runs with a record

/-- A run: the rounds, and the value or the state in which it fails; `none` when
it does not return. -/
def BlockRun (α : Type) : Type := Option (List (Token × Bool) × Except TextState α)

instance : Monad BlockRun where
  pure a := some ([], .ok a)
  bind x f := Option.bind x fun
    | (log, .ok a) => (f a).map fun (log', r) => (log ++ log', r)
    | (log, .error s) => some (log, .error s)

def BlockRun.round (tok : Token) (active : Bool) (x : BlockRun α) : BlockRun α :=
  Option.map (fun (log, r) => ((tok, active) :: log, r)) x

def BlockRun.fail (s : TextState) : BlockRun α := some ([], .error s)

def BlockRun.after (x : Option α) (f : α → BlockRun β) : BlockRun β := Option.bind x f

def BlockRun.outcome (x : BlockRun α) : Option (Except TextState α) := Option.map Prod.snd x

instance : LawfulMonad BlockRun := LawfulMonad.mk' BlockRun
  (fun x => by
    obtain _ | ⟨log, _ | a⟩ := x
    · rfl
    · rfl
    · show some (log ++ [], Except.ok a) = some (log, .ok a)
      rw [List.append_nil])
  (fun a f => by
    show Option.map _ (f a) = f a
    obtain _ | ⟨log, r⟩ := f a <;> rfl)
  (fun x f g => by
    obtain _ | ⟨log, _ | a⟩ := x
    · rfl
    · rfl
    · show Option.bind (Option.map _ (f a)) _ = Option.map _ (bind (m := BlockRun) (f a) g)
      obtain _ | ⟨log', _ | b⟩ := f a
      · rfl
      · rfl
      · show Option.map _ (g b) = Option.map _ (Option.map _ (g b))
        obtain _ | ⟨log'', r⟩ := g b
        · rfl
        · show some (log ++ log' ++ log'', r) = some (log ++ (log' ++ log''), r)
          rw [List.append_assoc])

theorem BlockRun.round_bind (tok : Token) (active : Bool) (x : BlockRun α) (f : α → BlockRun β) :
    BlockRun.round tok active x >>= f = BlockRun.round tok active (x >>= f) := by
  obtain _ | ⟨log, _ | a⟩ := x
  · rfl
  · rfl
  · show Option.map _ (f a) = Option.map _ (Option.map _ (f a))
    obtain _ | ⟨log', r⟩ := f a <;> rfl

theorem BlockRun.after_bind (x : Option α) (f : α → BlockRun β) (g : β → BlockRun γ) :
    BlockRun.after x f >>= g = BlockRun.after x (fun a => f a >>= g) := by
  obtain _ | a := x <;> rfl

theorem BlockRun.after_some (a : α) (f : α → BlockRun β) : BlockRun.after (some a) f = f a := rfl

theorem BlockRun.outcome_round (tok : Token) (active : Bool) (x : BlockRun α) :
    (BlockRun.round tok active x).outcome = x.outcome := by
  obtain _ | ⟨log, r⟩ := x <;> rfl

theorem BlockRun.outcome_after (x : Option α) (f : α → BlockRun β) :
    (BlockRun.after x f).outcome = x.bind (fun a => (f a).outcome) := by
  obtain _ | a := x <;> rfl

def flushRun (s : TextState) : BlockRun TextState :=
  let (ok, output, pp) := ppFlushChunk s.pp s.chunk s.output
  if ok then pure ⟨pp, [], output⟩ else .fail { s with pp, output }

-- The meaning of a tree

/-- `#ifdef` and `#ifndef` take one name. -/
def CondLine.nameOperand (directive : String) (after : List Token) (d : CondLine)
    (s : TextState) : BlockRun TextState :=
  let report (tok : Option Token) (message : String) : BlockRun TextState :=
    .fail { s with pp := ppReportDiag s.pp tok .error message }
  match d.line with
  | [] => report after.head? s!"expected identifier after #{directive}"
  | name :: more =>
    if tokenIsMacroIdentifier name then
      if more.isEmpty then pure s
      else report more.head? s!"unexpected tokens after #{directive} directive"
    else report (some name) s!"expected identifier after #{directive}"

def CondLine.noOperand (message : String) (d : CondLine) (s : TextState) : BlockRun TextState :=
  if d.line.isEmpty then pure s
  else .fail { s with pp := ppReportDiag s.pp d.line.head? .error message }

/-- The operands of a line are checked before anything else is done with it, also
where it is skipped. -/
def CondLine.check (after : List Token) (d : CondLine) (s : TextState) : BlockRun TextState :=
  match d.tok.type with
  | .ifdef => d.nameOperand "ifdef" after s
  | .ifndef => d.nameOperand "ifndef" after s
  | .ppElse => d.noOperand "unexpected tokens after #else directive" s
  | .endif => d.noOperand "unexpected tokens after #endif directive" s
  | _ => pure s

def CondLine.condition (eval : EvalCondition) (d : CondLine) (s : TextState) :
    BlockRun (Bool × TextState) :=
  let defined := d.line.head?.any fun name =>
    (macroTableLookup s.pp.table (tokenText name)).isSome
  let evaluated (message : String) : BlockRun (Bool × TextState) :=
    BlockRun.after (evalDirective eval s.pp d.tok d.line message) fun
      | (some value, pp) => pure (value, { s with pp })
      | (none, pp) => .fail { s with pp }
  match d.tok.type with
  | .ifdef => pure (defined, s)
  | .ifndef => pure (!defined, s)
  | .ppElif => evaluated "invalid #elif expression"
  | _ => evaluated "invalid #if expression"

def CondLine.choose (eval : EvalCondition) (current evaluate : Bool) (after : List Token)
    (d : CondLine) (s : TextState) : BlockRun (Bool × TextState) :=
  BlockRun.round d.tok current do
    let s ← flushRun s
    let s ← d.check after s
    if evaluate then d.condition eval s else pure (false, s)

/-- The line of `#else`. -/
def CondLine.turn (current : Bool) (after : List Token) (d : CondLine) (s : TextState) :
    BlockRun TextState :=
  BlockRun.round d.tok current do
    let s ← flushRun s
    d.check after s

/-- The line of `#endif`, which is kept in the output when the branch it ends is
active. -/
def CondLine.close (current : Bool) (after : List Token) (d : CondLine) (s : TextState) :
    BlockRun TextState :=
  BlockRun.round d.tok current do
    let s ← flushRun s
    let s ← d.check after s
    pure (if current then preserveLine s d.tok (d.line ++ after) else s)

section
variable (handler : IncludeHandler) (eval : EvalCondition)

def contentRun (active : Bool) (after : List Token) : (first : Bool) → (skip : Nat) →
    List Token → TextState → BlockRun TextState
  | _, _, [], s => pure s
  | _, skip + 1, _ :: rest, s => contentRun active after false skip rest s
  | first, 0, tok :: rest, s =>
    BlockRun.round tok active
      (BlockRun.after (contentStep handler first active s tok (rest ++ after)) fun
        | .next taken s => contentRun active after false taken rest s
        | .stop s => .fail s)

mutual

def Blocks.run (first active : Bool) (after : List Token) : Blocks → TextState →
    BlockRun TextState
  | .content tokens, s => contentRun handler active after first 0 tokens s
  | .group before opener body tail next, s => do
    let afterTail := next.tokens ++ after
    let afterBody := tail.tokens ++ afterTail
    let afterOpener := body.tokens ++ afterBody
    let s ← contentRun handler active (opener.tokens ++ afterOpener) first 0 before s
    let (chosen, s) ← opener.choose eval active active afterOpener s
    let selected := active && chosen
    let s ← body.run false selected afterBody s
    let s ← tail.run active selected selected afterTail s
    next.run false active after s

/-- `active` is the flag around the group, `current` that of the branch before,
and `taken` says that a branch was selected. -/
def Branches.run (active current taken : Bool) (after : List Token) : Branches → TextState →
    BlockRun TextState
  | .endif d, s => d.close current after s
  | .elif d body tail, s => do
    let (chosen, s) ← d.choose eval current (active && !taken) (body.tokens ++ (tail.tokens ++ after)) s
    let s ← body.run false (active && chosen) (tail.tokens ++ after) s
    tail.run active (active && chosen) (taken || chosen) after s
  | .otherwise d body close, s => do
    let s ← d.turn current (body.tokens ++ (close.tokens ++ after)) s
    let s ← body.run false (active && !taken) (close.tokens ++ after) s
    close.close (active && !taken) after s

end

-- The walk with its record

def walkTrace : (first : Bool) → (skip : Nat) → WalkState → List Token → BlockRun WalkState
  | _, _, s, [] => pure s
  | _, skip + 1, s, _ :: rest => walkTrace false skip s rest
  | first, 0, s, tok :: rest =>
    BlockRun.round tok s.active
      (BlockRun.after (walkStep handler eval first s tok rest) fun
        | .next taken s => walkTrace false taken s rest
        | .stop s => .fail s)

theorem walkTrace_outcome (first : Bool) (skip : Nat) (s : WalkState) (tokens : List Token) :
    (walkTrace handler eval first skip s tokens).outcome = walkLoop handler eval first skip s tokens := by
  induction tokens generalizing first skip s with
  | nil => cases skip <;> rfl
  | cons tok rest ih =>
    cases skip with
    | succ skip => exact ih false skip s
    | zero => ?_
    unfold walkTrace walkLoop
    rw [BlockRun.outcome_round, BlockRun.outcome_after]
    congr 1
    funext step
    cases step with
    | stop t => rfl
    | next taken t => exact ih false taken t

def EveryRound (P : WalkState → Token → List Token → Prop) : (first : Bool) → (skip : Nat) →
    WalkState → List Token → Prop
  | _, _, _, [] => True
  | _, skip + 1, s, _ :: rest => EveryRound P false skip s rest
  | first, 0, s, tok :: rest =>
    P s tok rest ∧ ∀ taken s', walkStep handler eval first s tok rest = some (.next taken s') →
      EveryRound P false taken s' rest

theorem everyRound_of_tokens (P : WalkState → Token → List Token → Prop)
    (h : ∀ tok ∈ tokens, ∀ s rest, P s tok rest) (first : Bool) (skip : Nat) (s : WalkState) :
    EveryRound handler eval P first skip s tokens := by
  induction tokens generalizing first skip s with
  | nil => cases skip <;> trivial
  | cons tok rest ih =>
    have hrest : ∀ tok ∈ rest, ∀ s more, P s tok more := fun t ht => h t (List.mem_cons_of_mem tok ht)
    cases skip with
    | succ skip => exact ih hrest false skip s
    | zero => exact ⟨h tok List.mem_cons_self s rest, fun taken s' _ => ih hrest false taken s'⟩

end

end Fisics
