import Fisics.Preprocessor.State
import Fisics.Preprocessor.ExpanderLaws
import Mathlib.Logic.Relation

/-!
# Preparing the tokens of a condition

`pp_prepare_expr_tokens` reads the tokens of an `#if` line from left to right:
`__has_include`, the builtin probes and `defined` with their operands, and
between them spans that are macro expanded. One round of its outer loop is
`prepareStep`. A span ends before a token spelled `defined` of any type, and the
branch for `defined` takes an identifier only: at a string literal with that
text a round takes no token, and the loop does not end. The main theorem says
that this is the only way.
-/

namespace Fisics

-- One round

def isHasInclude (tok : Token) : Bool :=
  tok.value == some "__has_include" || tok.value == some "__has_include_next"

/-- The operand of `__has_include` without its parentheses: the name and whether
it stands in angle brackets, and how many tokens were read. -/
def hasIncludeName (tokens : List Token) : Option (List Char × Bool) × Nat :=
  match tokens with
  | [] => (none, 0)
  | tok :: rest =>
    match tok.type, tok.value with
    | .string, some text => (some (stripIncludeSpaces (text.toList.take 1023), false), 1)
    | .less, _ =>
      let r := angleIncludeName (fun tok => tok.type != .eof) [] rest
      (r.1.map (fun name => (stripIncludeSpaces name, true)), r.2 + 1)
    | _, _ => (none, 0)

def hasIncludeOperand (rest : List Token) : Option (List Char × Bool) × Nat :=
  let hasParen := headIs .lparen rest
  let (name, taken) := hasIncludeName (if hasParen then rest.tail else rest)
  let taken := taken + hasParen.toNat
  (name, taken + (hasParen && headIs .rparen (rest.drop taken)).toNat)

def builtinProbeFallback (name : String) : Option String :=
  if name ∈ ["__has_builtin", "__has_extension", "__has_feature", "__has_attribute",
      "__has_c_attribute", "__has_declspec_attribute", "__has_warning"] then some "0"
  else if name = "__is_identifier" then some "1"
  else none

def consumeParenthesized : (depth : Nat) → List Token → Option Nat
  | _, [] => none
  | depth, tok :: rest =>
    if tok.type = .eof then none
    else if tok.type = .lparen then (consumeParenthesized (depth + 1) rest).map (· + 1)
    else if tok.type = .rparen then
      if depth = 1 then some 1 else (consumeParenthesized (depth - 1) rest).map (· + 1)
    else (consumeParenthesized depth rest).map (· + 1)

def ppNumberLiteral (pp : Preprocessor) (base : Token) (text : String) : Token :=
  { ppTokenCloneRemap pp base with type := .number, value := some text }

def appendExprToken (pp : Preprocessor) (out : List Token) (tok : Token) :
    List Token × Preprocessor :=
  if tok.type = .identifier ∧ tok.value = some "__LINE__" then
    (out ++ [ppNumberLiteral pp tok (toString (ppTokenCloneRemap pp tok).location.start.line)], pp)
  else if tok.type = .identifier ∧ tok.value = some "__COUNTER__" then
    (out ++ [ppNumberLiteral pp tok (toString pp.counter)], { pp with counter := pp.counter + 1 })
  else if tok.type = .identifier ∧ (tok.value = some "__FILE__" ∨ tok.value = some "__BASE_FILE__" ∨
      tok.value = some "__DATE__" ∨ tok.value = some "__TIME__") then
    (out ++ [ppNumberLiteral pp tok "0"], pp)
  else (out ++ [ppTokenCloneRemap pp tok], pp)

def appendExprTokens (pp : Preprocessor) (out tokens : List Token) : List Token × Preprocessor :=
  tokens.foldl (fun r tok => appendExprToken r.2 r.1 tok) (out, pp)

/-- A round of the outer loop: it goes on behind `taken` tokens, or the call
fails. -/
inductive PrepareStep
  | moved (taken : Nat) (out : List Token) (pp : Preprocessor)
  | failed (pp : Preprocessor)

def prepareHasInclude (host : Host) (pp : Preprocessor) (out : List Token) (tok : Token)
    (rest : List Token) : PrepareStep :=
  let (name, taken) := hasIncludeOperand rest
  let (present, pp) := match name with
    | some (name, isSystem) =>
      if name.isEmpty then (false, pp)
      else
        let (found, pp) := pp.load host ⟨tokenFile tok, String.ofList name, isSystem,
          tok.value == some "__has_include_next"⟩
        (found.isSome, pp)
    | none => (false, pp)
  .moved (taken + 1) (out ++ [ppNumberLiteral pp tok (if present then "1" else "0")]) pp

/-- The operand of `defined`: an opening parenthesis, one token of any kind and
a closing parenthesis, each where it is there. -/
def definedOperandLength (rest : List Token) : Nat :=
  let opening := (headIs .lparen rest).toNat
  let operand := if (rest.drop opening).isEmpty then 0 else 1
  opening + operand + (headIs .rparen (rest.drop (opening + operand))).toNat

def prepareDefined (pp : Preprocessor) (out : List Token) (tok : Token) (rest : List Token) :
    PrepareStep :=
  let taken := definedOperandLength rest + 1
  let (out, pp) := appendExprTokens pp out ((tok :: rest).take taken)
  .moved taken out pp

def endsSpan (tok : Token) : Bool :=
  tok.value == some "defined" || isHasInclude tok || tok.type == .eof

def prepareSpan (pp : Preprocessor) (out tokens : List Token) : PrepareStep :=
  let span := tokens.takeWhile (fun tok => !endsSpan tok)
  if span.isEmpty then .moved 0 out pp
  else
    match macroExpanderExpand { pp.expander with preserveDefinedOperands := true } span with
    | some (true, expanded, expander) =>
      let (out, pp) := appendExprTokens (pp.withExpander expander) out expanded
      .moved span.length out pp
    | some (false, _, expander) => .failed (pp.withExpander expander)
    | none => .failed pp

def builtinProbeCall (table : MacroTable) (tok : Token) (rest : List Token) :
    Option (String × Nat) :=
  match tok.value with
  | none => none
  | some name =>
    match builtinProbeFallback name, macroTableLookup table name with
    | some fallback, none =>
      if headIs .lparen rest then (consumeParenthesized 0 rest).map (fun n => (fallback, n + 1))
      else none
    | _, _ => none

def prepareStep (host : Host) (pp : Preprocessor) (out : List Token) (tok : Token)
    (rest : List Token) : PrepareStep :=
  if isHasInclude tok then prepareHasInclude host pp out tok rest
  else
    match builtinProbeCall pp.table tok rest with
    | some (fallback, taken) => .moved taken (out ++ [ppNumberLiteral pp tok fallback]) pp
    | none =>
      if tok.type = .identifier ∧ tok.value = some "defined" then prepareDefined pp out tok rest
      else prepareSpan pp out (tok :: rest)

-- The loop

/-- The outer loop, stopped after a number of rounds: `none` when it has not
returned by then. -/
def prepareLoop (host : Host) : (rounds : Nat) → (out : List Token) → Preprocessor → List Token →
    Option (Bool × List Token × Preprocessor)
  | _, out, pp, [] => some (true, out, pp)
  | 0, _, _, _ :: _ => none
  | rounds + 1, out, pp, tok :: rest =>
    match prepareStep host pp out tok rest with
    | .moved taken out pp => prepareLoop host rounds out pp ((tok :: rest).drop taken)
    | .failed pp => some (false, out, pp)

/-- `none` when the call does not return: a round that takes no token repeats
itself, so a loop that returns has no more rounds than tokens
(`prepareLoop_rounds`). -/
def ppPrepareExprTokens (host : Host) (pp : Preprocessor) (tokens : List Token) :
    Option (Bool × List Token × Preprocessor) :=
  prepareLoop host tokens.length [] pp tokens

structure PrepareState where
  out : List Token
  pp : Preprocessor
  tokens : List Token

/-- The state at the start of the next round; `none` when the call returns. -/
def prepareNext (host : Host) (s : PrepareState) : Option PrepareState :=
  match s.tokens with
  | [] => none
  | tok :: rest =>
    match prepareStep host s.pp s.out tok rest with
    | .moved taken out pp => some ⟨out, pp, (tok :: rest).drop taken⟩
    | .failed _ => none

def PrepareReaches (host : Host) (pp : Preprocessor) (tokens : List Token) : PrepareState → Prop :=
  Relation.ReflTransGen (fun s s' => prepareNext host s = some s') ⟨[], pp, tokens⟩

def PrepareReturns (host : Host) (pp : Preprocessor) (tokens : List Token) : Prop :=
  ∃ rounds result, prepareLoop host rounds [] pp tokens = some result

def RoundAdvances (host : Host) (s : PrepareState) : Prop :=
  ∀ s', prepareNext host s = some s' → s'.tokens.length < s.tokens.length

/-- A token spelled `defined` that is no identifier: a string literal, say. -/
def isStrayDefined (tok : Token) : Bool :=
  tok.value == some "defined" && tok.type != .identifier

-- A round takes a token unless it starts at a stray `defined`

theorem builtinProbeCall_taken (h : builtinProbeCall table tok rest = some (fallback, taken)) :
    0 < taken := by
  unfold builtinProbeCall at h
  split at h
  · cases h
  split at h
  · split at h
    · obtain ⟨n, -, heq⟩ := Option.map_eq_some_iff.mp h
      cases heq
      exact Nat.succ_pos n
    · cases h
  · cases h

theorem prepareSpan_taken (hend : endsSpan tok = false)
    (h : prepareSpan pp out (tok :: rest) = .moved taken out' pp') : 0 < taken := by
  unfold prepareSpan at h
  rw [List.takeWhile_cons_of_pos (by simp [hend])] at h
  dsimp only at h
  split at h
  · rename_i hempty
    cases hempty
  split at h
  · cases h
    exact Nat.succ_pos _
  · cases h
  · cases h

theorem endsSpan_eq (hhas : isHasInclude tok = false) (heof : tok.type ≠ .eof)
    (hdef : ¬(tok.type = .identifier ∧ tok.value = some "defined")) :
    endsSpan tok = isStrayDefined tok := by
  by_cases hv : tok.value = some "defined"
  · have ht : tok.type ≠ .identifier := fun ht => hdef ⟨ht, hv⟩
    simp [endsSpan, isStrayDefined, hv, ht]
  have heof : (tok.type == .eof) = false := by simpa using heof
  simp [endsSpan, isStrayDefined, hv, hhas, heof]

theorem prepareStep_taken (heof : tok.type ≠ .eof) (hstray : isStrayDefined tok = false)
    (h : prepareStep host pp out tok rest = .moved taken out' pp') : 0 < taken := by
  unfold prepareStep at h
  split at h
  · cases h
    exact Nat.succ_pos _
  rename_i hhas
  split at h
  · rename_i hprobe
    cases h
    exact builtinProbeCall_taken hprobe
  split at h
  · cases h
    exact Nat.succ_pos _
  rename_i hdef
  have hend := endsSpan_eq (by simpa using hhas) heof hdef
  exact prepareSpan_taken (hend.trans hstray) h

theorem prepareStep_stray (hstray : isStrayDefined tok = true) :
    prepareStep host pp out tok rest = .moved 0 out pp := by
  obtain ⟨hv, ht⟩ : tok.value = some "defined" ∧ tok.type ≠ .identifier := by
    simpa [isStrayDefined] using hstray
  have hhas : isHasInclude tok = false := by simp [isHasInclude, hv]
  have hprobe : builtinProbeCall pp.table tok rest = none := by
    simp [builtinProbeCall, hv, builtinProbeFallback]
  have hend : endsSpan tok = true := by simp [endsSpan, hv]
  simp [prepareStep, hhas, hprobe, ht, prepareSpan, hend]

-- Runs

theorem prepareLoop_stray (host : Host) (out : List Token) (pp : Preprocessor)
    (rest : List Token) (hstray : isStrayDefined tok = true) (rounds : Nat) :
    prepareLoop host rounds out pp (tok :: rest) = none := by
  induction rounds with
  | zero => rfl
  | succ rounds ih =>
    unfold prepareLoop
    rw [prepareStep_stray hstray]
    exact ih

theorem prepareNext_advances (heof : ∀ tok ∈ s.tokens, tok.type ≠ .eof)
    (hstray : ∀ tok, s.tokens.head? = some tok → isStrayDefined tok = false) :
    RoundAdvances host s := by
  intro s' h
  unfold prepareNext at h
  split at h
  · cases h
  rename_i tok rest htokens
  rw [htokens] at heof hstray ⊢
  split at h
  · rename_i hstep
    cases h
    have htaken := prepareStep_taken (heof tok List.mem_cons_self) (hstray tok rfl) hstep
    simp only [List.length_drop, List.length_cons]
    omega
  · cases h

theorem prepareNext_mem (h : prepareNext host s = some s') (hmem : tok ∈ s'.tokens) : tok ∈ s.tokens := by
  unfold prepareNext at h
  split at h
  · cases h
  rename_i htokens
  rw [htokens]
  split at h
  · cases h
    exact List.mem_of_mem_drop hmem
  · cases h

theorem prepareLoop_succ (rounds : Nat) (s : PrepareState) (h : prepareNext host s = some s') :
    prepareLoop host (rounds + 1) s.out s.pp s.tokens = prepareLoop host rounds s'.out s'.pp s'.tokens := by
  unfold prepareNext at h
  split at h
  · cases h
  rename_i htokens
  rw [htokens, prepareLoop]
  split at h
  · cases h
    rfl
  · cases h

theorem prepareLoop_last (rounds : Nat) (s : PrepareState) (h : prepareNext host s = none) :
    ∃ result, prepareLoop host (rounds + 1) s.out s.pp s.tokens = some result := by
  unfold prepareNext at h
  split at h
  · rename_i htokens
    rw [htokens]
    exact ⟨_, rfl⟩
  rename_i htokens
  rw [htokens, prepareLoop]
  split at h
  · cases h
  · exact ⟨_, rfl⟩

section
variable {host : Host}

theorem prepareLoop_returns (n : Nat) (s : PrepareState) (hn : s.tokens.length < n)
    (heof : ∀ tok ∈ s.tokens, tok.type ≠ .eof)
    (hstray : ∀ s', Relation.ReflTransGen (fun s s' => prepareNext host s = some s') s s' →
      ∀ tok, s'.tokens.head? = some tok → isStrayDefined tok = false) :
    ∃ result, prepareLoop host n s.out s.pp s.tokens = some result := by
  induction n generalizing s with
  | zero => exact absurd hn (Nat.not_lt_zero _)
  | succ n ih =>
    cases hnext : prepareNext host s with
    | none => exact prepareLoop_last n s hnext
    | some s' => ?_
    have hadv := prepareNext_advances heof (hstray s .refl) s' hnext
    rw [prepareLoop_succ n s hnext]
    refine ih s' (by omega) (fun tok hmem => heof tok (prepareNext_mem hnext hmem)) ?_
    intro s'' hreach
    exact hstray s'' (.head hnext hreach)

theorem prepareLoop_reaches (hreach : Relation.ReflTransGen (fun s s' => prepareNext host s = some s') s s')
    (hloop : ∃ rounds result, prepareLoop host rounds s.out s.pp s.tokens = some result) :
    ∃ rounds result, prepareLoop host rounds s'.out s'.pp s'.tokens = some result := by
  induction hreach using Relation.ReflTransGen.head_induction_on with
  | refl => exact hloop
  | @head s s₁ hnext _ ih =>
    obtain ⟨rounds, result, hloop⟩ := hloop
    cases rounds with
    | zero => ?_
    | succ rounds =>
      rw [prepareLoop_succ rounds s hnext] at hloop
      exact ih ⟨rounds, result, hloop⟩
    unfold prepareNext at hnext
    split at hnext
    · cases hnext
    rename_i htokens
    rw [htokens] at hloop
    cases hloop

end

/-- The call returns, with every round moving the cursor, exactly when no round
starts at a token spelled `defined` that is no identifier. -/
theorem ppPrepareExprTokens_terminates_iff (host : Host) (pp : Preprocessor) (tokens : List Token)
    (heof : ∀ tok ∈ tokens, tok.type ≠ .eof) :
    (PrepareReturns host pp tokens ∧
        ∀ s, PrepareReaches host pp tokens s → RoundAdvances host s) ↔
      ∀ s, PrepareReaches host pp tokens s → ∀ tok, s.tokens.head? = some tok →
        isStrayDefined tok = false := by
  constructor
  · rintro ⟨hreturns, -⟩ s hreach tok hhead
    obtain ⟨rounds, result, hloop⟩ := prepareLoop_reaches hreach hreturns
    cases hs : s.tokens with
    | nil => simp [hs] at hhead
    | cons t rest => ?_
    obtain rfl : t = tok := by simpa [hs] using hhead
    cases hstray : isStrayDefined t with
    | false => rfl
    | true => rw [hs, prepareLoop_stray _ _ _ _ hstray] at hloop; cases hloop
  · intro hstray
    have hmem : ∀ s, PrepareReaches host pp tokens s → ∀ tok ∈ s.tokens, tok.type ≠ .eof := by
      intro s hreach
      induction hreach with
      | refl => exact heof
      | tail _ hnext ih => exact fun tok hin => ih tok (prepareNext_mem hnext hin)
    refine ⟨⟨tokens.length + 1, ?_⟩, fun s hreach => ?_⟩
    · exact prepareLoop_returns _ ⟨[], pp, tokens⟩ (Nat.lt_succ_self _) heof hstray
    · exact prepareNext_advances (hmem s hreach) (hstray s hreach)

/-- The line `defined(__linux__)`. -/
def definedLinux : List Token :=
  [makeSimpleToken .identifier "defined" (fileLine "a.c" 1 5),
    makeSimpleToken .lparen "(" (fileLine "a.c" 1 12),
    makeSimpleToken .identifier "__linux__" (fileLine "a.c" 1 13),
    makeSimpleToken .rparen ")" (fileLine "a.c" 1 22)]

theorem ppPrepareExprTokens_terminates_iff_definedLinux :
    (∀ tok ∈ definedLinux, tok.type ≠ .eof) ∧
      ((PrepareReturns noFiles (preprocessorInit false false false .internal) definedLinux ∧
          ∀ s, PrepareReaches noFiles (preprocessorInit false false false .internal) definedLinux s →
            RoundAdvances noFiles s) ↔
        ∀ s, PrepareReaches noFiles (preprocessorInit false false false .internal) definedLinux s →
          ∀ tok, s.tokens.head? = some tok → isStrayDefined tok = false) :=
  ⟨by decide, ppPrepareExprTokens_terminates_iff _ _ _ (by decide)⟩

/-- The line `#if "defined"`. -/
def stringDefined : List Token := [makeSimpleToken .string "defined" (fileLine "a.c" 1 5)]

theorem stringDefined_not_terminates :
    (∀ tok ∈ stringDefined, tok.type ≠ .eof) ∧
      ¬(PrepareReturns noFiles (preprocessorInit false false false .internal) stringDefined ∧
        ∀ s, PrepareReaches noFiles (preprocessorInit false false false .internal) stringDefined s →
          RoundAdvances noFiles s) := by
  refine ⟨by decide, ?_⟩
  rintro ⟨⟨rounds, result, hloop⟩, -⟩
  have hnone := prepareLoop_stray noFiles [] (preprocessorInit false false false .internal) []
    (show isStrayDefined (makeSimpleToken .string "defined" (fileLine "a.c" 1 5)) by decide) rounds
  rw [stringDefined, hnone] at hloop
  cases hloop

end Fisics
