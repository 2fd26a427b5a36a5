import Fisics.Preprocessor.BlocksCorrect

/-!
# How far a round looks

A round that starts before a conditional directive does not look behind the line
of the directive. So two streams that agree up to the directive and its line are
walked alike up to it. `u` is the directive, `more` and `more'` what follows it in
the two streams.
-/

namespace Fisics

section
variable {u : Token} (hu : isConditionalType u.type = true)

-- Scans

theorem lineTokens_before (ts more : List Token) (h : u.line ≠ line) :
    lineTokens line (ts ++ u :: more) = lineTokens line ts := by
  have hstop : (u.type != TokenType.eof && u.line == line) = false := by simp [h]
  unfold lineTokens
  induction ts with
  | nil => simp [hstop]
  | cons t ts ih =>
    rw [List.cons_append, List.takeWhile_cons, List.takeWhile_cons, ih]

include hu in
theorem macroParameterLoop_before (ts more more' : List Token) :
    macroParameterLoop expectParam variadic names (ts ++ u :: more) =
      macroParameterLoop expectParam variadic names (ts ++ u :: more') := by
  induction ts generalizing expectParam variadic names with
  | nil =>
    simp only [List.nil_append, macroParameterLoop]
    cases ht : u.type <;> simp_all [isConditionalType]
  | cons t ts ih =>
    simp only [List.cons_append, macroParameterLoop, ih]

theorem head_before (ts more more' : List Token) : (ts ++ u :: more).head? = (ts ++ u :: more').head? := by
  cases ts <;> rfl

theorem headIs_before (ts more more' : List Token) :
    headIs type (ts ++ u :: more) = headIs type (ts ++ u :: more') := by
  cases ts <;> rfl

include hu in
theorem ne_of_conditional (htype : isConditionalType type = false) : u.type ≠ type := by
  intro h
  rw [h, htype] at hu
  cases hu

include hu in
theorem parseMacroParameters_before (ts more more' : List Token) :
    parseMacroParameters (ts ++ u :: more) = parseMacroParameters (ts ++ u :: more') := by
  unfold parseMacroParameters
  cases ts with
  | nil =>
    have hopen : u.type ≠ .lparen := ne_of_conditional hu rfl
    simp [headIs, hopen]
  | cons t ts =>
    simp only [List.cons_append, List.tail_cons, headIs_before ts more more',
      macroParameterLoop_before hu ts more more']
    rfl

theorem angleIncludeName_before (inOperand : Token → Bool) (name : List Char)
    (ts more more' : List Token) (h : inOperand u = false) :
    angleIncludeName inOperand name (ts ++ u :: more) =
      angleIncludeName inOperand name (ts ++ u :: more') := by
  induction ts generalizing name with
  | nil => simp [angleIncludeName, h]
  | cons t ts ih => simp only [List.cons_append, angleIncludeName, ih]

include hu in
theorem ppSkipPragmaOperator_before (ts more more' : List Token) :
    ppSkipPragmaOperator (tok :: (ts ++ u :: more)) = ppSkipPragmaOperator (tok :: (ts ++ u :: more')) := by
  have hopen : u.type ≠ .lparen := ne_of_conditional hu rfl
  have hstring : u.type ≠ .string := ne_of_conditional hu rfl
  unfold ppSkipPragmaOperator
  obtain _ | ⟨t, _ | ⟨t', ts⟩⟩ := ts
  · simp [headIs, hopen]
  · simp [headIs, hstring]
  · simp only [List.cons_append, headIs, List.tail_cons]
    by_cases ht' : t'.type = .string
    · simp only [ht', BEq.rfl, ↓reduceIte]
      cases ts <;> rfl
    · simp [ht']

theorem skipUnnamedDefine_before (first : Bool) (ts more more' : List Token) (hts : ∀ t ∈ ts, t.line ≠ u.line)
    (hline : (lineTokens u.line (u :: more)).length = (lineTokens u.line (u :: more')).length) :
    skipUnnamedDefine first (ts ++ u :: more) = skipUnnamedDefine first (ts ++ u :: more') := by
  unfold skipUnnamedDefine
  cases ts with
  | nil => simp only [List.nil_append, hline]
  | cons t ts => ?_
  have hne := (hts t List.mem_cons_self).symm
  have h := lineTokens_before (t :: ts) more hne
  have h' := lineTokens_before (t :: ts) more' hne
  simp only [List.cons_append] at h h' ⊢
  rw [h, h']

theorem directiveLine_before (ts more : List Token) (h : tok.line ≠ u.line) :
    directiveLine tok (ts ++ u :: more) = directiveLine tok ts :=
  lineTokens_before ts more h.symm

-- Include directives

include hu in
theorem parseIncludeOperand_before (ts more more' : List Token) (htok : tok.line ≠ u.line) :
    parseIncludeOperand tok (ts ++ u :: more) = parseIncludeOperand tok (ts ++ u :: more') := by
  have hdrop : ∀ k ≤ ts.length, lineTokens tok.line ((ts ++ u :: more).drop k) =
      lineTokens tok.line ((ts ++ u :: more').drop k) := by
    intro k hk
    rw [List.drop_append_of_le_length hk, List.drop_append_of_le_length hk,
      lineTokens_before _ more htok.symm, lineTokens_before _ more' htok.symm]
  cases ts with
  | nil =>
    have hstring : u.type ≠ .string := ne_of_conditional hu rfl
    have hless : u.type ≠ .less := ne_of_conditional hu rfl
    unfold parseIncludeOperand
    split <;> simp_all
  | cons t ts =>
    simp only [List.cons_append] at hdrop ⊢
    unfold parseIncludeOperand
    dsimp only
    split
    · simp only [Option.bind_some, hdrop 1 (Nat.succ_le_succ (Nat.zero_le _))]
    · have hin : (u.type != TokenType.eof && u.line == tok.line) = false := by simp [htok.symm]
      have hname := angleIncludeName_before (fun t => t.type != TokenType.eof && t.line == tok.line)
        [] ts more more' hin
      have hle := fun name' taken => angleIncludeName_le
        (fun t => t.type != TokenType.eof && t.line == tok.line) [] name' taken (u :: more) ts
        (by
          intro v rest hv
          cases hv
          exact hin)
      rw [← hname]
      generalize angleIncludeName (fun t => t.type != TokenType.eof && t.line == tok.line) []
        (ts ++ u :: more) = r at hle ⊢
      obtain ⟨_ | name, taken⟩ := r
      · rfl
      · simp only [Option.map_some, Option.bind_some,
          hdrop (taken + 1) (Nat.succ_le_succ (hle name taken rfl))]
    · rfl

structure SameOperand (tok : Token) (rest rest' : List Token) : Prop where
  parse : parseIncludeOperand tok rest = parseIncludeOperand tok rest'
  line : directiveLine tok rest = directiveLine tok rest'
  operand : rest.take (includeTaken tok rest) = rest'.take (includeTaken tok rest)

theorem SameOperand.taken (h : SameOperand tok rest rest') :
    includeTaken tok rest = includeTaken tok rest' := by
  unfold includeTaken
  rw [h.parse, h.line]

def HandlerLocal (handler : IncludeHandler) : Prop :=
  ∀ pp tok rest rest' output isIncludeNext, SameOperand tok rest rest' →
    handler pp tok rest output isIncludeNext = handler pp tok rest' output isIncludeNext

theorem SameOperand.includeOperand (h : SameOperand tok rest rest') (pp : Preprocessor) :
    includeOperand pp tok rest = includeOperand pp tok rest' := by
  unfold Fisics.includeOperand
  rw [h.parse, h.line]

theorem includeOperand_taken (h : includeOperand pp tok rest = (.ok (name, isSystem, taken), pp')) :
    taken = includeTaken tok rest := by
  unfold includeOperand at h
  unfold includeTaken
  split at h
  · cases h
    rw [‹parseIncludeOperand tok rest = _›]
  rename_i hparse
  rw [hparse]
  dsimp only at h
  split at h
  · split at h
    · cases h
      rfl
    · cases h
  · cases h
  · cases h

theorem getD_take (h : rest.take k = rest'.take k) (tok : Token) :
    (tok :: rest).getD k tok = (tok :: rest').getD k tok := by
  cases k with
  | zero => rfl
  | succ k =>
    have hk := congrArg (·[k]?) h
    simpa [List.getElem?_take] using congrArg (·.getD tok) hk

theorem processIncludeWith_local (host : Host) (handler : IncludeHandler) :
    HandlerLocal (processIncludeWith host handler) := by
  intro pp tok rest rest' output isIncludeNext h
  unfold processIncludeWith
  rw [← h.includeOperand pp]
  split
  · rfl
  rename_i name isSystem taken pp' hoperand
  have htaken := includeOperand_taken hoperand
  rw [htaken, getD_take h.operand tok]

theorem processInclude_local (host : Host) (depth : Nat) : HandlerLocal (processInclude host depth) := by
  cases depth with
  | zero => exact fun _ _ _ _ _ _ _ => rfl
  | succ depth => exact processIncludeWith_local host _

-- Rounds

structure Before (u tok : Token) (ts : List Token) : Prop where
  tok : tok.line ≠ u.line
  rest : ∀ t ∈ ts, t.line ≠ u.line

variable {tok : Token} {ts : List Token} (hb : Before u tok ts)

include hu hb in
theorem Before.directiveNext (more : List Token) : DirectiveNext (tok :: ts) (u :: more) where
  next v rest hv := by
    cases hv
    exact hu
  ownLine v rest hv t ht := by
    cases hv
    obtain rfl | ht := List.mem_cons.mp ht
    · exact hb.tok
    · exact hb.rest t ht

section
variable (more more' : List Token)

include hb in
theorem ownLine_before :
    directiveLine tok (ts ++ u :: more) = directiveLine tok (ts ++ u :: more') := by
  rw [directiveLine_before ts more hb.tok, directiveLine_before ts more' hb.tok]

include hu hb in
theorem sameOperand_before :
    SameOperand tok (ts ++ u :: more) (ts ++ u :: more') := by
  refine ⟨parseIncludeOperand_before hu ts more more' hb.tok, ownLine_before hb more more', ?_⟩
  have hle := (hb.directiveNext hu more).includeTaken_le
  rw [List.take_append_of_le_length hle, List.take_append_of_le_length hle]

include hu hb in
theorem processDefine_before (hline : (lineTokens u.line (u :: more)).length =
    (lineTokens u.line (u :: more')).length) :
    processDefine first pp tok (ts ++ u :: more) = processDefine first pp tok (ts ++ u :: more') := by
  have hskip := skipUnnamedDefine_before first ts more more' hb.rest hline
  cases ts with
  | nil =>
    have hname := conditional_not_macroType hu
    simp only [List.nil_append] at hskip ⊢
    simp [processDefine, hname, hskip]
  | cons nameTok ts => ?_
  have hbody : ∀ k ≤ ts.length, lineTokens tok.line ((ts ++ u :: more).drop k) =
      lineTokens tok.line ((ts ++ u :: more').drop k) := by
    intro k hk
    rw [List.drop_append_of_le_length hk, List.drop_append_of_le_length hk,
      lineTokens_before _ more hb.tok.symm, lineTokens_before _ more' hb.tok.symm]
  have hstart : startsParameters nameTok (ts ++ u :: more) =
      startsParameters nameTok (ts ++ u :: more') := by
    cases ts <;> rfl
  have hparams := parseMacroParameters_before hu ts more more'
  have hdirective : directiveLine tok (nameTok :: (ts ++ u :: more)) = _ := ownLine_before hb more more'
  rw [List.cons_append] at hskip ⊢
  unfold processDefine
  simp only [List.cons_append, hskip, hdirective, ← hparams, ← hstart, List.head?_cons]
  split
  · split
    · split
      · rfl
      · rename_i hp
        rw [hbody _ (parseMacroParameters_le ts (hb.directiveNext hu more).next hp)]
    · have := hbody 0 (Nat.zero_le _)
      simp only [List.drop_zero] at this
      rw [this]
  · rfl

include hu hb in
theorem processUndef_before :
    processUndef pp tok (ts ++ u :: more) = processUndef pp tok (ts ++ u :: more') := by
  cases ts with
  | nil =>
    have hname := conditional_not_macroType hu
    simp [processUndef, hname]
  | cons nameTok ts => ?_
  unfold processUndef
  simp only [List.cons_append, lineTokens_before _ more hb.tok.symm,
    lineTokens_before _ more' hb.tok.symm, head_before ts more more', List.head?_cons]

include hu hb in
theorem processPragma_before :
    processPragma pp tok (ts ++ u :: more) = processPragma pp tok (ts ++ u :: more') := by
  unfold processPragma
  simp only [ownLine_before hb more more']
  cases ts with
  | nil =>
    have honce : u.type ≠ .once := ne_of_conditional hu rfl
    have hword : u.type ≠ .identifier := ne_of_conditional hu rfl
    simp [honce, hword]
  | cons word ts => ?_
  have hkind : stdcPragmaKind tok.line (ts ++ u :: more) =
      stdcPragmaKind tok.line (ts ++ u :: more') := by
    cases ts <;> rfl
  simp only [List.cons_append, hkind]

include hu hb in
theorem processIfdeflike_before :
    processIfdeflike pp stack tok (ts ++ u :: more) negate =
      processIfdeflike pp stack tok (ts ++ u :: more') negate := by
  cases ts with
  | nil =>
    have hname := conditional_not_macroType hu
    simp [processIfdeflike, hname]
  | cons nameTok ts => ?_
  unfold processIfdeflike
  simp only [List.cons_append, lineTokens_before _ more hb.tok.symm,
    lineTokens_before _ more' hb.tok.symm, head_before ts more more', List.head?_cons]

include hb in
theorem preserveLine_before (s : TextState) :
    preserveLine s tok (ts ++ u :: more) = preserveLine s tok (ts ++ u :: more') := by
  unfold preserveLine ppAppendDirectiveLine
  rw [ownLine_before hb more more']

end

section
variable (hlocal : HandlerLocal handler)
  (more more' : List Token)
  (hline : (lineTokens u.line (u :: more)).length = (lineTokens u.line (u :: more')).length)

include hlocal hline

include hu hb in
theorem contentStep_before :
    contentStep handler first active s tok (ts ++ u :: more) =
      contentStep handler first active s tok (ts ++ u :: more') := by
  have hdirective := ownLine_before hb more more'
  have hpreserve := preserveLine_before hb more more'
  have hoperand := sameOperand_before hu hb more more'
  unfold contentStep
  split
  · unfold activeStep
    split
    · unfold walkDefine
      simp only [hpreserve, processDefine_before hu hb more more' hline]
    iterate 2
      · unfold walkInclude
        simp only [hpreserve, hoperand.taken, fun pp output n => hlocal pp tok _ _ output n hoperand]
    · simp only [processUndef_before hu hb more more']
    · simp only [hpreserve, processPragma_before hu hb more more']
    · unfold walkOther processLineDirective skipToLineEnd
      simp only [hdirective]
    · rfl
    · unfold walkText
      simp only [ppSkipPragmaOperator_before hu ts more more']
  · unfold inactiveStep skipToLineEnd
    simp only [hdirective]

include hu hb in
theorem walkStep_before :
    walkStep handler eval first s tok (ts ++ u :: more) =
      walkStep handler eval first s tok (ts ++ u :: more') := by
  have hdirective := ownLine_before hb more more'
  have hpreserve := preserveLine_before hb more more'
  unfold walkStep
  split
  · unfold processIf
    simp only [hdirective]
  · unfold processElif
    simp only [hdirective]
  · unfold walkElse ppDirectiveHasTrailingTokens stopTrailing skipToLineEnd
    simp only [hdirective, head_before ts more more']
  · unfold walkEndif ppDirectiveHasTrailingTokens stopTrailing skipToLineEnd
    simp only [hdirective, head_before ts more more', hpreserve]
  iterate 2
    · simp only [processIfdeflike_before hu hb more more']
  · rw [contentStep_before hu hb hlocal more more' hline]

end

-- Runs

theorem walkMoves_length (h : WalkMoves handler eval c c') : c'.2.2.length < c.2.2.length := by
  cases h with
  | round hstep =>
    simp only [List.length_drop, List.length_cons]
    omega

theorem reaches_length (h : Relation.ReflTransGen (WalkMoves handler eval) c c') :
    c'.2.2.length ≤ c.2.2.length := by
  induction h with
  | refl => exact Nat.le_refl _
  | tail _ hmove ih =>
    have := walkMoves_length hmove
    omega

include hu in
theorem reaches_before (hlocal : HandlerLocal handler) (more more' : List Token)
    (hline : (lineTokens u.line (u :: more)).length = (lineTokens u.line (u :: more')).length)
    (ts : List Token) (hts : ∀ t ∈ ts, t.line ≠ u.line)
    (h : Relation.ReflTransGen (WalkMoves handler eval) (first, s, ts ++ u :: more)
      (first', s', u :: more)) :
    Relation.ReflTransGen (WalkMoves handler eval) (first, s, ts ++ u :: more')
      (first', s', u :: more') := by
  generalize hc : (first, s, ts ++ u :: more) = c at h
  induction h using Relation.ReflTransGen.head_induction_on generalizing first s ts with
  | refl =>
    simp only [Prod.mk.injEq] at hc
    obtain ⟨rfl, rfl, hnil⟩ := hc
    obtain rfl : ts = [] := by simpa using congrArg List.length hnil
    exact .refl
  | head hmove hreach ih =>
    cases hmove with
    | round hstep =>
      rename_i taken s₁
      have hlength := reaches_length hreach
      simp only [Prod.mk.injEq] at hc
      obtain ⟨rfl, rfl, htokens⟩ := hc
      cases ts with
      | nil =>
        cases htokens
        simp only [List.length_cons, List.length_drop] at hlength
        omega
      | cons t ts => ?_
      rw [List.cons_append, List.cons.injEq] at htokens
      obtain ⟨rfl, rfl⟩ := htokens
      have htaken : taken ≤ ts.length := by
        simp only [List.length_cons, List.length_drop, List.length_append] at hlength
        omega
      have hb : Before u t ts :=
        ⟨hts t List.mem_cons_self, fun v hv => hts v (List.mem_cons_of_mem t hv)⟩
      -- the round takes tokens before the directive only, so it is the same round
      have hmove : WalkMoves handler eval (first, s, t :: (ts ++ u :: more'))
          (false, s₁, (ts ++ u :: more').drop taken) := by
        refine .round ?_
        rw [← walkStep_before hu hb hlocal more more' hline]
        exact hstep
      rw [List.drop_append_of_le_length htaken] at hmove ih
      exact .head hmove (ih (ts.drop taken) (fun v hv => hb.rest v (List.mem_of_mem_drop hv)) rfl)

end

end Fisics
