import Fisics.Preprocessor.Blocks

/-!
# Contents and the directives behind them

A round that starts in the contents of a group takes tokens of these contents
only: a line ends where the next one starts, a parameter list and an operand
have no room for a conditional directive. So the walk reaches every conditional
directive of a well-nested stream.
-/

namespace Fisics

-- What the scans take

theorem lineTokens_le (line : Int) (ts : List Token)
    (hafter : ∀ u rest, after = u :: rest → u.line ≠ line) :
    (lineTokens line (ts ++ after)).length ≤ ts.length := by
  induction ts with
  | nil =>
    cases after with
    | nil => exact Nat.le_refl 0
    | cons u rest =>
      have hline : (u.line == line) = false := by simpa using hafter u rest rfl
      simp [lineTokens, hline]
  | cons t ts ih =>
    unfold lineTokens at ih ⊢
    rw [List.cons_append, List.takeWhile_cons]
    split
    · simpa using ih
    · simp

theorem conditional_not_macroType (h : isConditionalType tok.type = true) :
    tokenIsMacroIdentifier tok = false := by
  unfold tokenIsMacroIdentifier
  cases ht : tok.type <;> simp_all [isConditionalType, TokenType.isKeyword] <;> intro _ <;> decide

theorem head_in_content (ts : List Token)
    (hafter : ∀ u rest, after = u :: rest → isConditionalType u.type = true)
    (hhead : ts ++ after = t :: rest) (ht : isConditionalType t.type = false) :
    ∃ ts', ts = t :: ts' := by
  cases ts with
  | nil =>
    rw [hafter t rest hhead] at ht
    cases ht
  | cons t' ts' =>
    cases hhead
    exact ⟨ts', rfl⟩

theorem macroParameterLoop_le (ts : List Token)
    (hafter : ∀ u rest, after = u :: rest → isConditionalType u.type = true)
    (h : macroParameterLoop expectParam variadic names (ts ++ after) = some (names', variadic', taken)) :
    taken ≤ ts.length := by
  induction ts generalizing expectParam variadic names names' variadic' taken with
  | nil =>
    cases after with
    | nil =>
      rw [List.nil_append, macroParameterLoop] at h
      split at h
      · cases h
      · cases h; exact Nat.le_refl 0
    | cons u rest =>
      rw [List.nil_append, macroParameterLoop] at h
      cases ht : u.type <;> simp_all [isConditionalType]
  | cons t ts ih =>
    rw [List.cons_append, macroParameterLoop] at h
    have hnext : ∀ e v n, (macroParameterLoop e v n (ts ++ after)).map
        (fun r => (r.1, r.2.1, r.2.2 + 1)) =
        some (names', variadic', taken) → taken ≤ (t :: ts).length := by
      intro e v n hmap
      obtain ⟨⟨n₁, v₁, k⟩, hk, heq⟩ := Option.map_eq_some_iff.mp hmap
      cases heq
      exact Nat.succ_le_succ (ih hk)
    split at h
    · split at h
      · cases h
      · cases h; exact Nat.succ_le_succ (Nat.zero_le _)
    split at h
    · split at h
      · exact hnext _ _ _ h
      · cases h
    split at h
    all_goals
      split at h
      · exact hnext _ _ _ h
      · cases h

theorem headIs_cons (h : headIs type tokens = true) : ∃ t rest, tokens = t :: rest ∧ t.type = type := by
  cases tokens with
  | nil => cases h
  | cons t rest => exact ⟨t, rest, rfl, by simpa [headIs] using h⟩

theorem headIs_in_content (ts : List Token)
    (hafter : ∀ u rest, after = u :: rest → isConditionalType u.type = true)
    (h : headIs type (ts ++ after) = true) (htype : isConditionalType type = false) :
    ∃ t ts', ts = t :: ts' := by
  obtain ⟨t, rest, heq, ht⟩ := headIs_cons h
  obtain ⟨ts', rfl⟩ := head_in_content ts hafter heq (ht ▸ htype)
  exact ⟨t, ts', rfl⟩

theorem parseMacroParameters_le (ts : List Token)
    (hafter : ∀ u rest, after = u :: rest → isConditionalType u.type = true)
    (h : parseMacroParameters (ts ++ after) = some (names, variadic, taken)) :
    taken ≤ ts.length := by
  unfold parseMacroParameters at h
  split at h
  · rename_i hopen
    obtain ⟨t, ts', rfl⟩ := headIs_in_content ts hafter hopen rfl
    split at h
    · rename_i hclose
      obtain ⟨t', ts'', rfl⟩ := headIs_in_content ts' hafter hclose rfl
      cases h
      simp
    · obtain ⟨⟨n, v, k⟩, hk, heq⟩ := Option.map_eq_some_iff.mp h
      cases heq
      exact Nat.succ_le_succ (macroParameterLoop_le ts' hafter hk)
  · cases h

theorem angleIncludeName_le (inOperand : Token → Bool) (name name' : List Char) (taken : Nat)
    (after ts : List Token)
    (hafter : ∀ u rest, after = u :: rest → inOperand u = false)
    (h : angleIncludeName inOperand name (ts ++ after) = (some name', taken)) :
    taken ≤ ts.length := by
  induction ts generalizing name taken with
  | nil =>
    cases after with
    | nil => cases h
    | cons u rest =>
      rw [List.nil_append, angleIncludeName, hafter u rest rfl] at h
      cases h
  | cons t ts ih =>
    rw [List.cons_append, angleIncludeName] at h
    split at h
    · cases h
    split at h
    · cases h; exact Nat.succ_le_succ (Nat.zero_le _)
    split at h
    · cases h
    · generalize hr : angleIncludeName inOperand _ (ts ++ after) = r at h
      obtain ⟨n, k⟩ := r
      cases h
      exact Nat.succ_le_succ (ih _ _ hr)

theorem ppSkipPragmaOperator_le (ts : List Token)
    (hafter : ∀ u rest, after = u :: rest → isConditionalType u.type = true)
    (h : ppSkipPragmaOperator (tok :: (ts ++ after)) = some taken) : taken ≤ ts.length := by
  have hclose : ∀ ts : List Token, (headIs .rparen (ts ++ after)).toNat ≤ ts.length := by
    intro ts
    cases hh : headIs .rparen (ts ++ after) with
    | false => exact Nat.zero_le _
    | true =>
      obtain ⟨t, ts', rfl⟩ := headIs_in_content ts hafter hh rfl
      exact Nat.succ_le_succ (Nat.zero_le _)
  rw [ppSkipPragmaOperator] at h
  split at h
  · split at h
    · rename_i hopen
      obtain ⟨t, ts', rfl⟩ := headIs_in_content ts hafter hopen rfl
      rw [List.cons_append, List.tail_cons] at h
      dsimp only at h
      cases hstring : headIs .string (ts' ++ after) with
      | false =>
        rw [hstring] at h
        have := hclose ts'
        simp only [Bool.false_eq_true, ↓reduceIte, Bool.toNat_false, Option.some.injEq] at h
        simp only [List.length_cons]
        omega
      | true =>
        obtain ⟨t', ts'', rfl⟩ := headIs_in_content ts' hafter hstring rfl
        rw [hstring] at h
        have := hclose ts''
        simp only [↓reduceIte, Bool.toNat_true, List.cons_append, List.tail_cons, Option.some.injEq] at h
        simp only [List.length_cons]
        omega
    · cases h; exact Nat.zero_le _
  · cases h

-- Rounds in contents

/-- Where missing includes are forgiven, a `#define` without a name skips the
operands of the conditional directive on the next line, and the directive with
them. -/
def SwallowsDirective (active : Bool) (s : TextState) (tok : Token) (rest : List Token) : Prop :=
  active = true ∧ s.pp.lenientMissingIncludes = true ∧ tok.type = .define ∧
    ∃ u rest', rest = u :: rest' ∧ isConditionalType u.type = true ∧ directiveLine u rest' ≠ []

section
variable {tok : Token} {ts after : List Token} (hok : DirectiveNext (tok :: ts) after)

include hok in
theorem DirectiveNext.line_le : (directiveLine tok (ts ++ after)).length ≤ ts.length :=
  lineTokens_le tok.line ts fun u rest hu => (hok.ownLine u rest hu tok List.mem_cons_self).symm

include hok in
theorem DirectiveNext.name_in (hhead : ts ++ after = t :: rest)
    (ht : tokenIsMacroIdentifier t = true) : ∃ ts', ts = t :: ts' := by
  refine head_in_content ts hok.next hhead ?_
  cases hc : isConditionalType t.type with
  | false => rfl
  | true => rw [conditional_not_macroType hc] at ht; cases ht

include hok in
theorem DirectiveNext.includeTaken_le : includeTaken tok (ts ++ after) ≤ ts.length := by
  unfold includeTaken
  split
  · rename_i name isSystem taken hparse
    unfold parseIncludeOperand at hparse
    split at hparse
    · cases hparse
    rename_i first rest hhead
    obtain ⟨⟨name', isSystem', taken'⟩, hop, hk⟩ := Option.bind_eq_some_iff.mp hparse
    dsimp only at hk
    split at hk
    · cases hk
      split at hop
      · rename_i htype hvalue
        obtain ⟨ts', rfl⟩ := head_in_content ts hok.next hhead (by rw [htype]; rfl)
        cases hop
        exact Nat.succ_le_succ (Nat.zero_le _)
      · rename_i value htype
        obtain ⟨ts', rfl⟩ := head_in_content ts hok.next hhead (by rw [htype]; rfl)
        obtain ⟨-, rfl⟩ := hhead
        generalize hr : angleIncludeName _ [] (ts' ++ after) = r at hop
        obtain ⟨found, k⟩ := r
        obtain ⟨n, hn, heq⟩ := Option.map_eq_some_iff.mp hop
        subst hn
        cases heq
        refine Nat.succ_le_succ (angleIncludeName_le _ _ _ _ _ ts' (fun u rest hu => ?_) hr)
        have hline := hok.ownLine u rest hu tok List.mem_cons_self
        have hne : (u.line == tok.line) = false := by simpa using hline.symm
        simp [hne]
      · cases hop
    · cases hk
  · exact hok.line_le

include hok in
theorem DirectiveNext.skipUnnamed_le
    (hbare : ∀ u rest, ts = [] → after = u :: rest → directiveLine u rest = [])
    (h : skipUnnamedDefine first (ts ++ after) = some taken) : taken ≤ ts.length := by
  have hline : ∀ t rest, ts ++ after = t :: rest →
      (lineTokens t.line (t :: rest)).length ≤ ts.length + 1 := by
    intro t rest hhead
    cases ts with
    | nil =>
      have hnone := hbare t rest rfl hhead
      unfold directiveLine lineTokens at hnone
      unfold lineTokens
      rw [List.takeWhile_cons]
      split
      · rw [hnone]
        exact Nat.le_refl 1
      · exact Nat.zero_le 1
    | cons t' ts =>
      cases hhead
      have := lineTokens_le t.line (t :: ts) fun u rest hu =>
        (hok.ownLine u rest hu t (by simp)).symm
      exact Nat.le_succ_of_le this
  cases hhead : ts ++ after with
  | nil =>
    rw [hhead, skipUnnamedDefine] at h
    simp only [↓reduceIte, Option.ite_none_right_eq_some, Option.some.injEq] at h
    rw [← h.2]
    exact Nat.zero_le _
  | cons t rest =>
    have := hline t rest hhead
    rw [hhead, skipUnnamedDefine] at h
    split at h
    · simp only [Option.ite_none_right_eq_some, Option.some.injEq] at h
      rw [← h.2]
      exact Nat.zero_le _
    · cases h
      omega

include hok in
theorem DirectiveNext.define_le
    (hbare : pp.lenientMissingIncludes = true →
      ∀ u rest, ts = [] → after = u :: rest → directiveLine u rest = [])
    (h : processDefine first pp tok (ts ++ after) = (true, pp', some taken)) :
    taken ≤ ts.length := by
  unfold processDefine at h
  split at h
  · simp only [Prod.mk.injEq] at h
    exact hok.skipUnnamed_le (hbare h.1) h.2.2
  rename_i nameTok rest hhead
  split at h
  · rename_i hname
    obtain ⟨ts', rfl⟩ := hok.name_in hhead hname.2
    rw [List.cons_append, List.cons.injEq] at hhead
    obtain ⟨-, rfl⟩ := hhead
    have hline := hok.line_le
    have hbody : ∀ k ≤ ts'.length,
        k + (lineTokens tok.line ((ts' ++ after).drop k)).length ≤ ts'.length := by
      intro k hk
      rw [List.drop_append_of_le_length hk]
      have := lineTokens_le tok.line (ts'.drop k) fun u rest hu =>
        (hok.ownLine u rest hu tok List.mem_cons_self).symm
      rw [List.length_drop] at this
      omega
    split at h
    · split at h
      · simp only [Prod.mk.injEq, Option.some.injEq] at h
        rw [← h.2.2]
        exact hline
      · rename_i names variadic k hparams
        have := hbody k (parseMacroParameters_le ts' hok.next hparams)
        simp only [Prod.mk.injEq, Option.some.injEq] at h
        simp only [List.length_cons]
        omega
    · have := hbody 0 (Nat.zero_le _)
      simp only [Prod.mk.injEq, Option.some.injEq] at h
      simp only [List.drop_zero] at this
      simp only [List.length_cons]
      omega
  · simp only [Prod.mk.injEq] at h
    exact hok.skipUnnamed_le (hbare h.1) h.2.2

theorem flushThen_next (h : flushThen s k = some (.next taken s')) :
    ∃ t, SameConfig s.pp t.pp ∧ k t = some (.next taken s') := by
  unfold flushThen at h
  generalize hflush : ppFlushChunk s.pp s.chunk s.output = f at h
  obtain ⟨ok, output, pp⟩ := f
  dsimp only at h
  split at h
  · exact ⟨_, ppFlushChunk_config hflush, h⟩
  · cases h

theorem finishDirective_next (h : finishDirective s r = some (.next taken s')) :
    r.ok = true ∧ taken = r.taken := by
  unfold finishDirective at h
  split at h
  · rename_i hr
    cases h
    exact ⟨hr, rfl⟩
  · cases h

include hok in
theorem contentStep_taken (hs : ¬SwallowsDirective active s tok (ts ++ after))
    (h : contentStep handler first active s tok (ts ++ after) = some (.next taken s')) :
    taken ≤ ts.length := by
  have hskip : ∀ s : TextState, skipToLineEnd s tok (ts ++ after) = some (.next taken s') →
      taken ≤ ts.length := by
    intro s h
    cases h
    exact hok.line_le
  unfold contentStep at h
  split at h
  · rename_i hactive
    unfold activeStep at h
    split at h
    · rename_i htype
      obtain ⟨t, ht, hk⟩ := flushThen_next h
      dsimp only at hk
      generalize hdef : processDefine first (preserveLine t tok (ts ++ after)).pp tok (ts ++ after) =
        d at hk
      obtain ⟨ok, pp, k⟩ := d
      rw [preserveLine_config] at hdef
      split at hk
      · rename_i hd
        subst hd
        obtain ⟨n, rfl, heq⟩ := Option.map_eq_some_iff.mp hk
        cases heq
        refine hok.define_le (fun hl u rest hnil hu => ?_) hdef
        by_contra hline
        refine hs ⟨hactive, ht.lenient.symm.trans hl, htype, u, rest, ?_, hok.next u rest hu, hline⟩
        rw [hnil, hu, List.nil_append]
      · cases hk
    iterate 2
      · obtain ⟨t, ht, hk⟩ := flushThen_next h
        obtain ⟨⟨ok, pp, output⟩, -, heq⟩ := Option.map_eq_some_iff.mp hk
        dsimp only at heq
        split at heq
        · cases heq; exact hok.includeTaken_le
        · cases heq
    · obtain ⟨t, ht, hk⟩ := flushThen_next h
      obtain ⟨hr, rfl⟩ := finishDirective_next hk
      unfold processUndef at hr ⊢
      split at hr
      · cases hr
      rename_i hhead
      split at hr
      · rename_i hname
        obtain ⟨ts', rfl⟩ := hok.name_in hhead hname.2
        rw [if_pos hname]
        split <;> simp
      · cases hr
    · obtain ⟨t, ht, hk⟩ := flushThen_next h
      obtain ⟨-, rfl⟩ := finishDirective_next hk
      exact hok.line_le
    · unfold walkOther at h
      split at h
      · obtain ⟨t, ht, hk⟩ := flushThen_next h
        obtain ⟨hr, rfl⟩ := finishDirective_next hk
        unfold processLineDirective at hr ⊢
        dsimp only at hr ⊢
        split at hr
        · split at hr
          · cases hr
          · exact hok.line_le
        all_goals cases hr
      · split at h
        · exact hskip _ h
        · cases h
    · cases h; exact Nat.zero_le _
    · unfold walkText at h
      split at h
      · rename_i hpragma
        cases h
        exact ppSkipPragmaOperator_le ts hok.next hpragma
      · cases h; exact Nat.zero_le _
  · unfold inactiveStep at h
    split at h
    · exact hskip _ h
    · cases h; exact Nat.zero_le _

end

end Fisics
