import Fisics.Preprocessor.HideSets
import Fisics.Preprocessor.TextLines

/-!
# Text under object-like macros

Where the macros are object-like, what is written for text rests on what names are looked up as: not on the
order of the table, the limit, or the chunks that the text is cut into.
-/

namespace Fisics

theorem expand_delivers (e : MacroExpander) (input : List Token) (hobj : ObjectLikeOnly e.table) :
    ∃ out b n, Scans e [] input out b n ∧ Delivers e (macroExpanderExpand e input) out b n := by
  obtain ⟨out, b, n, hscan⟩ := hideSetExpands_total e.table e.preserveDefinedOperands
    (unhidden e.table (hideSetOf e) + 1) (hideSetOf e) [] e.builtins input (Nat.lt_succ_self _)
  exact ⟨out, b, n, hscan, expandBudget_delivers e.table.macros.length e input
    (unexpanded_le e.table) hobj hscan⟩

/-- Neither the order of the table nor a higher limit changes an expansion. -/
theorem expand_ofLookup {e f : MacroExpander} (hobj₁ : ObjectLikeOnly e.table) (hobj₂ : ObjectLikeOnly f.table)
    (hlookup : macroTableLookup e.table = macroTableLookup f.table) (hhide : hideSetOf e = hideSetOf f)
    (hbuiltins : e.builtins = f.builtins) (hpreserve : e.preserveDefinedOperands = f.preserveDefinedOperands)
    (hlimit : ∀ n, Within e.table.expansionLimit n → Within f.table.expansionLimit n)
    (h : macroExpanderExpand e input = some (true, out, e')) :
    ∃ f', macroExpanderExpand f input = some (true, out, f') ∧ f'.builtins = e'.builtins := by
  obtain ⟨out₁, b₁, n₁, hscan₁, _, _, _, hrun₁, -, hok₁, hout₁⟩ := expand_delivers e input hobj₁
  obtain ⟨out₂, b₂, n₂, hscan₂, ok₂, _, f', hrun₂, -, hok₂, hout₂⟩ := expand_delivers f input hobj₂
  cases h.symm.trans hrun₁
  have hmacros : ordinaryMacro e.table = ordinaryMacro f.table := by
    funext name
    rw [ordinaryMacro, ordinaryMacro, hlookup]
  rw [Scans, hmacros, hhide, hbuiltins, hpreserve] at hscan₁
  obtain ⟨rfl, rfl, rfl⟩ := hscan₁.unique hscan₂
  have hok := hok₂.mpr (hlimit _ (hok₁.mp rfl))
  subst hok
  obtain ⟨rfl, hb₂⟩ := hout₂ rfl
  obtain ⟨rfl, hb₁⟩ := hout₁ rfl
  exact ⟨f', hrun₂, hb₂.trans hb₁.symm⟩

theorem pingPong_objectLike : ObjectLikeOnly pingPongExpander.table := by
  unfold ObjectLikeOnly
  decide

def pong : Token := lineHead "pong" .identifier 1

/-- The macros the other way round, `ping` a second time, and no limit. -/
def reorderedExpander : MacroExpander :=
  { pingPongExpander with
    table := { pingPongExpander.table with
      macros := pingPongExpander.table.macros.reverse ++
        [⟨"ping", .object, default, [pong], emptyRange⟩]
      expansionLimit := 0 } }

theorem reordered_objectLike : ObjectLikeOnly reorderedExpander.table := by
  unfold ObjectLikeOnly
  decide

theorem reordered_lookup : macroTableLookup pingPongExpander.table =
    macroTableLookup reorderedExpander.table := by
  funext name
  show List.find? _ [_, _] = List.find? _ [_, _, _]
  simp only [List.find?_cons, List.find?_nil]
  by_cases hping : "ping" = name
  · subst hping
    rfl
  · rw [beq_false_of_ne hping]

theorem expand_ofLookup_pong :
    ∃ out e', macroExpanderExpand reorderedExpander [pong] = some (true, out, e') ∧
      out.map tokenText = ["pong", "ping", "pong"] := by
  obtain ⟨e', h, -⟩ := expand_ofLookup pingPong_objectLike reordered_objectLike reordered_lookup rfl rfl rfl
    (fun _ _ => .inl rfl) (rfl : macroExpanderExpand pingPongExpander [pong] = some (true, _, _))
  exact ⟨_, e', h, rfl⟩

theorem withHideSet_false (hide : List String) (before tokens : List Token) :
    withHideSet false hide before tokens = tokens.map (⟨·, hide, false⟩) := by
  induction tokens generalizing before with
  | nil => rfl
  | cons tok rest ih => rw [withHideSet, ih, Bool.false_and, List.map_cons]

/-- It does not matter where text is cut into chunks. -/
theorem expand_append {e : MacroExpander} (hobj : ObjectLikeOnly e.table)
    (hpreserve : e.preserveDefinedOperands = false)
    (h₁ : macroExpanderExpand e xs = some (true, out₁, e₁))
      (h₂ : macroExpanderExpand e₁ ys = some (true, out₂, e₂)) :
    ∃ e', macroExpanderExpand e (xs ++ ys) = some (true, out₁ ++ out₂, e') ∧ e'.builtins = e₂.builtins := by
  obtain ⟨_, b₁, n₁, hscan₁, _, _, _, hrun₁, hframe, hok₁, hout₁⟩ := expand_delivers e xs hobj
  cases h₁.symm.trans hrun₁
  obtain ⟨rfl, rfl⟩ := hout₁ rfl
  obtain ⟨_, b₂, n₂, hscan₂, _, _, _, hrun₂, -, hok₂, hout₂⟩ :=
      expand_delivers e₁ ys (hframe.objectLikeOnly hobj)
  cases h₂.symm.trans hrun₂
  obtain ⟨rfl, rfl⟩ := hout₂ rfl
  obtain ⟨out, b, n, hscan, ok, out', e', hrun, -, hok, hout⟩ := expand_delivers e (xs ++ ys) hobj
  rw [Scans, hpreserve, withHideSet_false] at hscan hscan₁
  rw [Scans, ordinaryMacro_congr hframe.macros, hframe.preserve, hpreserve, hframe.hideSetOf,
    withHideSet_false] at hscan₂
  have hjoined := hscan₁.append hscan₂
  rw [← List.map_append] at hjoined
  obtain ⟨rfl, rfl, rfl⟩ := hjoined.unique hscan
  have hwithin := hok.mpr (within_max.mpr ⟨hok₁.mp rfl, hframe.limit ▸ hok₂.mp rfl⟩)
  subst hwithin
  obtain ⟨rfl, hb⟩ := hout rfl
  exact ⟨e', hrun, hb⟩

theorem expand_append_pong :
    ∃ out e', macroExpanderExpand pingPongExpander [pong, pong] = some (true, out, e') := by
  obtain ⟨e', h, -⟩ := expand_append pingPong_objectLike rfl
    (rfl : macroExpanderExpand pingPongExpander [pong] = some (true, _, _))
    (rfl : macroExpanderExpand _ [pong] = some (true, _, _))
  exact ⟨_, e', h⟩

/-- A source without `#` and the word `pragma` comes out as the hide sets expand it, unless the nesting is
beyond the limit. -/
theorem text_hideSets (source : List Char) (filePath : Option String) (enableTrigraphs : Bool)
    (hsource : NoHash source)
    (hwords : ∀ tok ∈ (lexSource source filePath enableTrigraphs).1, tok.type ≠ .pragma)
      (handler : IncludeHandler)
    (eval : EvalCondition) (pp : Preprocessor) (hobj : ObjectLikeOnly pp.table) (output : List Token)
      (appendEOF : Bool) :
    let tokens := (lexSource source filePath enableTrigraphs).1
    let e := (ppEnterBuffer pp tokens).expander
    ∃ expanded builtins nesting ok pp' output', Scans e [] (textTokens 0 tokens) expanded builtins nesting ∧
      preprocessTokens handler eval pp tokens output appendEOF = some (ok, pp', output') ∧
      (ok = true ↔ Within pp.table.expansionLimit nesting) ∧
      (ok = true → output' = output ++ (dropPragmaOperators 0 expanded).map (ppTokenCloneRemap pp') ++
        if appendEOF then [eofToken] else []) := by
  intro tokens e
  have htable : e.table = pp.table := ppEnterBuffer_table pp tokens
  have hpasses : PassesThrough handler eval pp tokens output appendEOF :=
    text_passesThrough (fun tok htok => ⟨lexSource_text _ _ _ hsource tok htok, hwords tok htok⟩) pp output
      appendEOF
  obtain ⟨expanded, b, n, hscan, ok, out, e', hrun, -, hok, hout⟩ :=
      expand_delivers e (textTokens 0 tokens) (htable ▸ hobj)
  rw [htable] at hok
  rw [PassesThrough, textResult, hrun] at hpasses
  cases ok with
  | false => exact ⟨expanded, b, n, _, _, _, hscan, hpasses, hok, by simp⟩
  | true =>
    refine ⟨expanded, b, n, _, _, _, hscan, hpasses, hok, fun h => ?_⟩
    rw [(hout h).1, List.append_assoc]

def pongSource : List Char := "x pong _Pragma(\"y\")\nping".toList

/-- Behind `#line 11 "pong.c"` in the first line, with the two macros. -/
def remappedState : Preprocessor :=
  { preprocessorInit false false false .internal with
    table := { pingPongExpander.table with expansionLimit := 0 }
    logicalFile := some "pong.c"
    lineOffset := 10
    lineRemapActive := true }

/-- The lines of the tokens and of the macro calls. The bodies have no line of their own. -/
theorem text_hideSets_pong :
    ∃ pp' output', preprocessTokens (processInclude noFiles 1) (evalCondition noFiles) remappedState
        (lexSource pongSource none false).1 [] true = some (true, pp', output') ∧
      output'.map (fun tok => (tokenText tok, tok.line, tok.macroCallSite.start.line)) =
        [("x", 11, 0), ("pong", 10, 11), ("ping", 10, 11), ("pong", 10, 11), ("ping", 10, 12),
          ("pong", 10, 12), ("ping", 10, 12), ("", 0, 0)] := by
  have hwords : ∀ tok ∈ (lexSource pongSource none false).1, tok.type ≠ .pragma := by decide
  obtain ⟨_, _, _, ok, pp', output', -, hrun, hok, -⟩ := text_hideSets pongSource none false
    ⟨by decide, by decide, by decide⟩ hwords (processInclude noFiles 1)
    (evalCondition noFiles) remappedState pingPong_objectLike [] true
  obtain rfl : ok = true := hok.mpr (.inl rfl)
  have htexts : (preprocessTokens (processInclude noFiles 1) (evalCondition noFiles) remappedState
      (lexSource pongSource none false).1 [] true).map
        (fun r => r.2.2.map fun tok => (tokenText tok, tok.line, tok.macroCallSite.start.line)) =
      some [("x", 11, 0), ("pong", 10, 11), ("ping", 10, 11), ("pong", 10, 11), ("ping", 10, 12),
          ("pong", 10, 12), ("ping", 10, 12), ("", 0, 0)] := by
    decide +kernel
  rw [hrun] at htexts
  exact ⟨pp', output', hrun, Option.some.inj htexts⟩

end Fisics
