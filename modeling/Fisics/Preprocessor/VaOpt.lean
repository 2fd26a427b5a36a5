import Fisics.Preprocessor.ArgumentList
import Fisics.Preprocessor.ExpanderTermination

/-!
# Optional tokens

What `__VA_OPT__ ( content )` in a replacement list contributes. The test counts
variadic arguments instead of their tokens, so that one empty argument brings the
content in.
-/

namespace Fisics

-- The content

theorem matchingParen_eq (depth : Nat) (tokens : List Token) :
    matchingParen (depth + 1) tokens
      = (Brackets.untilClose opensParen closesParen depth tokens).map Prod.fst := by
  induction tokens generalizing depth with
  | nil => rfl
  | cons tok rest ih =>
    simp only [matchingParen, Brackets.untilClose, opensParen, closesParen]
    by_cases hclose : tok.type = .rparen
    · cases depth <;> simp [hclose, ih, Function.comp_def]
    · by_cases hopen : tok.type = .lparen <;> simp [hclose, hopen, ih, Function.comp_def]

theorem matchingParen_balanced (h : BalancedParens content) (hclose : rparen.type = .rparen)
    (rest : List Token) : matchingParen 1 (content ++ rparen :: rest) = some content := by
  rw [matchingParen_eq, (Brackets.untilClose_eq_some_iff opensParen_not_closes).mpr
    ⟨h, rparen, hclose, rfl⟩]
  rfl

/-- `__VA_OPT__` with its content in parentheses, as it stands in a replacement
list. -/
structure VaOptTokens where
  word : Token
  lparen : Token
  content : List Token
  rparen : Token
  isWord : word.type = .identifier ∧ word.value = some "__VA_OPT__"
  opens : lparen.type = .lparen
  balanced : BalancedParens content
  closes : rparen.type = .rparen

def VaOptTokens.behindWord (opt : VaOptTokens) : List Token :=
  opt.lparen :: (opt.content ++ [opt.rparen])

def VaOptTokens.tokens (opt : VaOptTokens) : List Token := opt.word :: opt.behindWord

theorem vaOptContents_eq (opt : VaOptTokens) (hvariadic : d.params.variadic = true)
    (hopt : d.params.hasVaOpt = true) (rest : List Token) :
    vaOptContents d opt.word (opt.behindWord ++ rest)
      = if opt.content = [] then none else some opt.content := by
  have hmatch := matchingParen_balanced opt.balanced opt.closes rest
  cases hcontent : opt.content with
  | nil =>
    simp [vaOptContents, VaOptTokens.behindWord, hvariadic, hopt, opt.isWord.2, opt.opens,
      matchingParen, opt.closes, hcontent]
  | cons =>
    rw [hcontent] at hmatch
    simp only [List.cons_append] at hmatch
    simp [vaOptContents, VaOptTokens.behindWord, hvariadic, hopt, opt.isWord.2, opt.opens, hmatch, hcontent]

-- The step of the loop

section
variable (d : MacroDefinition) (callSite : SourceRange)

section
variable (vaOpt : List Token → Except SubstituteError (List Token))

theorem substituteLoop_skip (args : Option MacroArgPack) (taken before working rest : List Token) :
    substituteLoop d callSite vaOpt args taken.length before working (taken ++ rest)
      = substituteLoop d callSite vaOpt args 0 (taken.reverse ++ before) working rest := by
  induction taken generalizing before with
  | nil => rfl
  | cons tok taken ih =>
    rw [List.length_cons, List.cons_append, substituteLoop, ih]
    simp

/-- With content between the parentheses it is the number of variadic arguments
that decides. -/
theorem substituteLoop_vaOpt (args : MacroArgPack) (opt : VaOptTokens) (hkind : d.kind = .function)
    (hvariadic : d.params.variadic = true) (hopt : d.params.hasVaOpt = true)
    (hcontent : opt.content ≠ []) (before working rest : List Token) :
    substituteLoop d callSite vaOpt (some args) 0 before working (opt.tokens ++ rest)
      = if args.variadics.isEmpty then
          substituteLoop d callSite vaOpt (some args) 0 (opt.tokens.reverse ++ before) working rest
        else
          (vaOpt opt.content).bind fun tokens =>
            substituteLoop d callSite vaOpt (some args) 0 (opt.tokens.reverse ++ before)
              (working ++ tokens) rest := by
  have hhash : opt.word.type ≠ .hash := by
    rw [opt.isWord.1]
    rintro ⟨⟩
  have hlen : opt.content.length + 2 = opt.behindWord.length := by simp [VaOptTokens.behindWord]
  have hskip : ∀ working, substituteLoop d callSite vaOpt (some args) (opt.content.length + 2)
      (opt.word :: before) working (opt.behindWord ++ rest)
        = substituteLoop d callSite vaOpt (some args) 0 (opt.tokens.reverse ++ before) working rest := by
    intro working
    rw [hlen, substituteLoop_skip]
    simp [VaOptTokens.tokens]
  rw [show opt.tokens ++ rest = opt.word :: (opt.behindWord ++ rest) from rfl, substituteLoop]
  · simp only [if_neg hhash, if_pos opt.isWord.1, vaOptContents_eq opt hvariadic hopt,
      if_neg hcontent, hskip]
    split
    · rfl
    · cases vaOpt opt.content <;> rfl
  · exact hkind

/-- Empty parentheses are taken for a malformed `__VA_OPT__`: the parentheses go
to the result. -/
theorem substituteLoop_emptyVaOpt (args : MacroArgPack) (opt : VaOptTokens) (hkind : d.kind = .function)
    (hvariadic : d.params.variadic = true) (hopt : d.params.hasVaOpt = true)
    (hcontent : opt.content = []) (before working : List Token) :
    ∃ tokens, substituteLoop d callSite vaOpt (some args) 0 before working opt.tokens
      = .ok (working ++ tokens ++ [opt.lparen, opt.rparen]) := by
  have htext : tokenText opt.word = "__VA_OPT__" := by simp [tokenText, opt.isWord.2]
  have hnone := vaOptContents_eq opt hvariadic hopt []
  rw [if_pos hcontent, List.append_nil] at hnone
  have hhash : opt.word.type ≠ .hash := by
    rw [opt.isWord.1]
    rintro ⟨⟩
  have hparens : ∀ before working, substituteLoop d callSite vaOpt (some args) 0 before working opt.behindWord
      = .ok (working ++ [opt.lparen, opt.rparen]) := by
    intro before working
    simp [VaOptTokens.behindWord, hcontent, substituteLoop, hkind, opt.opens, opt.closes]
  rw [VaOptTokens.tokens, substituteLoop]
  · simp only [if_neg hhash, if_pos opt.isWord.1, hnone, substituteParameter, htext]
    cases macroParamIndex d "__VA_OPT__" with
    | some index => exact ⟨_, hparens _ _⟩
    | none =>
      have hname : ¬(d.params.variadic = true ∧ "__VA_OPT__" = "__VA_ARGS__") := by simp
      simp only [if_neg hname]
      exact ⟨[opt.word], hparens _ _⟩
  · exact hkind

end

end

-- The decision

def variablePart (d : MacroDefinition) (rawArgs : List (List Token)) (origin : SourceRange) :
    List Token := variadicTokens (rawArgs.drop d.params.names.length) origin

theorem variadicTokens_eq_nil_iff : variadicTokens args origin = [] ↔ args = [] ∨ args = [[]] := by
  match args with
  | [] => simp [variadicTokens]
  | [arg] => simp [variadicTokens]
  | _ :: _ :: _ => simp [variadicTokens]

/-- Whatever stands around it, `__VA_OPT__` gives the substituted content when
`included`, and nothing otherwise. -/
def DecidesVaOpt (d : MacroDefinition) (callSite : SourceRange) (args : MacroArgPack)
    (opt : VaOptTokens) (included : Prop) : Prop :=
  ∀ substitute before working rest,
    let next (working : List Token) :=
      substituteLoop d callSite substitute (some args) 0 (opt.tokens.reverse ++ before) working rest
    let result := substituteLoop d callSite substitute (some args) 0 before working (opt.tokens ++ rest)
    (included → result = (substitute opt.content).bind fun tokens => next (working ++ tokens)) ∧
      (¬included → result = next working)

/-- `__VA_OPT__` follows the emptiness of the variable part, one empty variadic
argument and empty parentheses apart. -/
theorem vaOpt_decided_iff (opt : VaOptTokens) (hkind : d.kind = .function)
    (hvariadic : d.params.variadic = true) (hopt : d.params.hasVaOpt = true)
    (hcall : buildMacroArgPack d rawArgs = .ok pack)
    (hargs : args.variadics.map MacroArg.raw = pack.variadics.map MacroArg.raw) :
    DecidesVaOpt d callSite args opt (variablePart d rawArgs callSite ≠ []) ↔
      opt.content ≠ [] ∧ rawArgs.drop d.params.names.length ≠ [[]] := by
  have hraw : args.variadics.map MacroArg.raw = rawArgs.drop d.params.names.length := by
    obtain ⟨-, rfl⟩ := buildMacroArgPack_ok_iff.mp hcall
    simpa [Function.comp_def] using hargs
  have hpart : variablePart d rawArgs callSite ≠ [] ↔
      args.variadics ≠ [] ∧ rawArgs.drop d.params.names.length ≠ [[]] := by
    rw [variablePart, Ne, variadicTokens_eq_nil_iff, not_or, ← hraw, Ne, List.map_eq_nil_iff]
  constructor
  · intro h
    have hcontent : opt.content ≠ [] := by
      intro hcontent
      obtain ⟨hincluded, hdropped⟩ := h (fun _ => .error .paste) [] [] []
      obtain ⟨tokens, hresult⟩ := substituteLoop_emptyVaOpt d callSite (fun _ => .error .paste) args opt
        hkind hvariadic hopt hcontent [] []
      rw [List.append_nil, hresult] at hincluded hdropped
      by_cases hpart : variablePart d rawArgs callSite = []
      · simp [substituteLoop] at hdropped
        exact hdropped hpart
      · cases hincluded hpart
    refine ⟨hcontent, ?_⟩
    intro hempty
    have hne : args.variadics.isEmpty = false := by
      rw [List.isEmpty_eq_false_iff]
      intro hnil
      rw [← hraw, hnil] at hempty
      cases hempty
    have hdropped := (h (fun _ => .error .paste) [] [] []).2 (by simp [hpart, hempty])
    rw [substituteLoop_vaOpt d callSite _ args opt hkind hvariadic hopt hcontent, hne] at hdropped
    simp [substituteLoop, Except.bind] at hdropped
  · rintro ⟨hcontent, hempty⟩ substitute before working rest
    have hloop := substituteLoop_vaOpt d callSite substitute args opt hkind hvariadic hopt hcontent before
      working rest
    rw [hloop, hpart]
    constructor
    · rintro ⟨hne, -⟩
      rw [if_neg (by simpa using hne)]
    · intro hnone
      have hnil : args.variadics = [] := by
        by_contra hne
        exact hnone ⟨hne, hempty⟩
      rw [if_pos (by simp [hnil])]

def optWord : Token := makeSimpleToken .identifier "__VA_OPT__" emptyRange

/-- `__VA_OPT__(x)` -/
def optTokens : VaOptTokens where
  word := optWord
  lparen := makeSimpleToken .lparen "(" emptyRange
  content := wordArgument
  rparen := closingToken
  isWord := ⟨rfl, rfl⟩
  opens := rfl
  balanced := .plain (by decide) (by decide) .nil
  closes := rfl

/-- `#define F(...) __VA_OPT__(x)` -/
def optMacro : MacroDefinition :=
  ⟨"F", .function, ⟨[], true, true⟩, optTokens.tokens, emptyRange⟩

/-- `F(x)` -/
theorem optMacro_included :
    DecidesVaOpt optMacro emptyRange ⟨[], [⟨wordArgument, wordArgument⟩]⟩ optTokens
      (variablePart optMacro [wordArgument] emptyRange ≠ []) := by
  have hcall : buildMacroArgPack optMacro [wordArgument] = .ok ⟨[], [⟨wordArgument, []⟩]⟩ := rfl
  refine (vaOpt_decided_iff optTokens rfl rfl rfl hcall ?_).mpr ⟨by decide, by decide⟩
  rfl

/-- `F()` has an empty variable part and keeps the content. -/
theorem optMacro_emptyCall :
    (∃ rawArgs pack, parseMacroArgumentTokens [closingToken] optMacro = some (rawArgs, 1) ∧
      buildMacroArgPack optMacro rawArgs = .ok pack ∧ variablePart optMacro rawArgs emptyRange = [] ∧
        substituteMacro optMacro emptyRange (some pack) = .ok wordArgument) ∧
      ¬DecidesVaOpt optMacro emptyRange ⟨[], [⟨[], []⟩]⟩ optTokens
        (variablePart optMacro [[]] emptyRange ≠ []) := by
  refine ⟨⟨[[]], ⟨[], [⟨[], []⟩]⟩, rfl, rfl, rfl, by decide⟩, ?_⟩
  intro h
  have hdropped := (h (fun _ => .error .paste) [] [] []).2 (fun hne => hne rfl)
  cases hdropped

end Fisics
