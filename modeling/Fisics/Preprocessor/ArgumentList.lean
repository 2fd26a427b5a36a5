import Fisics.Lexer.Laws
import Fisics.Library.Brackets
import Fisics.Preprocessor.MacroArgs

/-!
# Argument lists

What a call's argument list is: the tokens up to the parenthesis that closes the
call, and the arguments between the commas outside inner parentheses. The
splitter finds exactly these, the packer loses none of them, and both together
accept a call by the number of its arguments.
-/

namespace Fisics

def opensParen (tok : Token) : Prop := tok.type = .lparen

def closesParen (tok : Token) : Prop := tok.type = .rparen

def isComma (tok : Token) : Prop := tok.type = .comma

instance : DecidablePred opensParen := fun tok => inferInstanceAs (Decidable (tok.type = .lparen))

instance : DecidablePred closesParen := fun tok => inferInstanceAs (Decidable (tok.type = .rparen))

instance : DecidablePred isComma := fun tok => inferInstanceAs (Decidable (tok.type = .comma))

abbrev BalancedParens := Brackets.Balanced opensParen closesParen

abbrev ArgumentList := Brackets.Separated opensParen closesParen isComma

theorem opensParen_not_closes (tok : Token) (h : opensParen tok) : ¬closesParen tok := by
  intro hclose
  cases h.symm.trans hclose

-- The splitter

/-- Inside parentheses everything goes to the argument being read. -/
theorem parseArgumentLoop_balanced (h : BalancedParens inside) (args current depth consumed rest) :
    parseArgumentLoop (depth + 1) args current consumed (inside ++ rest)
      = parseArgumentLoop (depth + 1) args (current ++ inside) (consumed + inside.length) rest := by
  induction h generalizing depth current consumed rest with
  | nil => simp
  | plain hopen hclose _ ih =>
    simp only [opensParen] at hopen
    simp only [closesParen] at hclose
    simp [parseArgumentLoop, hopen, hclose, ih, Nat.add_assoc, Nat.add_comm 1]
  | group hopen hclose _ _ ihInside ihRest =>
    simp only [opensParen] at hopen
    simp only [closesParen] at hclose
    simp [parseArgumentLoop, hopen, hclose, ihInside, ihRest]
    congr 1
    omega

theorem parseArgumentLoop_item (h : Brackets.Item opensParen closesParen isComma item)
    (args current consumed rest) :
    parseArgumentLoop 0 args current consumed (item ++ rest)
      = parseArgumentLoop 0 args (current ++ item) (consumed + item.length) rest := by
  induction h generalizing current consumed rest with
  | nil => simp
  | plain hopen hclose hcomma _ ih =>
    simp only [opensParen] at hopen
    simp only [closesParen] at hclose
    simp only [isComma] at hcomma
    simp [parseArgumentLoop, hopen, hclose, hcomma, ih, Nat.add_assoc, Nat.add_comm 1]
  | group hopen hclose hinside _ ih =>
    simp only [opensParen] at hopen
    simp only [closesParen] at hclose
    simp [parseArgumentLoop, hopen, hclose, parseArgumentLoop_balanced hinside, ih]
    congr 1
    omega

theorem parseArgumentLoop_list (h : ArgumentList inside items) (hclose : close.type = .rparen)
    (args consumed rest) :
    ∃ before last, items = before ++ [last] ∧
      parseArgumentLoop 0 args [] consumed (inside ++ close :: rest)
        = some (args ++ before, last, consumed + inside.length + 1) := by
  induction h generalizing args consumed with
  | @last item hitem =>
    refine ⟨[], item, rfl, ?_⟩
    simp [parseArgumentLoop_item hitem, parseArgumentLoop, hclose]
  | @next item comma tail items hitem hcomma _ ih =>
    simp only [isComma] at hcomma
    obtain ⟨before, last, heq, hloop⟩ := ih (args ++ [item]) (consumed + item.length + 1)
    refine ⟨item :: before, last, by rw [heq, List.cons_append], ?_⟩
    rw [List.append_assoc, List.cons_append, parseArgumentLoop_item hitem]
    simp [parseArgumentLoop, hcomma, hloop]
    omega

theorem parseArgumentLoop_isSome (depth args current consumed tokens) :
    (parseArgumentLoop depth args current consumed tokens).isSome
      = (Brackets.untilClose opensParen closesParen depth tokens).isSome := by
  induction tokens generalizing depth args current consumed with
  | nil => rfl
  | cons tok rest ih =>
    simp only [parseArgumentLoop, Brackets.untilClose, opensParen, closesParen]
    by_cases hclose : tok.type = .rparen
    · cases depth <;> simp [hclose, ih]
    by_cases hcomma : tok.type = .comma ∧ depth = 0
    · simp [hcomma, ih]
    · by_cases hopen : tok.type = .lparen <;> simp [hclose, hcomma, hopen, ih]

def ClosesList (tokens : List Token) : Prop :=
  ∃ inside close rest, tokens = inside ++ close :: rest ∧ BalancedParens inside ∧ close.type = .rparen

theorem parseMacroArgumentTokens_none (h : ¬ClosesList tokens) :
    parseMacroArgumentTokens tokens d = none := by
  have hscan : Brackets.untilClose opensParen closesParen 0 tokens = none := by
    cases hscan : Brackets.untilClose opensParen closesParen 0 tokens with
    | none => rfl
    | some found =>
      obtain ⟨hinside, close, hclose, heq⟩ :=
        (Brackets.untilClose_eq_some_iff opensParen_not_closes).mp hscan
      exact absurd ⟨_, close, _, heq, hinside, hclose⟩ h
  have hloop := parseArgumentLoop_isSome 0 [] [] 0 tokens
  rw [hscan, Option.isSome_none, Option.isSome_eq_false_iff, Option.isNone_iff_eq_none] at hloop
  simp [parseMacroArgumentTokens, hloop]

/-- The arguments as the splitter delivers them: a macro without parameters gets
none from an empty list. -/
def deliveredArgs (d : MacroDefinition) (items : List (List Token)) : List (List Token) :=
  if items = [[]] ∧ d.params.names = [] ∧ d.params.variadic = false then [] else items

theorem parseMacroArgumentTokens_list (h : ArgumentList inside items)
    (hclose : close.type = .rparen) (d rest) :
    parseMacroArgumentTokens (inside ++ close :: rest) d
      = some (deliveredArgs d items, inside.length + 1) := by
  obtain ⟨before, last, rfl, hloop⟩ := parseArgumentLoop_list h hclose [] 0 rest
  cases before <;> cases last <;> cases hnames : d.params.names <;>
    cases hvariadic : d.params.variadic <;>
    simp [parseMacroArgumentTokens, hloop, deliveredArgs, hnames, hvariadic]

-- The packer

theorem providedArgs_of_accepted (h : argCountMismatch d (providedArgs d rawArgs) = false) :
    providedArgs d rawArgs = rawArgs.length := by
  unfold providedArgs at h ⊢
  dsimp only at h ⊢
  split
  · rename_i hempty
    unfold argCountMismatch at h
    split at h
    · simp only [decide_eq_false_iff_not] at h
      omega
    · simp only [bne_eq_false_iff_eq] at h
      omega
  · rfl

theorem buildMacroArgPack_ok_iff :
    buildMacroArgPack d rawArgs = .ok pack ↔ argCountMismatch d (providedArgs d rawArgs) = false ∧
      pack = ⟨(rawArgs.map (MacroArg.mk · [])).take d.params.names.length,
        (rawArgs.map (MacroArg.mk · [])).drop d.params.names.length⟩ := by
  have hall : ((rawArgs.map (MacroArg.mk · [])).drop d.params.names.length).take
      (rawArgs.length - d.params.names.length)
        = (rawArgs.map (MacroArg.mk · [])).drop d.params.names.length := by
    refine List.take_of_length_le ?_
    simp
  unfold buildMacroArgPack
  dsimp only
  split
  · rename_i hcount
    simp [hcount]
  rename_i hcount
  rw [Bool.not_eq_true] at hcount
  have hlen := providedArgs_of_accepted hcount
  rw [hlen] at hcount ⊢
  rw [hall]
  constructor
  · rintro ⟨⟩
    exact ⟨hcount, rfl⟩
  · rintro ⟨-, rfl⟩
    rfl

theorem buildMacroArgPack_keeps (h : buildMacroArgPack d rawArgs = .ok pack) :
    (pack.positionals ++ pack.variadics).map MacroArg.raw = rawArgs := by
  obtain ⟨-, rfl⟩ := buildMacroArgPack_ok_iff.mp h
  simp [Function.comp_def]

-- Arity

def AcceptsArguments (d : MacroDefinition) (tokens : List Token) : Prop :=
  ∃ rawArgs consumed pack, parseMacroArgumentTokens tokens d = some (rawArgs, consumed) ∧
    buildMacroArgPack d rawArgs = .ok pack

def CountFits (d : MacroDefinition) (count : Nat) : Prop :=
  if d.params.variadic then d.params.names.length ≤ count else count = d.params.names.length

instance : Decidable (CountFits d count) := by
  unfold CountFits
  infer_instance

def c99ArgumentCount (d : MacroDefinition) (inside : List Token) (items : List (List Token)) : Nat :=
  if inside = [] then if 1 ≤ d.params.names.length ∨ d.params.variadic then 1 else 0
  else items.length

/-- The code's: an empty list is an argument only when the macro takes nothing
but variadic ones. -/
def argumentCount (d : MacroDefinition) (inside : List Token) (items : List (List Token)) : Nat :=
  if inside = [] then if d.params.names.length = 0 ∧ d.params.variadic then 1 else 0
  else items.length

theorem argCountMismatch_eq_false : argCountMismatch d count = false ↔ CountFits d count := by
  unfold argCountMismatch CountFits
  split <;> simp

theorem providedArgs_deliveredArgs (h : ArgumentList inside items) (d) :
    providedArgs d (deliveredArgs d items) = argumentCount d inside items := by
  simp only [argumentCount, h.eq_nil_iff]
  by_cases hempty : items = [[]]
  · subst hempty
    cases hnames : d.params.names <;> cases hvariadic : d.params.variadic <;>
      simp [providedArgs, deliveredArgs, hnames, hvariadic]
  have hsingle : (items.length == 1 && items.all List.isEmpty) = false := by
    match items with
    | [] => rfl
    | [item] =>
      cases item with
      | nil => exact absurd rfl hempty
      | cons => rfl
    | _ :: _ :: _ => rfl
  simp [providedArgs, deliveredArgs, hempty, hsingle]

/-- A call is accepted by the number of its arguments. -/
theorem accepts_iff_count (h : ArgumentList inside items) (hclose : close.type = .rparen) :
    AcceptsArguments d (inside ++ close :: rest) ↔ CountFits d (argumentCount d inside items) := by
  rw [← providedArgs_deliveredArgs h, ← argCountMismatch_eq_false]
  simp only [AcceptsArguments, parseMacroArgumentTokens_list h hclose]
  constructor
  · rintro ⟨_, _, _, heq, hbuild⟩
    cases heq
    exact (buildMacroArgPack_ok_iff.mp hbuild).1
  · intro hcount
    exact ⟨_, _, _, rfl, buildMacroArgPack_ok_iff.mpr ⟨hcount, rfl⟩⟩

def closingToken : Token := makeSimpleToken .rparen ")" emptyRange

/-- `#define V(a, ...)` -/
def requiredMacro : MacroDefinition := ⟨"V", .function, ⟨["a"], true, false⟩, [], emptyRange⟩

theorem requiredMacro_accepts :
    AcceptsArguments requiredMacro ([makeSimpleToken .number "1" emptyRange] ++ [closingToken]) :=
  (accepts_iff_count (.last (.plain (by decide) (by decide) (by decide) .nil)) rfl).mpr (by decide)

/-- `V()` is refused, although C counts one argument. -/
theorem requiredMacro_refuses : ¬∀ d inside items close rest, ArgumentList inside items →
    close.type = .rparen →
    (AcceptsArguments d (inside ++ close :: rest) ↔ CountFits d (c99ArgumentCount d inside items)) := by
  intro h
  have hrefused : buildMacroArgPack requiredMacro [[]] = .error (1, 0) := rfl
  obtain ⟨_, _, _, hparse, hbuild⟩ :=
    (h requiredMacro [] [[]] closingToken [] (.last .nil) rfl).mpr (by decide)
  cases hparse
  cases hrefused.symm.trans hbuild

-- Joining back

def spelled (tok : Token) : TokenType × Option String := (tok.type, tok.value)

/-- All arguments with commas between them, as `append_variadic_tokens` joins the
variadic ones. -/
def joinedArguments (pack : MacroArgPack) (origin : SourceRange) : List Token :=
  variadicTokens ((pack.positionals ++ pack.variadics).map MacroArg.raw) origin

/-- Splitting and packing the arguments of a variadic macro loses no token. The
lexer spells every comma as one (`lexSource_comma`). -/
theorem arguments_lossless (hvariadic : d.params.variadic = true)
    (hcomma : ∀ tok ∈ tokens, CommaSpelled tok) (origin : SourceRange) :
    (∀ inside close rest, tokens = inside ++ close :: rest → BalancedParens inside →
      close.type = .rparen →
      ∃ rawArgs, parseMacroArgumentTokens tokens d = some (rawArgs, inside.length + 1) ∧
        ∀ pack, buildMacroArgPack d rawArgs = .ok pack →
          (joinedArguments pack origin).map spelled = inside.map spelled) ∧
    (¬ClosesList tokens → parseMacroArgumentTokens tokens d = none) := by
  refine ⟨?_, parseMacroArgumentTokens_none⟩
  rintro inside close rest rfl hinside hclose
  obtain ⟨items, hitems⟩ := hinside.separated isComma
  have hdelivered : deliveredArgs d items = items := by simp [deliveredArgs, hvariadic]
  refine ⟨items, ?_, ?_⟩
  · rw [parseMacroArgumentTokens_list hitems hclose, hdelivered]
  · intro pack hpack
    rw [joinedArguments, buildMacroArgPack_keeps hpack]
    refine hitems.join fun tok hmem htype => ?_
    exact Prod.ext htype (hcomma tok (by simp [hmem]) htype)

def wordArgument : List Token := [makeSimpleToken .identifier "x" emptyRange]

/-- `(x), )` -/
def nestedArguments : List Token :=
  makeSimpleToken .lparen "(" emptyRange ::
    (wordArgument ++ closingToken :: [makeSimpleToken .comma "," emptyRange])

theorem arguments_lossless_nested :
    ∃ rawArgs, parseMacroArgumentTokens (nestedArguments ++ [closingToken]) requiredMacro
        = some (rawArgs, 5) ∧
      ∀ pack, buildMacroArgPack requiredMacro rawArgs = .ok pack →
        (joinedArguments pack emptyRange).map spelled = nestedArguments.map spelled := by
  have hcomma : ∀ tok ∈ nestedArguments ++ [closingToken], CommaSpelled tok := by
    unfold CommaSpelled
    decide
  refine (arguments_lossless (d := requiredMacro) rfl hcomma emptyRange).1 nestedArguments closingToken
    [] rfl ?_ rfl
  have hword : BalancedParens wordArgument := .plain (by decide) (by decide) .nil
  exact .group (by decide) (by decide) hword (.plain (by decide) (by decide) .nil)

end Fisics
