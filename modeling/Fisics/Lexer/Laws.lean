import Fisics.Lexer.Scan

/-!
# Laws of the lexer

The types that the lexer gives to its tokens. A text without `#`, in any of its
spellings, has no directive: the word `pragma` is the only one that gets the type
of a directive all the same.
-/

namespace Fisics

-- Words

def isWordType (t : TokenType) : Bool :=
  t == .identifier || t.isKeyword || t == .pragma || t == .once || t == .asm

theorem keywordToTokenType_isWordType (name : String) : isWordType (keywordToTokenType name) = true := by
  repeat refine iteInduction (motive := (isWordType · = true)) (fun _ => by decide) fun _ => ?_
  decide

theorem identifierTokenType_isWordType (name : String) : isWordType (identifierTokenType name) = true := by
  refine iteInduction (motive := (isWordType · = true))
    (fun _ => keywordToTokenType_isWordType name) fun _ => ?_
  repeat refine iteInduction (motive := (isWordType · = true)) (fun _ => by decide) fun _ => ?_
  decide

theorem identifierTokenType_not (name : String) (h : isWordType t = false) :
    identifierTokenType name ≠ t := by
  rintro rfl
  rw [identifierTokenType_isWordType] at h
  cases h

-- Text without a hash

def isDirectiveType : TokenType → Bool
  | .include | .includeNext | .define | .undef | .ifdef | .ifndef | .endif | .preprocessorOther
  | .ppIf | .ppElif | .ppElse => true
  | _ => false

structure LexesText (lexer : Lexer) (r : Token × Lexer) : Prop where
  type : isDirectiveType r.1.type = false
  source : r.2.source = lexer.source

section
variable (lexer : Lexer)

@[simp] theorem Lexer.advance_source (n : Nat) :
    (lexer.advance n).source = lexer.source := rfl

@[simp] theorem Lexer.skipWhile_source (p : Char → Bool) :
    (lexer.skipWhile p).source = lexer.source := rfl

@[simp] theorem Lexer.newline_source : lexer.newline.source = lexer.source := rfl

@[simp] theorem Lexer.reportError_source (message got : String) :
    (lexer.reportError message got).source = lexer.source := rfl

theorem rest_advance (n : Nat) : (lexer.advance n).rest = lexer.rest.drop n :=
  (List.drop_drop ..).symm

theorem rest_newline : lexer.newline.rest = lexer.rest.drop 1 :=
  (List.drop_drop ..).symm

theorem textFrom_advance (n : Nat) :
    (lexer.advance n).textFrom lexer.position = String.ofList (lexer.rest.take n) := by
  simp only [Lexer.textFrom, Lexer.advance, Nat.add_sub_cancel_left]
  rfl

theorem Lexer.cur_eq : lexer.cur = lexer.rest.headD '\x00' := by
  rw [Lexer.cur, Lexer.peek, Lexer.rest, List.headD_eq_head?_getD, List.head?_drop,
    List.getD_eq_getElem?_getD, Nat.add_zero]

end

theorem rest_of_cur {lexer : Lexer} (hcur : lexer.cur = c) (hc : c ≠ '\x00') :
    lexer.rest = c :: lexer.rest.drop 1 := by
  rw [Lexer.cur_eq] at hcur
  cases hrest : lexer.rest with
  | nil =>
    rw [hrest] at hcur
    exact absurd hcur.symm hc
  | cons d rest =>
    rw [hrest] at hcur
    rw [show d = c from hcur]
    rfl

theorem emit_text (htype : isDirectiveType type = false) (hsource : stop.source = lexer.source) :
    LexesText lexer (emit stop type value start) := ⟨htype, hsource⟩

theorem handleIdentifierOrKeyword_text (lexer : Lexer) :
    LexesText lexer (handleIdentifierOrKeyword lexer) := by
  refine emit_text ?_ rfl
  generalize String.ofList _ = text
  have h := identifierTokenType_isWordType text
  generalize identifierTokenType text = t at h
  cases t <;> first
    | rfl
    | exact absurd h (by decide)

-- Numbers

structure ScansText (lexer : Lexer) (scan : NumberScan) : Prop where
  type : isDirectiveType scan.type = false
  source : scan.lexer.source = lexer.source

theorem scanRadix_text (lexer : Lexer) : ScansText lexer (scanRadix lexer) := by
  unfold scanRadix
  split
  · exact ⟨rfl, rfl⟩
  split
  all_goals exact ⟨rfl, rfl⟩

theorem scanFraction_text (h : ScansText lexer scan) : ScansText lexer (scanFraction scan) := by
  unfold scanFraction
  split
  · exact ⟨rfl, h.source⟩
  · exact h

theorem scanExponent_text (h : ScansText lexer scan) : ScansText lexer (scanExponent scan).1 := by
  have hsource : (if (scan.lexer.advance 1).cur = '+' ∨ (scan.lexer.advance 1).cur = '-' then
      (scan.lexer.advance 1).advance 1 else scan.lexer.advance 1).source = lexer.source := by
    split <;> exact h.source
  unfold scanExponent
  dsimp only
  generalize (if (scan.lexer.advance 1).cur = '+' ∨ (scan.lexer.advance 1).cur = '-' then
    (scan.lexer.advance 1).advance 1 else scan.lexer.advance 1) = digits at hsource ⊢
  split
  · exact ⟨h.type, hsource⟩
  · exact ⟨rfl, hsource⟩

theorem scanSuffix_text (h : ScansText lexer scan) : ScansText lexer (scanSuffix scan) := by
  refine ⟨?_, h.source⟩
  unfold scanSuffix
  dsimp only
  split
  · rfl
  · exact h.type

theorem rejectNumber_text (h : stop.source = lexer.source) :
    LexesText lexer (rejectNumber stop message start) := emit_text rfl h

theorem finishNumber_text (h : ScansText lexer scan) : LexesText lexer (finishNumber scan start) := by
  unfold finishNumber
  split
  · refine rejectNumber_text ?_
    unfold numberErrorEnd
    dsimp only
    split <;> exact h.source
  · exact emit_text h.type h.source

theorem handleNumber_text (lexer : Lexer) : LexesText lexer (handleNumber lexer) := by
  have hscan := scanFraction_text (scanRadix_text lexer)
  unfold handleNumber
  dsimp only
  split
  · have hexponent := scanExponent_text hscan
    split
    · exact finishNumber_text (scanSuffix_text hexponent)
    · exact rejectNumber_text hexponent.source
  · exact finishNumber_text (scanSuffix_text hscan)

-- Literals, comments and operators

theorem handleStringLiteral_text (h : stop.source = lexer.source) :
    LexesText lexer (handleStringLiteral stop) := by
  unfold handleStringLiteral
  dsimp only
  split
  all_goals exact emit_text rfl h

theorem handleCharLiteral_text (h : stop.source = lexer.source) :
    LexesText lexer (handleCharLiteral stop) := by
  unfold handleCharLiteral
  dsimp only
  split
  · split
    all_goals exact emit_text rfl h
  all_goals exact emit_text rfl h

theorem skipBlank_source (text : List Char) (lexer : Lexer) :
    (skipBlank text lexer).source = lexer.source := by
  fun_induction skipBlank text lexer with
  | case1 rest lexer ih | case2 rest lexer ih => exact ih
  | case3 c rest lexer h | case6 => rfl
  | case4 | case5 => assumption

theorem skipBlockComment_source (text : List Char) (lexer : Lexer) :
    (skipBlockComment text lexer).1.source = lexer.source := by
  fun_induction skipBlockComment text lexer with
  | case1 | case2 => rfl
  | case3 | case4 => assumption

theorem handleComment_text (hnext : ∀ stop, stop.source = lexer.source → LexesText lexer (next stop)) :
    LexesText lexer (handleComment next lexer) := by
  unfold handleComment
  dsimp only
  split
  · exact emit_text rfl rfl
  split
  · exact emit_text rfl rfl
  split
  · exact hnext _ rfl
  · split
    · have hstop := skipBlockComment_source (lexer.advance 2).rest (lexer.advance 2)
      split
      · exact hnext _ hstop
      · exact emit_text rfl hstop
    · exact emit_text rfl rfl

theorem operatorToken_text (h : operatorToken c d e = some (type, text)) :
    isDirectiveType type = false := by
  unfold operatorToken at h
  split at h
  all_goals repeat' split at h
  all_goals cases h
  all_goals rfl

theorem punctuationToken_text (h : punctuationToken c d e = some (type, text)) :
    isDirectiveType type = false := by
  unfold punctuationToken at h
  split at h
  all_goals repeat' split at h
  all_goals cases h
  all_goals rfl

theorem handleUnknownToken_text (lexer : Lexer) : LexesText lexer (handleUnknownToken lexer) := by
  unfold handleUnknownToken
  dsimp only
  split
  · split
    all_goals exact emit_text rfl rfl
  · exact emit_text rfl rfl

theorem handleOperator_text (lexer : Lexer) : LexesText lexer (handleOperator lexer) := by
  unfold handleOperator
  split
  · exact emit_text (operatorToken_text ‹_›) rfl
  · exact handleUnknownToken_text lexer

theorem handlePunctuation_text (lexer : Lexer) : LexesText lexer (handlePunctuation lexer) := by
  unfold handlePunctuation
  split
  · exact emit_text (punctuationToken_text ‹_›) rfl
  · exact emit_text rfl rfl

-- The token stream

theorem peek_ne {lexer : Lexer} (h : '#' ∉ lexer.source) (k : Nat) : lexer.peek k ≠ '#' := by
  unfold Lexer.peek
  rw [List.getD_eq_getElem?_getD]
  cases hget : lexer.source[lexer.position + k]? with
  | none => decide
  | some c =>
    rintro rfl
    exact h (List.mem_of_getElem? hget)

theorem prependLiteralPrefix_text (h : LexesText lexer r) (tag : String) :
    LexesText lexer (prependLiteralPrefix r.1 tag, r.2) := ⟨h.type, h.source⟩

theorem markAmbiguousNarrowStringLiteral_text (h : LexesText lexer r) :
    LexesText lexer (markAmbiguousNarrowStringLiteral r.1, r.2) := by
  refine ⟨?_, h.source⟩
  unfold markAmbiguousNarrowStringLiteral
  split
  all_goals exact h.type

theorem dispatchToken_text (hhash : '#' ∉ lexer.source)
    (hnext : ∀ stop, stop.source = lexer.source → LexesText lexer (next stop)) :
    LexesText lexer (dispatchToken next lexer) := by
  have either : ∀ {p : Prop} [Decidable p] {a b : Token × Lexer}, (p → LexesText lexer a) →
      (¬p → LexesText lexer b) → LexesText lexer (if p then a else b) :=
    fun ha hb => iteInduction ha hb
  have hstring : ∀ n, LexesText lexer (handleStringLiteral (lexer.advance n)) :=
    fun n => handleStringLiteral_text rfl
  have hchar : LexesText lexer (handleCharLiteral (lexer.advance 1)) := handleCharLiteral_text rfl
  refine either (fun _ => prependLiteralPrefix_text (hstring 2) _) fun _ => ?_
  refine either (fun _ => prependLiteralPrefix_text (hstring 1) _) fun _ => ?_
  refine either (fun _ => prependLiteralPrefix_text hchar _) fun _ => ?_
  refine either (fun _ => either (fun _ => handleIdentifierOrKeyword_text lexer)
    fun _ => emit_text rfl rfl) fun _ => ?_
  refine either (fun _ => handleIdentifierOrKeyword_text lexer) fun _ => ?_
  refine either (fun _ => handleNumber_text lexer) fun _ => ?_
  refine either (fun _ => handleNumber_text lexer) fun _ => ?_
  refine either (fun _ => markAmbiguousNarrowStringLiteral_text (r := handleStringLiteral lexer)
    (handleStringLiteral_text rfl)) fun _ => ?_
  refine either (fun _ => handleCharLiteral_text rfl) fun _ => ?_
  refine either (fun hcur => absurd hcur (peek_ne hhash 0)) fun _ => ?_
  refine either (fun _ => handleComment_text hnext) fun _ => ?_
  refine either (fun _ => handleOperator_text lexer) fun _ => ?_
  exact either (fun _ => handlePunctuation_text lexer) fun _ => handleUnknownToken_text lexer

theorem LexesText.of_source (h : LexesText lexer' r) (hsource : lexer'.source = lexer.source) :
    LexesText lexer r := ⟨h.type, h.source.trans hsource⟩

theorem getNextTokenFuel_text (fuel : Nat) (lexer : Lexer) (hhash : '#' ∉ lexer.source) :
    LexesText lexer (getNextTokenFuel fuel lexer) := by
  induction fuel generalizing lexer with
  | zero => exact emit_text rfl rfl
  | succ fuel ih =>
    have hskip : (skipWhitespace lexer).source = lexer.source := skipBlank_source _ lexer
    unfold getNextTokenFuel
    dsimp only
    split
    · exact emit_text rfl hskip
    refine LexesText.of_source (dispatchToken_text (by rwa [hskip]) fun stop hstop => ?_) hskip
    exact (ih stop (by rwa [hstop, hskip])).of_source hstop

theorem getNextToken_text (lexer : Lexer) (hhash : '#' ∉ lexer.source) :
    LexesText lexer (getNextToken lexer) := getNextTokenFuel_text _ lexer hhash

theorem fillFromLexer_text (budget : Nat) (lexer : Lexer) (hhash : '#' ∉ lexer.source) :
    ∀ tok ∈ (fillFromLexer budget lexer).1, isDirectiveType tok.type = false := by
  induction budget generalizing lexer with
  | zero =>
    have hnext := getNextToken_text lexer hhash
    unfold fillFromLexer
    dsimp only
    split <;> simpa using hnext.type
  | succ budget ih =>
    have hnext := getNextToken_text lexer hhash
    unfold fillFromLexer
    dsimp only
    split
    · simpa using hnext.type
    intro tok htok
    obtain rfl | htok := List.mem_cons.mp htok
    · exact hnext.type
    · exact ih _ (by rwa [hnext.source]) tok htok

-- Translation

/-- The text has no `#`, and neither its digraph nor its trigraph. -/
structure NoHash (source : List Char) : Prop where
  hash : '#' ∉ source
  digraph : ¬['%', ':'] <:+: source
  trigraph : ¬['?', '?', '='] <:+: source

theorem NoHash.tail (h : NoHash (c :: rest)) : NoHash rest where
  hash hmem := h.hash (List.mem_cons_of_mem c hmem)
  digraph hwithin := h.digraph (hwithin.trans (List.suffix_cons c rest).isInfix)
  trigraph hwithin := h.trigraph (hwithin.trans (List.suffix_cons c rest).isInfix)

theorem translateTrigraphChar_hash (h : translateTrigraphChar c = some '#') : c = '=' := by
  unfold translateTrigraphChar at h
  split at h <;> first
    | rfl
    | exact absurd h (by decide)

theorem translateTrigraph_noHash (h : NoHash text) (ht : translateTrigraph text = some (out, taken)) :
    ∀ w ∈ out, w.1 ≠ '#' := by
  unfold translateTrigraph at ht
  split at ht
  · split at ht
    · cases ht
      simp
    · cases ht
      simp
    · rename_i c rest _ _ mapped hmapped _ _
      cases ht
      intro w hw
      rw [List.mem_singleton.mp hw]
      rintro rfl
      obtain rfl := translateTrigraphChar_hash hmapped
      exact h.trigraph ⟨[], rest, rfl⟩
    · cases ht
  · cases ht

theorem translateDigraph_noHash (h : NoHash text) : ∀ w ∈ (translateDigraph text).1, w.1 ≠ '#' := by
  unfold translateDigraph
  split
  · simp
  · simp
  · rename_i rest
    exact absurd ⟨[], '%' :: ':' :: rest, rfl⟩ h.digraph
  · rename_i rest _
    exact absurd ⟨[], rest, rfl⟩ h.digraph
  · simp
  · simp
  · simp
  · simp
  · intro w hw
    rw [List.mem_singleton.mp hw]
    rintro rfl
    exact h.hash List.mem_cons_self
  · simp

theorem translateAt_noHash (enableTrigraphs : Bool) (h : NoHash text) :
    ∀ w ∈ (translateAt enableTrigraphs text).1, w.1 ≠ '#' := by
  unfold translateAt
  split
  · cases ht : translateTrigraph text with
    | none => exact translateDigraph_noHash h
    | some r => exact translateTrigraph_noHash h ht
  · exact translateDigraph_noHash h

/-- What every round writes, when the text ahead of it is as `Text` says, the
translation has. -/
theorem translateLoop_all (Text : List Char → Prop) (Written : Char → Prop)
    (enableTrigraphs : Bool) (htail : ∀ c rest, Text (c :: rest) → Text rest)
    (hround : ∀ text, Text text → ∀ w ∈ (translateAt enableTrigraphs text).1, Written w.1)
    (skip : Nat) (pos : Nat × Nat) (source : List Char) (h : Text source) :
    ∀ m ∈ (translateLoop enableTrigraphs skip pos source).1, Written m.char := by
  induction source generalizing skip pos with
  | nil => cases skip <;> simp [translateLoop]
  | cons c rest ih =>
    cases skip with
    | succ skip => exact ih skip _ (htail c rest h)
    | zero =>
      intro m hm
      obtain hm | hm := List.mem_append.mp hm
      · obtain ⟨w, hw, rfl⟩ := List.mem_map.mp hm
        exact hround _ h w hw
      · exact ih _ _ (htail c rest h) m hm

theorem translateLoop_noHash (enableTrigraphs : Bool) (skip : Nat) (pos : Nat × Nat)
    (source : List Char) (h : NoHash source) :
    ∀ m ∈ (translateLoop enableTrigraphs skip pos source).1, m.char ≠ '#' :=
  translateLoop_all NoHash (· ≠ '#') enableTrigraphs (fun _ _ h => h.tail)
    (fun _ h => translateAt_noHash enableTrigraphs h) skip pos source h

/-- The tokens of a text without `#` are not directives, the word `pragma` apart. -/
theorem lexSource_text (source : List Char) (filePath : Option String) (enableTrigraphs : Bool)
    (h : NoHash source) :
    ∀ tok ∈ (lexSource source filePath enableTrigraphs).1, isDirectiveType tok.type = false := by
  refine fillFromLexer_text _ _ fun hmem => ?_
  obtain ⟨m, hm, hchar⟩ := List.mem_map.mp hmem
  exact translateLoop_noHash enableTrigraphs 0 (1, 1) source h m hm hchar

-- Types of tokens

def numberTypes : List TokenType := [.number, .floatLiteral, .unknown]

theorem number_mem : .number ∈ numberTypes := by decide

theorem floatLiteral_mem : .floatLiteral ∈ numberTypes := by decide

theorem unknown_mem : .unknown ∈ numberTypes := by decide

theorem scanRadix_type (lexer : Lexer) : (scanRadix lexer).type ∈ numberTypes := by
  unfold scanRadix
  split
  · exact number_mem
  · split <;> exact number_mem

theorem scanFraction_type (h : scan.type ∈ numberTypes) : (scanFraction scan).type ∈ numberTypes := by
  unfold scanFraction
  split
  · exact floatLiteral_mem
  · exact h

theorem scanExponent_type (h : scan.type ∈ numberTypes) : (scanExponent scan).1.type ∈ numberTypes := by
  unfold scanExponent
  dsimp only
  generalize (if (scan.lexer.advance 1).cur = '+' ∨ (scan.lexer.advance 1).cur = '-' then
    (scan.lexer.advance 1).advance 1 else scan.lexer.advance 1) = digits
  split
  · exact h
  · exact floatLiteral_mem

theorem scanSuffix_type (h : scan.type ∈ numberTypes) : (scanSuffix scan).type ∈ numberTypes := by
  unfold scanSuffix
  dsimp only
  split
  · exact floatLiteral_mem
  · exact h

theorem finishNumber_type (h : scan.type ∈ numberTypes) :
    (finishNumber scan start).1.type ∈ numberTypes := by
  unfold finishNumber
  split
  · exact unknown_mem
  · exact h

theorem handleNumber_type (lexer : Lexer) : (handleNumber lexer).1.type ∈ numberTypes := by
  have hscan := scanFraction_type (scanRadix_type lexer)
  unfold handleNumber
  dsimp only
  split
  · split
    · exact finishNumber_type (scanSuffix_type (scanExponent_type hscan))
    · exact unknown_mem
  · exact finishNumber_type (scanSuffix_type hscan)

theorem handleStringLiteral_type (lexer : Lexer) :
    (handleStringLiteral lexer).1.type = .string ∨ (handleStringLiteral lexer).1.type = .unknown := by
  unfold handleStringLiteral
  dsimp only
  split
  · exact .inl rfl
  all_goals exact .inr rfl

theorem handleCharLiteral_type (lexer : Lexer) :
    (handleCharLiteral lexer).1.type = .charLiteral ∨ (handleCharLiteral lexer).1.type = .unknown := by
  unfold handleCharLiteral
  dsimp only
  split
  · split
    · exact .inr rfl
    · exact .inl rfl
  all_goals exact .inr rfl

theorem markAmbiguousNarrowStringLiteral_type (tok : Token) :
    (markAmbiguousNarrowStringLiteral tok).type = tok.type := by
  unfold markAmbiguousNarrowStringLiteral
  split <;> rfl

def hashTypes : List TokenType :=
  [.hash, .doubleHash, .include, .includeNext, .define, .undef, .ifdef, .ifndef, .ppIf, .ppElif,
   .ppElse, .endif, .pragma, .preprocessorOther]

theorem directiveTokenType_mem (directive : String) : directiveTokenType directive ∈ hashTypes := by
  repeat refine iteInduction (motive := (· ∈ hashTypes)) (fun _ => by decide) fun _ => ?_
  decide

theorem handlePreprocessorDirective_type (lexer : Lexer) :
    (handlePreprocessorDirective lexer).1.type ∈ hashTypes := by
  have hash : TokenType.hash ∈ hashTypes := by decide
  unfold handlePreprocessorDirective
  dsimp only
  split
  · split
    · show TokenType.doubleHash ∈ hashTypes
      decide
    · exact hash
  · split
    · exact hash
    · exact directiveTokenType_mem _

theorem handleUnknownToken_type (lexer : Lexer) : (handleUnknownToken lexer).1.type = .unknown := by
  unfold handleUnknownToken
  dsimp only
  split
  · split <;> rfl
  · rfl

def nonOperatorTypes : List TokenType := [.comma, .number, .charLiteral]

theorem operatorToken_type (h : operatorToken c d e = some (type, text)) : type ∉ nonOperatorTypes := by
  unfold operatorToken at h
  split at h
  all_goals repeat' split at h
  all_goals cases h
  all_goals decide

theorem handleOperator_type (lexer : Lexer) : (handleOperator lexer).1.type ∉ nonOperatorTypes := by
  unfold handleOperator
  split
  · exact operatorToken_type ‹_›
  rw [handleUnknownToken_type]
  decide

-- A rule for every token

/-- What holds of the tokens of each handler. `other` is what `getNextToken` and the handler of
comments make themselves. -/
structure TokenRule (P : Token → Prop) : Prop where
  word : ∀ lexer, P (handleIdentifierOrKeyword lexer).1
  ucn : ∀ lexer, P (handleUnsupportedUcn lexer).1
  number : ∀ lexer, lexer.cur.isDigit = true ∨ lexer.cur = '.' → P (handleNumber lexer).1
  string : ∀ lexer tag, P (prependLiteralPrefix (handleStringLiteral lexer).1 tag)
  narrow : ∀ lexer, P (markAmbiguousNarrowStringLiteral (handleStringLiteral lexer).1)
  character : ∀ lexer, P (handleCharLiteral lexer).1
  wide : ∀ lexer, P (prependLiteralPrefix (handleCharLiteral lexer).1 "W|")
  directive : ∀ lexer, P (handlePreprocessorDirective lexer).1
  operator : ∀ lexer, P (handleOperator lexer).1
  punctuation : ∀ lexer, P (handlePunctuation lexer).1
  unknown : ∀ lexer, P (handleUnknownToken lexer).1
  other : ∀ lexer type text start, type ∈ [.divide, .divAssign, .unknown, .eof] →
    P (makeToken lexer type text start)

section
variable {P : Token → Prop}

theorem ite_token [Decidable p] {a b : Token × Lexer} (ha : p → P a.1) (hb : ¬p → P b.1) :
    P (if p then a else b).1 :=
  iteInduction (motive := fun r : Token × Lexer => P r.1) ha hb

theorem TokenRule.handleComment (rule : TokenRule P) (hnext : ∀ stop, P (next stop).1) (lexer : Lexer) :
    P (handleComment next lexer).1 := by
  refine ite_token (fun _ => rule.other _ _ _ _ (by decide)) fun _ => ?_
  refine ite_token (fun _ => rule.other _ _ _ _ (by decide)) fun _ => ?_
  refine ite_token (fun _ => hnext _) fun _ => ?_
  refine ite_token (fun _ => ?_) fun _ => rule.other _ _ _ _ (by decide)
  exact ite_token (fun _ => hnext _) fun _ => rule.other _ _ _ _ (by decide)

theorem TokenRule.dispatchToken (rule : TokenRule P) (hnext : ∀ stop, P (next stop).1) (lexer : Lexer) :
    P (dispatchToken next lexer).1 := by
  refine ite_token (fun _ => rule.string _ _) fun _ => ?_
  refine ite_token (fun _ => rule.string _ _) fun _ => ?_
  refine ite_token (fun _ => rule.wide _) fun _ => ?_
  refine ite_token (fun _ => ite_token (fun _ => rule.word _) fun _ => rule.ucn _) fun _ => ?_
  refine ite_token (fun _ => rule.word _) fun _ => ?_
  refine ite_token (fun hdigit => rule.number _ (.inl hdigit)) fun _ => ?_
  refine ite_token (fun hdot => rule.number _ (.inr hdot.1)) fun _ => ?_
  refine ite_token (fun _ => rule.narrow _) fun _ => ?_
  refine ite_token (fun _ => rule.character _) fun _ => ?_
  refine ite_token (fun _ => rule.directive _) fun _ => ?_
  refine ite_token (fun _ => rule.handleComment hnext _) fun _ => ?_
  refine ite_token (fun _ => rule.operator _) fun _ => ?_
  exact ite_token (fun _ => rule.punctuation _) fun _ => rule.unknown _

theorem TokenRule.getNextTokenFuel (rule : TokenRule P) (fuel : Nat) (lexer : Lexer) :
    P (getNextTokenFuel fuel lexer).1 := by
  induction fuel generalizing lexer with
  | zero => exact rule.other _ _ _ _ (by decide)
  | succ fuel ih =>
    exact ite_token (fun _ => rule.other _ _ _ _ (by decide)) fun _ => rule.dispatchToken ih _

theorem TokenRule.getNextToken (rule : TokenRule P) (lexer : Lexer) : P (getNextToken lexer).1 :=
  rule.getNextTokenFuel _ lexer

end

-- Commas

def CommaSpelled (tok : Token) : Prop := tok.type = .comma → tok.value = some ","

theorem ne_of_types {types : List TokenType} (h : t ∈ types) (hnot : u ∉ types) : t ≠ u := by
  rintro rfl
  exact hnot h

end Fisics
