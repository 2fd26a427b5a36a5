import Mathlib.Data.List.Forall2

/-!
# Typedef names and ordinary names in the parser

The parser keeps one set of typedef names for the whole translation unit and a
stack of frames with the ordinary names it has recorded. A program is followed
through both, beside the scopes C gives its declarations.
-/

namespace Fisics

-- The parser's names

/-- `typedef_names` of the context, and `ordinaryScope` from the innermost frame out. -/
structure ParserNames where
  typedefNames : List String
  ordinaryScope : List (List String)
  deriving DecidableEq

def parserPushOrdinaryScope (p : ParserNames) : ParserNames :=
  { p with ordinaryScope := [] :: p.ordinaryScope }

def parserPopOrdinaryScope (p : ParserNames) : ParserNames :=
  { p with ordinaryScope := p.ordinaryScope.tail }

def parserRecordOrdinaryIdentifier (p : ParserNames) (name : String) : ParserNames :=
  if name = "" then p
  else match p.ordinaryScope with
    | [] => { p with ordinaryScope := [[name]] }
    | names :: parent =>
      if names.contains name then p else { p with ordinaryScope := (name :: names) :: parent }

def ccAddTypedef (p : ParserNames) (name : String) : ParserNames :=
  if p.typedefNames.contains name then p else { p with typedefNames := name :: p.typedefNames }

def parserIsTypedefVisible (p : ParserNames) (name : String) : Bool :=
  name ≠ "" && p.typedefNames.contains name && !p.ordinaryScope.any (·.contains name)

-- Programs

abbrev Identifier := { name : String // name ≠ "" }

structure NameDeclarator where
  name : Identifier
  hasTail : Bool

inductive ScopeDecl where
  | typedefs (declarators : List NameDeclarator)
  | variables (declarators : List NameDeclarator)
  | enumerators (names : List Identifier)

inductive ScopeItem where
  | decl (d : ScopeDecl)
  | block (items : List ScopeItem)
  | forLoop (init : List NameDeclarator) (body : ScopeItem)
  | switchStmt (items : List ScopeItem)

inductive ExternalDecl where
  | decl (d : ScopeDecl)
  | function (parameters : List Identifier) (body : List ScopeItem)

def followed : List NameDeclarator → List Identifier
  | [] => []
  | d :: rest => (if d.hasTail || !rest.isEmpty then [d.name] else []) ++ followed rest

-- The parser on a program: its state at the end, and at each point on the way

def pointsInside (p : ParserNames) (declarators : List NameDeclarator) : List ParserNames :=
  (followed declarators).map fun _ => p

def parseTypedef (p : ParserNames) (declarators : List NameDeclarator) : ParserNames × List ParserNames :=
  let after := declarators.foldl (fun p d => ccAddTypedef p d.name) p
  (after, pointsInside p declarators ++ [after])

/-- `parseVariableDeclaration`, and `parseDeclarationForLoop` likewise. -/
def parseVariableDeclaration (p : ParserNames) (declarators : List NameDeclarator) :
    ParserNames × List ParserNames :=
  let after := declarators.foldl (fun p d => parserRecordOrdinaryIdentifier p d.name) p
  (after, pointsInside p declarators ++ [after])

def parseEnumDefinition (p : ParserNames) (names : List Identifier) : ParserNames × List ParserNames :=
  (p, names.map fun _ => p)

def parseScopeDecl (p : ParserNames) : ScopeDecl → ParserNames × List ParserNames
  | .typedefs declarators => parseTypedef p declarators
  | .variables declarators => parseVariableDeclaration p declarators
  | .enumerators names => parseEnumDefinition p names

mutual
def parseScopeItem (p : ParserNames) : ScopeItem → ParserNames × List ParserNames
  | .decl d => parseScopeDecl p d
  | .block items =>
    let inner := parseScopeItems (parserPushOrdinaryScope p) items
    let after := parserPopOrdinaryScope inner.1
    (after, inner.2 ++ [after])
  | .forLoop init body =>
    let header := parseVariableDeclaration p init
    let inner := parseScopeItem header.1 body
    (inner.1, header.2 ++ inner.2 ++ [inner.1])
  | .switchStmt items =>
    let inner := parseScopeItems p items
    (inner.1, inner.2 ++ [inner.1])
def parseScopeItems (p : ParserNames) : List ScopeItem → ParserNames × List ParserNames
  | [] => (p, [])
  | item :: items =>
    let first := parseScopeItem p item
    let rest := parseScopeItems first.1 items
    (rest.1, first.2 ++ rest.2)
end

def recordParameters (p : ParserNames) : List Identifier → ParserNames × List ParserNames
  | [] => (p, [])
  | name :: names =>
    let after := parserRecordOrdinaryIdentifier p name
    let rest := recordParameters after names
    (rest.1, after :: rest.2)

/-- The parameters are recorded in a frame of their list, and once more in a frame
around the body (`parserPushFunctionParameterScope`). -/
def parseFunctionDefinition (p : ParserNames) (parameters : List Identifier) (body : List ScopeItem) :
    ParserNames × List ParserNames :=
  let listed := recordParameters (parserPushOrdinaryScope p) parameters
  let outer := parserPopOrdinaryScope listed.1
  let around := (recordParameters (parserPushOrdinaryScope outer) parameters).1
  let start := parserPushOrdinaryScope around
  let inner := parseScopeItems start body
  let after := parserPopOrdinaryScope (parserPopOrdinaryScope inner.1)
  (after, listed.2 ++ [start] ++ inner.2 ++ [after])

def parseExternalDecl (p : ParserNames) : ExternalDecl → ParserNames × List ParserNames
  | .decl d => parseScopeDecl p d
  | .function parameters body => parseFunctionDefinition p parameters body

def parseExternalDecls (p : ParserNames) : List ExternalDecl → List ParserNames
  | [] => []
  | d :: rest => (parseExternalDecl p d).2 ++ parseExternalDecls (parseExternalDecl p d).1 rest

/-- `initParser` after `cc_seed_builtins`. -/
def initParserNames (seeded : List Identifier) : ParserNames := ⟨seeded.map Subtype.val, [[]]⟩

-- The scopes of C

inductive DeclaredAs where
  | typedefName
  | variable
  | enumerator
  deriving DecidableEq

abbrev CScopes := List (List (Identifier × DeclaredAs))

def denotes (scopes : CScopes) (name : Identifier) : Option DeclaredAs :=
  scopes.findSome? (·.lookup name)

def declareIn (scopes : CScopes) (kind : DeclaredAs) (name : Identifier) : CScopes :=
  ((name, kind) :: scopes.headD []) :: scopes.tail

def scopesInside (kind : DeclaredAs) (scopes : CScopes) : List NameDeclarator → List CScopes
  | [] => []
  | d :: rest =>
    (if d.hasTail || !rest.isEmpty then [declareIn scopes kind d.name] else []) ++
      scopesInside kind (declareIn scopes kind d.name) rest

def scopeDeclarators (kind : DeclaredAs) (scopes : CScopes) (declarators : List NameDeclarator) :
    CScopes × List CScopes :=
  let after := declarators.foldl (fun scopes d => declareIn scopes kind d.name) scopes
  (after, scopesInside kind scopes declarators ++ [after])

/-- Names that are each in scope before the next, with a point after every one. -/
def scopeNames (kind : DeclaredAs) (scopes : CScopes) : List Identifier → CScopes × List CScopes
  | [] => (scopes, [])
  | name :: names =>
    let after := declareIn scopes kind name
    let rest := scopeNames kind after names
    (rest.1, after :: rest.2)

def scopeDecl (scopes : CScopes) : ScopeDecl → CScopes × List CScopes
  | .typedefs declarators => scopeDeclarators .typedefName scopes declarators
  | .variables declarators => scopeDeclarators .variable scopes declarators
  | .enumerators names => scopeNames .enumerator scopes names

mutual
def scopeItem (scopes : CScopes) : ScopeItem → CScopes × List CScopes
  | .decl d => scopeDecl scopes d
  | .block items =>
    let inner := scopeItems ([] :: scopes) items
    (inner.1.tail, inner.2 ++ [inner.1.tail])
  | .forLoop init body =>
    let header := scopeDeclarators .variable ([] :: scopes) init
    let inner := scopeItem header.1 body
    (inner.1.tail, header.2 ++ inner.2 ++ [inner.1.tail])
  | .switchStmt items =>
    let inner := scopeItems ([] :: scopes) items
    (inner.1.tail, inner.2 ++ [inner.1.tail])
def scopeItems (scopes : CScopes) : List ScopeItem → CScopes × List CScopes
  | [] => (scopes, [])
  | item :: items =>
    let first := scopeItem scopes item
    let rest := scopeItems first.1 items
    (rest.1, first.2 ++ rest.2)
end

def scopeExternalDecl (scopes : CScopes) : ExternalDecl → CScopes × List CScopes
  | .decl d => scopeDecl scopes d
  | .function parameters body =>
    let listed := scopeNames .variable ([] :: scopes) parameters
    let inner := scopeItems listed.1 body
    (inner.1.tail, listed.2 ++ [listed.1] ++ inner.2 ++ [inner.1.tail])

def scopeExternalDecls (scopes : CScopes) : List ExternalDecl → List CScopes
  | [] => []
  | d :: rest => (scopeExternalDecl scopes d).2 ++ scopeExternalDecls (scopeExternalDecl scopes d).1 rest

def initScopes (seeded : List Identifier) : CScopes := [[], seeded.map fun name => (name, .typedefName)]

/-- At this point the parser takes exactly the typedef names for types. -/
def NamesAgree (p : ParserNames) (scopes : CScopes) : Prop :=
  ∀ name : Identifier, parserIsTypedefVisible p name = true ↔ denotes scopes name = some .typedefName

def FollowsScoping (seeded : List Identifier) (program : List ExternalDecl) : Prop :=
  List.Forall₂ NamesAgree (initParserNames seeded :: parseExternalDecls (initParserNames seeded) program)
    (initScopes seeded :: scopeExternalDecls (initScopes seeded) program)

end Fisics
