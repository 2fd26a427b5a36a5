import Mathlib.Data.List.Basic

/-!
# Jumps into scopes

`validateGotoScopes` collects the blocks, labels and gotos of a function body and looks
for gotos into the scope of a variably modified declaration. A block keeps the indices of
the statements that declare such a name, its own or in the header of a loop; two jumps
are compared by their blocks and by these indices. A node is named by its path, which
stands for its address and for its place in the source.
-/

namespace Fisics.Goto

-- Statements

/-- The expression of an array bound, as far as it is told apart here. -/
inductive SizeExpr
  | numberLiteral
  | charLiteral
  | other
  deriving DecidableEq

inductive TypeDerivation
  | pointer
  | array (isVLA hasConstantSize isFlexible : Bool) (sizeExpr : Option SizeExpr)
  | function
  deriving DecidableEq

structure ParsedType where
  isVLA : Bool
  derivations : List TypeDerivation
  deriving DecidableEq

def TypeDerivation.hasVLA : TypeDerivation → Bool
  | .array isVLA hasConstantSize isFlexible sizeExpr =>
    isVLA || (!hasConstantSize && !isFlexible && sizeExpr == some .other)
  | .pointer => false
  | .function => false

def parsedTypeHasVLA (t : ParsedType) : Bool := t.derivations.any TypeDerivation.hasVLA

/-- The statements that the check tells apart; it does not look into expressions. A missing
statement is `null`, and `nextCase` of a case always is. -/
inductive Stmt
  | varDecl (types : List ParsedType)
  | typedef (baseType : ParsedType)
  | label (labelName : String) (statement : Stmt)
  | goto (label : String)
  | block (statements : List Stmt)
  | ifStmt (thenBranch elseBranch : Stmt)
  | forLoop (initializer body : Stmt)
  | whileLoop (body : Stmt)
  | switch (caseList : List Stmt)
  | case (caseBody : List Stmt)
  | other
  | null

def Stmt.isBlock : Stmt → Bool
  | .block _ => true
  | _ => false

/-- A declaration of a variable or a typedef name with a variably modified type. -/
def introducesVariablyModifiedIdentifier : Stmt → Bool
  | .varDecl types => types.any fun t => t.isVLA || parsedTypeHasVLA t
  | .typedef baseType => baseType.isVLA || parsedTypeHasVLA baseType
  | _ => false

abbrev Path := List Nat

-- What is collected

/-- `entryHasVLA` is `none` where nothing was stored. -/
structure BlockInitInfo where
  block : Path
  parent : Option Path
  initIndices : List Nat
  vlaIndices : List Nat
  entryHasVLA : Option Bool
  deriving DecidableEq

/-- A label or a goto. -/
structure JumpInfo where
  name : String
  block : Path
  index : Nat
  location : Path
  directBlockStatement : Bool
  deriving DecidableEq

structure Collected where
  blocks : List BlockInitInfo
  labels : List JumpInfo
  gotos : List JumpInfo
  deriving DecidableEq

def blockInitInfoFind (blocks : List BlockInitInfo) (block : Path) : Option BlockInitInfo :=
  blocks.find? fun info => info.block == block

def updateInfo (block : Path) (f : BlockInitInfo → BlockInitInfo) (c : Collected) : Collected :=
  { c with blocks := c.blocks.map fun info => if info.block = block then f info else info }

def blockInitInfoAdd (block : Path) (parent : Option Path) (c : Collected) : Collected :=
  { c with blocks := c.blocks ++ [⟨block, parent, [], [], none⟩] }

/-- Both indices are always added together. -/
def blockInitInfoAddIndices (index : Nat) (info : BlockInitInfo) : BlockInitInfo :=
  { info with
    initIndices := info.initIndices ++ [index]
    vlaIndices := info.vlaIndices ++ [index] }

def labelInfoAdd (info : JumpInfo) (c : Collected) : Collected :=
  { c with labels := c.labels ++ [info] }

def gotoInfoAdd (info : JumpInfo) (c : Collected) : Collected :=
  { c with gotos := c.gotos ++ [info] }

mutual

/-- The statement at `path` stands in `current` under the statement number `index`. -/
def collectGotoInfoFromStatement (path current : Path) (index : Nat) (direct : Bool) :
    Stmt → Collected → Collected
  | .label labelName statement, c =>
    collectGotoInfoFromStatement (path ++ [0]) current index false statement
      (labelInfoAdd ⟨labelName, current, index, path, direct⟩ c)
  | .goto label, c => gotoInfoAdd ⟨label, current, index, path, direct⟩ c
  | .block statements, c =>
    collectGotoInfoFromItems path 0 statements (blockInitInfoAdd path (some current) c)
  | .ifStmt thenBranch elseBranch, c =>
    collectGotoInfoFromStatement (path ++ [1]) current index false elseBranch
      (collectGotoInfoFromStatement (path ++ [0]) current index false thenBranch c)
  | .forLoop initializer body, c =>
    let initializerHasVLA := introducesVariablyModifiedIdentifier initializer
    let c := if initializerHasVLA then updateInfo current (blockInitInfoAddIndices index) c else c
    let c := collectGotoInfoFromStatement (path ++ [1]) current index false body c
    if initializerHasVLA && body.isBlock then
      updateInfo (path ++ [1]) (fun info => { info with entryHasVLA := some true }) c
    else c
  | .whileLoop body, c => collectGotoInfoFromStatement (path ++ [0]) current index false body c
  | .switch caseList, c => collectGotoInfoFromCases path current index 0 caseList c
  | .case caseBody, c => collectGotoInfoFromCases path current index 0 caseBody c
  | .varDecl _, c => c
  | .typedef _, c => c
  | .other, c => c
  | .null, c => c

def collectGotoInfoFromItems (path : Path) (i : Nat) : List Stmt → Collected → Collected
  | [], c => c
  | s :: rest, c =>
    let c :=
      if introducesVariablyModifiedIdentifier s then updateInfo path (blockInitInfoAddIndices i) c
      else c
    collectGotoInfoFromItems path (i + 1) rest (collectGotoInfoFromStatement (path ++ [i]) path i true s c)

def collectGotoInfoFromCases (path current : Path) (index k : Nat) :
    List Stmt → Collected → Collected
  | [], c => c
  | s :: rest, c =>
    collectGotoInfoFromCases path current index (k + 1) rest
      (collectGotoInfoFromStatement (path ++ [k]) current index false s c)

end

def collectGotoInfo (statements : List Stmt) : Collected :=
  collectGotoInfoFromItems [] 0 statements (blockInitInfoAdd [] none ⟨[], [], []⟩)

-- The check

def blockHasInitBetween (info : Option BlockInitInfo) (start finish : Nat) : Bool :=
  info.any fun info => info.initIndices.any fun idx => decide (start < idx) && decide (idx ≤ finish)

def blockHasInitBefore (info : Option BlockInitInfo) (finish : Nat) : Bool :=
  info.any fun info => info.initIndices.any (· < finish)

def blockHasVLABefore (info : Option BlockInitInfo) (finish : Nat) : Bool :=
  info.any fun info => info.vlaIndices.any (· < finish)

section
variable (blocks : List BlockInitInfo)

/-- From a block up through the parents, at most `room` steps. -/
def blockIsDescendant (ancestor : Path) : Nat → Option Path → Bool
  | _, none => false
  | 0, some _ => false
  | room + 1, some current =>
    current == ancestor ||
      blockIsDescendant ancestor room ((blockInitInfoFind blocks current).bind BlockInitInfo.parent)

/-- `none` is a read of a field that was never stored. -/
def blockPathEntersVLA (ancestor : Path) : Nat → Option Path → Option Bool
  | _, none => some false
  | 0, some _ => some false
  | room + 1, some current =>
    if current = ancestor then some false
    else match blockInitInfoFind blocks current with
      | none => some false
      | some info =>
        info.entryHasVLA.bind fun entryHasVLA =>
          if entryHasVLA then some true else blockPathEntersVLA ancestor room info.parent

def gotoEntersScope (label gt : JumpInfo) : Option Bool :=
  let labelBlockInfo := blockInitInfoFind blocks label.block
  if label.block = gt.block then
    some (decide (gt.index < label.index) && blockHasInitBetween labelBlockInfo gt.index label.index)
  else if blockIsDescendant blocks gt.block (blocks.length + 1) (some label.block) then
    (blockPathEntersVLA blocks gt.block (blocks.length + 1) (some label.block)).map fun enters =>
      enters ||
        (label.directBlockStatement && blockHasInitBefore labelBlockInfo label.index) ||
        (!label.directBlockStatement && blockHasVLABefore labelBlockInfo label.index)
  else some false

end

inductive Report
  | undefinedLabel (location : Path) (name : String)
  /-- "goto jumps into scope of initialized variable" -/
  | jumpsIntoScope (location : Path) (name : String)
  deriving DecidableEq

def gotoReport (c : Collected) (gt : JumpInfo) : Option (List Report) :=
  match c.labels.find? fun label => label.name == gt.name with
  | none => some [.undefinedLabel gt.location gt.name]
  | some label =>
    (gotoEntersScope c.blocks label gt).map fun enters =>
      if enters then [.jumpsIntoScope gt.location gt.name] else []

/-- The errors for a function body, or `none` when a field is read that was never stored. -/
def validateGotoScopes (statements : List Stmt) : Option (List Report) :=
  let c := collectGotoInfo statements
  (c.gotos.mapM (gotoReport c)).map List.flatten

-- Scopes

inductive Declaration
  | item (path : Path)
  | header (loop : Path)
  deriving DecidableEq

mutual

/-- The declarations whose scope goes on behind the statement. Those of a case belong to
the body of the switch. -/
def declared (path : Path) : Stmt → List Declaration
  | .label _ statement => declared (path ++ [0]) statement
  | .case caseBody => declaredAll path 0 caseBody
  | .varDecl types => if introducesVariablyModifiedIdentifier (.varDecl types) then [.item path] else []
  | .typedef type => if introducesVariablyModifiedIdentifier (.typedef type) then [.item path] else []
  | .goto _ | .block _ | .ifStmt _ _ | .forLoop _ _ | .whileLoop _ | .switch _ | .other | .null => []

def declaredAll (path : Path) (k : Nat) : List Stmt → List Declaration
  | [] => []
  | s :: rest => declared (path ++ [k]) s ++ declaredAll path (k + 1) rest

end

/-- A block around a statement: its statements, and whether it is the body of a loop that
declares a variably modified name in its header. -/
structure Frame where
  block : Path
  statements : List Stmt
  headed : Bool

/-- A label or a goto: the blocks around it, the innermost first, its number in this one,
and the declarations in whose scope it lies. -/
structure Site where
  name : String
  location : Path
  frame : Frame
  outer : List Frame
  index : Nat
  scope : List Declaration

def labelName : Stmt → Option String
  | .label labelName _ => some labelName
  | _ => none

def gotoName : Stmt → Option String
  | .goto label => some label
  | _ => none

section
variable (pick : Stmt → Option String)

mutual

def sites (path : Path) (frame : Frame) (outer : List Frame) (index : Nat) (headed : Bool)
    (scope : List Declaration) : Stmt → List Site
  | .label name statement =>
    ((pick (.label name statement)).map fun name => ⟨name, path, frame, outer, index, scope⟩).toList ++
      sites (path ++ [0]) frame outer index false scope statement
  | .goto label =>
    ((pick (.goto label)).map fun name => ⟨name, path, frame, outer, index, scope⟩).toList
  | .block statements =>
    itemSites path ⟨path, statements, headed⟩ (frame :: outer) 0 scope statements
  | .ifStmt thenBranch elseBranch =>
    sites (path ++ [0]) frame outer index false scope thenBranch ++
      sites (path ++ [1]) frame outer index false scope elseBranch
  | .forLoop initializer body =>
    let headed := introducesVariablyModifiedIdentifier initializer
    sites (path ++ [1]) frame outer index headed (if headed then scope ++ [.header path] else scope) body
  | .whileLoop body => sites (path ++ [0]) frame outer index false scope body
  | .switch caseList => caseSites path frame outer index 0 scope caseList
  | .case caseBody => caseSites path frame outer index 0 scope caseBody
  | .varDecl _ | .typedef _ | .other | .null => []

def itemSites (path : Path) (frame : Frame) (outer : List Frame) (i : Nat) (scope : List Declaration) :
    List Stmt → List Site
  | [] => []
  | s :: rest =>
    sites (path ++ [i]) frame outer i false scope s ++
      itemSites path frame outer (i + 1) (scope ++ declared (path ++ [i]) s) rest

def caseSites (path : Path) (frame : Frame) (outer : List Frame) (index k : Nat)
    (scope : List Declaration) : List Stmt → List Site
  | [] => []
  | s :: rest =>
    sites (path ++ [k]) frame outer index false scope s ++
      caseSites path frame outer index (k + 1) (scope ++ declared (path ++ [k]) s) rest

end

def bodySites (statements : List Stmt) : List Site :=
  itemSites pick [] ⟨[], statements, false⟩ [] 0 [] statements

end

/-- A jump from `gt` to `label` goes into the scope of a declaration. -/
def Enters (gt label : Site) : Prop := ∃ d ∈ label.scope, d ∉ gt.scope

instance (gt label : Site) : Decidable (Enters gt label) :=
  inferInstanceAs (Decidable (∃ d ∈ label.scope, d ∉ gt.scope))

def target (statements : List Stmt) (gt : Site) : Option Site :=
  (bodySites labelName statements).find? fun label => label.name == gt.name

/-- No field is read that was not stored, and a goto is reported exactly when it jumps
into the scope of a variably modified declaration. -/
def GotosExact (statements : List Stmt) : Prop :=
  ∃ reports, validateGotoScopes statements = some reports ∧
    ∀ gt ∈ bodySites gotoName statements,
      Report.jumpsIntoScope gt.location gt.name ∈ reports ↔
        ∃ label, target statements gt = some label ∧ Enters gt label

end Fisics.Goto
