import Fisics.Lexer.Token

/-!
# The macro table

Definitions in the order of the source's array, with the stack of macros being
expanded. Names are unique: `macroTableUpsert` reuses the slot of a name. A
frame of the source points at its definition; here it holds the definition,
and where the source compares pointers the names are compared.
-/

namespace Fisics

inductive MacroKind
  | object
  | function
  deriving DecidableEq, Inhabited

structure MacroParamList where
  names : List String
  variadic : Bool
  hasVaOpt : Bool
  deriving DecidableEq, Inhabited

structure MacroDefinition where
  name : String
  kind : MacroKind
  params : MacroParamList
  body : List Token
  definitionRange : SourceRange
  deriving DecidableEq, Inhabited

structure MacroExpansionFrame where
  definition : MacroDefinition
  callSiteRange : SourceRange
  expansionRange : SourceRange
  deriving DecidableEq, Inhabited

inductive MacroExpansionError
  | none
  | recursion
  | depth
  deriving DecidableEq, Inhabited

structure MacroTable where
  macros : List MacroDefinition
  /-- The frames, innermost first. -/
  expansionStack : List MacroExpansionFrame
  expansionLimit : Nat
  lastError : MacroExpansionError
  /-- A `uint64_t` of the source, which no run can wrap. -/
  mutationSerial : Nat
  deriving DecidableEq, Inhabited

def macroTableCreate : MacroTable := ⟨[], [], 1000, .none, 0⟩

def macroTableLookup (table : MacroTable) (name : String) : Option MacroDefinition :=
  table.macros.find? (fun d => d.name == name)

-- Definitions

def macroTableUpsert : List MacroDefinition → MacroDefinition → List MacroDefinition
  | [], d => [d]
  | e :: rest, d => if e.name = d.name then d :: rest else e :: macroTableUpsert rest d

def MacroTable.bump (table : MacroTable) : MacroTable :=
  { table with mutationSerial := table.mutationSerial + 1 }

def macroTableDefine (table : MacroTable) (d : MacroDefinition) : MacroTable :=
  { table with macros := macroTableUpsert table.macros d }.bump

def macroTableDefineObject (table : MacroTable) (name : String) (body : List Token)
    (range : SourceRange) : MacroTable :=
  macroTableDefine table ⟨name, .object, ⟨[], false, false⟩, body, range⟩

def macroTableDefineFunction (table : MacroTable) (name : String) (params : MacroParamList)
    (body : List Token) (range : SourceRange) : MacroTable :=
  macroTableDefine table ⟨name, .function, params, body, range⟩

def macroTableUndef (table : MacroTable) (name : String) : MacroTable × Bool :=
  match table.macros.findIdx? (fun d => d.name == name) with
  | some i =>
    let macros := match table.macros.getLast? with
      | some last => (table.macros.set i last).dropLast
      | none => table.macros
    ({ table with macros }.bump, true)
  | none => (table, false)

-- The expansion stack

def macroTableIsExpanding (table : MacroTable) (name : String) : Bool :=
  table.expansionStack.any (fun frame => frame.definition.name == name)

def macroTablePushExpansion (table : MacroTable) (d : MacroDefinition)
    (callSite expansionRange : SourceRange) : MacroTable × Bool :=
  if 0 < table.expansionLimit ∧ table.expansionLimit ≤ table.expansionStack.length then
    ({ table with lastError := .depth }, false)
  else if macroTableIsExpanding table d.name then ({ table with lastError := .recursion }, false)
  else
    ({ table with
       lastError := .none
       expansionStack := ⟨d, callSite, expansionRange⟩ :: table.expansionStack }, true)

/-- The frames above the requested macro go too; without such a frame only the
top one goes. -/
def macroTablePopExpansion (table : MacroTable) (d : MacroDefinition) : MacroTable :=
  let below := table.expansionStack.dropWhile (fun frame => frame.definition.name != d.name)
  { table with
    expansionStack := if below.isEmpty then table.expansionStack.tail else below.tail }

end Fisics
