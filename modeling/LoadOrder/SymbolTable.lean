import LoadOrder.Ordered.NameMap
import LoadOrder.Reference
import LoadOrder.Diagnostic

/-!
# Symbol tables

For every constant path of a project the file that owns it.  When several files define a path the
last one added owns it; all of them are remembered, and each change of owner is a diagnostic.
A reference is resolved to the first of its candidates that is in the table.
-/

namespace LoadOrder

/-- Who defines a constant path. -/
structure Symbol where
  owner : String
  contributors : NameSet
  deriving DecidableEq

/-- The constant paths of a project. -/
structure SymbolTable where
  symbols : NameMap Symbol := ∅
  diagnostics : List Diagnostic := []

namespace SymbolTable

instance : EmptyCollection SymbolTable := ⟨⟨∅, []⟩⟩

instance : Inhabited SymbolTable := ⟨∅⟩

/-- The file that owns a path. -/
def owner? (t : SymbolTable) (path : String) : Option String := (t.symbols.get? path).map (·.owner)

/-- All files that define a path. -/
def contributors? (t : SymbolTable) (path : String) : Option NameSet :=
  (t.symbols.get? path).map (·.contributors)

def contains (t : SymbolTable) (path : String) : Bool := t.symbols.contains path

/-- The number of paths. -/
def size (t : SymbolTable) : Nat := t.symbols.size

def isEmpty (t : SymbolTable) : Bool := t.symbols.isEmpty

/-- The paths with their owners, in increasing order. -/
def owners (t : SymbolTable) : List (String × String) :=
  t.symbols.entries.map fun e => (e.1, e.2.owner)

/-- The diagnostic for a path that changes from one owner to another. -/
def duplicate (path previous unit : String) : Diagnostic :=
  { kind := .duplicateDefinition
    unit := unit
    message := path ++ " is also defined in " ++ previous ++ "; the later definition wins" }

/-- Makes a file the owner of a path. -/
def insert (t : SymbolTable) (path unit : String) : SymbolTable :=
  { symbols := t.symbols.alter path fun old =>
      ⟨unit, ((old.map Symbol.contributors).getD ∅).insert unit⟩
    diagnostics :=
      match t.owner? path with
      | some previous =>
        if previous = unit then t.diagnostics else t.diagnostics ++ [duplicate path previous unit]
      | none => t.diagnostics }

/-- Makes a file the owner of all it defines. -/
def addUnit (t : SymbolTable) (unit : String) (definitions : DefinitionTree) : SymbolTable :=
  (definitions.flatten unit "").foldl (fun t e => t.insert e.1 e.2) t

/-- The path that a reference stands for, with its owner. -/
def resolvePath? (t : SymbolTable) (r : Reference) : Option (String × String) :=
  r.candidates.findSome? fun path => (t.owner? path).map fun owner => (path, owner)

/-- The file that owns what a reference stands for. -/
def resolve? (t : SymbolTable) (r : Reference) : Option String :=
  (t.resolvePath? r).map Prod.snd

end SymbolTable

end LoadOrder
