import LoadOrder.SymbolTable
import LoadOrder.Graph.Basic

/-!
# Linking files

Every reference of a file is resolved: to the file itself, to another file, on which the file then
depends, or to no file of the project, and then its name is logged as external.
-/

namespace LoadOrder

/-- Names that no file of the project defines, each with the files that mention it. -/
structure ExternalLog where
  names : NameMap NameSet := ∅

namespace ExternalLog

instance : EmptyCollection ExternalLog := ⟨⟨∅⟩⟩

instance : Inhabited ExternalLog := ⟨∅⟩

/-- Logs that a file mentions a name. -/
def record (log : ExternalLog) (name unit : String) : ExternalLog :=
  ⟨log.names.alter name fun old => (old.getD ∅).insert unit⟩

/-- The files that mention a name. -/
def units? (log : ExternalLog) (name : String) : Option NameSet := log.names.get? name

def contains (log : ExternalLog) (name : String) : Bool := log.names.contains name

/-- The names with the files that mention them, in increasing order. -/
def entries (log : ExternalLog) : List (String × NameSet) := log.names.entries

/-- The number of names. -/
def size (log : ExternalLog) : Nat := log.names.size

def isEmpty (log : ExternalLog) : Bool := log.names.isEmpty

end ExternalLog

/-- How many references were resolved in which way. -/
structure LinkStats where
  /-- To another file. -/
  resolved : Nat := 0
  /-- To the file itself. -/
  toSelf : Nat := 0
  /-- To no file. -/
  external : Nat := 0
  total : Nat := 0
  deriving DecidableEq

namespace LinkStats

def text (s : LinkStats) : String :=
  "Dependency Linker Stats:\n" ++
    "  Total References: " ++ toString s.total ++ "\n" ++
    "  ✅ Resolved: " ++ toString s.resolved ++ "\n" ++
    "  🏠 Local: " ++ toString s.toSelf ++ "\n" ++
    "  🌍 External: " ++ toString s.external ++ "\n"

end LinkStats

/-- What comes of linking some files. -/
structure Links where
  graph : DependencyGraph := ∅
  externals : ExternalLog := ∅
  stats : LinkStats := {}

namespace Links

instance : EmptyCollection Links := ⟨⟨∅, ∅, {}⟩⟩

instance : Inhabited Links := ⟨∅⟩

variable (symbols : SymbolTable)

/-- Links one reference of a file. -/
def addReference (unit : String) (l : Links) (r : Reference) : Links :=
  let stats := { l.stats with total := l.stats.total + 1 }
  match symbols.resolve? r with
  | some owner =>
    if owner = unit then { l with stats := { stats with toSelf := stats.toSelf + 1 } }
    else
      { l with
        graph := l.graph.addDependency unit owner
        stats := { stats with resolved := stats.resolved + 1 } }
  | none =>
    { l with
      externals := l.externals.record r.written unit
      stats := { stats with external := stats.external + 1 } }

/-- Links a file. -/
def addUnit (l : Links) (unit : String) (references : List Reference) : Links :=
  references.foldl (addReference symbols unit) { l with graph := l.graph.addUnit unit }

/-- Links some files, one after the other. -/
def ofUnits (units : List (String × List Reference)) : Links :=
  units.foldl (fun l u => l.addUnit symbols u.1 u.2) ∅

end Links

end LoadOrder
