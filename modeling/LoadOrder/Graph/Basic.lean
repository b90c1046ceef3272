import LoadOrder.Ordered.NameMap

/-!
# Dependency graphs

A graph says for every file on which other files it depends.  It is an adjacency map: each known
file has a set of dependencies, no file depends on itself, and all that is depended on is known.
A graph is therefore determined by its files and their dependencies.
-/

namespace LoadOrder

/-- Which files depend on which. -/
structure DependencyGraph where
  adjacency : NameMap NameSet
  closed : ∀ {u v s}, adjacency.get? u = some s → v ∈ s → v ∈ adjacency.keys
  irreflexive : ∀ {u s}, adjacency.get? u = some s → u ∉ s

namespace DependencyGraph

/-- The graph without files. -/
def empty : DependencyGraph :=
  ⟨∅, fun h => by simp at h, fun h => by simp at h⟩

instance : EmptyCollection DependencyGraph := ⟨empty⟩

instance : Inhabited DependencyGraph := ⟨∅⟩

/-- The files of a graph. -/
def units (g : DependencyGraph) : NameSet := g.adjacency.keys

/-- The files that a file depends on directly. -/
def dependencies (g : DependencyGraph) (u : String) : NameSet := (g.adjacency.get? u).getD ∅

theorem mem_units_of_mem_dependencies {g : DependencyGraph} {u v : String}
    (h : v ∈ g.dependencies u) : v ∈ g.units := by
  unfold dependencies at h
  cases hu : g.adjacency.get? u with
  | none => simp [hu] at h
  | some s => exact g.closed hu (by simpa [hu] using h)

theorem not_mem_dependencies_self (g : DependencyGraph) (u : String) : u ∉ g.dependencies u := by
  unfold dependencies
  cases hu : g.adjacency.get? u with
  | none => simp
  | some s => simpa using g.irreflexive hu

/-- Makes a file known. -/
def addUnit (g : DependencyGraph) (u : String) : DependencyGraph where
  adjacency := g.adjacency.alter u fun old => old.getD ∅
  closed := by
    intro v w s h hw
    rw [NameMap.get?_alter] at h
    rw [NameMap.mem_keys_alter]
    split at h
    · obtain rfl := Option.some.inj h
      exact Or.inr (mem_units_of_mem_dependencies hw)
    · exact Or.inr (g.closed h hw)
  irreflexive := by
    intro v s h
    rw [NameMap.get?_alter] at h
    split at h
    · rename_i hv
      obtain rfl := Option.some.inj h
      exact hv ▸ not_mem_dependencies_self g u
    · exact g.irreflexive h

theorem mem_units_addUnit {g : DependencyGraph} {u v : String} :
    v ∈ (g.addUnit u).units ↔ v = u ∨ v ∈ g.units :=
  NameMap.mem_keys_alter

/-- Adds a dependency between two different files, the second of which is known. -/
def addEdge (g : DependencyGraph) (u v : String) (hne : u ≠ v) (hv : v ∈ g.units) :
    DependencyGraph where
  adjacency := g.adjacency.alter u fun old => (old.getD ∅).insert v
  closed := by
    intro w x s h hx
    rw [NameMap.get?_alter] at h
    rw [NameMap.mem_keys_alter]
    split at h
    · obtain rfl := Option.some.inj h
      rcases NameSet.mem_insert.mp hx with rfl | hx
      · exact Or.inr hv
      · exact Or.inr (mem_units_of_mem_dependencies hx)
    · exact Or.inr (g.closed h hx)
  irreflexive := by
    intro w s h
    rw [NameMap.get?_alter] at h
    split at h
    · rename_i hw
      obtain rfl := Option.some.inj h
      intro hmem
      rcases NameSet.mem_insert.mp hmem with rfl | hmem
      · exact hne hw.symm
      · exact not_mem_dependencies_self g u (hw ▸ hmem)
    · exact g.irreflexive h

/-- Makes two files known and the first depend on the second; a file does not depend on itself. -/
def addDependency (g : DependencyGraph) (u v : String) : DependencyGraph :=
  if h : u = v then g.addUnit u
  else (g.addUnit v).addEdge u v h (mem_units_addUnit.mpr (Or.inl rfl))

/-- The files with dependencies, each with its dependencies. -/
def entries (g : DependencyGraph) : List (String × NameSet) :=
  g.adjacency.entries.filter fun e => !e.2.isEmpty

/-- The dependencies of a file that has some. -/
def dependencies? (g : DependencyGraph) (u : String) : Option NameSet :=
  (g.adjacency.get? u).filter fun s => !s.isEmpty

/-- The files that depend directly on a file, in increasing order. -/
def dependents (g : DependencyGraph) (u : String) : List String :=
  (g.entries.filter fun e => u ∈ e.2).map Prod.fst

/-- The number of direct dependencies. -/
def edgeCount (g : DependencyGraph) : Nat :=
  g.adjacency.entries.foldl (fun n e => n + e.2.size) 0

/-- The number of files with dependencies. -/
def dependentCount (g : DependencyGraph) : Nat := g.entries.length

/-- A graph without files or dependencies, apart from files without dependencies. -/
def isDiscrete (g : DependencyGraph) : Bool := g.entries.isEmpty

/-- Counts of a graph. -/
structure Stats where
  units : Nat
  dependentUnits : Nat
  edges : Nat
  deriving DecidableEq

def stats (g : DependencyGraph) : Stats := ⟨g.units.size, g.dependentCount, g.edgeCount⟩

namespace Stats

def text (s : Stats) : String :=
  "Dependency Graph Statistics:\n" ++
    "  Files: " ++ toString s.units ++ "\n" ++
    "  Files with dependencies: " ++ toString s.dependentUnits ++ "\n" ++
    "  Edges: " ++ toString s.edges ++ "\n"

end Stats

end DependencyGraph

end LoadOrder
