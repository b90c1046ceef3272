import LoadOrder.Graph.Basic

/-!
# Ordering the files of a graph

Files are placed in rounds.  In each round, every waiting file whose dependencies are all placed
is placed, in increasing order of the identifiers.  A round that places nothing while files are
waiting means that the waiting files depend on a cycle.
-/

namespace LoadOrder

/-- Files in an order that is meant to put every file after its dependencies. -/
structure BuildOrder where
  units : List String := []
  deriving DecidableEq

namespace BuildOrder

/-- The place of a file in the order. -/
def position? (o : BuildOrder) (u : String) : Option Nat := o.units.findIdx? (· = u)

/-- Does every file with dependencies stand after all of them? -/
def satisfies (o : BuildOrder) (g : DependencyGraph) : Bool :=
  g.entries.all fun e =>
    match o.position? e.1 with
    | none => false
    | some i =>
      e.2.toList.all fun v =>
        match o.position? v with
        | none => false
        | some j => j < i

/-- One file a line. -/
def text (o : BuildOrder) : String := String.join (o.units.map (· ++ "\n"))

end BuildOrder

/-- Some files cannot be placed. -/
structure CircularDependency where
  /-- The files that cannot be placed. -/
  waiting : List String
  /-- The files that were placed before. -/
  placed : List String
  deriving DecidableEq

namespace CircularDependency

def message (e : CircularDependency) : String :=
  "Circular dependency found among " ++ toString e.waiting.length ++ " file(s): " ++
    String.intercalate ", " e.waiting

end CircularDependency

namespace DependencyGraph

variable (g : DependencyGraph)

/-- Are all dependencies of a file placed? -/
def isReady (placed : List String) (u : String) : Bool :=
  (g.dependencies u).toList.all (· ∈ placed)

/-- The waiting files that can be placed next. -/
def ready (placed waiting : List String) : List String := waiting.filter (g.isReady placed)

/-- The waiting files that cannot be placed yet. -/
def unready (placed waiting : List String) : List String :=
  waiting.filter fun u => !g.isReady placed u

theorem length_unready_lt {g : DependencyGraph} {placed waiting : List String}
    (h : ¬ (g.ready placed waiting).isEmpty) :
    (g.unready placed waiting).length < waiting.length := by
  have h : g.ready placed waiting ≠ [] := by simpa using h
  obtain ⟨u, hu⟩ := List.exists_mem_of_ne_nil _ h
  obtain ⟨hmem, hready⟩ := List.mem_filter.mp hu
  exact List.length_filter_lt_length_iff_exists.mpr ⟨u, hmem, by simp [hready]⟩

/-- Places the waiting files, round by round. -/
def place (placed waiting : List String) : Except CircularDependency BuildOrder :=
  if waiting.isEmpty then .ok ⟨placed⟩
  else if (g.ready placed waiting).isEmpty then .error ⟨waiting, placed⟩
  else place (placed ++ g.ready placed waiting) (g.unready placed waiting)
termination_by waiting.length
decreasing_by
  rename_i h
  exact length_unready_lt h

/-- The files of a graph, every file after its dependencies. -/
def order : Except CircularDependency BuildOrder := g.place [] g.units.toList

end DependencyGraph

end LoadOrder
