import LoadOrder.Graph.Basic

/-!
# Reachability

One file reaches another when it depends on it through one or more direct dependencies.  The
search visits every file at most once: it keeps the files that are still unseen, and takes a file
off that list before it goes on to the file's dependencies.
-/

namespace LoadOrder

namespace DependencyGraph

variable (g : DependencyGraph)

/-- The files still unseen when all files of `todo`, and those they reach, have been seen. -/
def unreached (unseen todo : List String) : List String :=
  match todo with
  | [] => unseen
  | u :: rest =>
    if u ∈ unseen then unreached (unseen.erase u) ((g.dependencies u).toList ++ rest)
    else unreached unseen rest
termination_by (unseen.length, todo.length)
decreasing_by
  · apply Prod.Lex.left
    rename_i h
    rw [List.length_erase_of_mem h]
    have := List.length_pos_of_mem h
    omega
  · apply Prod.Lex.right
    simp

/-- Does `u` depend on `v`, directly or through other files? -/
def reaches (u v : String) : Bool :=
  v ∈ g.units && v ∉ g.unreached g.units.toList (g.dependencies u).toList

/-- Would there be a cycle through `u` if it depended on `v`? -/
def wouldCreateCycle (u v : String) : Bool := u = v || g.reaches v u

end DependencyGraph

end LoadOrder
