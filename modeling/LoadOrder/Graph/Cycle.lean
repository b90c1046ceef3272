import LoadOrder.Graph.Basic

/-!
# Finding a cycle

A depth-first search among some files.  It keeps the path to the file it looks at, and the files
from which it has found that no cycle is reached.  A file that turns up on its own path closes a
cycle.
-/

namespace LoadOrder

namespace DependencyGraph

variable (g : DependencyGraph)

/-- The cycle that `u` closes; `path` is the path to it, last file first. -/
def closing (path : List String) (u : String) : List String :=
  u :: (path.takeWhile (· ≠ u)).reverse ++ [u]

/-- Looks for a cycle from the files of `todo`, at the end of `path`.  `free` holds the files that
are searched and not on the path, `finished` those from which no cycle is reached.  The answer is
a cycle, or the finished files with those of `todo` and below added. -/
def searchCycle (among : NameSet) (free path finished todo : List String) :
    Except (List String) (List String) :=
  match todo with
  | [] => .ok finished
  | u :: rest =>
    if u ∈ path then .error (closing path u)
    else if u ∈ finished then searchCycle among free path finished rest
    else if u ∈ free then
      match searchCycle among (free.erase u) (u :: path) finished
          ((g.dependencies u).filter (· ∈ among)).toList with
      | .error cycle => .error cycle
      | .ok finished => searchCycle among free path (u :: finished) rest
    else searchCycle among free path finished rest
termination_by (free.length, todo.length)
decreasing_by
  · apply Prod.Lex.right; simp
  · apply Prod.Lex.left
    rename_i h
    rw [List.length_erase_of_mem h]
    have := List.length_pos_of_mem h
    omega
  · apply Prod.Lex.right; simp
  · apply Prod.Lex.right; simp

/-- A cycle among some files, each of which depends on the next, starting and ending with the same
file. -/
def findCycle? (among : NameSet) : Option (List String) :=
  let starts := (g.units.filter (· ∈ among)).toList
  match g.searchCycle among starts [] [] starts with
  | .error cycle => some cycle
  | .ok _ => none

end DependencyGraph

end LoadOrder
