import LoadOrder.Definition.Forest

/-!
# Definition trees

The constants that a file defines, by lexical nesting.  A plain constant, and a class or module
that defines nothing, has an empty tree below it.  A namespace that is opened twice holds what
both openings define.
-/

namespace LoadOrder

/-- The name of a constant path, seen from the top level: `path::name`. -/
def qualify (outer name : String) : String := outer ++ "::" ++ name

/-- The constants that a file defines. -/
structure DefinitionTree where
  forest : Forest
  sorted : forest.Sorted
  deriving DecidableEq

namespace DefinitionTree

/-- The tree without definitions. -/
def empty : DefinitionTree := ⟨.nil, trivial⟩

instance : EmptyCollection DefinitionTree := ⟨empty⟩

instance : Inhabited DefinitionTree := ⟨∅⟩

/-- Everything that either tree defines. -/
def merge (a b : DefinitionTree) : DefinitionTree :=
  ⟨Forest.mergeInto b.forest a.forest, Forest.sorted_mergeInto b.sorted a.sorted⟩

/-- Defines a name that holds at least `nested`. -/
def insert (t : DefinitionTree) (name : String) (nested : DefinitionTree) : DefinitionTree :=
  ⟨t.forest.alter name fun below => Forest.mergeInto nested.forest below,
    Forest.sorted_alter (fun _ h => Forest.sorted_mergeInto nested.sorted h) t.sorted⟩

/-- Defines a name, and keeps what it holds. -/
def insertLeaf (t : DefinitionTree) (name : String) : DefinitionTree :=
  ⟨t.forest.alter name id, Forest.sorted_alter (fun _ h => h) t.sorted⟩

/-- What a name holds. -/
def get? (t : DefinitionTree) (name : String) : Option DefinitionTree :=
  (t.forest.get? name).attach.map fun below => ⟨below.1, Forest.sorted_get? t.sorted below.2⟩

/-- Is the name defined at the top level? -/
def contains (t : DefinitionTree) (name : String) : Bool := (t.forest.get? name).isSome

/-- The names at the top level, in increasing order. -/
def names (t : DefinitionTree) : List String := t.forest.names

/-- The number of names at the top level. -/
def size (t : DefinitionTree) : Nat := t.names.length

def isEmpty (t : DefinitionTree) : Bool := t.names.isEmpty

/-- The number of definitions at every level. -/
def total (t : DefinitionTree) : Nat := t.forest.total

/-- The paths of the definitions below a path, parents first. -/
def paths (t : DefinitionTree) (outer : String) : List String := t.forest.flatten qualify outer

/-- The definitions below a path, each with the file that makes them. -/
def flatten (t : DefinitionTree) (unit outer : String) : List (String × String) :=
  (t.paths outer).map fun path => (path, unit)

end DefinitionTree

end LoadOrder
