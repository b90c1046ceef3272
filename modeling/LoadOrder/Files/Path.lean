/-!
# Paths

A path is a text whose segments are divided by slashes.  Its components are the segments that name
something: empty ones and dots count for nothing, but for a dot at the very start.  A path that
starts with a slash has that slash as its first component.
-/

namespace LoadOrder.Path

/-- Cuts a text at its slashes. -/
def split : List Char → List (List Char)
  | [] => [[]]
  | c :: cs =>
    if c = '/' then [] :: split cs
    else
      match split cs with
      | [] => [[c]]
      | segment :: rest => (c :: segment) :: rest

/-- What stands between the slashes of a path, empty pieces included. -/
def segments (path : String) : List String := (split path.toList).map String.ofList

/-- The components of a path. -/
def components (path : String) : List String :=
  match segments path with
  | [] => []
  | first :: rest =>
    let named := rest.filter fun s => s ≠ "" ∧ s ≠ "."
    if first ≠ "" then first :: named
    else if rest.isEmpty then []
    else "/" :: named

/-- Components with slashes between them. -/
def ofComponents (components : List String) : String := String.intercalate "/" components

/-- A path taken from a directory; a path that starts with a slash needs none. -/
def join (base path : String) : String :=
  if path.toList.head? = some '/' ∨ base = "" then path
  else if base.toList.getLast? = some '/' then base ++ path
  else base ++ "/" ++ path

/-- What follows the last dot of a name, if something stands before that dot. -/
def extensionOf? (name : List Char) : Option (List Char) :=
  let after := name.reverse.takeWhile (· ≠ '.')
  let before := (name.reverse.dropWhile (· ≠ '.')).drop 1
  if before.isEmpty then none else some after.reverse

/-- The extension of the last component of a path. -/
def extension? (path : String) : Option String :=
  match (components path).getLast? with
  | none => none
  | some name => if name = ".." then none else (extensionOf? name.toList).map String.ofList

/-- Whether the components of one path come before those of another: component by component, a path
before those inside it. -/
def before : List String → List String → Bool
  | _, [] => false
  | [], _ :: _ => true
  | a :: as, b :: bs => a < b || (a == b && before as bs)

end LoadOrder.Path
