/-!
# TOML values

A document is a table of values.  A table remembers how it came about, because that decides what
may still be added to it.
-/

namespace LoadOrder.Toml

/-- How a table came about. -/
inductive TableOrigin where
  /-- Written in braces, and so complete. -/
  | inline
  /-- Under a header of its own. -/
  | header
  /-- On the way to the table of some header. -/
  | implied
  /-- By a key with dots. -/
  | dotted
  deriving DecidableEq, Repr

/-- A value.  Floating-point numbers, dates and times keep their spelling. -/
inductive Value where
  | string (text : String)
  | integer (value : Int)
  | float (spelling : String)
  | boolean (value : Bool)
  | moment (spelling : String)
  | array (items : List Value)
  | table (origin : TableOrigin) (entries : List (String × Value))
  /-- Tables under headers in double brackets, each by its entries. -/
  | tables (elements : List (List (String × Value)))
  deriving Inhabited

/-- A table that is being filled. -/
structure Table where
  origin : TableOrigin
  entries : List (String × Value)

namespace Table

def get? (t : Table) (key : String) : Option Value := t.entries.lookup key

/-- Sets the value of a key, in its place if the key is there. -/
def set (t : Table) (key : String) (value : Value) : Table :=
  if (t.get? key).isSome then
    { t with entries := t.entries.map fun e => if e.1 = key then (key, value) else e }
  else { t with entries := t.entries ++ [(key, value)] }

def toValue (t : Table) : Value := .table t.origin t.entries

/-- Changes the table at the end of a path, and gives no table if that is not allowed.  Tables that
are missing on the way are made with the given origin; of tables in double brackets the last one is
entered; a table that a key with dots enters must not have been opened by a header. -/
def alterAt (made : TableOrigin) (f : Table → Option Table) :
    List String → Table → Option Table
  | [], t => f t
  | key :: path, t =>
    match t.get? key with
    | none => do
      let inner ← alterAt made f path ⟨made, []⟩
      some (t.set key inner.toValue)
    | some (.table origin entries) =>
      if origin = .inline ∨ (made = .dotted ∧ origin = .header) then none
      else do
        let inner ← alterAt made f path ⟨origin, entries⟩
        some (t.set key inner.toValue)
    | some (.tables elements) =>
      match elements.getLast? with
      | none => none
      | some last => do
        let inner ← alterAt made f path ⟨.header, last⟩
        some (t.set key (.tables (elements.dropLast ++ [inner.entries])))
    | some _ => none

/-- Adds a key with its value.  The key must be new, and a key with dots must end in a table that
was made by such a key. -/
def insert (t : Table) (path : List String) (key : String) (value : Value) : Option Table :=
  alterAt .dotted (fun inner =>
    if inner.origin = .dotted ↔ path = [] then none
    else if (inner.get? key).isSome then none
    else some (inner.set key value)) path t

end Table

end LoadOrder.Toml
