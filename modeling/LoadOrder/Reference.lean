import LoadOrder.Definition.Tree

/-!
# References to constants

A file mentions a constant either from inside some namespaces, and then its name is looked up
through them, or from the root (`::Name`), and then only top-level definitions count.
-/

namespace LoadOrder

/-- A constant that a file mentions.  Its name may be qualified (`A::B`). -/
inductive Reference where
  /-- Mentioned inside the namespaces of `scope`, outermost first. -/
  | lexical (name : String) (scope : List String)
  | root (name : String)
  deriving DecidableEq, Repr

namespace Reference

def name : Reference → String
  | .lexical name _ | .root name => name

/-- The enclosing namespaces, outermost first; a root reference has none. -/
def scope : Reference → List String
  | .lexical _ scope => scope
  | .root _ => []

def isRoot : Reference → Bool
  | .lexical _ _ => false
  | .root _ => true

/-- The reference as seen from outside one more namespace. -/
def nestedIn (outer : String) : Reference → Reference
  | .lexical name scope => .lexical name (outer :: scope)
  | .root name => .root name

/-- The reference to a constant inside the one referred to. -/
def qualified (segment : String) : Reference → Reference
  | .lexical name scope => .lexical (qualify name segment) scope
  | .root name => .root (qualify name segment)

/-- The name as it is written. -/
def written : Reference → String
  | .lexical name _ => name
  | .root name => qualify "" name

/-- The written name, with the place where it stands. -/
def text : Reference → String
  | .lexical name (s :: scope) => name ++ " (in " ++ String.intercalate "::" (s :: scope) ++ ")"
  | r => r.written

/-- The paths that a name stands for inside a namespace and then inside each of the further ones,
going inwards. -/
def candidatesFrom (name outer : String) : List String → List String
  | [] => [qualify outer name]
  | s :: scope => qualify outer name :: candidatesFrom name (qualify outer s) scope

/-- The paths to try for a reference: from the top level inwards. -/
def candidates (r : Reference) : List String := candidatesFrom r.name "" r.scope

end Reference

end LoadOrder
