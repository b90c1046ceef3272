/-!
# Styles of texts on a terminal

A style is a list of codes, a colour before an effect.  Texts that go elsewhere stay plain.
-/

namespace LoadOrder

/-- What a text is to look like. -/
inductive Style where
  | header
  | success
  | error
  | warn
  | info
  | dim
  /-- The identifier of a file. -/
  | unit
  deriving DecidableEq, Repr

namespace Style

def codes : Style → List Nat
  | .header => [36, 1]
  | .success => [32, 1]
  | .error => [31, 1]
  | .warn => [33, 1]
  | .info => [35]
  | .dim => [37, 2]
  | .unit => [1]

/-- A text between the sequence that sets some codes and the one that resets them. -/
def wrap (codes : List Nat) (text : String) : String :=
  "\x1b[" ++ String.intercalate ";" (codes.map toString) ++ "m" ++ text ++ "\x1b[0m"

/-- A text in a style, if there are to be colours. -/
def paint (colored : Bool) (s : Style) (text : String) : String :=
  if colored then wrap s.codes text else text

/-- A text in bold, whether or not there are to be colours. -/
def bold (text : String) : String := wrap [1] text

end Style

end LoadOrder
