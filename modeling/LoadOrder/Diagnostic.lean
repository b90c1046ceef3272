import LoadOrder.Dump.Slot

/-!
# Diagnostics

What was found odd in a file without being a reason to give up.
-/

namespace LoadOrder

inductive DiagnosticKind where
  /-- A node of an unknown kind was passed over. -/
  | unrecognizedNode
  /-- A class or module has no plain name. -/
  | malformedDefinition
  /-- Two files define the same constant. -/
  | duplicateDefinition
  /-- Constants inside control flow were passed over. -/
  | skippedControlFlow
  deriving DecidableEq, Repr

namespace DiagnosticKind

/-- The kind in words joined by a character. -/
def words (separator : String) (k : DiagnosticKind) : String :=
  String.intercalate separator <|
    match k with
    | .unrecognizedNode => ["unrecognized", "node"]
    | .malformedDefinition => ["malformed", "definition"]
    | .duplicateDefinition => ["duplicate", "definition"]
    | .skippedControlFlow => ["skipped", "control", "flow"]

/-- The kind as shown to a reader. -/
def text (k : DiagnosticKind) : String := k.words "-"

/-- The kind as a key for programs. -/
def key (k : DiagnosticKind) : String := k.words "_"

end DiagnosticKind

/-- A finding about a file. -/
structure Diagnostic where
  kind : DiagnosticKind
  unit : String
  message : String
  position : Option Position := none
  deriving DecidableEq

namespace Diagnostic

/-- The diagnostic in the form `unit:line:column: [kind] message`. -/
def text (d : Diagnostic) : String :=
  let place :=
    match d.position with
    | some p => ":" ++ p.text
    | none => ""
  d.unit ++ place ++ ": [" ++ d.kind.text ++ "] " ++ d.message

end Diagnostic

end LoadOrder
