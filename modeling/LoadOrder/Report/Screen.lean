import LoadOrder.Report.Style

/-!
# Lines on the screen

What a command says, line by line, on its output or as a message.
-/

namespace LoadOrder

/-- A line that is printed. -/
inductive Line where
  | output (text : String)
  /-- On the channel for messages. -/
  | message (text : String)
  deriving DecidableEq, Repr

namespace Line

variable (colored : Bool)

/-- Something went well. -/
def success (label : String) : Line := .output ("✅ " ++ Style.success.paint colored label)

/-- Something failed. -/
def failure (label : String) : Line := .message ("❌ " ++ Style.error.paint colored label)

def warning (label : String) : Line := .message ("⚠️ " ++ Style.warn.paint colored label)

/-- The title of a section, after an empty line. -/
def sectionTitle (title : String) : List Line :=
  [.output "", .output ("━" ++ Style.header.paint colored title ++ "━")]

/-- A file with its number in an order, counted from one. -/
def numbered (index : Nat) (unit : String) : Line :=
  let number := Style.dim.paint colored (toString (index + 1) ++ ".")
  let blanks := String.ofList (List.replicate (4 - number.length) ' ')
  .output (blanks ++ number ++ "  " ++ Style.unit.paint colored unit)

/-- The files of an order. -/
def order (units : List String) : List Line :=
  units.mapIdx (numbered colored)

/-- The files of a cycle. -/
def cycle (units : List String) : Line :=
  .output ("  🔁 " ++ Style.error.paint colored (String.intercalate " → " units))

/-- A title and a subtitle. -/
def banner (title subtitle : String) : List Line :=
  [.output ("🚀 " ++ title), .output ("   " ++ Style.dim.paint colored subtitle)]

end Line

end LoadOrder
