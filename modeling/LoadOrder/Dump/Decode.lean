import LoadOrder.Dump.Slot
import LoadOrder.Json.Reader

/-!
# Dumps as JSON

An array that starts with a string is a node, an array of two small whole numbers is a position,
and any other array is a list.  Numbers elsewhere are literals, and objects do not occur.
`Slot.render` writes a slot back.
-/

namespace LoadOrder

/-- Why a text is not a dump. -/
inductive DumpError where
  | json (fault : Json.Fault)
  /-- An object stands in the dump. -/
  | object
  /-- The dump is that of a text with a syntax error. -/
  | empty
  /-- The dump is some value other than a node. -/
  | notNode
  deriving DecidableEq

namespace DumpError

/-- The reason in words; none for a text that is not JSON at all. -/
def reason? : DumpError → Option String
  | .json _ => none
  | .object => some "unexpected JSON object in S-expression"
  | .empty => some "source has a syntax error (empty S-expression)"
  | .notNode => some "S-expression root is not a node"

end DumpError

namespace Position

/-- Lines and columns are less than this. -/
def positionBound : Int := 4294967296

/-- The position that two numbers stand for, if both are whole and fit in 32 bits. -/
def ofNumbers? : JsonNumber → JsonNumber → Option Position
  | .integer l, .integer c =>
    if 0 ≤ l ∧ l < positionBound ∧ 0 ≤ c ∧ c < positionBound then
      some ⟨UInt32.ofNat l.toNat, UInt32.ofNat c.toNat⟩
    else none
  | _, _ => none

/-- The position that an array stands for. -/
def ofItems? : List Json → Option Position
  | [.number l, .number c] => ofNumbers? l c
  | _ => none

end Position

namespace Slot

mutual

/-- The slot that a JSON value stands for. -/
def decode : Json → Except DumpError Slot
  | .null => .ok .nil
  | .bool value => .ok (.flag value)
  | .number n => .ok (.literal n.text)
  | .string text => .ok (.literal text)
  | .object _ => .error .object
  | .array (.string tag :: rest) => (decodeItems rest).map (.node (Kind.ofTag tag))
  | .array items =>
    match Position.ofItems? items with
    | some place => .ok (.position place)
    | none => (decodeItems items).map .list

/-- The slots that some values stand for. -/
def decodeItems : List Json → Except DumpError (List Slot)
  | [] => .ok []
  | item :: rest => do
    let first ← decode item
    let others ← decodeItems rest
    .ok (first :: others)

end

mutual

/-- The JSON value that stands for a slot. -/
def render : Slot → Json
  | .node kind children => .array (.string kind.tag :: renderItems children)
  | .list items => .array (renderItems items)
  | .literal text => .string text
  | .position place => .array [Json.nat place.line.toNat, Json.nat place.column.toNat]
  | .flag value => .bool value
  | .nil => .null

/-- The JSON values that stand for some slots. -/
def renderItems : List Slot → List Json
  | [] => []
  | s :: rest => s.render :: renderItems rest

end

end Slot

namespace Node

/-- Reads a dump: a JSON text whose value is a node. -/
def parse (text : String) : Except DumpError Node := do
  let value ← (Json.parse text).mapError .json
  match ← Slot.decode value with
  | .node kind children => .ok ⟨kind, children⟩
  | .nil => .error .empty
  | _ => .error .notNode

end Node

end LoadOrder
