import LoadOrder.Dump.Kind

/-!
# Syntax trees

A node has a kind and slots.  A slot holds a node, a list of slots, a literal, a source position,
a flag or nothing.  Slots are counted from zero after the tag, so a class definition has its name
in slot 0.
-/

namespace LoadOrder

/-- A place in a source text; lines count from one, columns from zero. -/
structure Position where
  line : UInt32
  column : UInt32
  deriving DecidableEq

namespace Position

/-- The position in the form `line:column`. -/
def text (p : Position) : String := toString p.line ++ ":" ++ toString p.column

end Position

/-- What a node holds at one place. -/
inductive Slot where
  | node (kind : Kind) (children : List Slot)
  | list (items : List Slot)
  | literal (text : String)
  | position (place : Position)
  | flag (value : Bool)
  | nil

/-- A node with its slots. -/
structure Node where
  kind : Kind
  children : List Slot

namespace Slot

/-- The node in a slot. -/
def node? : Slot → Option Node
  | .node kind children => some ⟨kind, children⟩
  | _ => none

/-- The items of the list in a slot. -/
def list? : Slot → Option (List Slot)
  | .list items => some items
  | _ => none

def literal? : Slot → Option String
  | .literal text => some text
  | _ => none

def isNil : Slot → Bool
  | .nil => true
  | _ => false

mutual

/-- The first position in a slot or below it, in the order of the slots. -/
def firstPosition : Slot → Option Position
  | .node _ children => firstPositionIn children
  | .list items => firstPositionIn items
  | .position place => some place
  | _ => none

/-- The first position in some slots. -/
def firstPositionIn : List Slot → Option Position
  | [] => none
  | s :: rest =>
    match s.firstPosition with
    | some place => some place
    | none => firstPositionIn rest

end

mutual

/-- Does the token of a constant stand in a slot or below it? -/
def mentionsConstant : Slot → Bool
  | .node kind children => kind = .const || mentionsConstantIn children
  | .list items => mentionsConstantIn items
  | _ => false

/-- Does the token of a constant stand in some slots? -/
def mentionsConstantIn : List Slot → Bool
  | [] => false
  | s :: rest => s.mentionsConstant || mentionsConstantIn rest

end

end Slot

namespace Node

/-- The slot that holds a node. -/
def toSlot (n : Node) : Slot := .node n.kind n.children

/-- The node in slot `i`. -/
def node? (n : Node) (i : Nat) : Option Node := n.children[i]?.bind Slot.node?

/-- The list in slot `i`. -/
def list? (n : Node) (i : Nat) : Option (List Slot) := n.children[i]?.bind Slot.list?

/-- The literal in slot `i`. -/
def literal? (n : Node) (i : Nat) : Option String := n.children[i]?.bind Slot.literal?

/-- The name in the token of a constant. -/
def constName? (n : Node) : Option String := if n.kind = .const then n.literal? 0 else none

/-- The first position in a node. -/
def position? (n : Node) : Option Position := Slot.firstPositionIn n.children

end Node

end LoadOrder
