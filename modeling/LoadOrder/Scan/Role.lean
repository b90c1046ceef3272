import LoadOrder.Dump.Slot

/-!
# Where constants stand in a node

For every kind of node, its role says which of its slots may mention constants.  A class or module
definition in a list of statements also opens a namespace; `Kind.bodySlot?` says where its body
is.
-/

namespace LoadOrder

/-- How a node mentions constants. -/
inductive Role where
  /-- The node is the name of a constant. -/
  | constant
  /-- The node is a qualified name, or an expression followed by a name. -/
  | path
  /-- Constants stand in some slots, in this order. -/
  | operands (slots : List Nat)
  /-- Constants stand in the statements of a body. -/
  | body (slot : Nat)
  /-- Constants inside are passed over, with a diagnostic. -/
  | untracked
  /-- Nothing is known about the node. -/
  | unrecognized
  /-- Nothing inside counts. -/
  | inert
  deriving DecidableEq, Repr

namespace Kind

/-- The role of a kind. -/
def role : Kind → Role
  | varRef | topConstRef => .constant
  | constPathRef => .path
  | call | array | argParen | argsAddBlock | paren => .operands [0]
  | methodAddArg | methodAddBlock | assign => .operands [0, 1]
  | opAssign => .operands [0, 2]
  | command => .operands [1]
  | commandCall => .operands [0, 3]
  | classDef => .operands [1]
  | bodyStmt => .body 0
  | braceBlock | doBlock | singletonClass => .body 1
  | methodDef => .body 2
  | singletonMethodDef => .body 4
  | ifStmt | ifMod | unlessStmt | unlessMod | whileStmt | untilStmt | caseStmt | beginStmt =>
    .untracked
  | unknown _ => .unrecognized
  | _ => .inert

/-- The slot with the body of a class or module definition. -/
def bodySlot? : Kind → Option Nat
  | classDef => some 2
  | moduleDef => some 1
  | _ => none

end Kind

/-- Why a class or module definition has no plain name. -/
inductive NameFault where
  | missing
  | notPlain (found : Kind)
  | noConstant
  deriving DecidableEq, Repr

namespace NameFault

/-- The reason in words, for a definition of the given kind. -/
def message (kind : Kind) : NameFault → String
  | .missing => "`" ++ kind.tag ++ "` node has no name"
  | .notPlain found => "`" ++ kind.tag ++ "` name is a `" ++ found.tag ++ "`, not a const_ref"
  | .noConstant => "`" ++ kind.tag ++ "` const_ref does not hold a constant"

end NameFault

namespace Slot

/-- The name of the constant whose token stands in slot `i`. -/
def constantAt (children : List Slot) (i : Nat) : Option String :=
  (children[i]?.bind node?).bind Node.constName?

/-- The statements of a body: those of a list, or those of the list or the one node in a
`bodyStmt`. -/
def statementsOf : Slot → List Slot
  | .list items => items
  | .node .bodyStmt (.list items :: _) => items
  | .node .bodyStmt (.node kind children :: _) => [.node kind children]
  | _ => []

/-- The statements of the body in slot `i`. -/
def bodyStatements : List Slot → Nat → List Slot
  | [], _ => []
  | s :: _, 0 => s.statementsOf
  | _ :: rest, i + 1 => bodyStatements rest i

end Slot

namespace Node

/-- The name that a class or module definition gives. -/
def namespaceName (n : Node) : Except NameFault String :=
  match n.node? 0 with
  | none => .error .missing
  | some name =>
    if name.kind ≠ .constRef then .error (.notPlain name.kind)
    else
      match Slot.constantAt name.children 0 with
      | none => .error .noConstant
      | some text => .ok text

/-- The constant that an assignment sets. -/
def constantTarget? (n : Node) : Option String :=
  match n.node? 0 with
  | some target => if target.kind = .varField then Slot.constantAt target.children 0 else none
  | none => none

end Node

end LoadOrder
