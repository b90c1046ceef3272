import LoadOrder.Scan.Role
import LoadOrder.Scan.Findings

/-!
# Scanning a syntax tree

A scan walks over the statements of a file.  Class and module definitions become nested
definitions, and the references inside them get the name in front of their scope; assignments to
constants become definitions without anything inside; expressions contribute the constants that
they mention.  A node of an unknown kind is a diagnostic, or in strict mode the end of the scan.
-/

namespace LoadOrder

/-- A strict scan met a node of an unknown kind. -/
structure UnrecognizedNode where
  unit : String
  kind : String
  deriving DecidableEq, Repr

namespace UnrecognizedNode

def message (e : UnrecognizedNode) : String :=
  "Unrecognized node `" ++ e.kind ++ "` in " ++ e.unit

end UnrecognizedNode

/-- On behalf of which file, and how strictly, a scan is made. -/
structure Scanner where
  unit : String
  strict : Bool

/-- What comes of scanning a piece of a file. -/
abbrev ScanOutcome := Except UnrecognizedNode Findings

namespace ScanOutcome

/-- The findings of several pieces together, or the first failure. -/
def concat : List ScanOutcome → ScanOutcome
  | [] => .ok ∅
  | a :: rest => do
    let first ← a
    let others ← concat rest
    .ok (first ++ others)

end ScanOutcome

namespace Slot

/-- The reference that a chain of constants stands for: `A`, `::A`, `A::B`. -/
def chain? : Slot → Option Reference
  | .node .varRef children => (constantAt children 0).map (Reference.lexical · [])
  | .node .topConstRef children => (constantAt children 0).map Reference.root
  | .node .constPathRef (parent :: rest) =>
    match constantAt (parent :: rest) 1 with
    | some segment => parent.chain?.map (Reference.qualified segment)
    | none => none
  | _ => none

end Slot

namespace Scanner

variable (s : Scanner)

/-- A diagnostic about a node. -/
def report (kind : DiagnosticKind) (message : String) (children : List Slot) : Findings :=
  .ofDiagnostics [⟨kind, s.unit, message, Slot.firstPositionIn children⟩]

/-- The diagnostic for control flow that holds constants. -/
def untracked (kind : Kind) (children : List Slot) : Findings :=
  if (Slot.node kind children).mentionsConstant then
    s.report .skippedControlFlow ("constants inside `" ++ kind.tag ++ "` are not tracked") children
  else ∅

/-- A node of an unknown kind. -/
def unrecognized (kind : Kind) (children : List Slot) : ScanOutcome :=
  if s.strict then .error ⟨s.unit, kind.tag⟩
  else
    .ok (s.report .unrecognizedNode
      ("don't know how to find constants in `" ++ kind.tag ++ "`") children)

/-- The name at the end of a path. -/
def lastSegment (children : List Slot) : Findings :=
  .ofReferences ((Slot.constantAt children 1).map (Reference.lexical · [])).toList

mutual

/-- The constants that the expression in a slot mentions. -/
def mentions : Slot → ScanOutcome
  | .node kind children =>
    match kind.role with
    | .constant => .ok (.ofReferences (Slot.node kind children).chain?.toList)
    | .path =>
      match (Slot.node kind children).chain? with
      | some r => .ok (.ofReferences [r])
      | none => do
        let parent ← mentionsAt children 0
        .ok (parent ++ lastSegment children)
    | .operands slots => ScanOutcome.concat (slots.map fun i => mentionsAt children i)
    | .body slot => bodyMentionsAt children slot
    | .untracked => .ok (s.untracked kind children)
    | .unrecognized => s.unrecognized kind children
    | .inert => .ok ∅
  | .list items => mentionsIn items
  | _ => .ok ∅

/-- The constants that some slots mention, one after the other. -/
def mentionsIn : List Slot → ScanOutcome
  | [] => .ok ∅
  | slot :: rest => do
    let first ← mentions slot
    let others ← mentionsIn rest
    .ok (first ++ others)

/-- The constants that slot `i` mentions. -/
def mentionsAt : List Slot → Nat → ScanOutcome
  | [], _ => .ok ∅
  | slot :: _, 0 => mentions slot
  | _ :: rest, i + 1 => mentionsAt rest i

/-- The constants that the body in slot `i` mentions. -/
def bodyMentionsAt : List Slot → Nat → ScanOutcome
  | [], _ => .ok ∅
  | slot :: _, 0 => bodyMentions slot
  | _ :: rest, i + 1 => bodyMentionsAt rest i

/-- The constants that a body mentions. -/
def bodyMentions : Slot → ScanOutcome
  | .list items => mentionsIn items
  | .node .bodyStmt (.list items :: _) => mentionsIn items
  | .node .bodyStmt (.node kind children :: _) => mentions (.node kind children)
  | _ => .ok ∅

end

/-- The constant that an assignment defines. -/
def assigned (kind : Kind) (children : List Slot) : Findings :=
  if kind = .assign then
    match (Node.mk kind children).constantTarget? with
    | some name => .ofDefinition name
    | none => ∅
  else ∅

/-- A class or module definition, given the findings of its body. -/
def namespaceFindings (kind : Kind) (children : List Slot) (body : ScanOutcome) : ScanOutcome :=
  match (Node.mk kind children).namespaceName with
  | .ok name => body.map (Findings.nestedIn name)
  | .error fault => .ok (s.report .malformedDefinition (fault.message kind) children)

mutual

/-- The findings of one statement; only a node is one. -/
def statement : Slot → ScanOutcome
  | .node kind children => do
    let uses ← s.mentions (.node kind children)
    match kind.bodySlot? with
    | some i =>
      let opened ← s.namespaceFindings kind children (bodyAt children i)
      .ok (uses ++ opened)
    | none => .ok (assigned kind children ++ uses)
  | _ => .ok ∅

/-- The findings of a list of statements. -/
def statements : List Slot → ScanOutcome
  | [] => .ok ∅
  | slot :: rest => do
    let first ← statement slot
    let others ← statements rest
    .ok (first ++ others)

/-- The findings of the body in slot `i`. -/
def bodyAt : List Slot → Nat → ScanOutcome
  | [], _ => .ok ∅
  | slot :: _, 0 => body slot
  | _ :: rest, i + 1 => bodyAt rest i

/-- The findings of a body. -/
def body : Slot → ScanOutcome
  | .list items => statements items
  | .node .bodyStmt (.list items :: _) => statements items
  | .node .bodyStmt (.node kind children :: _) => statement (.node kind children)
  | _ => .ok ∅

end

/-! ### Bodies as lists of statements -/

theorem statements_singleton (slot : Slot) : s.statements [slot] = s.statement slot := by
  simp only [statements]
  cases s.statement slot with
  | error e => rfl
  | ok f => simp [Bind.bind, Except.bind, Findings.append_empty]

theorem body_eq (slot : Slot) : s.body slot = s.statements slot.statementsOf := by
  unfold body Slot.statementsOf
  split
  · rfl
  · rfl
  · rw [statements_singleton]
  · simp_all [statements]

/-- The findings of the body in a slot are those of its statements. -/
theorem bodyAt_eq (children : List Slot) (i : Nat) :
    s.bodyAt children i = s.statements (Slot.bodyStatements children i) := by
  induction children generalizing i with
  | nil => rfl
  | cons slot rest ih =>
    cases i with
    | zero => exact s.body_eq slot
    | succ i => exact ih i

/-- The findings of a file: those of the statements of a `program`, or of any other root as a
single statement. -/
def scan (root : Node) : ScanOutcome :=
  if root.kind = .program then s.statements ((root.list? 0).getD [])
  else s.statements [root.toSlot]

end Scanner

end LoadOrder
