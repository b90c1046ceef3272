import LoadOrder.Reference
import LoadOrder.Diagnostic

/-!
# What a scan finds

Findings are the definitions, references and diagnostics of some statements.  The findings of
two pieces of a file are put together by `++`, and those of a namespace's body are moved into the
namespace by `Findings.nestedIn`.
-/

namespace LoadOrder

/-- What is found in some statements. -/
structure Findings where
  definitions : DefinitionTree := ∅
  references : List Reference := []
  diagnostics : List Diagnostic := []
  deriving DecidableEq

namespace Findings

instance : EmptyCollection Findings := ⟨⟨∅, [], []⟩⟩

instance : Inhabited Findings := ⟨∅⟩

/-- The findings of one piece followed by those of another. -/
def append (a b : Findings) : Findings :=
  ⟨a.definitions.merge b.definitions, a.references ++ b.references, a.diagnostics ++ b.diagnostics⟩

instance : Append Findings := ⟨append⟩

def ofReferences (references : List Reference) : Findings := ⟨∅, references, []⟩

def ofDiagnostics (diagnostics : List Diagnostic) : Findings := ⟨∅, [], diagnostics⟩

/-- A constant without anything inside. -/
def ofDefinition (name : String) : Findings := ⟨DefinitionTree.insertLeaf ∅ name, [], []⟩

/-- The findings of a body as those of the namespace around it. -/
def nestedIn (name : String) (body : Findings) : Findings :=
  ⟨DefinitionTree.insert ∅ name body.definitions, body.references.map (Reference.nestedIn name),
    body.diagnostics⟩

@[simp]
theorem append_empty (a : Findings) : a ++ (∅ : Findings) = a := by
  show append a ⟨∅, [], []⟩ = a
  simp only [append, List.append_nil]
  rfl

end Findings

end LoadOrder
