import LoadOrder.Scan.Pool
import LoadOrder.Source.Interpreter

/-!
# Producers of dumps

A producer turns the text of a file into its dump: either the text is the dump already, or an
interpreter makes it.  The extension of the file decides between them.
-/

namespace LoadOrder

/-- A way of getting the dump of a file. -/
inductive Producer where
  /-- The file holds the dump. -/
  | dumped
  /-- The interpreter of this name makes the dump. -/
  | interpreted (interpreter : String)
  deriving DecidableEq, Repr

/-- Why a file gives no source unit. -/
inductive SourceError where
  | unreadable (fault : SystemError)
  | dump (file : String) (fault : DumpError)
  | interpreter (file program : String) (fault : InterpreterFault)

namespace SourceError

/-- The error in words.  What is wrong with a text that is not JSON is left out. -/
def message : SourceError → String
  | .unreadable fault => "IO error: " ++ fault.message
  | .dump file fault =>
    match fault.reason? with
    | some reason => "Parse error: " ++ file ++ ": " ++ reason
    | none => "JSON error"
  | .interpreter file program fault => "Adapter error: " ++ fault.message file program

end SourceError

namespace Producer

def name : Producer → String
  | .dumped => "sexp-json"
  | .interpreted _ => "ripper"

/-- The extensions of the files that a producer takes. -/
def extensions : Producer → List String
  | .dumped => ["json"]
  | .interpreted _ => ["rb"]

def handles (p : Producer) (path : String) : Bool :=
  match Path.extension? path with
  | some extension => p.extensions.contains extension
  | none => false

/-- The dump of a file's text. -/
def produce (programs : Programs) (file content : String) : Producer → Except SourceError Node
  | .dumped => (Node.parse content).mapError (.dump file)
  | .interpreted interpreter =>
    match interpret programs interpreter content with
    | .ok text => (Node.parse text).mapError (.dump file)
    | .error fault => .error (.interpreter file interpreter fault)

end Producer

/-- Producers in the order in which they are asked. -/
abbrev Producers := List Producer

namespace Producers

/-- The producers there are, with an interpreter for Ruby sources if one is given. -/
def standard (interpreter : Option String) : Producers :=
  .dumped :: (interpreter.map Producer.interpreted).toList

/-- The first producer that takes a file. -/
def find? (producers : Producers) (path : String) : Option Producer :=
  List.find? (Producer.handles · path) producers

/-- The extensions that some producer takes. -/
def extensions (producers : Producers) : NameSet :=
  NameSet.ofList (producers.flatMap Producer.extensions)

/-- The source unit of a file; none if no producer takes the file. -/
def unit? (producers : Producers) (programs : Programs) (id path content : String) :
    Except SourceError (Option SourceUnit) :=
  match producers.find? path with
  | none => .ok none
  | some producer => (producer.produce programs id content).map fun root => some ⟨id, root⟩

end Producers

end LoadOrder
