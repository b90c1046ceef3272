import LoadOrder.Files.Discovery
import LoadOrder.Source.Producer

/-!
# Loading a project

Every source is read and dumped.  A file for which that fails is skipped, with the reason.
-/

namespace LoadOrder

/-- A file that was skipped. -/
structure SkippedFile where
  unit : String
  reason : String
  deriving DecidableEq, Repr

/-- What was loaded of a project. -/
structure Project where
  units : List SourceUnit := []
  skipped : List SkippedFile := []

namespace Project

/-- Where and how files are loaded. -/
structure Loader where
  store : FileStore
  /-- The path of the directory of the project. -/
  root : String
  producers : Producers
  programs : Programs

/-- The unit of one file, or why it is skipped. -/
def Loader.unit (l : Loader) (path : String) : Except SkippedFile SourceUnit :=
  let id := Path.ofComponents (Path.components path)
  let unit? : Except SourceError (Option SourceUnit) := do
    let content ← (l.store.readText (Path.join l.root path)).mapError .unreadable
    l.producers.unit? l.programs id path content
  match unit? with
  | .ok (some unit) => .ok unit
  | .ok none => .error ⟨id, "no AST producer for this file type"⟩
  | .error e => .error ⟨id, e.message⟩

/-- The project with one more file. -/
def add (p : Project) : Except SkippedFile SourceUnit → Project
  | .ok unit => { p with units := p.units ++ [unit] }
  | .error skipped => { p with skipped := p.skipped ++ [skipped] }

/-- Loads files in turn. -/
def load (l : Loader) (paths : List String) : Project :=
  paths.foldl (fun p path => p.add (l.unit path)) {}

end Project

end LoadOrder
