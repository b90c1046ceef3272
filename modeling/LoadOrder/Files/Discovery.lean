import LoadOrder.Config
import LoadOrder.Pattern.IgnoreRule

/-!
# Finding the sources of a project

The sources are the files that some pattern of the settings matches, that no ignore file hides, and
that the rules of the project do not leave out.  They come in the order of their components.
-/

namespace LoadOrder

/-! ### Rules of the project -/

/-- What is left out of every project. -/
def standardExcludes : List String :=
  ["vendor/", "build/", "pkg/", "tmp/", "coverage/", ".bundle/", ".git/", ".idea/", ".vscode/",
    "*.rbc", "*.gem", "*.lock", "*.log"]

namespace FileStore

/-- The rules in an ignore file; none if it cannot be read. -/
def rulesAt (store : FileStore) (place : List String) : IgnoreRules :=
  match store.entry? place with
  | some (.file bytes) => IgnoreRules.ofBytes bytes
  | _ => []

/-- The rules of the project in a directory: those of its ignore files, the standard ones, and those
of the settings. -/
def projectRules (store : FileStore) (root : List String) (exclude : List String) : IgnoreRules :=
  store.rulesAt (root ++ [".gitignore"]) ++ store.rulesAt (root ++ [".ignore"]) ++
    IgnoreRules.ofLines standardExcludes ++ IgnoreRules.ofLines exclude

/-! ### Ignore files on the way -/

/-- What the ignore files of one name say about a place, asked from the directory `above` outwards.
Both `above` and the components from there, `inner`, are needed; `above` is given from its last
component back. -/
def outward? (store : FileStore) (name : List String) (directory : Bool) :
    List String → List String → Option Verdict
  | [], inner => (store.rulesAt name).verdict? inner directory
  | last :: above, inner =>
    ((store.rulesAt ((last :: above).reverse ++ name)).verdict? inner directory).or
      (store.outward? name directory above (last :: inner))

/-- The names of ignore files, from the strongest on. -/
def ignoreFiles : List (List String) := [[".ignore"], [".gitignore"], [".git", "info", "exclude"]]

/-- Whether the ignore files of the directories above a place hide it.  A stronger kind of file
decides before a weaker one. -/
def hides (store : FileStore) (place : List String) (directory : Bool) : Bool :=
  match place.reverse with
  | [] => false
  | last :: above =>
    ignoreFiles.findSome? (fun name => store.outward? name directory above [last]) = some .ignore

/-- Whether a walk from a directory comes to a file: neither it nor a directory on the way is
hidden. -/
def visible (store : FileStore) (root path : List String) : Bool :=
  (List.range path.length).all (fun n =>
    n = 0 || !store.hides (root ++ path.take n) true) &&
    !store.hides (root ++ path) false

end FileStore

/-! ### Paths in order -/

namespace Path

/-- The paths of a list in increasing order. -/
def inOrder (paths : List (List String)) : List (List String) :=
  paths.mergeSort fun p q => !before q p

end Path

/-- The sources of the project in a directory, by their components from there. -/
def discover (store : FileStore) (root : List String) (config : Config) :
    Except GlobError (List (List String)) := do
  let globs ← config.files.mapM Glob.parse
  let rules := store.projectRules root config.exclude
  .ok <| Path.inOrder <| (store.filesIn root).filter fun path =>
    store.visible root path && !rules.ignores path false &&
      globs.any (·.test (Path.ofComponents path))

end LoadOrder
