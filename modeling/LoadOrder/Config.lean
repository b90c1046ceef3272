import LoadOrder.Files.Store
import LoadOrder.Toml.Printer
import LoadOrder.Toml.Reader

/-!
# Settings

The settings of a project are kept in a TOML file.  Settings that the file does not mention have
their usual values, and keys that mean nothing are passed over.
-/

namespace LoadOrder

/-- The settings of a project. -/
structure Config where
  /-- Which files are sources, as glob patterns. -/
  files : List String := ["**/*.rb"]
  /-- What is left out, as lines of an ignore file. -/
  exclude : List String := []
  /-- Whether syntax that is not recognized is an error. -/
  strict : Bool := false
  /-- How many scans run side by side; zero leaves that open. -/
  workers : Nat := 0
  /-- The interpreter that dumps Ruby sources. -/
  ruby : String := "ruby"
  deriving DecidableEq, Repr

/-- Why settings cannot be loaded or written. -/
inductive ConfigError where
  | system (fault : SystemError)
  /-- The file is not TOML, or a setting has a value of the wrong kind. -/
  | invalid (path : String)
  /-- There is a file already, which is not to be replaced. -/
  | present (path : String)
  /-- The number of workers cannot be written. -/
  | workersOutOfRange
  deriving DecidableEq, Repr

namespace ConfigError

/-- The error in words.  What is wrong with an invalid file is left out. -/
def message : ConfigError → String
  | .system fault => fault.message
  | .invalid path => "invalid config " ++ path
  | .present path => "config already exists at " ++ path ++ " (use --force to overwrite)"
  | .workersOutOfRange => "out-of-range value for u64 type"

end ConfigError

namespace Config

/-- The name of the file with the settings. -/
def fileName : String := "buildorder.toml"

/-! ### Settings as TOML -/

def text? : Toml.Value → Option String
  | .string text => some text
  | _ => none

def texts? : Toml.Value → Option (List String)
  | .array items => items.mapM text?
  | _ => none

def flag? : Toml.Value → Option Bool
  | .boolean value => some value
  | _ => none

def count? : Toml.Value → Option Nat
  | .integer (.ofNat n) => some n
  | _ => none

/-- The setting at a key, or its usual value if the key is missing. -/
def setting {α : Type} (read : Toml.Value → Option α) (t : Toml.Table) (key : String) (usual : α) :
    Option α :=
  match t.get? key with
  | none => some usual
  | some value => read value

/-- The settings in a table. -/
def ofTable? (t : Toml.Table) : Option Config := do
  let usual : Config := {}
  let files ← setting texts? t "files" usual.files
  let exclude ← setting texts? t "exclude" usual.exclude
  let strict ← setting flag? t "strict" usual.strict
  let workers ← setting count? t "workers" usual.workers
  let ruby ← setting text? t "ruby" usual.ruby
  some ⟨files, exclude, strict, workers, ruby⟩

/-- The settings in the text of a file. -/
def parse? (text : String) : Option Config := (Toml.parse? text).bind ofTable?

/-- The text of a file with the settings. -/
def render (c : Config) : String :=
  String.ofList <|
    Toml.keyLine "files" (Toml.arrayText c.files) ++
    Toml.keyLine "exclude" (Toml.arrayText c.exclude) ++
    Toml.keyLine "strict" (if c.strict then "true" else "false").toList ++
    Toml.keyLine "workers" (toString c.workers).toList ++
    Toml.keyLine "ruby" (Toml.quote c.ruby)

/-! ### The file -/

/-- The settings in a file; none if there is no file. -/
def load (store : FileStore) (path : String) : Except ConfigError (Option Config) :=
  if store.contains path then
    match store.readText path with
    | .error fault => .error (.system fault)
    | .ok text =>
      match parse? text with
      | some c => .ok (some c)
      | none => .error (.invalid path)
  else .ok none

/-- The text of a file with the settings, if all of them can be written. -/
def serialize (c : Config) : Except ConfigError String :=
  if Toml.integerMax < c.workers then .error .workersOutOfRange else .ok c.render

/-- Writes settings to a file; one that is there is only replaced if `force` is set.  The text is
made before the file is touched. -/
def save (c : Config) (path : String) (force : Bool) :
    ExceptT ConfigError (StateM FileStore) Unit := do
  if (← get).contains path && !force then throw (.present path)
  let text ← c.serialize
  let written : Except ConfigError FileStore :=
    ((← get).write path (Utf8.encode text)).mapError .system
  set (← written)

/-- The files after settings were written, or why they were not. -/
def write (c : Config) (store : FileStore) (path : String) (force : Bool) :
    Except ConfigError FileStore :=
  match (c.save path force).run.run store with
  | (.ok (), store) => .ok store
  | (.error e, _) => .error e

end Config

end LoadOrder
