/-!
# Reading a command line

A command line names a task.  Options that every task understands may stand before or after its
name; where one is given in both places the later one counts.  An option may be given once in each
place.

Arguments are read one at a time, and the first one that makes no sense ends the reading.
-/

namespace LoadOrder

/-- What can be asked for. -/
inductive Task where
  | order
  | graph
  | externals
  | cycle
  | init
  | version
  deriving DecidableEq, Repr

/-- What options are about. -/
inductive Setting where
  | verbose
  | json
  | config
  | path
  | strict
  /-- The file that would depend on another. -/
  | dependent
  /-- The file that it would depend on. -/
  | dependency
  | force
  | help
  | version
  deriving DecidableEq, Repr

namespace Task

def name : Task → String
  | .order => "order"
  | .graph => "graph"
  | .externals => "externals"
  | .cycle => "cycle"
  | .init => "init"
  | .version => "version"

def all : List Task := [.order, .graph, .externals, .cycle, .init, .version]

def named? (name : String) : Option Task := all.find? (·.name = name)

/-- The settings that only this task has. -/
def ownSettings : Task → List Setting
  | .cycle => [.dependent, .dependency]
  | .init => [.force]
  | _ => []

end Task

namespace Setting

/-- The name after two dashes. -/
def long : Setting → String
  | .verbose => "verbose"
  | .json => "json"
  | .config => "config"
  | .path => "path"
  | .strict => "strict"
  | .dependent => "from"
  | .dependency => "to"
  | .force => "force"
  | .help => "help"
  | .version => "version"

/-- The letter after one dash. -/
def short? : Setting → Option Char
  | .verbose => some 'v'
  | .config => some 'c'
  | .path => some 'p'
  | .help => some 'h'
  | .version => some 'V'
  | _ => none

def takesValue : Setting → Bool
  | .config | .path | .dependent | .dependency => true
  | _ => false

/-- Whether a value may be given to a setting: paths are not empty. -/
def allows (s : Setting) (value : String) : Bool :=
  match s with
  | .config | .path => value ≠ ""
  | _ => true

/-- The settings of every task. -/
def shared : List Setting := [.verbose, .json, .config, .path, .strict]

/-- The settings that are known before the name of a task, or after it. -/
def known : Option Task → List Setting
  | none => shared ++ [.help, .version]
  | some task => shared ++ task.ownSettings ++ [.help]

end Setting

/-- A task with what it is about. -/
inductive Command where
  | order
  | graph
  | externals
  | cycle (dependent dependency : String)
  | init (force : Bool)
  | version
  deriving DecidableEq, Repr

namespace Command

def task : Command → Task
  | .order => .order
  | .graph => .graph
  | .externals => .externals
  | .cycle _ _ => .cycle
  | .init _ => .init
  | .version => .version

end Command

/-- A command with its options. -/
structure Invocation where
  command : Command
  verbose : Bool := false
  json : Bool := false
  strict : Bool := false
  config : Option String := none
  path : String := "."
  deriving DecidableEq, Repr

/-- What comes of a command line. -/
inductive CommandLine where
  | run (invocation : Invocation)
  | showHelp
  | showVersion
  | refused
  deriving DecidableEq, Repr

/-- What has been read of a command line. -/
structure Reading where
  task : Option Task := none
  /-- What was set before the name of the task. -/
  outer : List (Setting × String) := []
  /-- What was set after it. -/
  inner : List (Setting × String) := []
  /-- The setting whose value has to come next. -/
  awaiting : Option Setting := none
  /-- Whether options have ended. -/
  ended : Bool := false

namespace Reading

/-- Sets a setting; `none` if it was set in this place before, or cannot have the value. -/
def give (r : Reading) (s : Setting) (value : String) : Option Reading :=
  let given := if r.task.isSome then r.inner else r.outer
  if (given.lookup s).isSome || !s.allows value then none
  else if r.task.isSome then some { r with inner := r.inner ++ [(s, value)], awaiting := none }
  else some { r with outer := r.outer ++ [(s, value)], awaiting := none }

/-- The value of a setting: the later place counts. -/
def value? (r : Reading) (s : Setting) : Option String := (r.inner.lookup s).or (r.outer.lookup s)

def isSet (r : Reading) (s : Setting) : Bool := (r.value? s).isSome

/-- What comes of an option that has no value, or of giving it one. -/
def flag (r : Reading) (s : Setting) : Except CommandLine Reading :=
  match s with
  | .help => .error .showHelp
  | .version => .error .showVersion
  | _ => (r.give s "").elim (.error .refused) .ok

/-- Reads an option by its name after two dashes. -/
def longOption (r : Reading) (text : List Char) : Except CommandLine Reading :=
  let name := String.ofList (text.takeWhile (· ≠ '='))
  match (Setting.known r.task).find? (·.long = name), text.dropWhile (· ≠ '=') with
  | none, _ => .error .refused
  | some s, [] => if s.takesValue then .ok { r with awaiting := some s } else r.flag s
  | some s, _ :: value =>
    if s.takesValue then (r.give s (String.ofList value)).elim (.error .refused) .ok
    else .error .refused

/-- Reads options by their letters after one dash.  What follows the letter of an option with a
value is that value. -/
def letters (r : Reading) : List Char → Except CommandLine Reading
  | [] => .ok r
  | c :: rest =>
    match (Setting.known r.task).find? (·.short? = some c) with
    | none => .error .refused
    | some s =>
      if s.takesValue then
        match rest with
        | [] => .ok { r with awaiting := some s }
        | '=' :: value => (r.give s (String.ofList value)).elim (.error .refused) .ok
        | value => (r.give s (String.ofList value)).elim (.error .refused) .ok
      else
        match r.flag s with
        | .ok r => r.letters rest
        | .error e => .error e

/-- The command that has been read, if it is complete. -/
def command? (r : Reading) : Option Command := do
  match ← r.task with
  | .order => some .order
  | .graph => some .graph
  | .externals => some .externals
  | .cycle => some (.cycle (← r.value? .dependent) (← r.value? .dependency))
  | .init => some (.init (r.isSet .force))
  | .version => some .version

/-- What comes of a command line that ends here. -/
def finish (r : Reading) : CommandLine :=
  match r.awaiting, r.command? with
  | none, some command =>
    .run {
      command := command
      verbose := r.isSet .verbose
      json := r.isSet .json
      strict := r.isSet .strict
      config := r.value? .config
      path := (r.value? .path).getD "." }
  | _, _ => .refused

/-- What comes of the arguments after the word that asks for help: the name of a task, if any. -/
def helpOn : List String → CommandLine
  | [] => .showHelp
  | [name] => if (Task.named? name).isSome || name = "help" then .showHelp else .refused
  | _ => .refused

/-- Reads arguments. -/
def read (r : Reading) : List String → CommandLine
  | [] => r.finish
  | arg :: rest =>
    let next (outcome : Except CommandLine Reading) : CommandLine :=
      match outcome with
      | .ok r => r.read rest
      | .error e => e
    match r.awaiting, arg.toList with
    | none, '-' :: '-' :: name =>
      if r.ended then .refused
      else if name = [] then { r with ended := true }.read rest
      else next (r.longOption name)
    | none, '-' :: c :: more => if r.ended then .refused else next (r.letters (c :: more))
    | some _, '-' :: _ :: _ => .refused
    | some s, _ => next ((r.give s arg).elim (.error .refused) .ok)
    | none, _ =>
      if r.ended || r.task.isSome then .refused
      else if arg = "help" then helpOn rest
      else
        match Task.named? arg with
        | some task => { r with task := some task }.read rest
        | none => .refused

end Reading

namespace CommandLine

/-- Reads the arguments of a command line. -/
def parse (args : List String) : CommandLine := ({} : Reading).read args

end CommandLine

end LoadOrder
