import LoadOrder.Analysis
import LoadOrder.Command.Options
import LoadOrder.Json.Printer
import LoadOrder.Report.Screen
import LoadOrder.Report.Table
import LoadOrder.Source.Project

/-!
# Running commands

A command is run on a snapshot of the files, and says what is to be printed and how the files are
afterwards.  There are two kinds of output: text for people, which can be cut to the bare answer,
and one JSON object that holds the answer or the error.
-/

namespace LoadOrder

def programVersion : String := "0.1.0"

/-- What a command is run on. -/
structure Session where
  store : FileStore
  programs : Programs
  /-- Whether output for people is cut to the answer. -/
  quiet : Bool := false
  /-- Whether output for people has colours. -/
  colored : Bool := false
  /-- How long the run has taken, in words. -/
  elapsed : String := ""

/-- Whether the value of the variable that asks for quiet output does so. -/
def asksForQuiet (value : String) : Bool :=
  value = "1" || String.ofList (value.toList.map Char.toLower) = "true"

/-- What a command did. -/
structure Response where
  status : Nat := 0
  lines : List Line := []
  store : FileStore

/-- Why a command could not be run. -/
inductive CommandError where
  | notDirectory (path : String)
  | config (error : ConfigError)
  | pattern (error : GlobError)
  | analysis (error : AnalysisError)
  | unknownUnit (error : UnitNotFound)

namespace CommandError

/-- The error in words, followed by its cause where that is an error of its own. -/
def message : CommandError → String
  | .notDirectory path => path ++ " is not a directory"
  | .config error => error.message
  | .pattern error => "Invalid file pattern: " ++ error.message ++ ": " ++ error.message
  | .analysis error => error.message
  | .unknownUnit error => error.message

end CommandError

/-! ### Answers as JSON -/

namespace Answer

/-- A position, with its keys in order. -/
def position (p : Position) : Json :=
  .object [("column", .nat p.column.toNat), ("line", .nat p.line.toNat)]

def diagnostic (d : Diagnostic) : Json :=
  .object <|
    [("kind", .string d.kind.key), ("message", .string d.message)] ++
      (d.position.map fun p => ("position", position p)).toList ++ [("unit", .string d.unit)]

def skipped (s : SkippedFile) : Json :=
  .object [("reason", .string s.reason), ("unit", .string s.unit)]

/-- Names with the names that belong to each. -/
def namesOf (entries : List (String × NameSet)) : Json :=
  .object (entries.map fun e => (e.1, .strings e.2.toList))

def graph (g : DependencyGraph) : Json :=
  .object [("dependencies", namesOf g.entries), ("units", .strings g.units.toList)]

def links (s : LinkStats) : Json :=
  .object [("external", .nat s.external), ("local", .nat s.toSelf), ("resolved", .nat s.resolved),
    ("total", .nat s.total)]

def stats (g : DependencyGraph) : Json :=
  .object [("dependent_units", .nat g.stats.dependentUnits), ("edges", .nat g.stats.edges),
    ("units", .nat g.stats.units)]

def config (c : Config) : Json :=
  .object [("exclude", .strings c.exclude), ("files", .strings c.files), ("ruby", .string c.ruby),
    ("strict", .bool c.strict), ("workers", .nat c.workers)]

/-- The one object that is printed for a command. -/
def envelope (task : Task) (data : Option Json) (error : Option String) : Line :=
  .output <| Json.pretty <| .object <|
    [("ok", .bool error.isNone), ("command", .string task.name)] ++
      (data.map fun d => ("data", d)).toList ++
      (error.map fun e => ("error", .string e)).toList

def success (task : Task) (data : Json) : Line := envelope task (some data) none

end Answer

/-! ### Analysing the project -/

/-- How a command speaks. -/
structure Manner where
  json : Bool
  /-- Whether the answer comes with titles, summaries and warnings. -/
  decorated : Bool
  colored : Bool

/-- The manner of a command in a session. -/
def Session.manner (s : Session) (i : Invocation) : Manner :=
  ⟨i.json, !i.json && !s.quiet, s.colored⟩

/-- The settings of the project of a command. -/
def Session.config (s : Session) (i : Invocation) : Except CommandError Config := do
  let path := i.config.getD (Path.join i.path Config.fileName)
  let loaded ← (Config.load s.store path).mapError .config
  let config := loaded.getD {}
  .ok { config with strict := config.strict || i.strict }

/-- The sources of the project of a command, and its settings. -/
def Session.project (s : Session) (i : Invocation) : Except CommandError (Config × Project) := do
  match s.store.directory? i.path with
  | none => .error (.notDirectory i.path)
  | some place =>
    let config ← s.config i
    let found ← (discover s.store place config).mapError .pattern
    let loader : Project.Loader :=
      ⟨s.store, i.path, Producers.standard (some config.ruby), s.programs⟩
    .ok (config, Project.load loader (found.map Path.ofComponents))

/-- What is said after an analysis: how long it took, and what was found. -/
def summary (m : Manner) (elapsed : String) (units : Nat) (a : Analysis) : List Line :=
  let icon (text : String) := Style.info.paint m.colored text
  [.output (Style.success.paint m.colored "✅" ++ " " ++
      Style.success.paint m.colored ("Analyzed in " ++ elapsed)),
    .output ("  " ++ icon "📄" ++ " " ++ toString units ++ " files  " ++ icon "📦" ++ " " ++
      toString a.symbols.size ++ " constants  " ++ icon "🔗" ++ " " ++
      toString a.links.graph.edgeCount ++ " dependencies")]

/-- The files that were skipped, for people. -/
def skippedLines (m : Manner) (p : Project) : List Line :=
  if m.decorated then
    p.skipped.map fun s => Line.warning m.colored ("Skipped " ++ s.unit ++ ": " ++ s.reason)
  else []

/-- The diagnostics of an analysis, for people. -/
def diagnosticLines (m : Manner) (a : Analysis) : List Line :=
  if !m.decorated || a.diagnostics.isEmpty then []
  else
    Line.sectionTitle m.colored
        ("Diagnostics (" ++ toString a.diagnostics.length ++ ")") ++
      a.diagnostics.map fun d => Line.warning m.colored d.text

/-! ### The commands -/

/-- What a command says about an analysis, and with which status it ends. -/
structure Report where
  status : Nat := 0
  lines : List Line

/-- The build order, or the files that wait for a cycle. -/
def orderReport (m : Manner) (p : Project) (a : Analysis) : Report :=
  match a.buildOrder with
  | .ok order =>
    if m.json then
      ⟨0, [Answer.success .order <| .object [
        ("diagnostics", .array (a.diagnostics.map Answer.diagnostic)),
        ("order", .strings order.units), ("skipped", .array (p.skipped.map Answer.skipped))]]⟩
    else if m.decorated then
      ⟨0, diagnosticLines m a ++
        Line.sectionTitle m.colored
          ("Build order (" ++ toString order.units.length ++ " files)") ++
        Line.order m.colored order.units⟩
    else ⟨0, order.units.map .output⟩
  | .error e =>
    let cycle := (a.links.graph.findCycle? (NameSet.ofList e.waiting)).getD []
    let count := toString e.waiting.length
    if m.json then
      ⟨1, [Answer.envelope .order
        (some (.object [("cycle", .strings cycle), ("placed", .strings e.placed),
          ("waiting", .strings e.waiting)]))
        (some ("circular dependency among " ++ count ++ " file(s)"))]⟩
    else
      ⟨1, Line.failure m.colored
          ("Circular dependency: " ++ count ++ " file(s) cannot be ordered") ::
        (if cycle.isEmpty then [] else [Line.cycle m.colored cycle]) ++
        Line.sectionTitle m.colored "Waiting" ++ e.waiting.map (fun u => .output ("  " ++ u)) ++
        (if e.placed.isEmpty then []
          else
            Line.sectionTitle m.colored "Ordered before the cycle" ++
              Line.order m.colored e.placed)⟩

/-- Names with the names that belong to each, as rows of a table. -/
def rowsOf (entries : List (String × NameSet)) : List (String × String) :=
  entries.map fun e => (e.1, String.intercalate ", " e.2.toList)

/-- The dependency graph with its numbers. -/
def graphReport (m : Manner) (a : Analysis) : Report :=
  let g := a.links.graph
  let links := a.links.stats
  if m.json then
    ⟨0, [Answer.success .graph <| .object [("graph", Answer.graph g),
      ("links", Answer.links links), ("stats", Answer.stats g)]]⟩
  else
    let numbers := ReportTable.metrics [
      ("Files", toString g.stats.units),
      ("Files with dependencies", toString g.stats.dependentUnits),
      ("Dependencies", toString g.stats.edges),
      ("Constants defined", toString a.symbols.size),
      ("References", toString links.total),
      ("Resolved to another file", toString links.resolved),
      ("Resolved locally", toString links.toSelf),
      ("External", toString links.external)]
    ⟨0, diagnosticLines m a ++ Line.sectionTitle m.colored "Dependency graph" ++
      numbers.lines.map .output ++
      if g.entries.isEmpty then [Line.success m.colored "No file depends on another"]
      else (ReportTable.dependencies (rowsOf g.entries)).lines.map .output⟩

/-- The constants that no file of the project defines. -/
def externalsReport (m : Manner) (a : Analysis) : Report :=
  let entries := a.links.externals.entries
  if m.json then ⟨0, [Answer.success .externals (Answer.namesOf entries)]⟩
  else if entries.isEmpty then
    ⟨0, [Line.success m.colored "Every referenced constant is defined in the project"]⟩
  else
    ⟨0, Line.sectionTitle m.colored
        ("🌍 External constants (" ++ toString entries.length ++ ")") ++
      (ReportTable.externals (rowsOf entries)).lines.map .output⟩

/-- Whether one more dependency would make a cycle. -/
def cycleReport (m : Manner) (a : Analysis) (dependent dependency : String) :
    Except CommandError Report := do
  let cyclic ← (a.wouldCreateCycle dependent dependency).mapError .unknownUnit
  let edge := dependent ++ " → " ++ dependency
  .ok <|
    if m.json then
      ⟨0, [Answer.success .cycle <| .object [("from", .string dependent),
        ("to", .string dependency), ("would_create_cycle", .bool cyclic)]]⟩
    else if cyclic then ⟨0, [Line.warning m.colored (edge ++ " would create a cycle")]⟩
    else ⟨0, [Line.success m.colored (edge ++ " is safe")]⟩

/-- What a command says about an analysis.  Commands that need none say nothing. -/
def report (m : Manner) (p : Project) (a : Analysis) : Command → Except CommandError Report
  | .order => .ok (orderReport m p a)
  | .graph => .ok (graphReport m a)
  | .externals => .ok (externalsReport m a)
  | .cycle dependent dependency => cycleReport m a dependent dependency
  | .init _ | .version => .ok ⟨0, []⟩

/-- Ends a command with an error. -/
def failed (m : Manner) (task : Task) (error : CommandError) (before : List Line)
    (store : FileStore) : Response :=
  let line :=
    if m.json then Answer.envelope task none (some error.message)
    else Line.failure m.colored error.message
  ⟨1, before ++ [line], store⟩

/-- Runs a command that analyses the project. -/
def Session.analyze (s : Session) (i : Invocation) : Response :=
  let m := s.manner i
  let fail (before : List Line) (e : CommandError) : Response :=
    failed m i.command.task e before s.store
  match s.project i with
  | .error e => fail [] e
  | .ok (config, project) =>
    let skipped := skippedLines m project
    match Analysis.ofUnits config.strict project.units with
    | .error e => fail skipped (.analysis e)
    | .ok a =>
      let before :=
        skipped ++ if m.decorated then summary m s.elapsed project.units.length a else []
      match report m project a i.command with
      | .error e => fail before e
      | .ok r => ⟨r.status, before ++ r.lines, s.store⟩

/-- Writes the usual settings. -/
def Session.writeConfig (s : Session) (i : Invocation) (force : Bool) : Response :=
  let m := s.manner i
  let path := i.config.getD (Path.join i.path Config.fileName)
  let config : Config := {}
  match config.write s.store path force with
  | .error e => failed m .init (.config e) [] s.store
  | .ok store =>
    let line :=
      if m.json then
        Answer.success .init (.object [("config", Answer.config config), ("path", .string path)])
      else Line.success m.colored ("Wrote " ++ path)
    ⟨0, [line], store⟩

/-- Says which version this is. -/
def Session.showVersion (s : Session) (i : Invocation) : Response :=
  let m := s.manner i
  let lines :=
    if m.json then
      [Answer.success .version (.object [("version", .string programVersion)])]
    else
      Line.banner m.colored (Style.info.paint m.colored (Style.bold "Buildorder"))
        ("Version " ++ Style.bold programVersion)
  ⟨0, lines, s.store⟩

/-- Runs a command. -/
def Session.invoke (s : Session) (i : Invocation) : Response :=
  match i.command with
  | .version => s.showVersion i
  | .init force => s.writeConfig i force
  | _ => s.analyze i

/-- How the program is used. -/
def usage : List String :=
  ["Static build ordering for Ruby sources", "", "Usage: buildorder [OPTIONS] <COMMAND>", "",
    "Commands:",
    "  order      Print the build order",
    "  graph      Show the file dependency graph and link statistics",
    "  externals  List constants referenced but defined by no analyzed file",
    "  cycle      Check whether a new dependency would introduce a cycle",
    "  init       Write a default buildorder.toml",
    "  version    Show version information", "",
    "Options:",
    "  -v, --verbose          Enable verbose logging",
    "      --json             Emit machine-readable JSON",
    "  -c, --config <CONFIG>  Path to the config file (defaults to <path>/buildorder.toml)",
    "  -p, --path <PATH>      Project root to analyze",
    "      --strict           Fail on syntax the scanner does not recognize"]

/-- Runs a command line. -/
def Session.run (s : Session) (args : List String) : Response :=
  match CommandLine.parse args with
  | .run i => s.invoke i
  | .showHelp => ⟨0, usage.map .output, s.store⟩
  | .showVersion => ⟨0, [.output ("buildorder " ++ programVersion)], s.store⟩
  | .refused => ⟨2, usage.map .message, s.store⟩

end LoadOrder
