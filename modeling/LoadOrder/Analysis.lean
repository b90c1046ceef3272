import LoadOrder.Scan.Pool
import LoadOrder.Link
import LoadOrder.Graph.Reach
import LoadOrder.Graph.Cycle
import LoadOrder.Graph.Order

/-!
# Analysing a project

All files are scanned, their definitions are put into one symbol table in the order of the files,
and then their references are linked.
-/

namespace LoadOrder

/-- A file that is asked about is not in the project. -/
structure UnitNotFound where
  unit : String
  deriving DecidableEq

namespace UnitNotFound

def message (e : UnitNotFound) : String := "Unit not found: " ++ e.unit

end UnitNotFound

/-- What is known about a project. -/
structure Analysis where
  /-- The findings of each file, in the order of the files. -/
  scans : List (String × Findings)
  symbols : SymbolTable
  links : Links

namespace Analysis

/-- The analysis of files that have been scanned. -/
def ofScans (scans : List (String × Findings)) : Analysis :=
  let symbols : SymbolTable := scans.foldl (fun t s => t.addUnit s.1 s.2.definitions) ∅
  { scans := scans
    symbols := symbols
    links := Links.ofUnits symbols (scans.map fun s => (s.1, s.2.references)) }

/-- The analysis of some files whose results arrive in some order. -/
def ofArrivals (units : List SourceUnit) (arrivals : List Arrival) :
    Except AnalysisError Analysis := do
  let found ← Arrival.gather units arrivals
  .ok (ofScans ((units.map SourceUnit.id).zip found))

/-- The analysis of some files. -/
def ofUnits (strict : Bool) (units : List SourceUnit) : Except AnalysisError Analysis :=
  ofArrivals units (Arrival.inTurn strict units)

/-- What is said during the analysis of some files. -/
def progress (strict : Bool) (units : List SourceUnit) : List Progress :=
  Arrival.progress units (Arrival.inTurn strict units) ++
    match ofUnits strict units with
    | .ok _ => [.started .linking units.length, .finished .linking]
    | .error _ => []

variable (a : Analysis)

/-- The files of the project in order of their dependencies. -/
def buildOrder : Except CircularDependency BuildOrder := a.links.graph.order

/-- The findings of a file. -/
def scan? (unit : String) : Option Findings := (a.scans.find? (·.1 = unit)).map Prod.snd

/-- The diagnostics of the scans, and then those of the symbol table. -/
def diagnostics : List Diagnostic :=
  a.scans.flatMap (·.2.diagnostics) ++ a.symbols.diagnostics

/-- Would there be a cycle if one file of the project depended on another? -/
def wouldCreateCycle (dependent dependency : String) : Except UnitNotFound Bool :=
  if dependent ∉ a.links.graph.units then .error ⟨dependent⟩
  else if dependency ∉ a.links.graph.units then .error ⟨dependency⟩
  else .ok (a.links.graph.wouldCreateCycle dependent dependency)

end Analysis

end LoadOrder
