import LoadOrder.Scan.Walk

/-!
# Scanning many files

Files are scanned independently of each other, and their results may arrive in any order.  Every
arrival says which file it belongs to; it is filed at that file's place, and when all have arrived
the results are in the order of the files.  If some scans fail, the first file of the input whose
scan failed decides.
-/

namespace LoadOrder

/-- A file with its syntax tree. -/
structure SourceUnit where
  id : String
  root : Node

/-- The stages of an analysis. -/
inductive Phase where
  | scanning
  | linking
  deriving DecidableEq, Repr

/-- What is said about an analysis while it goes on. -/
inductive Progress where
  | started (phase : Phase) (total : Nat)
  /-- The `current`-th file to be finished is `unit`. -/
  | advanced (phase : Phase) (current : Nat) (unit : String)
  | finished (phase : Phase)
  deriving DecidableEq, Repr

/-- Why there is no analysis. -/
inductive AnalysisError where
  | unrecognized (node : UnrecognizedNode)
  /-- No result arrived for a file. -/
  | lost (unit : String)
  deriving DecidableEq

namespace AnalysisError

def message : AnalysisError → String
  | .unrecognized node => node.message
  | .lost unit => "Scan worker failed: no scan result for " ++ unit

end AnalysisError

namespace SourceUnit

/-- Scans a file. -/
def scan (strict : Bool) (u : SourceUnit) : ScanOutcome := (Scanner.mk u.id strict).scan u.root

end SourceUnit

/-- The result of one scan, on its way. -/
structure Arrival where
  /-- The place of the file in the input. -/
  index : Nat
  unit : String
  outcome : ScanOutcome

namespace Arrival

/-- Files an arrival at its place. -/
def file (slots : List (Option ScanOutcome)) (a : Arrival) : List (Option ScanOutcome) :=
  slots.set a.index (some a.outcome)

/-- The results in the order of the files, or the first failure in that order. -/
def collect : List (Option ScanOutcome × SourceUnit) → Except AnalysisError (List Findings)
  | [] => .ok []
  | (some (.ok found), _) :: rest => (collect rest).map (found :: ·)
  | (some (.error node), _) :: _ => .error (.unrecognized node)
  | (none, u) :: _ => .error (.lost u.id)

/-- The results of some files, from arrivals in any order. -/
def gather (units : List SourceUnit) (arrivals : List Arrival) :
    Except AnalysisError (List Findings) :=
  collect ((arrivals.foldl file (units.map fun _ => none)).zip units)

/-- What is said while the arrivals come in. -/
def progress (units : List SourceUnit) (arrivals : List Arrival) : List Progress :=
  .started .scanning units.length ::
    (arrivals.zipIdx.map fun a => .advanced .scanning (a.2 + 1) a.1.unit) ++
    [.finished .scanning]

/-- The arrivals when the files are scanned one after the other. -/
def inTurn (strict : Bool) (units : List SourceUnit) : List Arrival :=
  units.zipIdx.map fun u => ⟨u.2, u.1.id, u.1.scan strict⟩

end Arrival

end LoadOrder
