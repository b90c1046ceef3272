import LoadOrder.Dump.Decode
import LoadOrder.Files.Store
import LoadOrder.Text.Blank

/-!
# Dumps made by a Ruby interpreter

An interpreter is given a script that reads a source text and prints its dump as JSON.  What the
interpreters do is given from outside, as a function.
-/

namespace LoadOrder

/-- What came of running a program. -/
inductive RunOutcome where
  | notStarted (fault : SystemError)
  /-- The program ended; `unsent` is set if it did not take its whole input. -/
  | ended (unsent : Option SystemError) (status : Nat) (output : List UInt8) (complaint : String)

/-- The programs that can be run: what comes of a name, arguments and an input. -/
abbrev Programs := String → List String → String → RunOutcome

/-- No program can be run. -/
def Programs.none : Programs := fun _ _ _ => .notStarted .notFound

/-- Why an interpreter gave no dump of a file. -/
inductive InterpreterFault where
  | notStarted (fault : SystemError)
  | unsent (fault : SystemError) (complaint : String)
  | failed (status : Nat) (complaint : String)
  | notText (fault : Utf8.Fault)
  deriving DecidableEq, Repr

namespace InterpreterFault

/-- The fault in words, for a file and the interpreter that was run on it. -/
def message (file interpreter : String) : InterpreterFault → String
  | .notStarted fault => "failed to run `" ++ interpreter ++ "`: " ++ fault.message
  | .unsent fault complaint =>
    file ++ ": failed to send source to `" ++ interpreter ++ "`: " ++ fault.message ++ ": " ++
      trim complaint
  | .failed status complaint =>
    file ++ ": `" ++ interpreter ++ "` exited with exit status: " ++ toString status ++ ": " ++
      trim complaint
  | .notText fault => file ++ ": non UTF-8 AST dump: " ++ fault.message

end InterpreterFault

/-- The arguments that make an interpreter print a dump.  The dump may be nested to any depth. -/
def dumpArguments : List String :=
  ["-rripper", "-rjson", "-e",
    "print JSON.generate(Ripper.sexp(STDIN.read), max_nesting: false)"]

/-- The text that an interpreter prints for a source text. -/
def interpret (programs : Programs) (interpreter source : String) :
    Except InterpreterFault String :=
  match programs interpreter dumpArguments source with
  | .notStarted fault => .error (.notStarted fault)
  | .ended (some fault) _ _ complaint => .error (.unsent fault complaint)
  | .ended none (status + 1) _ complaint => .error (.failed (status + 1) complaint)
  | .ended none 0 output _ =>
    match Utf8.decode output with
    | .ok text => .ok text
    | .error fault => .error (.notText fault)

end LoadOrder
