import LoadOrder.Command.Run

/-!
# The command line

Takes a snapshot of the present directory, runs the command on it, prints what the command says and
writes the files that it changed.  No interpreter is started from here, so the sources that count
are those that have been dumped before.
-/

namespace LoadOrder

/-- Adds what stands in a directory to a store, under the components of its path.  What cannot be
read is left out. -/
partial def addDirectory (store : FileStore) (components : List String) : IO FileStore := do
  try
    let here ← IO.FS.realPath (Path.ofComponents ("." :: components))
    let mut store := store
    for entry in ← here.readDir do
      let inner := components ++ [entry.fileName]
      let path := Path.ofComponents inner
      if ← entry.path.isDir then
        store ← addDirectory (store.add path .directory) inner
      else
        match ← (IO.FS.readBinFile path).toBaseIO with
        | .ok bytes => store := store.add path (.file bytes.toList)
        | .error _ => pure ()
    return store
  catch _ => return store

/-- Prints a line on its channel. -/
def Line.print : Line → IO Unit
  | .output text => IO.println text
  | .message text => IO.eprintln text

/-- Writes the files of a store that are not the same in another one. -/
def writeChanges (old new : FileStore) : IO Unit :=
  for (place, entry) in new.entries do
    match entry with
    | .file bytes =>
      if old.entry? place ≠ some entry then
        IO.FS.writeBinFile (Path.ofComponents place) ⟨bytes.toArray⟩
    | .directory => pure ()

end LoadOrder

open LoadOrder in
def main (args : List String) : IO UInt32 := do
  let started ← IO.monoMsNow
  let store ← addDirectory ∅ []
  let quiet := ((← IO.getEnv "BUILDORDER_QUIET").map asksForQuiet).getD false
  let colored ← (← IO.getStdout).isTty
  let seconds := ((← IO.monoMsNow) - started) / 1000
  let elapsed := toString seconds ++ if seconds = 1 then " second" else " seconds"
  let response := Session.run ⟨store, Programs.none, quiet, colored, elapsed⟩ args
  writeChanges store response.store
  for line in response.lines do
    line.print
  return response.status.toUInt32
