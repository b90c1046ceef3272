import LoadOrder.Files.Path
import LoadOrder.Text.Utf8

/-!
# Files and directories

A `FileStore` is what stands below one directory, the top: each entry is known by its place, the
components of its path from the top, and no place has two entries.  Paths are followed segment by
segment, and each way that can go wrong has its cause.
-/

namespace LoadOrder

/-- Why the system refuses a request. -/
inductive SystemError where
  | notFound
  | notDirectory
  | isDirectory
  | brokenPipe
  /-- What a file holds is not text. -/
  | notText
  deriving DecidableEq, Repr

namespace SystemError

def message : SystemError → String
  | .notFound => "No such file or directory (os error 2)"
  | .notDirectory => "Not a directory (os error 20)"
  | .isDirectory => "Is a directory (os error 21)"
  | .brokenPipe => "Broken pipe (os error 32)"
  | .notText => "stream did not contain valid UTF-8"

end SystemError

/-- What a path can lead to. -/
inductive FileEntry where
  | file (bytes : List UInt8)
  | directory
  deriving DecidableEq, Inhabited

/-- The files and directories below the top. -/
structure FileStore where
  /-- The entries by their places, in no special order. -/
  entries : List (List String × FileEntry)
  distinct : (entries.map Prod.fst).Nodup

namespace FileStore

/-- The entry at a place, in a list of entries. -/
def lookupEntry (place : List String) : List (List String × FileEntry) → Option FileEntry
  | [] => none
  | (other, entry) :: rest => if other = place then some entry else lookupEntry place rest

/-- Sets the entry at a place, in a list of entries. -/
def setEntry (place : List String) (entry : FileEntry) :
    List (List String × FileEntry) → List (List String × FileEntry)
  | [] => [(place, entry)]
  | (other, old) :: rest =>
    if other = place then (place, entry) :: rest
    else (other, old) :: setEntry place entry rest

theorem places_setEntry (place : List String) (entry : FileEntry)
    (l : List (List String × FileEntry)) : (setEntry place entry l).map Prod.fst =
      if place ∈ l.map Prod.fst then l.map Prod.fst else l.map Prod.fst ++ [place] := by
  induction l with
  | nil => rfl
  | cons e rest ih =>
    obtain ⟨other, old⟩ := e
    by_cases h : other = place
    · simp [setEntry, h]
    · simp only [setEntry, if_neg h, List.map_cons, List.mem_cons, Ne.symm h, false_or, ih]
      split <;> rfl

theorem distinct_setEntry {place : List String} {entry : FileEntry}
    {l : List (List String × FileEntry)} (h : (l.map Prod.fst).Nodup) :
    ((setEntry place entry l).map Prod.fst).Nodup := by
  rw [places_setEntry]
  split
  · exact h
  · rename_i hnew
    refine List.nodup_append.mpr ⟨h, by simp, fun other hother p hp => ?_⟩
    rw [List.mem_singleton.mp hp]
    exact fun heq => hnew (heq ▸ hother)

theorem lookupEntry_setEntry (place target : List String) (entry : FileEntry)
    (l : List (List String × FileEntry)) : lookupEntry place (setEntry target entry l) =
      if target = place then some entry else lookupEntry place l := by
  induction l with
  | nil => rfl
  | cons e rest ih =>
    obtain ⟨other, old⟩ := e
    by_cases h : other = target
    · subst h
      by_cases hplace : other = place <;> simp [setEntry, lookupEntry, hplace]
    · by_cases hplace : target = place
      · subst hplace
        simpa [setEntry, lookupEntry, h] using ih
      · simp [setEntry, lookupEntry, h, hplace, ih]

def empty : FileStore := ⟨[], List.nodup_nil⟩

instance : EmptyCollection FileStore := ⟨empty⟩

instance : Inhabited FileStore := ⟨∅⟩

/-- The entry at a place; the top is a directory. -/
def entry? (store : FileStore) : List String → Option FileEntry
  | [] => some .directory
  | place => lookupEntry place store.entries

/-- Puts an entry at a place. -/
def put (store : FileStore) (place : List String) (entry : FileEntry) : FileStore :=
  ⟨setEntry place entry store.entries, distinct_setEntry store.distinct⟩

/-- Puts an entry at a place, and directories above it. -/
def add (store : FileStore) (path : String) (entry : FileEntry) : FileStore :=
  let place := Path.components path
  let above := (List.range place.length).map place.take
  ((above.filter (· ≠ [])).foldl (fun s p => s.put p .directory) store).put place entry

/-- Follows segments from a place.  An empty segment and a dot stay in a directory, and two dots
go back to the one above. -/
def follow (store : FileStore) (place : List String) (entry : FileEntry) :
    List String → Except SystemError (List String × FileEntry)
  | [] => .ok (place, entry)
  | segment :: rest =>
    match entry with
    | .file _ => .error .notDirectory
    | .directory =>
      if segment = "" ∨ segment = "." then store.follow place entry rest
      else if segment = ".." then
        if place = [] then .error .notFound else store.follow place.dropLast .directory rest
      else
        match store.entry? (place ++ [segment]) with
        | none => .error .notFound
        | some inner => store.follow (place ++ [segment]) inner rest

/-- Where a path leads.  Paths that start with a slash lead outside the store. -/
def find (store : FileStore) (path : String) : Except SystemError (List String × FileEntry) :=
  match Path.segments path with
  | "" :: _ => .error .notFound
  | segments => store.follow [] .directory segments

def contains (store : FileStore) (path : String) : Bool := (store.find path).isOk

/-- The place of a directory. -/
def directory? (store : FileStore) (path : String) : Option (List String) :=
  match store.find path with
  | .ok (place, .directory) => some place
  | _ => none

/-- The bytes of a file. -/
def read (store : FileStore) (path : String) : Except SystemError (List UInt8) := do
  match ← store.find path with
  | (_, .file bytes) => .ok bytes
  | (_, .directory) => .error .isDirectory

/-- The text of a file. -/
def readText (store : FileStore) (path : String) : Except SystemError String := do
  match Utf8.decode (← store.read path) with
  | .ok text => .ok text
  | .error _ => .error .notText

/-- The place that a path names for a file, which need not be there yet.  The directory above it
has to be there, and a slash at the end asks for a directory. -/
def target (store : FileStore) (path : String) : Except SystemError (List String) :=
  let segments := (Path.segments path).reverse
  match segments.dropWhile (· = "") with
  | [] => .error .notFound
  | name :: above =>
    if above.getLast? = some "" then .error .notFound
    else
      match store.follow [] .directory above.reverse with
      | .error fault => .error fault
      | .ok (_, .file _) => .error .notDirectory
      | .ok (place, .directory) =>
        if segments.head? = some "" ∨ name = "." ∨ name = ".." ∨
            store.entry? (place ++ [name]) = some .directory then .error .isDirectory
        else .ok (place ++ [name])

/-- Writes a file, in place of the one that was there. -/
def write (store : FileStore) (path : String) (bytes : List UInt8) :
    Except SystemError FileStore := do
  .ok (store.put (← store.target path) (.file bytes))

/-- The components of a place from a directory on, if the entry there is a file inside it. -/
def fileFrom? (root : List String) : List String × FileEntry → Option (List String)
  | (place, .file _) => if root.isPrefixOf place then some (place.drop root.length) else none
  | (_, .directory) => none

/-- The files inside a directory, at any depth, by their components from there. -/
def filesIn (store : FileStore) (root : List String) : List (List String) :=
  store.entries.filterMap (fileFrom? root)

end FileStore

end LoadOrder
