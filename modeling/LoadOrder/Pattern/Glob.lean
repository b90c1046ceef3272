import LoadOrder.Pattern.Regex

/-!
# Glob patterns for files

A pattern is matched against a whole path.  `?` is one character and `*` any number of them, but
neither crosses a slash; `**`, as a component of its own, is any number of components; `[..]` is one
character of a set and `[!..]` one outside it.
-/

namespace LoadOrder

/-- A slash as a symbol. -/
def slash : Nat := '/'.toNat

/-- All symbols but the slash. -/
def SymbolSet.noSlash : SymbolSet := ⟨true, [(slash, slash)]⟩

/-- What can be wrong with a pattern. -/
inductive GlobFault where
  /-- Three or more stars in a row. -/
  | stars
  /-- Two stars that are not a whole component. -/
  | partialComponent
  /-- A bracket that opens no set. -/
  | range
  deriving DecidableEq, Repr

/-- A fault and the position, counted in characters, that is reported for it. -/
structure GlobError where
  position : Nat
  fault : GlobFault
  deriving DecidableEq, Repr

namespace GlobError

def message (e : GlobError) : String :=
  let what :=
    match e.fault with
    | .stars => "wildcards are either regular `*` or recursive `**`"
    | .partialComponent => "recursive wildcards must form a single path component"
    | .range => "invalid range pattern"
  "Pattern syntax error near position " ++ toString e.position ++ ": " ++ what

end GlobError

/-- A piece of a pattern. -/
inductive GlobPart where
  | literal (c : Char)
  | anyChar
  | anyChars
  /-- Any number of components. -/
  | anyComponents
  | oneOf (set : SymbolSet)
  deriving DecidableEq, Repr

namespace GlobPart

/-- The ranges that the text between brackets stands for: `a-z` is a range, all else itself. -/
def rangesOf : List Char → List (Nat × Nat)
  | a :: '-' :: b :: rest => (a.toNat, b.toNat) :: rangesOf rest
  | a :: rest => (a.toNat, a.toNat) :: rangesOf rest
  | [] => []

/-- A range without the slash. -/
def cutSlash : Nat × Nat → List (Nat × Nat)
  | (low, high) =>
    if low ≤ slash ∧ slash ≤ high then [(low, slash - 1), (slash + 1, high)] else [(low, high)]

/-- The set that the text between brackets stands for.  No set contains the slash. -/
def setOf (negated : Bool) (text : List Char) : SymbolSet :=
  if negated then ⟨true, (slash, slash) :: rangesOf text⟩
  else ⟨false, (rangesOf text).flatMap cutSlash⟩

/-- Reads what stands in brackets, of which the first character is never the end. -/
def bracketed? : List Char → Option (List Char × List Char)
  | [] => none
  | first :: rest =>
    if ']' ∈ rest then
      some (first :: rest.takeWhile (· ≠ ']'), (rest.dropWhile (· ≠ ']')).drop 1)
    else none

/-- Reads a set after its bracket. -/
def set? : List Char → Option (SymbolSet × List Char)
  | '!' :: rest => (bracketed? rest).map fun (text, rest) => (setOf true text, rest)
  | rest => (bracketed? rest).map fun (text, rest) => (setOf false text, rest)

/-- The pieces of a pattern from a position on; `start` says that a component starts there. -/
def ofChars (position : Nat) (start : Bool) (cs : List Char) :
    Except GlobError (List GlobPart) :=
  match cs with
  | [] => .ok []
  | '?' :: rest => (ofChars (position + 1) false rest).map (.anyChar :: ·)
  | '*' :: '*' :: '*' :: _ => .error ⟨position + 2, .stars⟩
  | '*' :: '*' :: rest =>
    if !start then .error ⟨position - 1, .partialComponent⟩
    else
      match rest with
      | [] => .ok [.anyComponents]
      | '/' :: rest => (ofChars (position + 3) true rest).map (.anyComponents :: ·)
      | _ => .error ⟨position + 2, .partialComponent⟩
  | '*' :: rest => (ofChars (position + 1) false rest).map (.anyChars :: ·)
  | '[' :: rest =>
    match set? rest with
    | none => .error ⟨position, .range⟩
    | some (set, rest') =>
      if rest'.length ≤ rest.length then
        (ofChars (position + 1 + (rest.length - rest'.length)) false rest').map (.oneOf set :: ·)
      else .error ⟨position, .range⟩
  | c :: rest => (ofChars (position + 1) (c = '/') rest).map (.literal c :: ·)
termination_by cs.length

/-- The expression for some pieces.  Components that nothing else has to follow may also match a
path to its end. -/
def regex : List GlobPart → Regex
  | [] => .empty
  | .literal c :: rest => .seq (.ofSymbol c.toNat) (regex rest)
  | .anyChar :: rest => .seq (.symbol .noSlash) (regex rest)
  | .anyChars :: rest => .seq (.many .noSlash) (regex rest)
  | .oneOf set :: rest => .seq (.symbol set) (regex rest)
  | .anyComponents :: rest =>
    let after := regex rest
    .alt (.seq (.alt .empty (.seq .anything (.ofSymbol slash))) after)
      (if after.nullable then .anything else .never)

end GlobPart

/-- A pattern for paths. -/
structure Glob where
  regex : Regex
  deriving DecidableEq, Repr

namespace Glob

/-- Reads a pattern. -/
def parse (text : String) : Except GlobError Glob :=
  (GlobPart.ofChars 0 true text.toList).map fun parts => ⟨GlobPart.regex parts⟩

/-- Whether a path matches. -/
def test (g : Glob) (path : String) : Bool := g.regex.test (path.toList.map Char.toNat)

end Glob

end LoadOrder
