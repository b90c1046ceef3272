import LoadOrder.Pattern.Glob
import LoadOrder.Text.Utf8

/-!
# Patterns in ignore files

The patterns of ignore files are matched against the bytes of a path.  Besides `?`, `*`, `**` and
sets in brackets they have alternatives in braces, which may be nested, and a backslash that takes
the character after it as it is.
-/

namespace LoadOrder

/-- A piece of a pattern in an ignore file. -/
inductive IgnorePart where
  | literal (c : Char)
  | anyByte
  | anyBytes
  /-- `**/` at the start: any number of components before what follows. -/
  | leading
  /-- `/**/`: any number of components between what stands on its sides. -/
  | between
  /-- `/**` at the end: everything inside a directory. -/
  | inside
  | oneOf (set : SymbolSet)
  /-- Alternatives; none of them if all are empty. -/
  | choice (r : Option Regex)
  deriving DecidableEq, Repr

namespace IgnorePart

/-- The expression for one slash. -/
def divider : Regex := .ofSymbol slash

def bytes (c : Char) : List Nat := (Utf8.encodeChar c).map UInt8.toNat

/-- The expression for a piece; none if the piece stands for nothing at all. -/
def regex? : IgnorePart → Option Regex
  | .literal c => some (.sequence ((bytes c).map .ofSymbol))
  | .anyByte => some (.symbol .noSlash)
  | .anyBytes => some (.many .noSlash)
  | .leading => some (.alt (.alt .empty divider) (.seq .anything divider))
  | .between => some (.alt divider (.seq divider (.seq .anything divider)))
  | .inside => some (.seq divider .anything)
  | .oneOf set => some (.symbol set)
  | .choice r => r

/-- The expression for some pieces; none if they stand for nothing at all. -/
def sequence? (parts : List IgnorePart) : Option Regex :=
  match parts.filterMap regex? with
  | [] => none
  | l => some (.sequence l)

/-- The expression for one of some alternatives, of which empty ones do not count. -/
def choiceOf (branches : List (List IgnorePart)) : IgnorePart :=
  match branches.filterMap sequence? with
  | [] => .choice none
  | first :: rest => .choice (some (rest.foldl .alt first))

/-- The bytes that a range of characters stands for.  Between characters of several bytes, the range
runs from the last byte of the one to the first byte of the other. -/
def byteRanges : Char × Char → List (Nat × Nat)
  | (low, high) =>
    let alone (b : Nat) := (b, b)
    if low = high then (bytes low).map alone
    else
      (bytes low).dropLast.map alone ++
        [((bytes low).getLast?.getD 0, (bytes high).head?.getD 0)] ++
        ((bytes high).drop 1).map alone

/-- What came of reading a set in brackets. -/
inductive SetResult where
  | closed (set : SymbolSet) (rest : List Char)
  | unclosed
  /-- A range goes down. -/
  | invalid

/-- Reads the characters of a set.  The first one is taken as it is; a dash between two others makes
a range, the last one being extended if it is one already. -/
def setItems (negated first dash : Bool) (ranges : List (Char × Char)) : List Char → SetResult
  | [] => .unclosed
  | c :: rest =>
    if c = ']' ∧ !first then
      let ranges := if dash then ('-', '-') :: ranges else ranges
      .closed ⟨negated, ranges.flatMap byteRanges⟩ rest
    else if c = '-' ∧ !first ∧ !dash then setItems negated false true ranges rest
    else
      match dash, ranges with
      | true, (low, _) :: others =>
        if c < low then .invalid else setItems negated false false ((low, c) :: others) rest
      | _, _ => setItems negated false false ((c, c) :: ranges) rest

/-- Reads a set after its bracket. -/
def set (cs : List Char) : SetResult :=
  match cs with
  | '!' :: rest | '^' :: rest => setItems true true false [] rest
  | _ => setItems false true false [] cs

/-- Braces that are open: the pieces before them, the last one first, and the alternatives that are
complete. -/
structure Braces where
  before : List IgnorePart
  branches : List (List IgnorePart)

/-- Reads two stars, which stand after the character `previous` and the pieces `parts`, the last one
first.  They count as such where they make a whole component; elsewhere they are single stars.
Gives the pieces, the last character that was read, and the rest. -/
def doubleStar (previous : Option Char) (inBraces : Bool) (parts : List IgnorePart)
    (rest : List Char) : List IgnorePart × Char × List Char :=
  let single := (.anyBytes :: .anyBytes :: parts, '*', rest)
  match parts with
  | [] =>
    match rest with
    | [] => ([.leading], '*', [])
    | '/' :: rest => ([.leading], '/', rest)
    | _ => single
  | last :: others =>
    let instead (part : IgnorePart) :=
      if last = .leading ∨ last = .inside then parts else part :: others
    if previous ≠ some '/' ∧ !(inBraces ∧ (previous = some ',' ∨ previous = some '\x7b')) then
      single
    else
      match rest with
      | [] => (instead .inside, '*', [])
      | c :: more =>
        if c = '/' then (instead .between, '/', more)
        else if inBraces ∧ (c = ',' ∨ c = '\x7d') then (instead .inside, '*', rest)
        else single

/-- Reads a pattern: `literal` says that brackets have lost their meaning, because one was not
closed, `parts` are the pieces of the present alternative, the last one first, and `braces` the
open braces, the innermost first. -/
def ofChars (literal : Bool) (previous : Option Char) (parts : List IgnorePart)
    (braces : List Braces) (cs : List Char) : Option (List IgnorePart) :=
  match cs with
  | [] => if braces.isEmpty then some parts.reverse else none
  | '?' :: rest => ofChars literal (some '?') (.anyByte :: parts) braces rest
  | '*' :: '*' :: rest =>
    let (parts, c, rest') := doubleStar previous (!braces.isEmpty) parts rest
    if rest'.length ≤ rest.length then ofChars literal (some c) parts braces rest' else none
  | '*' :: rest => ofChars literal (some '*') (.anyBytes :: parts) braces rest
  | '[' :: rest =>
    if literal then ofChars literal (some '[') (.literal '[' :: parts) braces rest
    else
      match set rest with
      | .invalid => none
      | .unclosed => ofChars true (some '[') (.literal '[' :: parts) braces rest
      | .closed set rest' =>
        if rest'.length ≤ rest.length then
          ofChars literal (some ']') (.oneOf set :: parts) braces rest'
        else none
  | '\x7b' :: rest => ofChars literal (some '\x7b') [] (⟨parts, []⟩ :: braces) rest
  | '\x7d' :: rest =>
    match braces with
    | [] => none
    | inner :: outer =>
      let choice := choiceOf (parts.reverse :: inner.branches).reverse
      ofChars literal (some '\x7d') (choice :: inner.before) outer rest
  | ',' :: rest =>
    match braces with
    | [] => ofChars literal (some ',') (.literal ',' :: parts) braces rest
    | inner :: outer =>
      let inner := { inner with branches := parts.reverse :: inner.branches }
      ofChars literal (some ',') [] (inner :: outer) rest
  | ['\\'] => none
  | '\\' :: c :: rest => ofChars literal (some c) (.literal c :: parts) braces rest
  | c :: rest => ofChars literal (some c) (.literal c :: parts) braces rest
termination_by cs.length

/-- The expression for a whole pattern; none if the pattern is not valid. -/
def parse? (pattern : List Char) : Option Regex :=
  (ofChars false none [] [] pattern).map fun parts =>
    if parts = [.leading] then .anything else (sequence? parts).getD .empty

end IgnorePart

end LoadOrder
