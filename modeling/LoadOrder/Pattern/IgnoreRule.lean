import LoadOrder.Pattern.IgnoreGlob
import LoadOrder.Files.Path
import LoadOrder.Text.Blank

/-!
# Ignore rules

A line of an ignore file is a rule: paths that match its pattern are ignored or, after an
exclamation mark, kept.  A pattern with a slash that is not at its end is matched from the directory
of the file, any other one at every depth; a slash at the end restricts it to directories.
-/

namespace LoadOrder

/-- What a rule says about the paths that match it. -/
inductive Verdict where
  | ignore
  | keep
  deriving DecidableEq, Repr

/-- A rule of an ignore file. -/
structure IgnoreRule where
  regex : Regex
  verdict : Verdict
  /-- Whether the rule is about directories only. -/
  directories : Bool
  deriving DecidableEq, Repr

namespace IgnoreRule

/-- The line without the white space at its end, which a backslash protects. -/
def trimLine (line : List Char) : List Char :=
  if ['\\', ' '].isSuffixOf line then line else trimEnd line

/-- The verdict of a line, whether its pattern is bound to the directory of the file by a slash at
its start, and the pattern without both. -/
def opening : List Char → Verdict × Bool × List Char
  | '\\' :: '!' :: rest => (.ignore, false, '!' :: rest)
  | '\\' :: '#' :: rest => (.ignore, false, '#' :: rest)
  | '!' :: '/' :: rest => (.keep, true, rest)
  | '!' :: rest => (.keep, false, rest)
  | '/' :: rest => (.ignore, true, rest)
  | line => (.ignore, false, line)

/-- Whether a pattern has a slash at its end, and the pattern without it. -/
def ending (pattern : List Char) : Bool × List Char :=
  match pattern.reverse with
  | '/' :: '\\' :: rest => (true, rest.reverse)
  | '/' :: rest => (true, rest.reverse)
  | _ => (false, pattern)

/-- The pattern for whole paths: it starts with `**/` if it may match at every depth, and what only
matches the inside of a directory does not match the directory. -/
def wholePattern (bound : Bool) (pattern : List Char) : List Char :=
  let pattern :=
    if bound || '/' ∈ pattern || pattern = ['*', '*'] then pattern
    else '*' :: '*' :: '/' :: pattern
  if ['/', '*', '*'].isSuffixOf pattern then pattern ++ ['/', '*'] else pattern

/-- The rule of a line; none if the line is empty, a comment or not valid. -/
def parse? (line : List Char) : Option IgnoreRule :=
  if line.head? = some '#' then none
  else
    let line := trimLine line
    if line.isEmpty then none
    else
      let (verdict, bound, pattern) := opening line
      let (directories, pattern) := ending pattern
      (IgnorePart.parse? (wholePattern bound pattern)).map fun regex =>
        ⟨regex, verdict, directories⟩

/-- Whether a rule is about a path, given by its components. -/
def applies (rule : IgnoreRule) (path : List String) (directory : Bool) : Bool :=
  (directory || !rule.directories) &&
    rule.regex.test ((Path.ofComponents path).toList.flatMap IgnorePart.bytes)

end IgnoreRule

/-- Rules, of which the last one that is about a path decides. -/
abbrev IgnoreRules := List IgnoreRule

namespace IgnoreRules

/-- What the rules say about a path; none if no rule is about it. -/
def verdict? (rules : IgnoreRules) (path : List String) (directory : Bool) : Option Verdict :=
  (rules.reverse.find? fun rule => rule.applies path directory).map IgnoreRule.verdict

/-- What the rules say about a path or else about the nearest directory above it.  The components
are given from the last one back. -/
def nearest? (rules : IgnoreRules) : List String → Bool → Option Verdict
  | [], directory => rules.verdict? [] directory
  | name :: above, directory =>
    (rules.verdict? (name :: above).reverse directory).or (rules.nearest? above true)

/-- Whether the rules leave out a path, itself or because of a directory above it. -/
def ignores (rules : IgnoreRules) (path : List String) (directory : Bool) : Bool :=
  rules.nearest? path.reverse directory = some .ignore

/-- The lines of a file.  A carriage return before the end of a line does not belong to it. -/
def lines : List UInt8 → List (List UInt8)
  | [] => [[]]
  | b :: rest =>
    if b = 10 then [] :: lines rest
    else if b = 13 ∧ rest.head? = some 10 then lines rest
    else
      match lines rest with
      | [] => [[b]]
      | line :: others => (b :: line) :: others

/-- Texts up to the first line that is none. -/
def texts : List (List UInt8) → List (List Char)
  | [] => []
  | line :: rest =>
    match Utf8.decode line with
    | .ok text => text.toList :: texts rest
    | .error _ => []

/-- The rules in a file, which a mark of the byte order may precede. -/
def ofBytes (bytes : List UInt8) : IgnoreRules :=
  match texts (lines bytes) with
  | [] => []
  | first :: rest => (first.dropWhile (· = '\ufeff') :: rest).filterMap IgnoreRule.parse?

/-- The rules in lines of text. -/
def ofLines (lines : List String) : IgnoreRules :=
  lines.filterMap fun line => IgnoreRule.parse? line.toList

end IgnoreRules

end LoadOrder
