import LoadOrder.Toml.Scalar

/-!
# Reading TOML

A document is a list of lines: keys with values, headers of tables, comments and empty lines.
Arrays and tables in braces may be nested to a certain depth, and keys may have a certain number of
parts.
-/

namespace LoadOrder.Toml

/-- The greatest depth to which values may be nested. -/
def nestingLimit : Nat := 79

/-- The greatest number of parts of a key. -/
def keyLimit : Nat := 79

def skipSpace (cs : List Char) : List Char := cs.dropWhile isSpace

/-- Whether a character may stand in a key without quotes. -/
def isBare (c : Char) : Bool := c.isAlphanum || c = '-' || c = '_'

/-- Drops a comment from the start. -/
def skipComment : List Char → List Char
  | '#' :: rest => rest.dropWhile isText
  | cs => cs

/-- Reads the end of a line, which is also the end of the text. -/
def lineEnd? : List Char → Option (List Char)
  | [] => some []
  | '\n' :: rest => some rest
  | '\r' :: '\n' :: rest => some rest
  | _ => none

/-- Reads what may stand after a value or a header: white space, a comment, the end of the line. -/
def lineTail? (cs : List Char) : Option (List Char) := lineEnd? (skipComment (skipSpace cs))

/-- Drops white space, comments and ends of lines; `comment` says whether a comment has begun. -/
def skipFiller (comment : Bool) : List Char → List Char
  | [] => []
  | c :: rest =>
    if c = '\n' then skipFiller false rest
    else if c = '\r' ∧ rest.head? = some '\n' then skipFiller comment rest
    else if comment then if isText c then skipFiller true rest else c :: rest
    else if isSpace c then skipFiller false rest
    else if c = '#' then skipFiller true rest
    else c :: rest

/-! ### Keys -/

/-- Reads one part of a key. -/
def keyPart? (cs : List Char) : Option (String × List Char) :=
  let inQuotes (style : QuoteStyle) (rest : List Char) : Option (String × List Char) :=
    (style.body .plain rest).map fun (text, rest) => (String.ofList text, rest)
  match cs with
  | '"' :: rest => inQuotes .basic rest
  | '\'' :: rest => inQuotes .literal rest
  | _ =>
    let bare := cs.takeWhile isBare
    if bare.isEmpty then none else some (String.ofList bare, cs.dropWhile isBare)

/-- Reads the parts of a key, with the white space around them. -/
def keyParts? (cs : List Char) : Option (List String × List Char) :=
  match keyPart? (skipSpace cs) with
  | none => none
  | some (part, rest) =>
    match skipSpace rest with
    | '.' :: rest =>
      if rest.length < cs.length then
        (keyParts? rest).map fun (parts, rest) => (part :: parts, rest)
      else none
    | rest => some ([part], rest)
termination_by cs.length

/-- Reads a key: the parts before the last one, and the last one. -/
def key? (cs : List Char) : Option ((List String × String) × List Char) := do
  let (parts, rest) ← keyParts? cs
  if keyLimit < parts.length then none
  some ((parts.dropLast, ← parts.getLast?), rest)

/-! ### Values -/

/-- Reads the values of an array after its bracket, with `item` for one of them. -/
def items? (item : List Char → Option (Value × List Char)) (cs : List Char) :
    Option (List Value × List Char) :=
  match skipFiller false cs with
  | ']' :: rest => some ([], rest)
  | cs' =>
    match item cs' with
    | none => none
    | some (value, rest) =>
      match skipFiller false rest with
      | ']' :: rest => some ([value], rest)
      | ',' :: rest =>
        if rest.length < cs.length then
          (items? item rest).map fun (values, rest) => (value :: values, rest)
        else none
      | _ => none
termination_by cs.length

/-- Reads a key with its value, with `item` for the value. -/
def keyValue? (item : List Char → Option (Value × List Char)) (cs : List Char) :
    Option ((List String × String × Value) × List Char) := do
  let ((path, key), rest) ← key? cs
  let rest ← mark? '=' rest
  let (value, rest) ← item (skipSpace rest)
  some ((path, key, value), rest)

/-- Reads the entries of a table in braces after the first of them or a comma. -/
def entries? (item : List Char → Option (Value × List Char)) (table : Table) (cs : List Char) :
    Option (Table × List Char) :=
  match keyValue? item cs with
  | none => none
  | some ((path, key, value), rest) =>
    match table.insert path key value with
    | none => none
    | some table =>
      match skipSpace rest with
      | '}' :: rest => some (table, rest)
      | ',' :: rest => if rest.length < cs.length then entries? item table rest else none
      | _ => none
termination_by cs.length

/-- Reads a value in which values may be nested to a depth. -/
def value? : Nat → List Char → Option (Value × List Char)
  | depth, cs =>
    match cs with
    | [] => none
    | c :: rest =>
      if c = '"' ∨ c = '\'' then (quoted? cs).map fun (text, rest) => (.string text, rest)
      else if c = '[' then
        match depth with
        | 0 => none
        | depth + 1 => (items? (value? depth) rest).map fun (values, rest) => (.array values, rest)
      else if c = '{' then
        match depth with
        | 0 => none
        | depth + 1 =>
          match skipSpace rest with
          | '}' :: rest => some (.table .inline [], rest)
          | rest =>
            (entries? (value? depth) ⟨.inline, []⟩ rest).map fun (table, rest) =>
              (table.toValue, rest)
      else
        match cs with
        | 't' :: 'r' :: 'u' :: 'e' :: rest => some (.boolean true, rest)
        | 'f' :: 'a' :: 'l' :: 's' :: 'e' :: rest => some (.boolean false, rest)
        | _ => (moment? cs).or (number? cs)

/-! ### Documents -/

/-- A header: its path, and whether it stands in double brackets. -/
structure Header where
  path : List String
  key : String
  element : Bool

/-- What has been read of a document. -/
structure Document where
  /-- The document without the table that is being filled. -/
  root : Table
  /-- The header of the table that is being filled; none at the start. -/
  header : Option Header
  /-- The table that is being filled. -/
  current : Table

namespace Document

def empty : Document := ⟨⟨.header, []⟩, none, ⟨.header, []⟩⟩

/-- The document with the table that was being filled put in its place. -/
def close (d : Document) : Option Table :=
  match d.header with
  | none => some d.current
  | some header =>
    Table.alterAt .implied (fun t =>
      if header.element then
        match t.get? header.key with
        | some (.tables elements) =>
          some (t.set header.key (.tables (elements ++ [d.current.entries])))
        | some _ => none
        | none => some (t.set header.key (.tables [d.current.entries]))
      else some (t.set header.key d.current.toValue)) header.path d.root

/-- The table that a header opens: a new one, or one that was only implied so far. -/
def opened (header : Header) (t : Table) : Option Table :=
  if header.element then
    match t.get? header.key with
    | none | some (.tables _) => some ⟨.header, []⟩
    | some _ => none
  else
    match t.get? header.key with
    | none => some ⟨.header, []⟩
    | some (.table .implied entries) => some ⟨.header, entries⟩
    | some _ => none

/-- The table at the end of a path, as the headers inside it see it. -/
def tableAt : List String → Table → Option Table
  | [], t => some t
  | key :: path, t =>
    match t.get? key with
    | none => some ⟨.implied, []⟩
    | some (.table origin entries) =>
      if origin = .inline then none else tableAt path ⟨origin, entries⟩
    | some (.tables elements) =>
      match elements.getLast? with
      | none => none
      | some last => tableAt path ⟨.header, last⟩
    | some _ => none

/-- The document after a header. -/
def openTable (d : Document) (header : Header) : Option Document := do
  let root ← d.close
  let above ← tableAt header.path root
  some ⟨root, some header, ← opened header above⟩

/-- Reads a header after its first bracket, or after its second. -/
def header? (element : Bool) (cs : List Char) : Option (Header × List Char) := do
  let ((path, key), rest) ← key? cs
  let rest ← mark? ']' rest
  let rest ← if element then mark? ']' rest else some rest
  some (⟨path, key, element⟩, rest)

/-- Reads one line that does not start with white space. -/
def line? (d : Document) : List Char → Option (Document × List Char)
  | '[' :: '[' :: rest => do
    let (header, rest) ← header? true rest
    some (← d.openTable header, ← lineTail? rest)
  | '[' :: rest => do
    let (header, rest) ← header? false rest
    some (← d.openTable header, ← lineTail? rest)
  | cs => do
    if cs.head? = some '#' ∨ cs.head? = some '\n' ∨ cs.head? = some '\r' then
      some (d, ← lineTail? cs)
    else
      let ((path, key, value), rest) ← keyValue? (value? nestingLimit) cs
      some ({ d with current := ← d.current.insert path key value }, ← lineTail? rest)

/-- Reads the lines of a document. -/
def lines? (d : Document) (cs : List Char) : Option Document :=
  match skipSpace cs with
  | [] => some d
  | cs' =>
    match d.line? cs' with
    | none => none
    | some (d, rest) => if rest.length < cs.length then d.lines? rest else none
termination_by cs.length

end Document

/-- Reads a text as a document; a mark of the byte order may come first. -/
def parse? (text : String) : Option Table :=
  let cs := text.toList
  let cs := if cs.head? = some '\ufeff' then cs.drop 1 else cs
  (Document.empty.lines? cs).bind Document.close

end LoadOrder.Toml
