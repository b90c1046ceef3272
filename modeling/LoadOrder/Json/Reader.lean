import LoadOrder.Json.Numeral

/-!
# Reading JSON texts

The reader is a machine that takes a text one character at a time.  Its state is the stack of
arrays and objects that are still open together with what it expects next; nesting is limited
only by the text.  `Json.Reader.finish` says what became of the text when it is over: a value, a
text that ended too early, or a text that no JSON value starts with.

Because a run over `s ++ t` is a run over `s` followed by a run over `t`
(`Json.Reader.run_append`), facts about texts and their beginnings are facts about states.
-/

namespace LoadOrder

namespace Json

/-- Why a text is not a JSON value. -/
inductive Fault where
  /-- The text ended where another character was needed. -/
  | eof
  /-- No JSON value begins with the text. -/
  | malformed
  deriving DecidableEq, Repr

namespace Reader

/-- An array or object that is still open, with what was read of it, last first. -/
inductive Frame where
  | array (items : List Json)
  /-- Between two members. -/
  | object (members : List (String × Json))
  /-- In the value of a member. -/
  | member (members : List (String × Json)) (name : String)

/-- Whether a string being read is a value or the name of an object's member. -/
inductive Use where
  | value
  | name
  deriving DecidableEq

/-- Where in a numeral the reader stands. -/
inductive NumeralPart where
  /-- After the minus sign: a digit must follow. -/
  | sign
  /-- After a leading zero. -/
  | zero
  /-- In the digits before the point. -/
  | whole
  /-- After the point: a digit must follow. -/
  | point
  /-- In the digits after the point. -/
  | fraction
  /-- After the exponent mark: a sign or a digit must follow. -/
  | mark
  /-- After the exponent's sign: a digit must follow. -/
  | markSign
  /-- In the digits of the exponent. -/
  | exponent
  deriving DecidableEq

/-- What the reader expects next. -/
inductive Phase where
  | value
  /-- The first item of an array, or its end. -/
  | firstItem
  /-- A comma, or the end of the array. -/
  | afterItem
  /-- The first member of an object, or its end. -/
  | firstName
  /-- The name of a further member. -/
  | name
  /-- The colon after a member's name. -/
  | colon (name : String)
  /-- A comma, or the end of the object. -/
  | afterMember
  /-- The rest of a word that stands for a value. -/
  | word (rest : List Char) (value : Json)
  /-- Inside a string; the characters read, last first. -/
  | text (use : Use) (read : List Char)
  /-- After a backslash. -/
  | escape (use : Use) (read : List Char)
  /-- In the four octets after `\u`; `high` is the first half of a surrogate pair. -/
  | hex (use : Use) (read : List Char) (high : Option Nat) (octets : List Char)
  /-- After the first half of a surrogate pair: a backslash must follow. -/
  | lowBackslash (use : Use) (read : List Char) (high : Nat)
  /-- After that backslash: a `u` must follow. -/
  | lowMark (use : Use) (read : List Char) (high : Nat)
  | numeral (part : NumeralPart) (numeral : Numeral)

/-- The state of the reader. -/
inductive State where
  | reading (frames : List Frame) (phase : Phase)
  | finished (value : Json)
  | failed

def isBlank (c : Char) : Bool := c == ' ' || c == '\t' || c == '\n' || c == '\r'

/-- The state after a complete value. -/
def complete (value : Json) : List Frame → State
  | [] => .finished value
  | .array items :: rest => .reading (.array (value :: items) :: rest) .afterItem
  | .member members name :: rest =>
    .reading (.object ((name, value) :: members) :: rest) .afterMember
  | .object _ :: _ => .failed

/-- The state after the bracket that ends an array. -/
def closeArray : List Frame → State
  | .array items :: rest => complete (.array items.reverse) rest
  | _ => .failed

/-- The state after the brace that ends an object. -/
def closeObject : List Frame → State
  | .object members :: rest => complete (.object members.reverse) rest
  | _ => .failed

/-- The state after the name of a member. -/
def nameRead (name : String) (frames : List Frame) : State := .reading frames (.colon name)

/-- The state after a complete string. -/
def textRead (use : Use) (read : List Char) (frames : List Frame) : State :=
  let s := String.ofList read.reverse
  match use with
  | .value => complete (.string s) frames
  | .name => nameRead s frames

/-- The state after the first character of a value. -/
def startValue (frames : List Frame) (c : Char) : State :=
  if c = '[' then .reading (.array [] :: frames) .firstItem
  else if c = '\x7b' then .reading (.object [] :: frames) .firstName
  else if c = '"' then .reading frames (.text .value [])
  else if c = 'n' then .reading frames (.word ['u', 'l', 'l'] .null)
  else if c = 't' then .reading frames (.word ['r', 'u', 'e'] (.bool true))
  else if c = 'f' then .reading frames (.word ['a', 'l', 's', 'e'] (.bool false))
  else if c = '-' then .reading frames (.numeral .sign ⟨true, [], none, none⟩)
  else if c = '0' then .reading frames (.numeral .zero ⟨false, [c], none, none⟩)
  else if c.isDigit then .reading frames (.numeral .whole ⟨false, [c], none, none⟩)
  else .failed

/-- A step between an item and the next one. -/
def stepAfterItem (frames : List Frame) (c : Char) : State :=
  if isBlank c then .reading frames .afterItem
  else if c = ',' then .reading frames .value
  else if c = ']' then closeArray frames
  else .failed

/-- A step between a member and the next one. -/
def stepAfterMember (frames : List Frame) (c : Char) : State :=
  if isBlank c then .reading frames .afterMember
  else if c = ',' then .reading frames .name
  else if c = '\x7d' then closeObject frames
  else .failed

/-- The value of a hexadecimal digit. -/
def hexDigit? (c : Char) : Option Nat :=
  if c.isDigit then some (c.toNat - '0'.toNat)
  else if 'a' ≤ c ∧ c ≤ 'f' then some (c.toNat - 'a'.toNat + 10)
  else if 'A' ≤ c ∧ c ≤ 'F' then some (c.toNat - 'A'.toNat + 10)
  else none

/-- The value of hexadecimal digits, most significant first. -/
def hexValue? (digits : List Char) : Option Nat :=
  digits.foldl (fun v c => v.bind fun n => (hexDigit? c).map (16 * n + ·)) (some 0)

def octetCount (cs : List Char) : Nat := cs.foldl (fun n c => n + c.utf8Size) 0

/-- The state after the four octets of a unicode escape. -/
def unicodeRead (frames : List Frame) (use : Use) (read : List Char) (high : Option Nat)
    (digits : List Char) : State :=
  match hexValue? digits, high with
  | none, _ => .failed
  | some n, none =>
    if 0xD800 ≤ n ∧ n ≤ 0xDBFF then .reading frames (.lowBackslash use read n)
    else if 0xDC00 ≤ n ∧ n ≤ 0xDFFF then .failed
    else .reading frames (.text use (Char.ofNat n :: read))
  | some n, some h =>
    if 0xDC00 ≤ n ∧ n ≤ 0xDFFF then
      .reading frames
        (.text use (Char.ofNat (0x10000 + (h - 0xD800) * 0x400 + (n - 0xDC00)) :: read))
    else .failed

/-- The characters that a backslash and a letter stand for. -/
def escapes : List (Char × Char) :=
  [('"', '"'), ('\\', '\\'), ('/', '/'), ('b', '\x08'), ('f', '\x0c'), ('n', '\n'), ('r', '\r'),
    ('t', '\t')]

/-- A step after a backslash. -/
def stepEscape (frames : List Frame) (use : Use) (read : List Char) (c : Char) : State :=
  if c = 'u' then .reading frames (.hex use read none [])
  else
    match escapes.lookup c with
    | some d => .reading frames (.text use (d :: read))
    | none => .failed

/-- A step inside a string; a control character must be written as an escape. -/
def stepText (frames : List Frame) (use : Use) (read : List Char) (c : Char) : State :=
  if c = '"' then textRead use read frames
  else if c = '\\' then .reading frames (.escape use read)
  else if c < ' ' then .failed
  else .reading frames (.text use (c :: read))

/-- A step in the octets of a unicode escape.  They are looked at when there are four of them. -/
def stepHex (frames : List Frame) (use : Use) (read : List Char) (high : Option Nat)
    (octets : List Char) (c : Char) : State :=
  let octets := octets ++ [c]
  if octetCount octets < 4 then .reading frames (.hex use read high octets)
  else if octets.length = 4 then unicodeRead frames use read high octets
  else .failed

/-- The value of a numeral that is over; none if it is out of range. -/
def numeralRead (n : Numeral) (frames : List Frame) : State :=
  match n.toNumber? with
  | some v => complete (.number v) frames
  | none => .failed

/-- A step that is not inside a value or a name. -/
def stepBetween (frames : List Frame) (phase : Phase) (c : Char) : State :=
  match phase with
  | .value => if isBlank c then .reading frames .value else startValue frames c
  | .firstItem =>
    if isBlank c then .reading frames .firstItem
    else if c = ']' then closeArray frames
    else startValue frames c
  | .afterItem => stepAfterItem frames c
  | .firstName =>
    if isBlank c then .reading frames .firstName
    else if c = '\x7d' then closeObject frames
    else if c = '"' then .reading frames (.text .name [])
    else .failed
  | .name =>
    if isBlank c then .reading frames .name
    else if c = '"' then .reading frames (.text .name [])
    else .failed
  | .colon name =>
    if isBlank c then .reading frames (.colon name)
    else if c = ':' then
      match frames with
      | .object members :: rest => .reading (.member members name :: rest) .value
      | _ => .failed
    else .failed
  | .afterMember => stepAfterMember frames c
  | _ => .failed

/-- A step after a finished root value. -/
def stepFinished (value : Json) (c : Char) : State :=
  if isBlank c then .finished value else .failed

/-- The character after a numeral belongs to what surrounds it. -/
def stepAfterNumeral (n : Numeral) (frames : List Frame) (c : Char) : State :=
  match numeralRead n frames with
  | .reading frames phase => stepBetween frames phase c
  | .finished value => stepFinished value c
  | .failed => .failed

/-- Appends a digit to the exponent. -/
def pushExponent (n : Numeral) (c : Char) : Numeral :=
  { n with exponent := n.exponent.map fun e => (e.1, e.2 ++ [c]) }

/-- A step inside a numeral. -/
def stepNumeral (frames : List Frame) (part : NumeralPart) (n : Numeral) (c : Char) : State :=
  let toPoint : State := .reading frames (.numeral .point { n with fraction := some [] })
  let toMark : State := .reading frames (.numeral .mark { n with exponent := some (false, []) })
  let pushFraction : State :=
    .reading frames (.numeral .fraction { n with fraction := some (n.fraction.getD [] ++ [c]) })
  let pushWhole (part : NumeralPart) : State :=
    .reading frames (.numeral part { n with whole := n.whole ++ [c] })
  let toExponent : State := .reading frames (.numeral .exponent (pushExponent n c))
  let isMark := c = 'e' || c = 'E'
  match part with
  | .sign =>
    if c = '0' then pushWhole .zero else if c.isDigit then pushWhole .whole else .failed
  | .zero =>
    if c.isDigit then .failed
    else if c = '.' then toPoint
    else if isMark then toMark
    else stepAfterNumeral n frames c
  | .whole =>
    if c.isDigit then pushWhole .whole
    else if c = '.' then toPoint
    else if isMark then toMark
    else stepAfterNumeral n frames c
  | .point => if c.isDigit then pushFraction else .failed
  | .fraction =>
    if c.isDigit then pushFraction
    else if isMark then toMark
    else stepAfterNumeral n frames c
  | .mark =>
    if c = '+' then .reading frames (.numeral .markSign n)
    else if c = '-' then .reading frames (.numeral .markSign { n with exponent := some (true, []) })
    else if c.isDigit then toExponent
    else .failed
  | .markSign => if c.isDigit then toExponent else .failed
  | .exponent => if c.isDigit then toExponent else stepAfterNumeral n frames c

/-- The state after one more character. -/
def step : State → Char → State
  | .failed, _ => .failed
  | .finished value, c => stepFinished value c
  | .reading frames phase, c =>
    match phase with
    | .word rest value =>
      match rest with
      | [] => .failed
      | [d] => if c = d then complete value frames else .failed
      | d :: rest => if c = d then .reading frames (.word rest value) else .failed
    | .text use read => stepText frames use read c
    | .escape use read => stepEscape frames use read c
    | .hex use read high octets => stepHex frames use read high octets c
    | .lowBackslash use read high =>
      if c = '\\' then .reading frames (.lowMark use read high) else .failed
    | .lowMark use read high =>
      if c = 'u' then .reading frames (.hex use read (some high) []) else .failed
    | .numeral part n => stepNumeral frames part n c
    | phase => stepBetween frames phase c

/-- The state before the first character. -/
def start : State := .reading [] .value

/-- The state after a text. -/
def run (s : State) (cs : List Char) : State := cs.foldl step s

/-- May a numeral be over here? -/
def NumeralPart.isComplete : NumeralPart → Bool
  | .zero | .whole | .fraction | .exponent => true
  | .sign | .point | .mark | .markSign => false

/-- What became of a text that is over. -/
def finish : State → Except Fault Json
  | .finished value => .ok value
  | .failed => .error .malformed
  | .reading frames (.numeral part n) =>
    if part.isComplete then
      match numeralRead n frames with
      | .finished value => .ok value
      | .failed => .error .malformed
      | .reading _ _ => .error .eof
    else .error .eof
  | .reading _ _ => .error .eof

@[simp]
theorem run_nil (s : State) : run s [] = s := rfl

@[simp]
theorem run_cons (s : State) (c : Char) (cs : List Char) :
    run s (c :: cs) = run (step s c) cs := rfl

theorem run_append (s : State) (cs ds : List Char) : run s (cs ++ ds) = run (run s cs) ds :=
  List.foldl_append

end Reader

/-- Reads a text as one JSON value, with blanks around it. -/
def parse (text : String) : Except Fault Json :=
  Reader.finish (Reader.run Reader.start text.toList)

end Json

end LoadOrder
