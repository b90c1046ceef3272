import LoadOrder.Toml.Quoted
import LoadOrder.Toml.Value

/-!
# Numbers, dates and times in TOML

Each reader takes its spelling from the start of a text and gives what follows it.
-/

namespace LoadOrder.Toml

/-- The most that a whole number can be. -/
def integerMax : Nat := Nat.pow 2 63 - 1

def isDigit (c : Char) : Bool := '0' ≤ c && c ≤ '9'

/-- The value of digits in a base. -/
def digitsValue (base : Nat) (digits : List Char) : Nat :=
  digits.foldl (fun n c => n * base + (hexDigit? c).getD 0) 0

/-- Reads further digits; an underscore may stand between two of them. -/
def moreDigits (ok : Char → Bool) : List Char → Option (List Char × List Char)
  | [] => some ([], [])
  | ['_'] => none
  | '_' :: c :: rest => if ok c then emit c (moreDigits ok rest) else none
  | c :: rest => if ok c then emit c (moreDigits ok rest) else some ([], c :: rest)

/-- Reads digits, at least one. -/
def digits? (ok : Char → Bool) : List Char → Option (List Char × List Char)
  | [] => none
  | c :: rest => if ok c then emit c (moreDigits ok rest) else none

/-- Reads a sign: whether it was a minus. -/
def sign : List Char → Bool × List Char
  | '+' :: rest => (false, rest)
  | '-' :: rest => (true, rest)
  | cs => (false, cs)

/-- Reads the digits of a whole number.  The first one is zero only if it is the only one. -/
def wholeDigits? : List Char → Option (List Char × List Char)
  | '0' :: rest => some (['0'], rest)
  | cs => digits? isDigit cs

/-- The whole number with a sign and a magnitude, if it is in range. -/
def integer? (negative : Bool) (magnitude : Nat) : Option Value :=
  if negative then
    if magnitude ≤ integerMax + 1 then some (.integer (-magnitude)) else none
  else if magnitude ≤ integerMax then some (.integer magnitude)
  else none

/-- Whether the number with these digits before and after the point, times a power of ten, rounds to
more than every double. -/
def overflows (whole fraction : List Char) (exponent : Int) : Bool :=
  let digits := (whole ++ fraction).dropWhile (· = '0')
  let scale := exponent - fraction.length
  let point := digits.length + scale
  let bound := Nat.pow 2 1024 - Nat.pow 2 970
  if digits.isEmpty || point < 309 then false
  else if 309 < point then true
  else bound * Nat.pow 10 (-scale).toNat ≤ digitsValue 10 digits * Nat.pow 10 scale.toNat

/-- Reads the exponent of a number, if there is one. -/
def exponent? : List Char → Option (Int × List Char)
  | [] => some (0, [])
  | c :: rest =>
    if c = 'e' ∨ c = 'E' then do
      let (negative, rest) := sign rest
      let (digits, rest) ← digits? isDigit rest
      let value : Int := digitsValue 10 digits
      some (if negative then -value else value, rest)
    else some (0, c :: rest)

/-- Reads what follows the digits before the point, and makes the number. -/
def afterWhole? (negative : Bool) (whole rest : List Char) : Option (Value × List Char) :=
  let float (fraction : List Char) (rest : List Char) : Option (Value × List Char) := do
    let (exponent, rest) ← exponent? rest
    if !negative && overflows whole fraction exponent then none
    else
      let mantissa := String.ofList whole ++ "." ++ String.ofList fraction
      some (.float ((if negative then "-" else "") ++ mantissa ++ "e" ++ toString exponent), rest)
  match rest with
  | '.' :: rest => do
    let (fraction, rest) ← digits? isDigit rest
    float fraction rest
  | 'e' :: _ | 'E' :: _ => float [] rest
  | _ => do some (← integer? negative (digitsValue 10 whole), rest)

/-- Reads a whole number written in a base other than ten. -/
def inBase? (base : Nat) (rest : List Char) : Option (Value × List Char) := do
  let (digits, rest) ← digits? (fun c => (hexDigit? c).any (· < base)) rest
  some (← integer? false (digitsValue base digits), rest)

/-- Reads a number. -/
def number? (cs : List Char) : Option (Value × List Char) :=
  match cs with
  | '0' :: 'x' :: rest => inBase? 16 rest
  | '0' :: 'o' :: rest => inBase? 8 rest
  | '0' :: 'b' :: rest => inBase? 2 rest
  | _ =>
    let (negative, rest) := sign cs
    match rest with
    | 'i' :: 'n' :: 'f' :: rest => some (.float (if negative then "-inf" else "inf"), rest)
    | 'n' :: 'a' :: 'n' :: rest => some (.float "nan", rest)
    | _ => do
      let (whole, rest) ← wholeDigits? rest
      afterWhole? negative whole rest

/-! ### Dates and times -/

/-- Reads two digits whose value is in a range. -/
def twoDigits? (low high : Nat) : List Char → Option (Nat × List Char)
  | a :: b :: rest =>
    let value := digitsValue 10 [a, b]
    if isDigit a && isDigit b && low ≤ value && value ≤ high then some (value, rest) else none
  | _ => none

/-- Reads one given character. -/
def mark? (c : Char) : List Char → Option (List Char)
  | a :: rest => if a = c then some rest else none
  | [] => none

/-- How many days a month has. -/
def monthDays (year month : Nat) : Nat :=
  if month = 2 then
    if year % 4 = 0 ∧ (year % 100 ≠ 0 ∨ year % 400 = 0) then 29 else 28
  else if month = 4 ∨ month = 6 ∨ month = 9 ∨ month = 11 then 30
  else 31

/-- Reads a date. -/
def date? (cs : List Char) : Option (List Char) := do
  let (century, rest) ← twoDigits? 0 99 cs
  let (ofCentury, rest) ← twoDigits? 0 99 rest
  let rest ← mark? '-' rest
  let (month, rest) ← twoDigits? 1 12 rest
  let rest ← mark? '-' rest
  let (_, rest) ← twoDigits? 1 (monthDays (century * 100 + ofCentury) month) rest
  some rest

/-- Reads a time of the day; a second may be a leap second. -/
def time? (cs : List Char) : Option (List Char) := do
  let (_, rest) ← twoDigits? 0 23 cs
  let rest ← mark? ':' rest
  let (_, rest) ← twoDigits? 0 59 rest
  let rest ← mark? ':' rest
  let (_, rest) ← twoDigits? 0 60 rest
  match rest with
  | '.' :: c :: more => if isDigit c then some (more.dropWhile isDigit) else none
  | ['.'] => none
  | _ => some rest

/-- Reads how far a time is from universal time, if that is said. -/
def offset? : List Char → Option (List Char)
  | [] => some []
  | c :: rest =>
    if c = 'Z' ∨ c = 'z' then some rest
    else if c = '+' ∨ c = '-' then do
      let (_, rest) ← twoDigits? 0 23 rest
      let rest ← mark? ':' rest
      let (_, rest) ← twoDigits? 0 59 rest
      some rest
    else some (c :: rest)

/-- Reads the time that may follow a date. -/
def dayTime? : List Char → Option (List Char)
  | [] => some []
  | c :: rest =>
    if c = 'T' ∨ c = 't' ∨ c = ' ' then
      match time? rest with
      | some rest => offset? rest
      | none => some (c :: rest)
    else some (c :: rest)

/-- Reads a date, a time, or both. -/
def moment? (cs : List Char) : Option (Value × List Char) := do
  let rest ←
    match date? cs with
    | some rest => dayTime? rest
    | none => time? cs
  some (.moment (String.ofList (cs.take (cs.length - rest.length))), rest)

end LoadOrder.Toml
