import LoadOrder.Number.Shortest

/-!
# JSON values

Numbers keep the distinction that their text makes: a whole number that fits in 64 bits is an
integer, everything else a double.
-/

namespace LoadOrder

/-- A number of a JSON text. -/
inductive JsonNumber where
  | integer (value : Int)
  | double (negative : Bool) (magnitude : Binary64)
  deriving DecidableEq

/-- A JSON value; the members of an object are in the order of the text. -/
inductive Json where
  | null
  | bool (value : Bool)
  | number (value : JsonNumber)
  | string (text : String)
  | array (items : List Json)
  | object (members : List (String × Json))

namespace JsonNumber

/-- A double is written positionally when its leading digit stands between these places. -/
def positionalPlaces : Int × Int := (-5, 15)

/-- The digits of a decimal with a point, positionally if the leading digit's place allows it and
in scientific notation otherwise. -/
def decimalText (d : Decimal) : String :=
  let ds := toString d.digits
  let n := ds.length
  let e : Int := d.exponent + (n - 1 : Nat)
  let zeros (k : Nat) : String := String.ofList (List.replicate k '0')
  let cut (k : Nat) : String × String :=
    (String.ofList (ds.toList.take k), String.ofList (ds.toList.drop k))
  if positionalPlaces.1 ≤ e ∧ e ≤ positionalPlaces.2 then
    if e < 0 then "0." ++ zeros (-e - 1).toNat ++ ds
    else
      let whole := e.toNat + 1
      if n ≤ whole then ds ++ zeros (whole - n) ++ ".0"
      else (cut whole).1 ++ "." ++ (cut whole).2
  else
    let mantissa := if n ≤ 1 then ds else (cut 1).1 ++ "." ++ (cut 1).2
    mantissa ++ (if e < 0 then "e-" else "e+") ++ toString e.natAbs

/-- The text of a number. -/
def text : JsonNumber → String
  | .integer i => toString i
  | .double negative x =>
    let body := if x.isZero then "0.0" else decimalText x.shortest
    if negative then "-" ++ body else body

end JsonNumber

namespace Json

instance : Inhabited Json := ⟨.null⟩

def nat (n : Nat) : Json := .number (.integer n)

def strings (l : List String) : Json := .array (l.map .string)

end Json

end LoadOrder
