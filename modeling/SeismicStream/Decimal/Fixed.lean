import SeismicStream.Decimal.Binary

namespace SeismicStream.Decimal

/-- The whole number nearest to a quotient; a half goes to the even neighbour. -/
def roundDiv (num den : Nat) : Nat :=
  let low := num / den
  let twice := 2 * (num % den)
  if twice < den then low
  else if den < twice then low + 1
  else low + low % 2

/-- A decimal number with a fixed number of places, at least one, that counts units of the last
place. -/
def placesText (places units : Nat) : String :=
  let unit := Nat.pow 10 places
  let part := toString (units % unit)
  toString (units / unit) ++ "." ++
    String.ofList (List.replicate (places - part.length) '0') ++ part

def signText (negative : Bool) : String :=
  if negative then "-" else ""

/-- A number with a fixed number of places, rounded from its exact value. A number that is rounded
to zero keeps its sign. -/
def fixed (places : Nat) : Binary → String
  | .nan => "NaN"
  | .infinite negative => signText negative ++ "inf"
  | .finite negative significand exponent _ =>
    let (num, den) := scaled (significand * Nat.pow 10 places) 2 exponent
    signText negative ++ placesText places (roundDiv num den)

end SeismicStream.Decimal
