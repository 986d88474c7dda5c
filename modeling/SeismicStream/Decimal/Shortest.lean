import SeismicStream.Decimal.Fixed

namespace SeismicStream.Decimal

/-- How many decimal digits a number has; zero has none. -/
def digitCount (n : Nat) : Nat :=
  if n = 0 then 0 else digitCount (n / 10) + 1

/-- The power of ten of the leading digit of a positive ratio. -/
def leadingPower (num den : Nat) : Int :=
  if den ≤ num then digitCount (num / den) - 1 else -digitCount ((den - 1) / num)

/-- The positive numbers that are read back as one floating-point number, in quarters of its last
place. The ends belong to them if the significand is even. -/
structure Interval where
  low : Nat
  value : Nat
  high : Nat
  closed : Bool
  exponent : Int

def Interval.of (significand : Nat) (exponent : Int) (narrow : Bool) : Interval where
  low := 4 * significand - (if narrow then 1 else 2)
  value := 4 * significand
  high := 4 * significand + 2
  closed := significand % 2 = 0
  exponent := exponent - 2

/-- Whether `digits * 10 ^ power` lies in the interval. -/
def Interval.holds (r : Interval) (digits : Nat) (power : Int) : Bool :=
  let (ten, tenth) := scaled digits 10 power
  let (two, half) := scaled 1 2 r.exponent
  let point := ten * half
  let unit := two * tenth
  if r.closed then r.low * unit ≤ point && point ≤ r.high * unit
  else r.low * unit < point && point < r.high * unit

/-- A decimal number without zeros at its end. -/
structure Digits where
  digits : Nat
  power : Int
deriving DecidableEq, Repr

/-- Drops the zeros at the end. -/
def Digits.trim (digits : Nat) (power : Int) : Digits :=
  if digits ≠ 0 ∧ digits % 10 = 0 then Digits.trim (digits / 10) (power + 1) else ⟨digits, power⟩
termination_by digits
decreasing_by omega

/-- The multiple of a power of ten that is not above the value, and how much of the step to the next
one the value is further on: a part, and the whole step. -/
def Interval.below (r : Interval) (power : Int) : Nat × Nat × Nat :=
  let (num, den) := scaled r.value 2 r.exponent
  let (ten, tenth) := scaled 1 10 power
  let num := num * tenth
  let den := den * ten
  (num / den, num % den, den)

/-- The neighbour that is read back as the value, on the grid of a power of ten. Of two it is the
nearer one, and between two that are equally near the even one. -/
def Interval.neighbour? (r : Interval) (power : Int) : Option Nat :=
  let (low, part, whole) := r.below power
  let nearLow := 2 * part < whole || (2 * part = whole && low % 2 = 0)
  match r.holds low power, r.holds (low + 1) power with
  | true, true => some (if nearLow then low else low + 1)
  | true, false => some low
  | false, true => some (low + 1)
  | false, false => none

/-- The first grid with a neighbour that is read back, from `power` on and each ten times as fine
as the one before. After `more` grids without one it is the neighbour below. -/
def Interval.search (r : Interval) (power : Int) : (more : Nat) → Digits
  | 0 =>
    let (low, _, _) := r.below power
    Digits.trim low power
  | more + 1 =>
    match r.neighbour? power with
    | some digits => Digits.trim digits power
    | none => r.search (power - 1) more

/-- The fewest digits that are read back as a positive floating-point number. Seventeen are always
enough for the formats here. -/
def shortest (significand : Nat) (exponent : Int) (narrow : Bool) : Digits :=
  let (num, den) := scaled significand 2 exponent
  (Interval.of significand exponent narrow).search (leadingPower num den) 17

/-- How a shortest number is written: without an exponent where the power of its leading digit lies
between the two bounds. -/
structure Layout where
  least : Int
  greatest : Int

/-- A decimal number, with one place after the point at least. An exponent has a sign, and as many
digits as it needs. -/
def Layout.text (layout : Layout) (d : Digits) : String :=
  let written := Nat.toDigits 10 d.digits
  let lead := d.power + written.length - 1
  if layout.least ≤ lead ∧ lead ≤ layout.greatest then
    if 0 ≤ d.power then
      String.ofList (written ++ List.replicate d.power.toNat '0') ++ ".0"
    else placesText (-d.power).toNat d.digits
  else
    let point := if written.length = 1 then "" else "."
    let sign := if lead < 0 then "" else "+"
    String.ofList (written.take 1) ++ point ++ String.ofList (written.drop 1) ++
      "e" ++ sign ++ toString lead

/-- The shortest text that is read back as the same number, `none` where there is no number. -/
def Layout.number? (layout : Layout) : Binary → Option String
  | .nan => none
  | .infinite _ => none
  | .finite negative 0 _ _ => some (signText negative ++ "0.0")
  | .finite negative significand exponent narrow =>
    some (signText negative ++ layout.text (shortest significand exponent narrow))

end SeismicStream.Decimal
