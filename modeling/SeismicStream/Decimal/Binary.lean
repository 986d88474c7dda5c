namespace SeismicStream.Decimal

/-- A binary floating-point format: how many bits of the significand and of the exponent are
stored. The sign stands before the exponent, the significand after it. -/
structure Format where
  significandBits : Nat
  exponentBits : Nat

def Format.single : Format := ⟨23, 8⟩

def Format.double : Format := ⟨52, 11⟩

/-- What a bit pattern stands for. -/
inductive Binary
  /-- The number `significand * 2 ^ exponent`, or its negative. Where `narrow` holds, the next
  number towards zero is half as far away as the next one away from it. -/
  | finite (negative : Bool) (significand : Nat) (exponent : Int) (narrow : Bool)
  | infinite (negative : Bool)
  | nan
deriving DecidableEq, Repr

/-- Reads a bit pattern. The significand of a normal number has a leading bit that is not stored. -/
def Format.read (f : Format) (bits : Nat) : Binary :=
  let leading := Nat.pow 2 f.significandBits
  let exponents := Nat.pow 2 f.exponentBits
  let stored := bits % leading
  let biased := bits / leading % exponents
  let negative := bits / (leading * exponents) % 2 = 1
  let least : Int := 2 - exponents / 2 - f.significandBits
  if biased = exponents - 1 then
    if stored = 0 then .infinite negative else .nan
  else if biased = 0 then .finite negative stored least false
  else
    .finite negative (leading + stored) (least + biased - 1)
      (stored = 0 && 1 < biased)

/-- The positive ratio `n * base ^ exponent` in whole numbers. -/
def scaled (n base : Nat) (exponent : Int) : Nat × Nat :=
  if 0 ≤ exponent then (n * Nat.pow base exponent.toNat, 1) else (n, Nat.pow base (-exponent).toNat)

end SeismicStream.Decimal
