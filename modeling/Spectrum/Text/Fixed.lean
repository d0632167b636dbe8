import Spectrum.Text.Digits

/-! # Numbers with a fixed number of decimal places

A finite floating-point number is a whole number times a power of two, so its decimal expansion is
exact and can be rounded in whole numbers: to the nearest, and to the even neighbour from half way.
Infinities and what is no number have words instead of digits.

Main definition: `fixed`. -/

namespace Spectrum.Text

/-- The quotient rounded to the nearest whole number, a tie to the even one. -/
def roundDiv (num den : Nat) : Nat :=
  let q := num / den
  let r := num % den
  if 2 * r < den then q else if den < 2 * r then q + 1 else q + q % 2

/-- A number of units in the last of `places` decimal places. -/
def decimalPlaces (places n : Nat) : String :=
  let digits := (Nat.toDigits 10 n)
  let padded := List.replicate (places + 1 - digits.length) '0' ++ digits
  let whole := padded.take (padded.length - places)
  let fraction := padded.drop (padded.length - places)
  String.ofList (if places = 0 then whole else whole ++ '.' :: fraction)

/-- The weight of the bit that is left out in front of the fraction of a number. -/
def hiddenBit : Nat := 0x10000000000000

/-- What a floating-point number is worth, its sign apart. -/
inductive Magnitude where
  /-- A whole number times a power of two. -/
  | finite (mantissa : Nat) (exponent : Int)
  | infinite
  | notANumber
deriving DecidableEq, Repr

def Magnitude.ofBits (bits : Nat) : Magnitude :=
  let fraction : Nat := bits % hiddenBit
  let exponent : Nat := bits / hiddenBit % 0x800
  if exponent = 0 then .finite fraction (-1074)
  else if exponent < 0x7FF then .finite (fraction + hiddenBit) ((exponent : Int) - 1075)
  else if fraction = 0 then .infinite
  else .notANumber

def Magnitude.fixed (places : Nat) : Magnitude → String
  | .finite mantissa (.ofNat e) =>
    decimalPlaces places (mantissa * Nat.pow 2 e * Nat.pow 10 places)
  | .finite mantissa (.negSucc e) =>
    decimalPlaces places (roundDiv (mantissa * Nat.pow 10 places) (Nat.pow 2 (e + 1)))
  | .infinite => "inf"
  | .notANumber => "nan"

def fixed (places : Nat) (x : Float) : String :=
  let bits := x.toBits.toNat
  (if bits.testBit 63 then "-" else "") ++ (Magnitude.ofBits bits).fixed places

end Spectrum.Text
