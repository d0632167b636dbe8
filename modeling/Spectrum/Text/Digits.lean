import Spectrum.Word

/-! # Numbers as text

The spellings of numbers that listings and messages use: upper-case hexadecimal of a fixed width,
and decimal padded with blanks. -/

namespace Spectrum.Text

/-- The upper-case hexadecimal digit of a value below sixteen. -/
def hexDigit (n : Nat) : Char :=
  if n < 10 then Char.ofNat (48 + n) else Char.ofNat (55 + n)

/-- The last `width` hexadecimal digits of a number, in front of `rest`. -/
def hexDigits (n : Nat) : (width : Nat) → List Char → List Char
  | 0, rest => rest
  | width + 1, rest => hexDigits (n / 16) width (hexDigit (n % 16) :: rest)

def hex8 (b : UInt8) : String := String.ofList (hexDigits b.toNat 2 [])

def hex16 (w : UInt16) : String := String.ofList (hexDigits w.toNat 4 [])

/-- The hexadecimal digits of a number, as many as it needs. -/
def hex (n : Nat) : String := String.ofList ((Nat.toDigits 16 n).map Char.toUpper)

def hexBytes (bytes : List UInt8) : String := String.join (bytes.map hex8)

/-- A text with blanks in front, so that it has at least `width` characters. -/
def padLeft (width : Nat) (s : String) : String :=
  String.ofList (List.replicate (width - s.length) ' ') ++ s

def padRight (width : Nat) (s : String) : String :=
  s ++ String.ofList (List.replicate (width - s.length) ' ')

/-- A character for each byte, the one with that number. -/
def ofBytes (bytes : List UInt8) : String :=
  String.ofList (bytes.map fun b => Char.ofNat b.toNat)

end Spectrum.Text
