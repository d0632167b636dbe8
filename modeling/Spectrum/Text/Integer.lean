/-! # Integers in specifications

Addresses, register values and counts are written in decimal, or in hexadecimal behind `$`, `0x` or
`0X`; they are below 2^32, and nothing but digits may stand in them.

Main statement: `lt_of_integer?`, an integer of a specification fits into 32 bits. -/

namespace Spectrum.Text

/-- The value of a digit in bases up to sixteen, in either case. -/
def digitValue? (c : Char) : Option Nat :=
  if '0' ≤ c ∧ c ≤ '9' then some (c.toNat - 48)
  else if 'a' ≤ c ∧ c ≤ 'f' then some (c.toNat - 87)
  else if 'A' ≤ c ∧ c ≤ 'F' then some (c.toNat - 55)
  else none

/-- The number that digits in a base denote, continuing from `value`; none if a character is no
digit of the base or the number reaches `bound`. -/
def digitsFrom? (base bound value : Nat) : List Char → Option Nat
  | [] => some value
  | c :: rest =>
    match digitValue? c with
    | none => none
    | some d =>
      if d < base ∧ value * base + d < bound then digitsFrom? base bound (value * base + d) rest
      else none

/-- The number that one or more digits in a base denote, if it is below `bound`. -/
def digits? (base bound : Nat) : List Char → Option Nat
  | [] => none
  | cs => digitsFrom? base bound 0 cs

def integerBound : Nat := UInt32.size

def integer? (text : String) : Option Nat :=
  match text.toList with
  | '$' :: c :: rest => digits? 16 integerBound (c :: rest)
  | '0' :: 'x' :: c :: rest => digits? 16 integerBound (c :: rest)
  | '0' :: 'X' :: c :: rest => digits? 16 integerBound (c :: rest)
  | cs => digits? 10 integerBound cs

theorem lt_of_digitsFrom? {base bound value n : Nat} {cs : List Char} (hvalue : value < bound)
    (h : digitsFrom? base bound value cs = some n) : n < bound := by
  induction cs generalizing value with
  | nil =>
    obtain rfl := Option.some.inj h
    exact hvalue
  | cons c rest ih =>
    rw [digitsFrom?] at h
    split at h
    · cases h
    · split at h
      · next hd => exact ih hd.2 h
      · cases h

theorem lt_of_digits? {base bound n : Nat} {cs : List Char} (hbound : 0 < bound)
    (h : digits? base bound cs = some n) : n < bound := by
  cases cs with
  | nil => cases h
  | cons c rest => exact lt_of_digitsFrom? hbound h

theorem lt_of_integer? {text : String} {n : Nat} (h : integer? text = some n) :
    n < integerBound := by
  have hbound : 0 < integerBound := by decide
  unfold integer? at h
  split at h <;> exact lt_of_digits? hbound h

end Spectrum.Text
