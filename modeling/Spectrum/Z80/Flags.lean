import Spectrum.Word

/-! # The flags

The flags register is a byte whose eight bits are, from the top, sign, zero, bit 5 of a result,
half carry, bit 3 of a result, parity or overflow, subtraction, and carry.  `Flags` names them,
`toByte` and `ofByte` pass between the names and the byte.

Main statements: `ofByte_toByte` and `toByte_ofByte` say that the two views carry the same
information. -/

namespace Spectrum.Z80

/-- The flags of the last operation; `y` and `x` are the two undocumented copies of bits 5 and 3
of a result. -/
structure Flags where
  s : Bool
  z : Bool
  y : Bool
  h : Bool
  x : Bool
  pv : Bool
  n : Bool
  c : Bool
deriving DecidableEq, Repr, Inhabited

namespace Flags

def toByte (f : Flags) : UInt8 :=
  f.s.toUInt8 <<< 7 ||| f.z.toUInt8 <<< 6 ||| f.y.toUInt8 <<< 5 ||| f.h.toUInt8 <<< 4 |||
    f.x.toUInt8 <<< 3 ||| f.pv.toUInt8 <<< 2 ||| f.n.toUInt8 <<< 1 ||| f.c.toUInt8

def ofByte (b : UInt8) : Flags :=
  { s := b.bit 7, z := b.bit 6, y := b.bit 5, h := b.bit 4,
    x := b.bit 3, pv := b.bit 2, n := b.bit 1, c := b.bit 0 }

theorem ofByte_toByte (f : Flags) : ofByte f.toByte = f := by
  rcases f with ⟨_ | _, _ | _, _ | _, _ | _, _ | _, _ | _, _ | _, _ | _⟩ <;> rfl

theorem toByte_ofByte (b : UInt8) : (ofByte b).toByte = b := by
  have all : ∀ i : Fin 256, (ofByte (UInt8.ofNat i)).toByte = UInt8.ofNat i := by decide +kernel
  simpa using all ⟨b.toNat, b.toNat_lt⟩

/-- Whether a byte has an even number of ones. -/
def evenParity (v : UInt8) : Bool :=
  let v := v ^^^ v >>> 4
  let v := v ^^^ v >>> 2
  let v := v ^^^ v >>> 1
  !v.bit 0

/-- Sign, zero and the copies of bits 5 and 3 of a result; the rest clear. -/
def ofResult (v : UInt8) : Flags :=
  { s := v.bit 7, z := v == 0, y := v.bit 5, h := false,
    x := v.bit 3, pv := false, n := false, c := false }

def ofResultParity (v : UInt8) : Flags := { ofResult v with pv := evenParity v }

end Flags
end Spectrum.Z80
