import Spectrum.Z80.Flags

/-! # Arithmetic and logic

The operations of the arithmetic unit as functions of their operands and the flags they look at.
Sums and differences are taken in a wider word; the exclusive or of the operands and the result is
then the vector of carries into each bit, from which half carry, carry and overflow are read. -/

namespace Spectrum.Z80.Alu

/-- The flags that a sum or difference of bytes sets, from the wide result and the carry vector. -/
@[inline] def byteFlags (wide carries : UInt16) (subtracted : Bool) : Flags :=
  { Flags.ofResult wide.toUInt8 with
    h := (carries >>> 4) &&& 1 != 0
    pv := ((carries >>> 7) ^^^ (carries >>> 8)) &&& 1 != 0
    n := subtracted
    c := (carries >>> 8) &&& 1 != 0 }

def add (a x : UInt8) (carry : Bool) : UInt8 × Flags :=
  let wide := a.toUInt16 + x.toUInt16 + carry.toUInt16
  (wide.toUInt8, byteFlags wide (a.toUInt16 ^^^ x.toUInt16 ^^^ wide) false)

def sub (a x : UInt8) (borrow : Bool) : UInt8 × Flags :=
  let wide := a.toUInt16 - x.toUInt16 - borrow.toUInt16
  (wide.toUInt8, byteFlags wide (a.toUInt16 ^^^ x.toUInt16 ^^^ wide) true)

/-- A comparison sets the flags of a difference, except that bits 5 and 3 come from the operand. -/
def compare (a x : UInt8) : Flags :=
  { (sub a x false).2 with y := x.bit 5, x := x.bit 3 }

/-- Conjunction, which sets the half carry. -/
def and (a x : UInt8) : UInt8 × Flags :=
  let v := a &&& x
  (v, { Flags.ofResultParity v with h := true })

def xor (a x : UInt8) : UInt8 × Flags :=
  let v := a ^^^ x
  (v, Flags.ofResultParity v)

def or (a x : UInt8) : UInt8 × Flags :=
  let v := a ||| x
  (v, Flags.ofResultParity v)

/-- One more than a byte; the carry is kept. -/
def inc (x : UInt8) (f : Flags) : UInt8 × Flags :=
  let (v, g) := add x 1 false
  (v, { g with c := f.c })

def dec (x : UInt8) (f : Flags) : UInt8 × Flags :=
  let (v, g) := sub x 1 false
  (v, { g with c := f.c })

/-- The accumulator corrected to packed decimal after an addition or subtraction. -/
def daa (a : UInt8) (f : Flags) : UInt8 × Flags :=
  let tens := a > 0x99 || f.c
  let units := (a &&& 0x0F) > 0x09 || f.h
  let correction := (if tens then 0x60 else 0) + (if units then 0x06 else (0 : UInt8))
  let v := if f.n then a - correction else a + correction
  (v, { Flags.ofResultParity v with h := (v ^^^ a).bit 4, n := f.n, c := tens })

def cpl (a : UInt8) (f : Flags) : UInt8 × Flags :=
  let v := ~~~a
  (v, { f with y := v.bit 5, h := true, x := v.bit 3, n := true })

/-- Set carry; bits 5 and 3 come from the accumulator. -/
def scf (a : UInt8) (f : Flags) : Flags :=
  { f with y := a.bit 5, h := false, x := a.bit 3, n := false, c := true }

def ccf (a : UInt8) (f : Flags) : Flags :=
  { f with y := a.bit 5, h := f.c, x := a.bit 3, n := false, c := !f.c }

/-- The eight rotations and shifts of the bit page. -/
inductive Shift where
  | rlc | rrc | rl | rr | sla | sra | sll | srl
deriving DecidableEq, Repr

/-- The byte that a shift leaves and the bit that falls out, given the carry before. -/
def Shift.apply (op : Shift) (x : UInt8) (carry : Bool) : UInt8 × Bool :=
  match op with
  | .rlc => (x <<< 1 ||| x >>> 7, x.bit 7)
  | .rrc => (x >>> 1 ||| x <<< 7, x.bit 0)
  | .rl => (x <<< 1 ||| carry.toUInt8, x.bit 7)
  | .rr => (x >>> 1 ||| carry.toUInt8 <<< 7, x.bit 0)
  | .sla => (x <<< 1, x.bit 7)
  | .sra => (x >>> 1 ||| (x &&& 0x80), x.bit 0)
  | .sll => (x <<< 1 ||| 1, x.bit 7)
  | .srl => (x >>> 1, x.bit 0)

def shift (op : Shift) (x : UInt8) (f : Flags) : UInt8 × Flags :=
  let (v, out) := op.apply x f.c
  (v, { Flags.ofResultParity v with c := out })

/-- A rotation of the accumulator in the main page keeps sign, zero and parity. -/
def rotate (op : Shift) (a : UInt8) (f : Flags) : UInt8 × Flags :=
  let (v, out) := op.apply a f.c
  (v, { f with y := v.bit 5, h := false, x := v.bit 3, n := false, c := out })

/-- The test of one bit; bits 5 and 3 of the flags come from `leak`. -/
def bit (number x leak : UInt8) (f : Flags) : Flags :=
  let set := x.bit number
  { s := set && number == 7, z := !set, y := leak.bit 5, h := true,
    x := leak.bit 3, pv := !set, n := false, c := f.c }

@[inline] def mask (number : UInt8) : UInt8 := 1 <<< number

/-! ### Sixteen bits -/

/-- The sum of two words; sign, zero and parity are kept. -/
def addWord (x y : UInt16) (f : Flags) : UInt16 × Flags :=
  let wide := x.toUInt32 + y.toUInt32
  let carries := x.toUInt32 ^^^ y.toUInt32 ^^^ wide
  let v := wide.toUInt16
  (v, { f with
    y := v.high.bit 5
    h := (carries >>> 12) &&& 1 != 0
    x := v.high.bit 3
    n := false
    c := (carries >>> 16) &&& 1 != 0 })

@[inline] def wordFlags (wide carries : UInt32) (subtracted : Bool) : Flags :=
  let v := wide.toUInt16
  { s := v.high.bit 7
    z := v == 0
    y := v.high.bit 5
    h := (carries >>> 12) &&& 1 != 0
    x := v.high.bit 3
    pv := ((carries >>> 15) ^^^ (carries >>> 16)) &&& 1 != 0
    n := subtracted
    c := (carries >>> 16) &&& 1 != 0 }

def adcWord (x y : UInt16) (carry : Bool) : UInt16 × Flags :=
  let wide := x.toUInt32 + y.toUInt32 + carry.toUInt32
  (wide.toUInt16, wordFlags wide (x.toUInt32 ^^^ y.toUInt32 ^^^ wide) false)

def sbcWord (x y : UInt16) (borrow : Bool) : UInt16 × Flags :=
  let wide := x.toUInt32 - y.toUInt32 - borrow.toUInt32
  (wide.toUInt16, wordFlags wide (x.toUInt32 ^^^ y.toUInt32 ^^^ wide) true)

/-! ### Block instructions -/

/-- The flags after one byte `n` has been copied by a block load, where `more` says whether the
counter is not yet zero.  Bits 5 and 3 are bits 1 and 3 of the byte plus the accumulator. -/
def blockLoadFlags (a n : UInt8) (more : Bool) (f : Flags) : Flags :=
  let t := n + a
  { f with y := t.bit 1, h := false, x := t.bit 3, pv := more, n := false }

/-- The flags after a block comparison of the accumulator with `n`.  Bits 5 and 3 are bits 1 and 3
of the difference less the half borrow. -/
def blockCompareFlags (a n : UInt8) (more : Bool) (f : Flags) : Flags :=
  let v := a - n
  let half := (a ^^^ n ^^^ v).bit 4
  let t := v - half.toUInt8
  { s := v.bit 7, z := v == 0, y := t.bit 1, h := half,
    x := t.bit 3, pv := more, n := true, c := f.c }

/-- The flags after a block transfer of the byte `value` through a port, where `count` is the new
counter and `offset` the byte that is added to the value. -/
def blockTransferFlags (value offset count : UInt8) : Flags :=
  let overflows := value.toUInt16 + offset.toUInt16 > 0xFF
  { Flags.ofResult count with
    h := overflows
    pv := Flags.evenParity (((value + offset) &&& 7) ^^^ count)
    n := value.bit 7
    c := overflows }

end Spectrum.Z80.Alu
