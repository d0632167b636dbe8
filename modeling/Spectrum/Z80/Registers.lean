import Spectrum.Z80.Instruction

/-! # Registers

`RegisterFile` is what programs and snapshots share of the processor: the register pairs, their
alternates, the interrupt and refresh registers and the two interrupt flip-flops.  `Registers` adds
what a snapshot records beside it, `Cpu` what only the processor knows.

Main statements: `RegisterFile.get8_set8_same`, `RegisterFile.get16_set16_same`: a register holds
what was put into it. -/

namespace Spectrum.Z80

/-- The register pairs and the interrupt state.  Primed pairs are the alternates. -/
structure RegisterFile where
  af : UInt16 := 0
  bc : UInt16 := 0
  de : UInt16 := 0
  hl : UInt16 := 0
  ix : UInt16 := 0
  iy : UInt16 := 0
  sp : UInt16 := 0
  pc : UInt16 := 0
  af' : UInt16 := 0
  bc' : UInt16 := 0
  de' : UInt16 := 0
  hl' : UInt16 := 0
  i : UInt8 := 0
  r : UInt8 := 0
  iff1 : Bool := false
  iff2 : Bool := false
deriving DecidableEq, Repr, Inhabited

/-- The complete register state of a machine at rest: the register file, the interrupt mode as a
byte, and the running total of T-states. -/
structure Registers extends RegisterFile where
  im : UInt8 := 0
  clock : UInt64 := 0
deriving DecidableEq, Repr, Inhabited

/-- The processor.  `wz` is the internal register that BIT lets show through; `halted` holds while
a HALT repeats; `blocked` holds after an instruction that no interrupt may follow; `balance` counts
values pushed less values popped, in a signed word of 32 bits that runs over. -/
structure Cpu extends RegisterFile where
  mode : InterruptMode := .im0
  clock : UInt64 := 0
  wz : UInt16 := 0
  halted : Bool := false
  blocked : Bool := false
  balance : Int32 := 0
deriving DecidableEq, Repr, Inhabited

namespace RegisterFile

def a (f : RegisterFile) : UInt8 := f.af.high

def flags (f : RegisterFile) : Flags := Flags.ofByte f.af.low

def get8 (f : RegisterFile) : Reg8 → UInt8
  | .a => f.af.high
  | .b => f.bc.high
  | .c => f.bc.low
  | .d => f.de.high
  | .e => f.de.low
  | .h => f.hl.high
  | .l => f.hl.low
  | .ixh => f.ix.high
  | .ixl => f.ix.low
  | .iyh => f.iy.high
  | .iyl => f.iy.low

def set8 (f : RegisterFile) (r : Reg8) (v : UInt8) : RegisterFile :=
  match r with
  | .a => { f with af := f.af.withHigh v }
  | .b => { f with bc := f.bc.withHigh v }
  | .c => { f with bc := f.bc.withLow v }
  | .d => { f with de := f.de.withHigh v }
  | .e => { f with de := f.de.withLow v }
  | .h => { f with hl := f.hl.withHigh v }
  | .l => { f with hl := f.hl.withLow v }
  | .ixh => { f with ix := f.ix.withHigh v }
  | .ixl => { f with ix := f.ix.withLow v }
  | .iyh => { f with iy := f.iy.withHigh v }
  | .iyl => { f with iy := f.iy.withLow v }

def get16 (f : RegisterFile) : Reg16 → UInt16
  | .bc => f.bc
  | .de => f.de
  | .hl => f.hl
  | .sp => f.sp
  | .af => f.af
  | .ix => f.ix
  | .iy => f.iy

def set16 (f : RegisterFile) (r : Reg16) (v : UInt16) : RegisterFile :=
  match r with
  | .bc => { f with bc := v }
  | .de => { f with de := v }
  | .hl => { f with hl := v }
  | .sp => { f with sp := v }
  | .af => { f with af := v }
  | .ix => { f with ix := v }
  | .iy => { f with iy := v }

def setFlags (f : RegisterFile) (flags : Flags) : RegisterFile :=
  { f with af := f.af.withLow flags.toByte }

def setResult (f : RegisterFile) (result : UInt8 × Flags) : RegisterFile :=
  { f with af := UInt16.join result.1 result.2.toByte }

/-- The low seven bits of R moved on by `n`, as by `n` opcode fetches; bit 7 stays. -/
def refresh (f : RegisterFile) (n : Nat) : RegisterFile :=
  { f with r := (f.r &&& 0x80) ||| ((f.r + UInt8.ofNat n) &&& 0x7F) }

@[simp] theorem get8_set8_same (f : RegisterFile) (r : Reg8) (v : UInt8) :
    (f.set8 r v).get8 r = v := by
  cases r <;> simp [get8, set8, UInt16.withHigh, UInt16.withLow]

@[simp] theorem get16_set16_same (f : RegisterFile) (r : Reg16) (v : UInt16) :
    (f.set16 r v).get16 r = v := by
  cases r <;> rfl

end RegisterFile

/-- The mode that a byte selects by its two low bits. -/
def InterruptMode.ofByte (b : UInt8) : InterruptMode :=
  match (b &&& 3).toNat with
  | 1 => .im1
  | 2 => .im2
  | _ => .im0

def InterruptMode.toByte : InterruptMode → UInt8
  | .im0 => 0
  | .im1 => 1
  | .im2 => 2

namespace Cpu

def powerOn : Cpu := { af := 0xFFFF, sp := 0xFFFF }

/-- The power-on values of what a reset reaches; the other registers keep theirs. -/
def reset (c : Cpu) : Cpu :=
  { c with
    af := 0xFFFF, sp := 0xFFFF, i := 0, r := 0, pc := 0, wz := 0, iff1 := false, iff2 := false,
    mode := .im0, halted := false, blocked := false, clock := 0, balance := 0 }

/-- The register state to be kept or shown. -/
def registers (c : Cpu) : Registers :=
  { toRegisterFile := c.toRegisterFile, im := c.mode.toByte, clock := c.clock }

/-- The processor with the given register state, neither halted nor blocked. -/
def setRegisters (c : Cpu) (r : Registers) : Cpu :=
  { c with
    toRegisterFile := r.toRegisterFile
    mode := .ofByte r.im
    clock := r.clock
    halted := false
    blocked := false }

@[inline] def mapFile (c : Cpu) (f : RegisterFile → RegisterFile) : Cpu :=
  { c with toRegisterFile := f c.toRegisterFile }

end Cpu
end Spectrum.Z80
