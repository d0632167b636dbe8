import Spectrum.Machine

/-! # Bus cycles

Running an instruction is a sequence of accesses to memory and ports, each of which takes time and
shows on the bus.  `Execution` is a machine in the middle of an instruction together with what the
instruction has cost and shown so far; an `Exec` is a piece of an instruction. -/

namespace Spectrum.Z80

/-- What an observer of the bus sees. -/
inductive BusEvent where
  | read (address : UInt16) (value : UInt8)
  | write (address : UInt16) (value : UInt8)
  | input (port : UInt16) (value : UInt8)
  | output (port : UInt16) (value : UInt8)
deriving DecidableEq, Repr

/-- A machine in the middle of an instruction, with the T-states spent so far and the events so
far, the newest first. -/
@[ext]
structure Execution where
  machine : Machine
  cost : Nat := 0
  events : List BusEvent := []

/-- A part of an instruction. -/
abbrev Exec := StateM Execution

namespace Exec

@[inline] def cpu : Exec Cpu := return (← get).machine.cpu

@[inline] def modifyCpu (f : Cpu → Cpu) : Exec Unit :=
  modify fun e => { e with machine := e.machine.mapCpu f }

@[inline] def modifyFile (f : RegisterFile → RegisterFile) : Exec Unit :=
  modifyCpu (·.mapFile f)

/-- T-states in which the bus is idle. -/
@[inline] def spend (tstates : Nat) : Exec Unit :=
  modify fun e => { e with cost := e.cost + tstates }

/-- A byte read from memory, in three T-states. -/
def readByte (address : UInt16) : Exec UInt8 :=
  modifyGet fun e =>
    let value := e.machine.read address
    (value, { e with cost := e.cost + 3, events := .read address value :: e.events })

/-- A byte written to memory, in three T-states; the write shows even where it is dropped. -/
def writeByte (address : UInt16) (value : UInt8) : Exec Unit :=
  modify fun e =>
    { machine := e.machine.write address value
      cost := e.cost + 3
      events := .write address value :: e.events }

def readWord (address : UInt16) : Exec UInt16 := do
  let low ← readByte address
  let high ← readByte (address + 1)
  return UInt16.join high low

def writeWord (address value : UInt16) : Exec Unit := do
  writeByte address value.low
  writeByte (address + 1) value.high

def input (port : UInt16) (value : UInt8) : Exec UInt8 :=
  modifyGet fun e => (value, { e with events := .input port value :: e.events })

def output (port : UInt16) (value : UInt8) : Exec Unit :=
  modify fun e => { e with events := .output port value :: e.events }

def push (value : UInt16) : Exec Unit := do
  modifyFile fun f => { f with sp := f.sp - 2 }
  writeWord (← cpu).sp value
  modifyCpu fun c => { c with balance := c.balance + 1 }

def pop : Exec UInt16 := do
  let value ← readWord (← cpu).sp
  modifyCpu fun c => { c with sp := c.sp + 2, balance := c.balance - 1 }
  return value

/-- Continue at an address, which the internal register takes up too. -/
def goto (address : UInt16) : Exec Unit :=
  modifyCpu fun c => { c with pc := address, wz := address }

def setWz (value : UInt16) : Exec Unit := modifyCpu fun c => { c with wz := value }

def setFlags (flags : Flags) : Exec Unit := modifyFile (·.setFlags flags)

def setResult (result : UInt8 × Flags) : Exec Unit := modifyFile (·.setResult result)

/-- The address of a memory operand; the internal register takes up an indexed one. -/
def address : Indirect → Exec UInt16
  | .hl => return (← cpu).hl
  | .indexed index displacement => do
    let a := (← cpu).get16 index.register + displacement.displacement
    setWz a
    return a

end Exec

/-- The T-states that computing the address of an operand adds: none for HL. -/
def Indirect.delay (p : Indirect) (tstates : Nat) : Nat :=
  match p with
  | .hl => 0
  | .indexed _ _ => tstates

def Condition.holds (f : Flags) : Condition → Bool
  | .nz => !f.z
  | .z => f.z
  | .nc => !f.c
  | .c => f.c
  | .po => !f.pv
  | .pe => f.pv
  | .p => !f.s
  | .m => f.s

end Spectrum.Z80
