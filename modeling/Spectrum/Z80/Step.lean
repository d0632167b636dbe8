import Spectrum.Text.Digits
import Spectrum.Z80.Execute
import Spectrum.Z80.Fetch

/-! # Running the processor

`Machine.step` executes the instruction at the program counter and reports what was executed;
`Machine.step?` looks first whether there is one.
`Machine.interrupt` and `Machine.nonMaskableInterrupt` accept an interrupt between instructions, and
`Machine.offer` is the former as a change of the machine in place. -/

namespace Spectrum

open Z80

namespace Z80

/-- What one instruction did: where it stood, the bytes that were fetched, the T-states it took and
what it showed on the bus, in order. -/
structure Executed where
  address : UInt16
  bytes : List UInt8
  cost : Nat
  events : List BusEvent
deriving DecidableEq, Repr, Inhabited

inductive ProcessorError where
  | unsupportedBusInstruction (byte : UInt8) (address : UInt16)
  | unhandledInstruction (opcode : UInt8) (address : UInt16)
deriving DecidableEq, Repr

def ProcessorError.address : ProcessorError → UInt16
  | .unsupportedBusInstruction _ address | .unhandledInstruction _ address => address

def ProcessorError.message : ProcessorError → String
  | .unsupportedBusInstruction byte _ =>
    s!"Unsupported IM 0 instruction on the data bus: {Text.hex8 byte}"
  | .unhandledInstruction opcode address =>
    s!"Unhandled instruction {Text.hex8 opcode} at {Text.hex16 address}"

/-- The opcode of an instruction, if it stands for nothing on its page.  The extended page has no
such opcodes: what stands for nothing there does nothing. -/
def Instruction.unhandled? (i : Instruction) : Option UInt8 :=
  match i.page, i.operation with
  | .extended, _ => none
  | _, .undefined opcode => some opcode
  | _, _ => none

/-- An accepted interrupt: the machine at the handler, the T-states it took to get there and what
showed on the bus. -/
structure Accepted where
  machine : Machine
  cost : Nat
  events : List BusEvent

end Z80

namespace Machine

def bytesAt (m : Machine) (address : UInt16) : Nat → List UInt8
  | 0 => []
  | n + 1 => m.read address :: m.bytesAt (address + 1) n

/-- The instruction that the bytes at an address are listed as. -/
def instructionAt (m : Machine) (address : UInt16) : Instruction :=
  Instruction.decode (m.read address) (m.read (address + 1)) (m.read (address + 2))
    (m.read (address + 3))

/-- The fetch of the bytes of an instruction as bus events, in front of the events so far. -/
def fetchEvents (address : UInt16) (bytes : List UInt8) (events : List BusEvent) : List BusEvent :=
  match bytes with
  | [] => events
  | b :: rest => fetchEvents (address + 1) rest (.read address b :: events)

def fetch (m : Machine) : Instruction × Cursor := Instruction.fetch m { address := m.cpu.pc }

/-- Execute the instruction at the program counter; `answer` is what ports return. -/
def step (m : Machine) (answer : UInt16 → UInt8) : Machine × Executed :=
  let start := m.cpu.pc
  let (i, behind) := m.fetch
  let bytes := behind.bytes.reverse
  let fetched : Execution :=
    { machine := m.mapCpu fun c =>
        { c with
          toRegisterFile :=
            { c.toRegisterFile.refresh behind.opcodes with pc := behind.address }
          blocked := false }
      cost := 3 * bytes.length + behind.opcodes
      events := fetchEvents start bytes [] }
  let done := (i.operation.execute answer start fetched).2
  (done.machine.mapCpu fun c => { c with clock := c.clock + UInt64.ofNat done.cost },
    { address := start, bytes := bytes, cost := done.cost, events := done.events.reverse })

/-- Execute the instruction at the program counter, unless its opcode stands for none. -/
def step? (m : Machine) (answer : UInt16 → UInt8) :
    Except ProcessorError (Machine × Executed) :=
  match m.fetch.1.unhandled? with
  | some opcode => .error (.unhandledInstruction opcode m.cpu.pc)
  | none => .ok (m.step answer)

def resume (c : Cpu) : Cpu :=
  if c.halted then { c with halted := false, pc := c.pc + 1 } else c

/-- The end of accepting an interrupt: its cost goes onto the clock. -/
def accepted (e : Execution) : Accepted :=
  { machine := e.machine.mapCpu fun c => { c with clock := c.clock + UInt64.ofNat e.cost }
    cost := e.cost
    events := e.events.reverse }

def enterHandler (bus : UInt8) : Exec Unit := do
  let c ← Exec.cpu
  Exec.push c.pc
  match c.mode with
  | .im0 => Exec.goto (bus &&& 0x38).toUInt16
  | .im1 => Exec.goto 0x38
  | .im2 => Exec.goto (← Exec.readWord (UInt16.join c.i bus))
  Exec.spend 7

/-- Offer a maskable interrupt.  It is accepted if interrupts are enabled and the last instruction
does not forbid it; in mode 0 the byte on the bus has to be a restart instruction. -/
def interrupt (m : Machine) (bus : UInt8) : Except ProcessorError (Option Accepted) :=
  if !m.cpu.iff1 || m.cpu.blocked then .ok none
  else if m.cpu.mode = .im0 ∧ bus &&& 0xC7 ≠ 0xC7 then
    .error (.unsupportedBusInstruction bus m.cpu.pc)
  else
    let ready := m.mapCpu fun c =>
      { resume c with
        toRegisterFile :=
          { (resume c).toRegisterFile.refresh 1 with iff1 := false, iff2 := false } }
    .ok (some (accepted (enterHandler bus { machine := ready }).2))

/-- Accept a maskable interrupt, one change after the other. -/
def accept (bus : UInt8) : Exec Nat := do
  Exec.modifyCpu resume
  Exec.modifyFile fun f => { f with iff1 := false, iff2 := false }
  Exec.modifyFile (·.refresh 1)
  enterHandler bus
  let cost := (← get).cost
  Exec.modifyCpu fun c => { c with clock := c.clock + UInt64.ofNat cost }
  return cost

/-- Offer a maskable interrupt to a machine that is changed in place; the result is what it costs,
and nothing if it is refused. -/
def offer (bus : UInt8) : ExceptT ProcessorError Exec Nat := do
  let c ← Exec.cpu
  if !c.iff1 || c.blocked then return 0
  else if c.mode = .im0 ∧ bus &&& 0xC7 ≠ 0xC7 then throw (.unsupportedBusInstruction bus c.pc)
  else accept bus

def nonMaskableInterrupt (m : Machine) : Accepted :=
  let ready := m.mapCpu fun c =>
    { resume c with
      toRegisterFile := { (resume c).toRegisterFile.refresh 1 with iff1 := false, iff2 := c.iff1 } }
  let enter : Exec Unit := do
    Exec.push (← Exec.cpu).pc
    Exec.goto 0x66
    Exec.spend 5
  accepted (enter { machine := ready }).2

end Machine
end Spectrum
