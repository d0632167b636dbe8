import Spectrum.Memory
import Spectrum.Z80.Registers

/-! # The machine

A machine is a processor and its address space, the bottom 16K of which may be protected as ROM.
`Machine.write` is the write that respects the protection, `Machine.load` the one that places an
image whatever is protected. -/

namespace Spectrum

open Z80

/-- A processor with the memory that it runs against. -/
structure Machine where
  cpu : Cpu := Cpu.powerOn
  memory : Memory := Memory.blank
  romProtected : Bool := false
deriving Inhabited

namespace Machine

/-- The first address above the ROM. -/
def ramStart : UInt16 := 0x4000

/-- Whether writes to an address are dropped. -/
@[inline] def isProtected (m : Machine) (address : UInt16) : Bool :=
  m.romProtected && address < ramStart

@[inline] def read (m : Machine) (address : UInt16) : UInt8 := m.memory.read address

/-- The machine after a write, which does nothing to protected memory. -/
def write (m : Machine) (address : UInt16) (value : UInt8) : Machine :=
  if m.isProtected address then m else { m with memory := m.memory.write address value }

/-- A word written low byte first. -/
def writeWord (m : Machine) (address value : UInt16) : Machine :=
  (m.write address value.low).write (address + 1) value.high

/-- An image placed at `base`, over ROM too, as far as the top of memory. -/
def load (m : Machine) (base : UInt16) (image : List UInt8) : Machine :=
  { m with memory := m.memory.load base image }

def overflows (base : UInt16) (image : List UInt8) : Bool :=
  image.length > Memory.size - base.toNat

def truncationWarning (base : UInt16) (image : List UInt8) : String :=
  s!"Image of {image.length} bytes at {base.toNat} is truncated at the top of memory"

/-- The machine about to run from an address. -/
def startAt (m : Machine) (address : UInt16) : Machine :=
  { m with cpu := { m.cpu with pc := address, halted := false } }

def reset (m : Machine) : Machine :=
  { m with cpu := m.cpu.reset, memory := Memory.blank }

def registers (m : Machine) : Registers := m.cpu.registers

def setRegisters (m : Machine) (r : Registers) : Machine :=
  { m with cpu := m.cpu.setRegisters r }

@[inline] def mapCpu (m : Machine) (f : Cpu → Cpu) : Machine := { m with cpu := f m.cpu }

theorem memory_write (m : Machine) (a : UInt16) (v : UInt8) :
    (m.write a v).memory = if m.isProtected a then m.memory else m.memory.write a v := by
  simp only [write]
  split <;> rfl

/-- What is read after a write. -/
theorem read_write (m : Machine) (a b : UInt16) (v : UInt8) :
    (m.write a v).read b = if b = a ∧ m.isProtected a = false then v else m.read b := by
  unfold read
  rw [memory_write]
  cases hp : m.isProtected a with
  | true => simp
  | false => simp [Memory.read_write, eq_comm]

@[simp] theorem cpu_write (m : Machine) (a : UInt16) (v : UInt8) : (m.write a v).cpu = m.cpu := by
  simp only [write]
  split <;> rfl

@[simp] theorem romProtected_write (m : Machine) (a : UInt16) (v : UInt8) :
    (m.write a v).romProtected = m.romProtected := by
  simp only [write]
  split <;> rfl

end Machine
end Spectrum
