import Mathlib.Tactic.Common
import Spectrum.Proofs.Z80.Halting
import Spectrum.Proofs.Z80.Operands
import Spectrum.Proofs.Z80.Replay

/-! # The machine after a reset

A machine is taken through whatever can happen to it and then reset.  What comes out is a machine
that has just been made, but for nine register pairs in which it still has what it came to.  A
program can push each of them on the stack, so none goes unnoticed; a program that sets the
registers first notices none.

Main definitions: `Machine.Act`, `Machine.after`, `Leftover`.
Main statement: `Machine.reset_after`. -/

namespace Spectrum

open Z80

namespace Machine

/-- What can happen to a machine.  A change of the processor is a setting of registers of any kind;
`answer` is what ports return to an instruction and `bus` the byte on the bus of an interrupt. -/
inductive Act
  | load (base : UInt16) (image : List UInt8)
  | write (address : UInt16) (value : UInt8)
  | change (f : Cpu → Cpu)
  | step (answer : UInt16 → UInt8)
  | interrupt (bus : UInt8)
  | nonMaskable

/-- The machine that comes of it.  An interrupt that is not accepted, or that the processor cannot
take, leaves it as it is. -/
def Act.apply (m : Machine) : Act → Machine
  | load base image => m.load base image
  | write address value => m.write address value
  | change f => m.mapCpu f
  | step answer => (m.step answer).1
  | interrupt bus =>
    match m.interrupt bus with
    | .ok (some a) => a.machine
    | .ok none | .error _ => m
  | nonMaskable => m.nonMaskableInterrupt.machine

/-- The machine after all that has happened to it, in order. -/
def after (m : Machine) (acts : List Act) : Machine := acts.foldl Act.apply m

theorem Act.romProtected_apply (m : Machine) (act : Act) :
    (act.apply m).romProtected = m.romProtected := by
  cases act with
  | load base image => rfl
  | write address value => exact m.romProtected_write address value
  | change f => rfl
  | step answer => exact (m.memory_step answer).1
  | interrupt bus =>
    simp only [apply]
    split
    · next a ha => exact (memory_interrupt ha).1
    · rfl
    · rfl
  | nonMaskable => exact m.memory_nonMaskableInterrupt.1

theorem romProtected_after (m : Machine) (acts : List Act) :
    (m.after acts).romProtected = m.romProtected := by
  induction acts generalizing m with
  | nil => rfl
  | cons act acts ih => exact (ih (act.apply m)).trans (act.romProtected_apply m)

end Machine

namespace Z80

/-! ### What a reset leaves -/

/-- The register pairs that a reset does not reach. -/
inductive Leftover
  | bc | de | hl | ix | iy | af' | bc' | de' | hl'
deriving DecidableEq, Repr

namespace Leftover

/-- What is in the pair. -/
def get (f : RegisterFile) : Leftover → UInt16
  | bc => f.bc
  | de => f.de
  | hl => f.hl
  | ix => f.ix
  | iy => f.iy
  | af' => f.af'
  | bc' => f.bc'
  | de' => f.de'
  | hl' => f.hl'

/-- The instruction that exchanges an alternate pair with one that can be pushed. -/
def exchange : Leftover → Operation
  | bc | de | hl | ix | iy => .nop
  | af' => .exAf
  | bc' | de' | hl' => .exx

/-- The register in which the pair is then found. -/
def source : Leftover → Reg16
  | bc | bc' => .bc
  | de | de' => .de
  | hl | hl' => .hl
  | ix => .ix
  | iy => .iy
  | af' => .af

/-- The two instructions that exchange and push the pair. -/
def code : Leftover → List UInt8
  | bc => [0x00, 0xC5]
  | de => [0x00, 0xD5]
  | hl => [0x00, 0xE5]
  | ix => [0x00, 0xDD, 0xE5]
  | iy => [0x00, 0xFD, 0xE5]
  | af' => [0x08, 0xF5]
  | bc' => [0xD9, 0xC5]
  | de' => [0xD9, 0xD5]
  | hl' => [0xD9, 0xE5]

/-- The program that they are. -/
def probe (k : Leftover) : List Machine.Act :=
  [.load 0 k.code, .step fun _ => 0, .step fun _ => 0]

end Leftover

/-- A reset processor is one that has just been switched on when nothing is left over. -/
theorem Cpu.reset_eq_powerOn_iff (c : Cpu) :
    c.reset = Cpu.powerOn ↔ ∀ k : Leftover, k.get c.toRegisterFile = 0 := by
  constructor
  · intro h k
    have hfile : c.reset.toRegisterFile = Cpu.powerOn.toRegisterFile := congrArg _ h
    have hk : k.get c.reset.toRegisterFile = k.get Cpu.powerOn.toRegisterFile :=
      congrArg k.get hfile
    cases k <;> exact hk
  · intro h
    have hbc : c.bc = 0 := h .bc
    have hde : c.de = 0 := h .de
    have hhl : c.hl = 0 := h .hl
    have hix : c.ix = 0 := h .ix
    have hiy : c.iy = 0 := h .iy
    have haf' : c.af' = 0 := h .af'
    have hbc' : c.bc' = 0 := h .bc'
    have hde' : c.de' = 0 := h .de'
    have hhl' : c.hl' = 0 := h .hl'
    rw [reset, hbc, hde, hhl, hix, hiy, haf', hbc', hde', hhl']
    rfl

end Z80

namespace Machine

/-! ### Seeing it -/

variable {m : Machine} {k : Leftover}

theorem step_exchange (answer : UInt16 → UInt8)
    (hi : m.instructionAt m.cpu.pc = ⟨.main, k.exchange⟩) :
    let n := (m.step answer).1
    n.memory = m.memory ∧ n.romProtected = m.romProtected ∧ n.cpu.pc = m.cpu.pc + 1 ∧
      n.cpu.sp = m.cpu.sp ∧ n.cpu.get16 k.source = k.get m.cpu.toRegisterFile := by
  rw [step_of_instruction answer hi]
  cases k <;> exact ⟨rfl, rfl, rfl, rfl, rfl⟩

theorem readWord_step_push (answer : UInt16 → UInt8) {r : Reg16}
    (hi : (m.instructionAt m.cpu.pc).operation = .push r)
    (hlow : m.isProtected (m.cpu.sp - 2) = false)
    (hhigh : m.isProtected (m.cpu.sp - 2 + 1) = false) :
    (m.step answer).1.memory.readWord (m.cpu.sp - 2) = m.cpu.get16 r := by
  let e : Execution := (Exec.spend 1 (m.fetched (m.instructionAt m.cpu.pc))).2
  have hstep : (m.step answer).1.memory =
      (Exec.push (e.machine.cpu.get16 r) e).2.machine.memory := by
    rw [step_of_instruction answer rfl, hi]
    rfl
  rw [hstep, Exec.memory_push]
  exact (readWord_writeWord (m := e.machine) _ hlow hhigh).trans (get16_fetched m _ r)

theorem instructionAt_code (hm : m.memory = Memory.blank.load 0 k.code) :
    m.instructionAt 0 = ⟨.main, k.exchange⟩ ∧ (m.instructionAt 1).operation = .push k.source := by
  unfold instructionAt read
  rw [hm]
  cases k <;> decide +kernel

/-- The program for a pair leaves what was in it on the stack. -/
theorem readWord_probe (k : Leftover) (c : Cpu) (romProtected : Bool) :
    (({ cpu := c.reset, romProtected } : Machine).after k.probe).memory.readWord 0xFFFD =
      k.get c.toRegisterFile := by
  let loaded : Machine :=
    { cpu := c.reset, memory := Memory.blank.load 0 k.code, romProtected }
  obtain ⟨hmemory, -, hpc, hsp, hsource⟩ :=
    step_exchange (m := loaded) (fun _ => 0) (instructionAt_code rfl).1
  let n : Machine := (loaded.step fun _ => 0).1
  have hi : (n.instructionAt n.cpu.pc).operation = .push k.source := by
    rw [show n.cpu.pc = 1 from hpc]
    exact (instructionAt_code hmemory).2
  have htop : n.cpu.sp - 2 = 0xFFFD := by
    rw [show n.cpu.sp = 0xFFFF from hsp]
    rfl
  have hfree (a : UInt16) (ha : (decide (a < ramStart)) = false) : n.isProtected a = false := by
    rw [isProtected, ha, Bool.and_false]
  have hpush := readWord_step_push (m := n) (fun _ => 0) hi (hfree _ (htop ▸ rfl))
    (hfree _ (htop ▸ rfl))
  rw [htop] at hpush
  refine hpush.trans (hsource.trans ?_)
  cases k <;> rfl

/-- After anything that can happen to a machine, a reset gives a machine that has just been made,
with the same protection of the ROM, but for what the nine pairs held.  It is that machine exactly
when they held zeros, and just then no program leaves anything else in memory.  Once all registers
have been set, no program runs differently. -/
theorem reset_after (romProtected : Bool) (history : List Act) :
    let fresh : Machine := { romProtected }
    let m := fresh.after history
    m.reset =
        { fresh with
          cpu :=
            { Cpu.powerOn with
              bc := m.cpu.bc, de := m.cpu.de, hl := m.cpu.hl, ix := m.cpu.ix, iy := m.cpu.iy,
              af' := m.cpu.af', bc' := m.cpu.bc', de' := m.cpu.de', hl' := m.cpu.hl' } } ∧
      (m.reset = fresh ↔ ∀ k : Leftover, k.get m.cpu.toRegisterFile = 0) ∧
      ((∀ program, (m.reset.after program).memory = (fresh.after program).memory) ↔
        ∀ k : Leftover, k.get m.cpu.toRegisterFile = 0) ∧
      ∀ r program,
        (m.reset.setRegisters r).after program = (fresh.setRegisters r).after program := by
  intro fresh m
  have hreset : m.reset = { cpu := m.cpu.reset, romProtected } := by
    rw [reset, fresh.romProtected_after history]
  have hfresh : m.reset = fresh ↔ ∀ k : Leftover, k.get m.cpu.toRegisterFile = 0 := by
    rw [← m.cpu.reset_eq_powerOn_iff, hreset]
    exact ⟨congrArg Machine.cpu, fun h => by rw [h]⟩
  refine ⟨hreset, hfresh, ⟨fun h k => ?_, fun h program => ?_⟩, fun r program => ?_⟩
  · have hleft := congrArg (Memory.readWord · 0xFFFD) (h k.probe)
    rw [hreset] at hleft
    have hnone : k.get Cpu.powerOn.toRegisterFile = 0 := by cases k <;> rfl
    exact ((readWord_probe k m.cpu romProtected).symm.trans hleft).trans
      ((readWord_probe k Cpu.powerOn romProtected).trans hnone)
  · rw [hfresh.mpr h]
  · rw [hreset]
    rfl

/-- LD BC,0x1234 is executed at the bottom of memory, and the reset leaves 0x1234 in BC. -/
theorem not_forall_reset_after :
    ¬ ∀ (romProtected : Bool) (history : List Act),
      let fresh : Machine := { romProtected }
      (fresh.after history).reset = fresh := by
  intro h
  have hbc := congrArg (fun m : Machine => m.cpu.bc)
    (h false [.load 0 [0x01, 0x34, 0x12], .step fun _ => 0])
  exact absurd hbc (by decide +kernel)

end Machine
end Spectrum
