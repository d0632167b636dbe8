import Mathlib.Tactic.Common
import Spectrum.Proofs.Z80.Decoding
import Spectrum.Proofs.Z80.Kept

/-! # The balance of the stack

The processor counts the values that it pushes less those that it pops.  The count is kept apart
from the stack pointer, but as long as no instruction puts the stack somewhere else the one tells
the other: a value pushed or popped is two bytes.  This is so even when the count runs over, since
that changes it by a multiple of 65536.

Main definitions: `Cpu.stackBase`, `Operation.movesStack`, `Balanced`.
Main statements: `Machine.stackBase_step`, `Balanced.sp_eq`. -/

namespace Spectrum

namespace Z80

theorem emod_toInt_add (x y : Int32) :
    (x + y).toInt % 4294967296 = (x.toInt + y.toInt) % 4294967296 := by
  rw [Int32.toInt_add]
  exact Int.bmod_emod

theorem emod_toInt_sub (x y : Int32) :
    (x - y).toInt % 4294967296 = (x.toInt - y.toInt) % 4294967296 := by
  rw [Int32.toInt_sub]
  exact Int.bmod_emod

/-- Where the stack pointer would be without what has been pushed and popped. -/
def Cpu.stackBase (c : Cpu) : Int := ((c.sp.toNat : Int) + 2 * c.balance.toInt) % 65536

theorem Cpu.stackBase_congr {c c' : Cpu} (hsp : c'.sp = c.sp) (hbalance : c'.balance = c.balance) :
    c'.stackBase = c.stackBase := by
  rw [stackBase, hsp, hbalance, stackBase]

theorem Cpu.stackBase_down (c : Cpu) :
    Cpu.stackBase { c with sp := c.sp - 2, balance := c.balance + 1 } = c.stackBase := by
  have hsp := c.sp.toNat_lt
  have hbalance := emod_toInt_add c.balance 1
  have htwo : (2 : UInt16).toNat = 2 := rfl
  have hone : (1 : Int32).toInt = 1 := rfl
  simp only [stackBase, UInt16.toNat_sub, htwo]
  omega

theorem Cpu.stackBase_up (c : Cpu) :
    Cpu.stackBase { c with sp := c.sp + 2, balance := c.balance - 1 } = c.stackBase := by
  have hsp := c.sp.toNat_lt
  have hbalance := emod_toInt_sub c.balance 1
  have htwo : (2 : UInt16).toNat = 2 := rfl
  have hone : (1 : Int32).toInt = 1 := rfl
  simp only [stackBase, UInt16.toNat_add, htwo]
  omega

/-! ### Operations -/

namespace Exec

theorem cpu_writeWord (address value : UInt16) (e : Execution) :
    (writeWord address value e).2.machine.cpu = e.machine.cpu :=
  (Machine.cpu_write _ _ _).trans (Machine.cpu_write _ _ _)

theorem cpu_push (value : UInt16) (e : Execution) :
    (push value e).2.machine.cpu =
      { e.machine.cpu with sp := e.machine.cpu.sp - 2, balance := e.machine.cpu.balance + 1 } :=
  congrArg (fun c : Cpu => { c with balance := c.balance + 1 })
    (cpu_writeWord (e.machine.cpu.sp - 2) value
      { e with machine := e.machine.mapCpu fun c => { c with sp := c.sp - 2 } })

theorem cpu_pop (e : Execution) :
    (pop e).2.machine.cpu =
      { e.machine.cpu with sp := e.machine.cpu.sp + 2, balance := e.machine.cpu.balance - 1 } :=
  rfl

/-- What is the same with another value pushed or popped is kept. -/
theorem stacks_field {α : Type} (field : Cpu → α) (v : α)
    (hdown : ∀ c : Cpu, field { c with sp := c.sp - 2, balance := c.balance + 1 } = field c)
    (hup : ∀ c : Cpu, field { c with sp := c.sp + 2, balance := c.balance - 1 } = field c) :
    Stacks fun e => field e.machine.cpu = v where
  push value e h := (congrArg field (cpu_push value e)).trans ((hdown _).trans h)
  pop e h := (congrArg field (cpu_pop e)).trans ((hup _).trans h)

variable (answer : UInt16 → UInt8) (base : Int)

theorem steady_stackBase : Steady answer fun e => e.machine.cpu.stackBase = base :=
  steady_field answer Cpu.stackBase base fun _ _ h => Cpu.stackBase_congr h.sp h.balance

theorem stacks_stackBase : Stacks fun e => e.machine.cpu.stackBase = base :=
  stacks_field Cpu.stackBase base Cpu.stackBase_down Cpu.stackBase_up

end Exec

/-- Whether an operation loads the stack pointer or steps it. -/
def Operation.movesStack : Operation → Bool
  | .ldSp _ => true
  | .ldWord target _ | .ldWordDirect target _ | .incWord target | .decWord target => target == .sp
  | _ => false

namespace Substitution

variable (s : Substitution)

theorem word_ne_sp : (s.word == .sp) = false := by
  unfold word
  split
  · rfl
  · next index _ => cases index <;> rfl

theorem stackPair_ne_sp (code : Nat) : (s.stackPair code == .sp) = false := by
  unfold stackPair
  split
  · rfl
  · rfl
  · exact s.word_ne_sp
  · rfl

end Substitution

namespace Operation

theorem restacks_ofMain (s : Substitution) (opcode n₁ n₂ : UInt8) :
    (ofMain s opcode n₁ n₂).restacks = (ofMain s opcode n₁ n₂).movesStack := by
  generalize h : ofMain s opcode n₁ n₂ = op
  unfold ofMain at h
  dsimp only at h
  generalize opcode.toNat / 64 = x at h
  generalize opcode.toNat / 8 % 8 = y at h
  generalize opcode.toNat % 8 = z at h
  -- only in ADD, POP and EX the two differ, and there the register is not the stack pointer
  repeat' split at h
  all_goals first
    | (subst h; rfl)
    | (subst h; exact s.word_ne_sp)
    | (subst h; exact s.stackPair_ne_sp _)

theorem restacks_ofBits (opcode : UInt8) (place : Place) (copy : Option Reg8) :
    (ofBits opcode place copy).restacks = (ofBits opcode place copy).movesStack := by
  generalize h : ofBits opcode place copy = op
  unfold ofBits at h
  dsimp only at h
  split at h <;> (subst h; rfl)

theorem restacks_ofExtended (opcode n₁ n₂ : UInt8) :
    (ofExtended opcode n₁ n₂).restacks = (ofExtended opcode n₁ n₂).movesStack := by
  generalize h : ofExtended opcode n₁ n₂ = op
  unfold ofExtended at h
  dsimp only at h
  repeat' split at h
  all_goals (subst h; rfl)

end Operation

/-- No instruction puts the stack elsewhere than those that load or step the stack pointer. -/
theorem Instruction.restacks_decode (b₀ b₁ b₂ b₃ : UInt8) :
    (decode b₀ b₁ b₂ b₃).operation.restacks = (decode b₀ b₁ b₂ b₃).operation.movesStack := by
  have hd := decoded_decode b₀ b₁ b₂ b₃
  generalize decode b₀ b₁ b₂ b₃ = i at hd
  cases hd with
  | main | indexed => exact Operation.restacks_ofMain _ _ _ _
  | bits | indexedBits => exact Operation.restacks_ofBits _ _ _
  | extended => exact Operation.restacks_ofExtended _ _ _
  | lonePrefix => rfl

end Z80

namespace Machine

open Z80

variable (m : Machine)

/-! ### Instructions and interrupts -/

theorem stackBase_step (answer : UInt16 → UInt8)
    (h : (m.instructionAt m.cpu.pc).operation.movesStack = false) :
    (m.step answer).1.cpu.stackBase = m.cpu.stackBase := by
  have hmoves : (m.instructionAt m.cpu.pc).operation.restacks = false :=
    (Instruction.restacks_decode _ _ _ _).trans h
  have hpermitted : (m.instructionAt m.cpu.pc).operation.Permitted
      fun e => e.machine.cpu.stackBase = m.cpu.stackBase :=
    { waits := fun _ _ h => h
      roams := fun _ _ _ h => h
      usesStack := fun _ => Exec.stacks_stackBase m.cpu.stackBase
      restacks := fun h => absurd (h.symm.trans hmoves) nofun
      reseeds := fun _ _ _ h => h }
  rw [m.step_eq_carriedOut answer]
  exact Operation.keeps_execute_of_permitted (Exec.steady_stackBase answer m.cpu.stackBase)
    m.cpu.pc hpermitted (m.fetched (m.instructionAt m.cpu.pc)) rfl

theorem stackBase_resume (c : Cpu) : (resume c).stackBase = c.stackBase := by
  unfold resume
  split <;> rfl

theorem stackBase_interrupt {m : Machine} {bus : UInt8} {a : Accepted}
    (h : m.interrupt bus = .ok (some a)) : a.machine.cpu.stackBase = m.cpu.stackBase := by
  have henter := (Exec.steady_stackBase (fun _ => 0) m.cpu.stackBase).enterHandler
    (fun _ h => h) (Exec.stacks_stackBase m.cpu.stackBase) bus
  obtain rfl := eq_of_interrupt h
  exact henter _ (stackBase_resume m.cpu)

theorem stackBase_nonMaskableInterrupt :
    m.nonMaskableInterrupt.machine.cpu.stackBase = m.cpu.stackBase :=
  (Exec.steady_stackBase (fun _ => 0) m.cpu.stackBase).enterNonMaskable (fun _ h => h)
    (Exec.stacks_stackBase m.cpu.stackBase) _ (stackBase_resume m.cpu)

end Machine

namespace Z80

/-! ### Runs -/

/-- The machines that a run comes to in which the stack is not put anywhere else.  Between
instructions anything may change but the stack pointer and its count. -/
inductive Balanced (start : Machine) : Machine → Prop
  | start : Balanced start start
  | step {m : Machine} (h : Balanced start m) (answer : UInt16 → UInt8)
      (hop : (m.instructionAt m.cpu.pc).operation.movesStack = false) :
      Balanced start (m.step answer).1
  | interrupt {m : Machine} (h : Balanced start m) {bus : UInt8} {a : Accepted}
      (ha : m.interrupt bus = .ok (some a)) : Balanced start a.machine
  | nonMaskable {m : Machine} (h : Balanced start m) :
      Balanced start m.nonMaskableInterrupt.machine
  | change {m : Machine} (h : Balanced start m) (m' : Machine) (hsp : m'.cpu.sp = m.cpu.sp)
      (hbalance : m'.cpu.balance = m.cpu.balance) : Balanced start m'

variable {start m : Machine}

theorem Balanced.stackBase_eq (h : Balanced start m) : m.cpu.stackBase = start.cpu.stackBase := by
  induction h with
  | start => rfl
  | step h answer hop ih => exact (Machine.stackBase_step _ answer hop).trans ih
  | interrupt h ha ih => exact (Machine.stackBase_interrupt ha).trans ih
  | nonMaskable h ih => exact (Machine.stackBase_nonMaskableInterrupt _).trans ih
  | change h m' hsp hbalance ih => exact (Cpu.stackBase_congr hsp hbalance).trans ih

/-- The stack pointer is known from where it was and the count. -/
theorem sp_of_stackBase {c c' : Cpu} (h : c'.stackBase = c.stackBase) :
    (c'.sp.toNat : Int) =
      (c.sp.toNat - 2 * (c'.balance.toInt - c.balance.toInt)) % 65536 := by
  have hsp := c'.sp.toNat_lt
  unfold Cpu.stackBase at h
  omega

end Z80

namespace Machine

open Z80

/-- Instructions that do not put the stack somewhere else, and interrupts, move the stack pointer by
two bytes for each value that they count; so over a run of these the count tells the stack
pointer. -/
theorem stackBase_kept (m : Machine) :
    (∀ answer, (m.instructionAt m.cpu.pc).operation.movesStack = false →
      (m.step answer).1.cpu.stackBase = m.cpu.stackBase) ∧
    (∀ bus a, m.interrupt bus = .ok (some a) → a.machine.cpu.stackBase = m.cpu.stackBase) ∧
    m.nonMaskableInterrupt.machine.cpu.stackBase = m.cpu.stackBase ∧
    ∀ n, Balanced m n →
      (n.cpu.sp.toNat : Int) =
        (m.cpu.sp.toNat - 2 * (n.cpu.balance.toInt - m.cpu.balance.toInt)) % 65536 :=
  ⟨m.stackBase_step, fun _ _ => stackBase_interrupt, m.stackBase_nonMaskableInterrupt,
    fun _ h => sp_of_stackBase h.stackBase_eq⟩

/-- A machine that pushes BC, with interrupts enabled and the stack at the bottom of memory. -/
def pushing : Machine where
  cpu := { Cpu.powerOn with sp := 0, pc := 0x8000, iff1 := true, mode := .im1 }
  memory := Memory.blank.write 0x8000 0xC5

/-- The stack goes on at the top of memory, and the handler of an interrupt finds it there. -/
theorem stackBase_kept_pushing :
    (pushing.step fun _ => 0xFF).1.cpu.stackBase = pushing.cpu.stackBase ∧
    (∃ a, pushing.interrupt 0xFF = .ok (some a) ∧
      a.machine.cpu.stackBase = pushing.cpu.stackBase) ∧
    ∃ a, (pushing.step fun _ => 0xFF).1.interrupt 0xFF = .ok (some a) ∧
      a.machine.cpu.sp = 0xFFFC ∧ (a.machine.cpu.sp.toNat : Int) = (0 - 2 * (2 - 0)) % 65536 := by
  obtain ⟨hstep, hinterrupt, -, hrun⟩ := pushing.stackBase_kept
  have hop : (pushing.instructionAt pushing.cpu.pc).operation.movesStack = false := by decide
  refine ⟨hstep _ hop, ⟨_, rfl, hinterrupt 0xFF _ rfl⟩, ⟨_, rfl, rfl, ?_⟩⟩
  have ha : (pushing.step fun _ => 0xFF).1.interrupt 0xFF = .ok (some _) := rfl
  exact hrun _ (.interrupt (.step .start (fun _ => 0xFF) hop) ha)

end Machine

end Spectrum
