import Mathlib.Tactic.Common
import Spectrum.Proofs.Z80.Fetching
import Spectrum.Z80.Report

/-! # One instruction

A step of the machine fetches the instruction at the program counter and carries it out.  The
machine in between is `Machine.fetched`; what the step does is then said by the operation alone.

Main statements: `Machine.step_eq_carriedOut`, `Machine.step_of_instruction`, and for the
instructions with a condition `Operation.execute_ret`, `Operation.execute_jr` and
`Operation.execute_jp`.  `Machine.eq_of_interrupt` is the same for an interrupt.  `Machine.ran`,
`Machine.costs` and `Machine.portReads` are about instructions in a row. -/

namespace Spectrum

open Z80

namespace Z80

/-- Whether an event is at a port, and not in memory. -/
def BusEvent.isAtPort : BusEvent → Bool
  | .input _ _ | .output _ _ => true
  | .read _ _ | .write _ _ => false

/-- A byte read from a port, with the time when the instruction that reads it starts. -/
structure PortRead where
  time : UInt64
  port : UInt16
  value : UInt8
deriving DecidableEq, Repr

/-- What is read from a port in an event of an instruction that starts at a time. -/
def BusEvent.portRead? (time : UInt64) : BusEvent → Option PortRead
  | .input port value => some { time, port, value }
  | _ => none

/-- What an instruction that starts at a time reads from ports. -/
def Executed.portReads (time : UInt64) (e : Executed) : List PortRead :=
  e.events.filterMap (BusEvent.portRead? time)

theorem Executed.portReads_eq (time : UInt64) (e : Executed) :
    e.portReads time =
      (e.events.filter BusEvent.isAtPort).filterMap (BusEvent.portRead? time) := by
  rw [List.filterMap_filter]
  refine List.filterMap_congr fun event _ => ?_
  cases event <;> rfl

end Z80

namespace Machine

/-- The machine with an instruction fetched and not yet carried out. -/
def fetched (m : Machine) (i : Instruction) : Execution where
  machine := m.mapCpu fun c =>
    { c with
      toRegisterFile :=
        { c.toRegisterFile.refresh i.page.fetches with pc := m.cpu.pc + UInt16.ofNat i.length }
      blocked := false }
  cost := 3 * i.length + i.page.fetches
  events := fetchEvents m.cpu.pc (m.bytesAt m.cpu.pc i.length) []

theorem length_bytesAt (m : Machine) (address : UInt16) (n : Nat) :
    (m.bytesAt address n).length = n := by
  induction n generalizing address with
  | zero => rfl
  | succ n ih => exact congrArg (· + 1) (ih (address + 1))

/-- The instruction that is listed at the program counter, fetched and carried out. -/
def carriedOut (m : Machine) (answer : UInt16 → UInt8) : Execution :=
  let i := m.instructionAt m.cpu.pc
  (i.operation.execute answer m.cpu.pc (m.fetched i)).2

/-- That is what a step does; at its end the clock goes on. -/
theorem step_eq_carriedOut (m : Machine) (answer : UInt16 → UInt8) :
    m.step answer =
      let done := m.carriedOut answer
      (done.machine.mapCpu fun c => { c with clock := c.clock + UInt64.ofNat done.cost },
        { address := m.cpu.pc, bytes := m.bytesAt m.cpu.pc (m.instructionAt m.cpu.pc).length
          cost := done.cost, events := done.events.reverse }) := by
  have hfetch : m.fetch = Instruction.fetchedAt m m.cpu.pc (m.instructionAt m.cpu.pc) :=
    Instruction.fetch_eq m m.cpu.pc
  unfold step
  rw [hfetch, Instruction.fetchedAt, Cursor.behind]
  dsimp only
  rw [List.reverse_reverse, length_bytesAt]
  rfl

theorem step_of_instruction {m : Machine} {i : Instruction} (answer : UInt16 → UInt8)
    (hi : m.instructionAt m.cpu.pc = i) :
    m.step answer =
      let done := (i.operation.execute answer m.cpu.pc (m.fetched i)).2
      (done.machine.mapCpu fun c => { c with clock := c.clock + UInt64.ofNat done.cost },
        { address := m.cpu.pc, bytes := m.bytesAt m.cpu.pc i.length, cost := done.cost,
          events := done.events.reverse }) := by
  subst hi
  exact m.step_eq_carriedOut answer

/-- What a step leaves and costs, from the end of the execution. -/
theorem step_of_execute {m : Machine} {i : Instruction} {done : Execution}
    (answer : UInt16 → UInt8)
    (hi : m.instructionAt m.cpu.pc = i)
    (hdone : (i.operation.execute answer m.cpu.pc (m.fetched i)).2 = done) :
    (m.step answer).1 =
        done.machine.mapCpu (fun c => { c with clock := c.clock + UInt64.ofNat done.cost }) ∧
      (m.step answer).2.cost = done.cost := by
  subst hdone
  rw [step_of_instruction answer hi]
  exact ⟨rfl, rfl⟩

theorem length_step (m : Machine) (answer : UInt16 → UInt8) :
    (m.step answer).2.length = (m.instructionAt m.cpu.pc).length := by
  rw [m.step_eq_carriedOut answer]
  exact m.length_bytesAt m.cpu.pc _

/-- An interrupt that is accepted enters its handler, out of a HALT and with interrupts
disabled. -/
theorem eq_of_interrupt {m : Machine} {bus : UInt8} {a : Accepted}
    (h : m.interrupt bus = .ok (some a)) :
    a = accepted (enterHandler bus { machine := m.mapCpu fun c =>
      { resume c with
        toRegisterFile :=
          { (resume c).toRegisterFile.refresh 1 with iff1 := false, iff2 := false } } }).2 := by
  unfold interrupt at h
  split at h
  · cases h
  · split at h
    · cases h
    · exact (Option.some.inj (Except.ok.inj h)).symm

/-! ### Instructions in a row -/

/-- The machine after some instructions in a row, given what ports return to each of them. -/
def ran (answers : Nat → UInt16 → UInt8) (m : Machine) : (n : Nat) → Machine
  | 0 => m
  | n + 1 => ((m.ran answers n).step (answers n)).1

theorem ran_add (answers : Nat → UInt16 → UInt8) (m : Machine) (i n : Nat) :
    m.ran answers (i + n) = (m.ran answers i).ran (fun k => answers (i + k)) n := by
  induction n with
  | zero => rfl
  | succ n ih =>
    rw [← Nat.add_assoc, ran, ih]
    rfl

/-- The T-states of some instructions in a row. -/
def costs (answers : Nat → UInt16 → UInt8) (m : Machine) : (n : Nat) → Nat
  | 0 => 0
  | n + 1 => m.costs answers n + ((m.ran answers n).step (answers n)).2.cost

/-- What holds before the first of some rounds and is kept by each, all at one cost. -/
theorem ran_of_rounds {m : Machine} {P : Nat → Machine → Prop} {n cost : Nat}
    (answers : Nat → UInt16 → UInt8) (hstart : P 0 m)
    (hround : ∀ k < n, ∀ s answer, P k s →
      P (k + 1) (s.step answer).1 ∧ (s.step answer).2.cost = cost) {k : Nat} (hk : k ≤ n) :
    P k (m.ran answers k) ∧ m.costs answers k = cost * k := by
  induction k with
  | zero => exact ⟨hstart, rfl⟩
  | succ k ih =>
    obtain ⟨hbefore, hcosts⟩ := ih (Nat.le_of_succ_le hk)
    obtain ⟨hafter, hcost⟩ := hround k hk _ (answers k) hbefore
    exact ⟨hafter, by rw [costs, hcosts, hcost, Nat.mul_succ]⟩

/-- What some instructions in a row read from ports. -/
def portReads (answers : Nat → UInt16 → UInt8) (m : Machine) : (n : Nat) → List PortRead
  | 0 => []
  | n + 1 =>
    let last := m.ran answers n
    m.portReads answers n ++ (last.step (answers n)).2.portReads last.cpu.clock

theorem portReads_add (answers : Nat → UInt16 → UInt8) (m : Machine) (i n : Nat) :
    m.portReads answers (i + n) =
      m.portReads answers i ++ (m.ran answers i).portReads (fun k => answers (i + k)) n := by
  induction n with
  | zero => exact (List.append_nil _).symm
  | succ n ih =>
    rw [← Nat.add_assoc, portReads, ih, m.ran_add, List.append_assoc]
    rfl

end Machine

namespace Z80.Operation

variable (answer : UInt16 → UInt8) (start : UInt16) {cc : Condition} {e : Execution} {jumps : Bool}

theorem execute_ret (h : cc.holds e.machine.cpu.flags = jumps) :
    ((ret (some cc)).execute answer start e).2 =
      if jumps then (Exec.returnFrom { e with cost := e.cost + 1 }).2
      else { e with cost := e.cost + 1 } := by
  have hx : (ret (some cc)).execute answer start e =
      (if cc.holds e.machine.cpu.flags = true then Exec.returnFrom else pure ())
        { e with cost := e.cost + 1 } := rfl
  rw [hx, h]
  cases jumps <;> rfl

theorem execute_jr (d : UInt8) (h : cc.holds e.machine.cpu.flags = jumps) :
    ((jr (some cc) d).execute answer start e).2 = if jumps then (Exec.jumpBy d e).2 else e := by
  have hx : (jr (some cc) d).execute answer start e =
      (if cc.holds e.machine.cpu.flags = true then Exec.jumpBy d else pure ()) e := rfl
  rw [hx, h]
  cases jumps <;> rfl

theorem execute_jp (a : UInt16) (h : cc.holds e.machine.cpu.flags = jumps) :
    ((jp (some cc) a).execute answer start e).2 =
      { e with
        machine := e.machine.mapCpu fun c =>
          { c with pc := if jumps then a else c.pc, wz := a } } := by
  have hx : (jp (some cc) a).execute answer start e =
      (if cc.holds e.machine.cpu.flags = true then
        (do Exec.modifyCpu fun c => { c with pc := a }; Exec.setWz a : Exec Unit)
      else Exec.setWz a) e := rfl
  rw [hx, h]
  cases jumps <;> rfl

end Z80.Operation
end Spectrum
