import Mathlib.Tactic.Common
import Spectrum.Proofs.Z80.Kept
import Spectrum.Trace.Run

/-! # Memory from its writes

An observer of the bus is told of every write to memory before it is made, of the dropped ones too.
`Memory.replay` makes the reported writes on a memory of its own, except those to a protected ROM.
The account that this gives of memory, `Accounted`, is exact: no part of an instruction writes
without telling.

`Traced` are the runs in which an observer leaves memory alone.  Between instructions it may
interrupt the processor, change it and turn the protection of the ROM on or off.

Main statements: `Machine.memory_step`, `Traced.memory_eq_replay`, `Trace.Run.traced_run`. -/

namespace Spectrum

open Z80

/-- A write that was reported, and whether the ROM was protected at the time. -/
structure WriteReport where
  romProtected : Bool
  address : UInt16
  value : UInt8
deriving DecidableEq, Repr

/-- Memory after a reported write. -/
def WriteReport.apply (memory : Memory) (w : WriteReport) : Memory :=
  if w.romProtected && w.address < 0x4000 then memory else memory.write w.address w.value

/-- Memory after reported writes in order. -/
def Memory.replay (memory : Memory) (log : List WriteReport) : Memory :=
  log.foldl WriteReport.apply memory

/-- The writes among bus events. -/
def writeReports (romProtected : Bool) (events : List BusEvent) : List WriteReport :=
  events.filterMap fun
    | .write address value => some { romProtected, address, value }
    | _ => none

namespace Memory

variable (memory : Memory)

theorem replay_append (log log' : List WriteReport) :
    memory.replay (log ++ log') = (memory.replay log).replay log' := List.foldl_append

/-- A ROM that is protected at every write stays as it is. -/
theorem read_replay_of_protected {log : List WriteReport} (h : ∀ w ∈ log, w.romProtected = true)
    {address : UInt16} (ha : address < 0x4000) :
    (memory.replay log).read address = memory.read address := by
  induction log generalizing memory with
  | nil => rfl
  | cons w log ih =>
    have hw : (w.apply memory).read address = memory.read address := by
      unfold WriteReport.apply
      rw [h w List.mem_cons_self, Bool.true_and]
      split
      · rfl
      · next hrom =>
        refine Memory.read_write_ne _ ?_ _
        rintro rfl
        exact hrom (decide_eq_true ha)
    exact (ih (w.apply memory) fun w' hw' => h w' (List.mem_cons_of_mem w hw')).trans hw

end Memory

namespace Z80

/-! ### Within an instruction -/

/-- What a machine has in memory in the middle of an instruction follows from what it had at the
start and the writes that have been shown since. -/
structure Accounted (start : Machine) (e : Execution) : Prop where
  romProtected : e.machine.romProtected = start.romProtected
  memory : e.machine.memory =
    start.memory.replay (writeReports start.romProtected e.events.reverse)

namespace Accounted

variable {start : Machine} {e : Execution}

theorem shown (h : Accounted start e) {event : BusEvent}
    (hne : writeReports start.romProtected [event] = []) :
    Accounted start { e with events := event :: e.events } where
  romProtected := h.romProtected
  memory := by
    have hevents : writeReports start.romProtected (event :: e.events).reverse =
        writeReports start.romProtected e.events.reverse := by
      rw [List.reverse_cons, writeReports, List.filterMap_append]
      exact (congrArg _ hne).trans (List.append_nil _)
    exact h.memory.trans (congrArg start.memory.replay hevents.symm)

theorem write (h : Accounted start e) (address : UInt16) (value : UInt8) :
    Accounted start { e with
      machine := e.machine.write address value, events := .write address value :: e.events } where
  romProtected := (e.machine.romProtected_write address value).trans h.romProtected
  memory := by
    have hevents :
        writeReports start.romProtected (BusEvent.write address value :: e.events).reverse =
          writeReports start.romProtected e.events.reverse ++
          [{ romProtected := start.romProtected, address, value }] := by
      rw [List.reverse_cons, writeReports, List.filterMap_append]
      rfl
    rw [hevents, Memory.replay_append, ← h.memory, Machine.memory_write, Machine.isProtected,
      h.romProtected]
    rfl

theorem stable (start : Machine) (answer : UInt16 → UInt8) :
    Exec.Stable answer (Accounted start) where
  cpu := fun _ h => ⟨h.romProtected, h.memory⟩
  cost := fun _ h => ⟨h.romProtected, h.memory⟩
  read := fun _ _ h => h.shown rfl
  write := fun address value h => h.write address value
  receive := fun _ h => h.shown rfl
  send := fun _ _ h => h.shown rfl

theorem roams (start : Machine) : Exec.Roams (Accounted start) :=
  fun _ h => ⟨h.romProtected, h.memory⟩

end Accounted

end Z80

namespace Machine

/-! ### Instructions and interrupts -/

/-- An instruction changes memory by the writes that it shows. -/
theorem memory_step (m : Machine) (answer : UInt16 → UInt8) :
    (m.step answer).1.romProtected = m.romProtected ∧
      (m.step answer).1.memory =
        m.memory.replay (writeReports m.romProtected (m.step answer).2.events) := by
  have hdone : Accounted m (m.carriedOut answer) :=
    m.kept_carriedOut answer (Accounted.stable m answer)
      (fun _ h => ⟨h.romProtected, h.memory⟩) ⟨rfl, rfl⟩
  rw [m.step_eq_carriedOut answer]
  exact ⟨hdone.romProtected, hdone.memory⟩

theorem memory_accepted {m : Machine} {e : Execution} (h : Accounted m e) :
    (accepted e).machine.romProtected = m.romProtected ∧
      (accepted e).machine.memory =
        m.memory.replay (writeReports m.romProtected (accepted e).events) :=
  ⟨h.romProtected, h.memory⟩

theorem memory_interrupt {m : Machine} {bus : UInt8} {a : Accepted}
    (h : m.interrupt bus = .ok (some a)) :
    a.machine.romProtected = m.romProtected ∧
      a.machine.memory = m.memory.replay (writeReports m.romProtected a.events) := by
  have hP := Accounted.stable m fun _ => 0
  have henter := hP.steady.enterHandler (Accounted.roams m) hP.usesStack bus
  obtain rfl := eq_of_interrupt h
  exact memory_accepted (henter _ ⟨rfl, rfl⟩)

theorem memory_nonMaskableInterrupt (m : Machine) :
    m.nonMaskableInterrupt.machine.romProtected = m.romProtected ∧
      m.nonMaskableInterrupt.machine.memory =
        m.memory.replay (writeReports m.romProtected m.nonMaskableInterrupt.events) := by
  have hP := Accounted.stable m fun _ => 0
  have henter := hP.steady.enterNonMaskable (Accounted.roams m) hP.usesStack
  exact memory_accepted (henter _ ⟨rfl, rfl⟩)

end Machine

/-! ### Runs -/

/-- The machines that a run comes to, each with the writes that its observer has been told of. -/
inductive Traced (start : Machine) : List WriteReport → Machine → Prop
  | start : Traced start [] start
  | step {log : List WriteReport} {m : Machine} (h : Traced start log m)
      (answer : UInt16 → UInt8) :
      Traced start (log ++ writeReports m.romProtected (m.step answer).2.events) (m.step answer).1
  | interrupt {log : List WriteReport} {m : Machine} (h : Traced start log m) {bus : UInt8}
      {a : Accepted} (ha : m.interrupt bus = .ok (some a)) :
      Traced start (log ++ writeReports m.romProtected a.events) a.machine
  | nonMaskable {log : List WriteReport} {m : Machine} (h : Traced start log m) :
      Traced start (log ++ writeReports m.romProtected m.nonMaskableInterrupt.events)
        m.nonMaskableInterrupt.machine
  | change {log : List WriteReport} {m : Machine} (h : Traced start log m) (cpu : Cpu) :
      Traced start log { m with cpu }
  | protect {log : List WriteReport} {m : Machine} (h : Traced start log m)
      (romProtected : Bool) : Traced start log { m with romProtected }

namespace Traced

variable {start m : Machine} {log : List WriteReport}

/-- Memory is that of the start with the reported writes. -/
theorem memory_eq (h : Traced start log m) : m.memory = start.memory.replay log := by
  induction h with
  | start => rfl
  | step h answer ih =>
    rw [Memory.replay_append, ← ih]
    exact (Machine.memory_step _ answer).2
  | interrupt h ha ih =>
    rw [Memory.replay_append, ← ih]
    exact (Machine.memory_interrupt ha).2
  | nonMaskable h ih =>
    rw [Memory.replay_append, ← ih]
    exact (Machine.memory_nonMaskableInterrupt _).2
  | change h cpu ih => exact ih
  | protect h romProtected ih => exact ih

/-- Whatever program runs, from whatever registers and address, the reported writes replayed on the
memory it was started with give the memory it comes to; and as long as the ROM is protected when
something is written, not a byte of it changes. -/
theorem memory_eq_replay {m after : Machine} {r : Registers} {pc : UInt16}
    (h : Traced ((m.setRegisters r).startAt pc) log after) :
    after.memory = m.memory.replay log ∧
      ((∀ w ∈ log, w.romProtected = true) →
        ∀ address < 0x4000, after.read address = m.read address) := by
  have hmemory : after.memory = m.memory.replay log := h.memory_eq
  refine ⟨hmemory, fun hprotected address ha => ?_⟩
  rw [Machine.read, hmemory]
  exact m.memory.read_replay_of_protected hprotected ha

/-- LD (0x3FFF),HL at 0x8000, with a protected ROM and interrupts enabled. -/
def storing : Machine where
  memory := Memory.blank.writeAll 0x8000 [0x22, 0xFF, 0x3F]
  romProtected := true

def storingRegisters : Registers where
  hl := 0xABCD
  sp := 0x0001
  iff1 := true
  im := 1

/-- The word lies half in the ROM and half above it, and the interrupt puts the program counter on
a stack that wraps round. -/
theorem memory_eq_replay_storing :
    let log : List WriteReport :=
      [⟨true, 0x3FFF, 0xCD⟩, ⟨true, 0x4000, 0xAB⟩, ⟨true, 0xFFFF, 0x03⟩, ⟨true, 0x0000, 0x80⟩]
    ∃ after : Machine,
      Traced ((storing.setRegisters storingRegisters).startAt 0x8000) log after ∧
      after.memory = storing.memory.replay log ∧
      ∀ address < 0x4000, after.read address = storing.read address := by
  let start := (storing.setRegisters storingRegisters).startAt 0x8000
  let stored := start.step fun _ => 0
  have hevents : writeReports true stored.2.events = [⟨true, 0x3FFF, 0xCD⟩, ⟨true, 0x4000, 0xAB⟩] :=
    by decide +kernel
  obtain ⟨a, ha, hpushed⟩ : ∃ a : Accepted, stored.1.interrupt 0xFF = .ok (some a) ∧
      a.events = [.write 0xFFFF 0x03, .write 0x0000 0x80] := by
    refine ⟨?_, ?_, ?_⟩
    rotate_left
    · unfold Machine.interrupt
      rw [if_neg (by decide), if_neg (by decide)]
    · decide +kernel
  have h := ((Traced.start : Traced start [] start).step fun _ => 0).interrupt ha
  have hrom : stored.1.romProtected = true := (start.memory_step _).1
  rw [hrom, show start.romProtected = true from rfl, hevents, hpushed] at h
  exact ⟨a.machine, h, (memory_eq_replay h).1, (memory_eq_replay h).2 (by decide)⟩

end Traced

namespace Trace.Run

/-- A traced run, which does not interfere, only comes to such machines. -/
theorem traced_run {start : Machine} {log : List WriteReport} (limits : Limits)
    (verbosity : Option Int) {r : Run} (h : Traced start log r.machine) (fuel : Nat) :
    ∃ log', Traced start log' (r.run limits verbosity fuel).machine := by
  induction fuel generalizing r log with
  | zero => exact ⟨log, h⟩
  | succ fuel ih =>
    have hstep : Traced start _ (r.step limits verbosity).machine := h.step fun _ => 0xFF
    rw [run]
    split
    · exact ⟨_, hstep⟩
    · exact ih hstep

end Trace.Run
end Spectrum
