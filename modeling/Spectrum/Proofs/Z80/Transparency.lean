import Mathlib.Tactic.Common
import Spectrum.Proofs.Z80.Cost
import Spectrum.Proofs.Z80.Halting
import Spectrum.Proofs.Z80.Refresh
import Spectrum.Proofs.Z80.Reports

/-! # Interrupts that go unnoticed

An interrupt pushes the program counter and goes to its handler; a return there takes both back.
Between the two nothing else has changed but the two bytes below the stack pointer, R, the interrupt
flip-flops and the clock.  An interrupt that is not accepted changes nothing at all.

Main definitions: `Machine.Entered`, `Machine.ReturnsAt`, `Machine.Restores`.
Main statements: `Machine.Entered.restores`, `Machine.run_offer`,
`Machine.interrupt_transparent`. -/

namespace Spectrum

namespace Z80

theorem Instruction.operation_of_standsAlone {b₀ b₁ : UInt8} (h : StandsAlone b₀ b₁)
    (b₂ b₃ : UInt8) : ∃ index, (decode b₀ b₁ b₂ b₃).operation = .lonePrefix index := by
  obtain ⟨rfl | rfl, rfl | rfl | rfl⟩ := h <;> exact ⟨_, rfl⟩

end Z80

namespace Machine

open Z80

/-! ### Handlers -/

/-- An interrupt has entered its handler: the program counter has been pushed, and apart from R, the
flip-flops and the clock that is all. -/
structure Entered (m : Machine) (handler : UInt16) (iff2 : Bool) (n : Machine) : Prop where
  cpu : ∃ clock, n.cpu = { m.cpu with
    pc := handler, wz := handler, sp := m.cpu.sp - 2, balance := m.cpu.balance + 1
    r := refreshed m.cpu.r 1, iff1 := false, iff2, clock }
  memory : n.memory = (m.writeWord (m.cpu.sp - 2) m.cpu.pc).memory
  romProtected : n.romProtected = m.romProtected

/-- An address at which there is a return, not where the interrupt pushes. -/
structure ReturnsAt (m : Machine) (handler : UInt16) : Prop where
  operation : (m.instructionAt handler).operation ∈ [Operation.ret none, .reti, .retn]
  apart : ∀ k < (m.instructionAt handler).length,
    handler + UInt16.ofNat k ≠ m.cpu.sp - 1 ∧ handler + UInt16.ofNat k ≠ m.cpu.sp - 2

/-- What a program can tell of an interrupt from which it has been returned to: only that R has gone
on, what the flip-flops are, and the two bytes below the stack pointer. -/
structure Restores (m n : Machine) : Prop where
  file : n.cpu.toRegisterFile = { m.cpu.toRegisterFile with
    r := n.cpu.r, iff1 := n.cpu.iff1, iff2 := n.cpu.iff2 }
  r : n.cpu.r.bit 7 = m.cpu.r.bit 7
  mode : n.cpu.mode = m.cpu.mode
  balance : n.cpu.balance = m.cpu.balance
  halted : n.cpu.halted = m.cpu.halted
  read : ∀ a, a ≠ m.cpu.sp - 1 → a ≠ m.cpu.sp - 2 → n.read a = m.read a
  romProtected : n.romProtected = m.romProtected

variable {m n : Machine} {handler : UInt16} {iff2 : Bool}

theorem bytesAt_congr {a : UInt16} {count : Nat}
    (h : ∀ k < count, n.read (a + UInt16.ofNat k) = m.read (a + UInt16.ofNat k)) :
    n.bytesAt a count = m.bytesAt a count := by
  induction count with
  | zero => rfl
  | succ count ih =>
    rw [Cursor.bytesAt_succ, Cursor.bytesAt_succ, ih fun k hk => h k (Nat.lt_succ_of_lt hk),
      h count (Nat.lt_succ_self count)]

/-- What is pushed shows in the two bytes below the stack pointer only. -/
theorem Entered.read (h : m.Entered handler iff2 n) {a : UInt16} (h1 : a ≠ m.cpu.sp - 1)
    (h2 : a ≠ m.cpu.sp - 2) : n.read a = m.read a := by
  have hnext : m.cpu.sp - 2 + 1 = m.cpu.sp - 1 := by grind
  rw [Machine.read, h.memory]
  show ((m.write _ _).write _ _).read a = m.read a
  rw [read_write, read_write, hnext, if_neg fun hc => h1 hc.1, if_neg fun hc => h2 hc.1]

theorem Entered.pc_eq (h : m.Entered handler iff2 n) : n.cpu.pc = handler := by
  obtain ⟨clock, hcpu⟩ := h.cpu
  rw [hcpu]

/-- A return that is not pushed over is found by the handler. -/
theorem ReturnsAt.instructionAt_eq (hr : m.ReturnsAt handler) (h : m.Entered handler iff2 n) :
    n.instructionAt handler = m.instructionAt handler := by
  -- only behind a prefix that stands alone would a byte count that is not its own
  refine instructionAt_congr (fun hs => ?_) (bytesAt_congr fun k hk => ?_)
  · obtain ⟨index, hop⟩ := Instruction.operation_of_standsAlone hs (m.read (handler + 2))
      (m.read (handler + 3))
    have hmem := hr.operation
    rw [Machine.instructionAt, hop] at hmem
    simp at hmem
  · exact h.read (hr.apart k hk).1 (hr.apart k hk).2

/-- Behind an interrupt and the return from it everything is as it was. -/
theorem Entered.restores (h : m.Entered handler iff2 n) (hr : m.ReturnsAt handler)
    (hlow : m.isProtected (m.cpu.sp - 2) = false) (hhigh : m.isProtected (m.cpu.sp - 1) = false)
    (answer : UInt16 → UInt8) :
    m.Restores (n.step answer).1 ∧
      (n.step answer).1.cpu.iff1 =
        (if (m.instructionAt handler).operation = .ret none then false else iff2) ∧
      (n.step answer).1.cpu.iff2 = iff2 := by
  have hat := hr.instructionAt_eq h
  have hpc := h.pc_eq
  have hread := fun a => h.read (a := a)
  obtain ⟨⟨clock, hcpu⟩, hmemory, hrom⟩ := h
  have hsp : n.cpu.sp = m.cpu.sp - 2 := by rw [hcpu]
  have hnext : m.cpu.sp - 2 + 1 = m.cpu.sp - 1 := by grind
  have hback : m.cpu.sp - 2 + 2 = m.cpu.sp := by grind
  -- what the return pops is what was pushed, also where the stack wraps
  have hword : n.memory.readWord n.cpu.sp = m.cpu.pc := by
    rw [hsp, hmemory, readWord_writeWord m.cpu.pc hlow (hnext ▸ hhigh)]
  have hreturns : n.Returns := by
    rw [Returns, hpc, hat]
    exact hr.operation
  obtain ⟨clock', hstep⟩ := machine_step_of_returns hreturns answer
  rw [hword, hsp, hback, hpc, hat, hcpu] at hstep
  rw [hstep]
  refine ⟨⟨rfl, ?_, rfl, ?_, rfl, ?_, hrom⟩, rfl, rfl⟩
  · exact RefreshesTo.bit_eq (RefreshesTo.trans ⟨1, rfl⟩ ⟨_, rfl⟩)
  · exact Int32.add_sub_cancel _ _
  · exact fun a h1 h2 => hread a h1 h2

/-! ### Entering a handler -/

/-- The machine about to push the program counter for an interrupt. -/
def ready (m : Machine) (iff2 : Bool) : Machine :=
  m.mapCpu fun c => { c with r := refreshed c.r 1, iff1 := false, iff2 }

theorem handlerAddress_ready (m : Machine) (iff2 : Bool) (bus : UInt8) :
    (m.ready iff2).handlerAddress bus = m.handlerAddress bus := by
  unfold handlerAddress
  rw [memory_writeWord, memory_writeWord]
  rfl

theorem entered_of_push {e : Execution}
    (he : e.machine = (Exec.push m.cpu.pc { machine := m.ready iff2 }).2.machine.mapCpu fun c =>
      { c with pc := handler, wz := handler }) :
    m.Entered handler iff2 (accepted e).machine where
  cpu := by
    have hcpu := congrArg (·.cpu) he
    dsimp only [mapCpu] at hcpu
    rw [Exec.cpu_push] at hcpu
    exact ⟨_, congrArg (fun c : Cpu => { c with clock := c.clock + UInt64.ofNat e.cost }) hcpu⟩
  memory := by
    have hmemory := congrArg (·.memory) he
    dsimp only [mapCpu] at hmemory
    rw [Exec.memory_push, memory_writeWord] at hmemory
    rw [memory_writeWord]
    exact hmemory
  romProtected := by
    have hrom := congrArg (·.romProtected) he
    dsimp only [mapCpu] at hrom
    rw [Exec.romProtected_push] at hrom
    exact hrom

theorem resume_of_running (h : m.cpu.halted = false) : resume m.cpu = m.cpu := by
  rw [resume, h]
  rfl

/-- A maskable interrupt that is accepted enters its handler with both flip-flops clear. -/
theorem entered_of_interrupt (hm : m.cpu.halted = false) {bus : UInt8} {a : Accepted}
    (h : m.interrupt bus = .ok (some a)) :
    m.Entered (m.handlerAddress bus) false a.machine := by
  obtain rfl := eq_of_interrupt h
  have hready : (m.mapCpu fun c =>
      { resume c with
        toRegisterFile :=
          { (resume c).toRegisterFile.refresh 1 with iff1 := false, iff2 := false } }) =
      m.ready false := by
    dsimp only [mapCpu]
    rw [resume_of_running hm]
    rfl
  rw [hready]
  have henter := Exec.machine_enterHandler bus { machine := m.ready false }
  rw [handlerAddress_ready] at henter
  exact entered_of_push henter

/-- A non-maskable interrupt keeps the first flip-flop in the second. -/
theorem entered_of_nonMaskable (hm : m.cpu.halted = false) :
    m.Entered 0x66 m.cpu.iff1 m.nonMaskableInterrupt.machine := by
  have hready : (m.mapCpu fun c =>
      { resume c with
        toRegisterFile :=
          { (resume c).toRegisterFile.refresh 1 with iff1 := false, iff2 := c.iff1 } }) =
      m.ready m.cpu.iff1 := by
    dsimp only [mapCpu]
    rw [resume_of_running hm]
    rfl
  unfold nonMaskableInterrupt
  rw [hready]
  exact entered_of_push (Exec.machine_enterNonMaskable { machine := m.ready m.cpu.iff1 })

/-- An interrupt is accepted exactly if it is enabled, none has to wait, and in mode 0 there is a
restart on the bus. -/
theorem exists_interrupt_iff {bus : UInt8} :
    (∃ a, m.interrupt bus = .ok (some a)) ↔ m.cpu.iff1 = true ∧ m.cpu.blocked = false ∧
      (m.cpu.mode = .im0 → bus &&& 0xC7 = 0xC7) := by
  unfold interrupt
  split
  · next h =>
    refine iff_of_false (fun ⟨_, ha⟩ => ?_) fun hi => ?_
    · cases ha
    · rw [hi.1, hi.2.1] at h
      exact absurd h (by decide)
  · next h =>
    simp only [Bool.or_eq_true, Bool.not_eq_true', not_or, Bool.not_eq_false,
      Bool.not_eq_true] at h
    split
    · next hbus =>
      refine iff_of_false (fun ⟨_, ha⟩ => ?_) fun hi => hbus.2 (hi.2.2 hbus.1)
      cases ha
    · next hbus =>
      refine iff_of_true ⟨_, rfl⟩ ⟨h.1, h.2, fun hmode => ?_⟩
      exact by_contra fun hne => hbus ⟨hmode, hne⟩

/-! ### Offering an interrupt -/

theorem accept_eq (m : Machine) (bus : UInt8) :
    accept bus { machine := m } =
      let a := accepted (enterHandler bus { machine := m.mapCpu fun c =>
        { resume c with
          toRegisterFile :=
            { (resume c).toRegisterFile.refresh 1 with iff1 := false, iff2 := false } } }).2
      (a.cost, { machine := a.machine, cost := a.cost, events := a.events.reverse }) := by
  obtain ⟨⟨file, mode, clock, wz, halted, blocked, balance⟩, memory, romProtected⟩ := m
  cases mode <;> cases halted <;> rfl

theorem run_offer (m : Machine) (bus : UInt8) :
    (offer bus).run { machine := m } =
      match m.interrupt bus with
      | .error error => (.error error, { machine := m })
      | .ok none => (.ok 0, { machine := m })
      | .ok (some a) =>
        (.ok a.cost, { machine := a.machine, cost := a.cost, events := a.events.reverse }) := by
  have hoffer : (offer bus).run { machine := m } =
      (if (!m.cpu.iff1 || m.cpu.blocked) = true then (pure 0 : ExceptT ProcessorError Exec Nat)
      else if m.cpu.mode = .im0 ∧ bus &&& 0xC7 ≠ 0xC7 then
        throw (.unsupportedBusInstruction bus m.cpu.pc)
      else accept bus) { machine := m } := rfl
  rw [hoffer, interrupt]
  split
  · rfl
  · split
    · rfl
    · exact congrArg (fun done => ((.ok done.1 : Except ProcessorError Nat), done.2))
        (accept_eq m bus)

/-- To accept an interrupt takes 13 T-states, and six more to read a vector. -/
theorem cost_enterHandler (bus : UInt8) (e : Execution) :
    (enterHandler bus e).2.cost =
      e.cost + if e.machine.cpu.mode = .im2 then 19 else 13 := by
  obtain ⟨⟨⟨file, mode, clock, wz, halted, blocked, balance⟩, memory, romProtected⟩, cost,
    events⟩ := e
  cases mode <;> rfl

theorem cost_interrupt_ne_zero {bus : UInt8} {a : Accepted} (h : m.interrupt bus = .ok (some a)) :
    a.cost ≠ 0 := by
  obtain rfl := eq_of_interrupt h
  rw [accepted, cost_enterHandler]
  split <;> simp

/-- If an offered interrupt costs nothing or is an error, it has changed nothing. -/
theorem eq_of_run_offer {bus : UInt8} {result : Except ProcessorError Nat} {e : Execution}
    (h : (offer bus).run { machine := m } = (result, e))
    (hresult : result = .ok 0 ∨ ∃ error, result = .error error) : e = { machine := m } := by
  rw [run_offer] at h
  split at h
  · exact (congrArg Prod.snd h).symm
  · exact (congrArg Prod.snd h).symm
  · next a ha =>
    obtain rfl := congrArg Prod.fst h
    obtain hzero | ⟨error, herror⟩ := hresult
    · exact absurd (Except.ok.inj hzero) (cost_interrupt_ne_zero ha)
    · cases herror

/-- A program does not notice an interrupt.  If it is not waiting in a HALT, and a return is the
whole of the handler, then after the return the program goes on where it was, and only R without its
top bit, the flip-flops and the two bytes below its stack pointer may differ; a maskable interrupt
leaves both flip-flops clear, and after RETN from a non-maskable one the first is what it was.
An interrupt that is offered and refused has changed nothing at all. -/
theorem interrupt_transparent (m : Machine) :
    (∀ bus, (∃ a, m.interrupt bus = .ok (some a)) ↔ m.cpu.iff1 = true ∧ m.cpu.blocked = false ∧
      (m.cpu.mode = .im0 → bus &&& 0xC7 = 0xC7)) ∧
    (m.cpu.halted = false →
      m.isProtected (m.cpu.sp - 2) = false → m.isProtected (m.cpu.sp - 1) = false →
      ∀ answer : UInt16 → UInt8,
        (∀ bus a, m.interrupt bus = .ok (some a) →
          a.machine.cpu.pc = m.handlerAddress bus ∧
          (m.ReturnsAt (m.handlerAddress bus) →
            ∃ n executed, a.machine.step? answer = .ok (n, executed) ∧
              m.Restores n ∧ n.cpu.iff1 = false ∧ n.cpu.iff2 = false)) ∧
        m.nonMaskableInterrupt.machine.cpu.pc = 0x66 ∧
        (m.ReturnsAt 0x66 →
          ∃ n executed, m.nonMaskableInterrupt.machine.step? answer = .ok (n, executed) ∧
            m.Restores n ∧
            ((m.instructionAt 0x66).operation = .retn → n.cpu.iff1 = m.cpu.iff1))) ∧
    (∀ bus,
      ((offer bus).run { machine := m } =
        match m.interrupt bus with
        | .error error => (.error error, { machine := m })
        | .ok none => (.ok 0, { machine := m })
        | .ok (some a) =>
          (.ok a.cost, { machine := a.machine, cost := a.cost, events := a.events.reverse })) ∧
      ∀ result e, (offer bus).run { machine := m } = (result, e) →
        (result = .ok 0 ∨ ∃ error, result = .error error) → e = { machine := m }) := by
  refine ⟨fun _ => exists_interrupt_iff, fun hrunning hlow hhigh answer => ⟨?_, ?_, ?_⟩,
    fun bus => ⟨m.run_offer bus, fun _ _ => eq_of_run_offer⟩⟩
  · intro bus a ha
    have hentered := entered_of_interrupt hrunning ha
    refine ⟨hentered.pc_eq, fun hr => ?_⟩
    obtain ⟨hrestores, h1, h2⟩ := hentered.restores hr hlow hhigh answer
    exact ⟨_, _, step?_eq_step _ answer, hrestores, h1.trans (ite_self false), h2⟩
  · exact (entered_of_nonMaskable hrunning).pc_eq
  · intro hr
    obtain ⟨hrestores, h1, -⟩ := (entered_of_nonMaskable hrunning).restores hr hlow hhigh answer
    refine ⟨_, _, step?_eq_step _ answer, hrestores, fun hretn => h1.trans ?_⟩
    rw [hretn, if_neg (by nofun)]

/-- A machine whose stack wraps, with a RETI and a RETN for handlers.  The program counter is pushed
over the second half of the vector at FFFE. -/
def wrappedStack : Machine where
  cpu := { Cpu.powerOn with sp := 1, pc := 0x8012, i := 0xFF, iff1 := true, mode := .im2 }
  memory :=
    ((Memory.blank.write 0xFFFE 0x34).writeAll 0x1234 [0xED, 0x4D]).writeAll 0x66 [0xED, 0x45]

/-- It comes back from both handlers. -/
theorem interrupt_transparent_wrappedStack :
    let m := wrappedStack
    m.cpu.halted = false ∧ m.isProtected (m.cpu.sp - 2) = false ∧
      m.isProtected (m.cpu.sp - 1) = false ∧
      m.ReturnsAt 0x1234 ∧ m.ReturnsAt 0x66 ∧
      (∃ a n executed, m.interrupt 0xFE = .ok (some a) ∧ a.machine.cpu.pc = 0x1234 ∧
        a.machine.step? (fun _ => 0xFF) = .ok (n, executed) ∧
        m.Restores n ∧ n.cpu.iff1 = false ∧ n.cpu.iff2 = false) ∧
      ∃ n executed, m.nonMaskableInterrupt.machine.step? (fun _ => 0xFF) = .ok (n, executed) ∧
        m.Restores n ∧ n.cpu.iff1 = true := by
  intro m
  have hlow : m.isProtected (m.cpu.sp - 2) = false := by decide +kernel
  have hhigh : m.isProtected (m.cpu.sp - 1) = false := by decide +kernel
  have haddress : m.handlerAddress 0xFE = 0x1234 := by decide +kernel
  have hreti : m.ReturnsAt 0x1234 := ⟨by decide +kernel, by decide +kernel⟩
  have hretn : m.ReturnsAt 0x66 := ⟨by decide +kernel, by decide +kernel⟩
  obtain ⟨haccepts, htransparent, -⟩ := m.interrupt_transparent
  obtain ⟨hmaskable, -, hnonMaskable⟩ := htransparent rfl hlow hhigh fun _ => 0xFF
  obtain ⟨a, ha⟩ := (haccepts 0xFE).mpr ⟨rfl, rfl, nofun⟩
  obtain ⟨hpc, hback⟩ := hmaskable 0xFE a ha
  rw [haddress] at hpc hback
  obtain ⟨n, executed, hn⟩ := hback hreti
  obtain ⟨n', executed', hn', hrestores, hiff⟩ := hnonMaskable hretn
  exact ⟨rfl, hlow, hhigh, hreti, hretn, ⟨a, n, executed, ha, hpc, hn⟩,
    n', executed', hn', hrestores, hiff (by decide +kernel)⟩

end Machine
end Spectrum
