import Mathlib.Tactic.Common
import Spectrum.Proofs.Z80.Stack

/-! # Waiting in a HALT

A HALT leaves the program counter on its first byte and executes again, until an interrupt is
accepted; then the byte behind the program counter is where the program goes on.  For a HALT of one
byte that is behind the instruction.  With an index prefix in front it is the HALT itself, in which
the program waits for another interrupt.

Main definition: `Accepted.ResumesAt`.
Main statements: `Machine.machine_step_of_returns`, `Machine.exists_parked`,
`Machine.resumes_behind_first_byte`. -/

namespace Spectrum

namespace Z80

/-! ### The bytes of a HALT -/

namespace Operation

theorem eq_of_ofMain_eq_halt {s : Substitution} {opcode n₁ n₂ : UInt8}
    (h : ofMain s opcode n₁ n₂ = .halt) : opcode = 0x76 := by
  have hf := eq_of_fields opcode
  unfold ofMain at h
  dsimp only at h
  generalize opcode.toNat / 64 = x at h hf
  generalize opcode.toNat / 8 % 8 = y at h hf
  generalize opcode.toNat % 8 = z at h hf
  repeat' split at h
  all_goals try (cases h; done)
  -- it is what stands for loading memory from itself
  obtain rfl : y = 6 := by grind
  obtain rfl : z = 6 := by grind
  exact hf

end Operation

namespace Instruction

/-- A HALT is one byte, or two with an index prefix. -/
theorem bytes_of_halt {b₀ b₁ b₂ b₃ : UInt8} (h : (decode b₀ b₁ b₂ b₃).operation = .halt) :
    b₀ = 0x76 ∧ (decode b₀ b₁ b₂ b₃).length = 1 ∨
      (b₀ = 0xDD ∨ b₀ = 0xFD) ∧ b₁ = 0x76 ∧ (decode b₀ b₁ b₂ b₃).length = 2 := by
  revert h
  refine decode_cases (P := fun i => i.operation = .halt → b₀ = 0x76 ∧ i.length = 1 ∨
    (b₀ = 0xDD ∨ b₀ = 0xFD) ∧ b₁ = 0x76 ∧ i.length = 2) ?main ?bits ?extended ?lone ?indexed
      ?indexedBits
  case main =>
    intro _ h
    refine .inl ⟨Operation.eq_of_ofMain_eq_halt h, ?_⟩
    rw [length, h]
    rfl
  case indexed =>
    intro index hi _ h
    refine .inr ⟨Index.eq_of_ofByte? hi, Operation.eq_of_ofMain_eq_halt h, ?_⟩
    rw [length, h]
    rfl
  case bits => exact fun _ h => absurd h (Operation.ofBits_ne rfl _ _ _)
  case extended => exact fun _ h => absurd h (Operation.ofExtended_ne rfl _ _ _)
  case lone =>
    intro _ _ _ h
    cases h
  case indexedBits => exact fun _ _ _ _ h => absurd h (Operation.ofBits_ne rfl _ _ _)

end Instruction

end Z80

/-! ### Words on the stack -/

namespace Machine

open Z80

theorem memory_writeWord (m : Machine) (a v : UInt16) :
    (m.writeWord a v).memory =
      let memory := if m.isProtected a then m.memory else m.memory.write a v.low
      if m.isProtected (a + 1) then memory else memory.write (a + 1) v.high := by
  rw [writeWord, memory_write, memory_write, isProtected, romProtected_write]
  rfl

theorem readWord_writeWord {m : Machine} {a : UInt16} (v : UInt16) (hlow : m.isProtected a = false)
    (hhigh : m.isProtected (a + 1) = false) : (m.writeWord a v).memory.readWord a = v := by
  have hne : a + 1 ≠ a := by simp
  rw [memory_writeWord, hlow, hhigh, Memory.readWord]
  simp only [Bool.false_eq_true, if_false]
  rw [Memory.read_write_same, Memory.read_write_ne _ hne, Memory.read_write_same,
    UInt16.join_high_low]

/-- The address of the handler of a maskable interrupt.  In mode 2 it is read from memory, where the
program counter has been pushed already. -/
def handlerAddress (m : Machine) (bus : UInt8) : UInt16 :=
  match m.cpu.mode with
  | .im0 => (bus &&& 0x38).toUInt16
  | .im1 => 0x38
  | .im2 => (m.writeWord (m.cpu.sp - 2) m.cpu.pc).memory.readWord (UInt16.join m.cpu.i bus)

end Machine

namespace Z80.Exec

theorem memory_push (value : UInt16) (e : Execution) :
    (push value e).2.machine.memory =
      (e.machine.writeWord (e.machine.cpu.sp - 2) value).memory := by
  rw [Machine.memory_writeWord]
  exact Machine.memory_writeWord _ _ _

theorem romProtected_push (value : UInt16) (e : Execution) :
    (push value e).2.machine.romProtected = e.machine.romProtected :=
  (Machine.romProtected_write _ _ _).trans (Machine.romProtected_write _ _ _)

/-- The handler is entered with the program counter on the stack. -/
theorem machine_enterHandler (bus : UInt8) (e : Execution) :
    (Machine.enterHandler bus e).2.machine =
      (push e.machine.cpu.pc e).2.machine.mapCpu fun c =>
        { c with pc := e.machine.handlerAddress bus, wz := e.machine.handlerAddress bus } := by
  unfold Machine.handlerAddress
  rw [← memory_push]
  obtain ⟨⟨⟨file, mode, clock, wz, halted, blocked, balance⟩, memory, romProtected⟩, cost,
    events⟩ := e
  cases mode <;> rfl

theorem machine_enterNonMaskable (e : Execution) :
    ((do push (← cpu).pc; goto 0x66; spend 5 : Exec Unit) e).2.machine =
      (push e.machine.cpu.pc e).2.machine.mapCpu fun c => { c with pc := 0x66, wz := 0x66 } := rfl

end Z80.Exec

/-! ### Coming back -/

namespace Z80

/-- A return pops the program counter, and RETI and RETN copy the second flip-flop to the first. -/
theorem Operation.machine_return {op : Operation} (h : op ∈ [Operation.ret none, .reti, .retn])
    (answer : UInt16 → UInt8) (start : UInt16) (e : Execution) :
    (op.execute answer start e).2.machine = { e.machine with
      cpu := { e.machine.cpu with
        pc := e.machine.memory.readWord e.machine.cpu.sp
        wz := e.machine.memory.readWord e.machine.cpu.sp
        sp := e.machine.cpu.sp + 2, balance := e.machine.cpu.balance - 1
        iff1 := if op = .ret none then e.machine.cpu.iff1 else e.machine.cpu.iff2 } } := by
  simp only [List.mem_cons, List.not_mem_nil, or_false] at h
  rcases h with rfl | rfl | rfl
  · rw [if_pos rfl]
    rfl
  · rw [if_neg (by nofun)]
    rfl
  · rw [if_neg (by nofun)]
    rfl

end Z80

namespace Machine

open Z80

/-- Whether the instruction at the program counter is a return, and one that is always made. -/
def Returns (m : Machine) : Prop :=
  (m.instructionAt m.cpu.pc).operation ∈ [Operation.ret none, .reti, .retn]

theorem machine_step_of_returns {m : Machine} (h : m.Returns) (answer : UInt16 → UInt8) :
    ∃ clock, (m.step answer).1 = { m with cpu := { m.cpu with
      pc := m.memory.readWord m.cpu.sp, wz := m.memory.readWord m.cpu.sp, sp := m.cpu.sp + 2
      balance := m.cpu.balance - 1, blocked := false, clock
      iff1 := if (m.instructionAt m.cpu.pc).operation = .ret none then m.cpu.iff1 else m.cpu.iff2
      r := refreshed m.cpu.r (m.instructionAt m.cpu.pc).page.fetches } } := by
  rw [m.step_eq_carriedOut answer]
  unfold carriedOut
  dsimp only
  rw [Operation.machine_return h]
  exact ⟨_, rfl⟩

theorem pc_step_of_returns {m : Machine} (h : m.Returns) (answer : UInt16 → UInt8) :
    (m.step answer).1.cpu.pc = m.memory.readWord m.cpu.sp := by
  obtain ⟨clock, hstep⟩ := machine_step_of_returns h answer
  rw [hstep]

end Machine

namespace Z80

/-- An interrupt of a machine has put an address on its stack, so that a return from the handler,
with the stack as the handler found it, goes there. -/
structure Accepted.ResumesAt (m : Machine) (back : UInt16) (a : Accepted) : Prop where
  sp_eq : a.machine.cpu.sp = m.cpu.sp - 2
  memory_eq : a.machine.memory = (m.writeWord (m.cpu.sp - 2) back).memory
  pc_return : m.isProtected (m.cpu.sp - 2) = false → m.isProtected (m.cpu.sp - 1) = false →
    ∀ (u : Machine) (answer : UInt16 → UInt8), u.Returns → u.cpu.sp = a.machine.cpu.sp →
      u.memory.readWord u.cpu.sp = a.machine.memory.readWord u.cpu.sp →
      (u.step answer).1.cpu.pc = back

theorem Accepted.resumesAt_of_memory {m : Machine} {back : UInt16} {a : Accepted}
    (hsp : a.machine.cpu.sp = m.cpu.sp - 2)
    (hmemory : a.machine.memory = (m.writeWord (m.cpu.sp - 2) back).memory) :
    a.ResumesAt m back where
  sp_eq := hsp
  memory_eq := hmemory
  pc_return hlow hhigh u answer hu husp hword := by
    have hnext : m.cpu.sp - 2 + 1 = m.cpu.sp - 1 := by grind
    rw [Machine.pc_step_of_returns hu answer, hword, husp, hsp, hmemory,
      Machine.readWord_writeWord back hlow (hnext ▸ hhigh)]

/-- Where nothing is protected there is one such address. -/
theorem Accepted.ResumesAt.unique {m : Machine} {back back' : UInt16} {a : Accepted}
    (h : a.ResumesAt m back) (h' : a.ResumesAt m back')
    (hlow : m.isProtected (m.cpu.sp - 2) = false)
    (hhigh : m.isProtected (m.cpu.sp - 2 + 1) = false) : back = back' := by
  rw [← Machine.readWord_writeWord back hlow hhigh, ← h.memory_eq, h'.memory_eq,
    Machine.readWord_writeWord back' hlow hhigh]

/-- A machine that is about to push an address, with the stack and the memory of another one. -/
structure Ready (m : Machine) (back : UInt16) (ready : Machine) : Prop where
  pc_eq : ready.cpu.pc = back
  sp_eq : ready.cpu.sp = m.cpu.sp
  memory_eq : ready.memory = m.memory
  romProtected_eq : ready.romProtected = m.romProtected

/-- Its interrupt resumes at the address. -/
theorem Ready.resumesAt {m ready : Machine} {back address : UInt16} (h : Ready m back ready)
    {e : Execution}
    (he : e.machine = (Exec.push ready.cpu.pc { machine := ready }).2.machine.mapCpu fun c =>
      { c with pc := address, wz := address }) :
    (Machine.accepted e).ResumesAt m back := by
  apply Accepted.resumesAt_of_memory
  · have hpush := Exec.cpu_push ready.cpu.pc { machine := ready }
    rw [← h.sp_eq]
    exact (congrArg (·.cpu.sp) he).trans (congrArg (·.sp) hpush)
  · have hpush := Exec.memory_push ready.cpu.pc { machine := ready }
    rw [Machine.memory_writeWord] at hpush ⊢
    unfold Machine.isProtected at hpush ⊢
    rw [h.memory_eq, h.sp_eq, h.romProtected_eq, h.pc_eq] at hpush
    rw [h.pc_eq] at he
    exact (congrArg (·.memory) he).trans hpush

end Z80

/-! ### HALT -/

namespace Machine

open Z80

variable {m : Machine}

/-- A machine that waits in the HALT at its program counter. -/
def parked (m : Machine) (r : UInt8) (clock : UInt64) : Machine :=
  m.mapCpu fun c => { c with r, clock, halted := true, blocked := false }

/-- A HALT makes the machine wait and has no other effect. -/
theorem exists_parked_step (h : (m.instructionAt m.cpu.pc).operation = .halt)
    (answer : UInt16 → UInt8) : ∃ r clock, (m.step answer).1 = m.parked r clock := by
  rw [m.step_eq_carriedOut answer]
  unfold carriedOut
  dsimp only
  rw [h]
  exact ⟨_, _, rfl⟩

/-- Executed again it changes nothing more. -/
theorem exists_parked (h : (m.instructionAt m.cpu.pc).operation = .halt)
    (answers : Nat → UInt16 → UInt8) (n : Nat) :
    ∃ r clock, m.ran answers (n + 1) = m.parked r clock := by
  induction n with
  | zero => exact exists_parked_step h (answers 0)
  | succ n ih =>
    obtain ⟨r, clock, hran⟩ := ih
    have hhalt : ((m.parked r clock).instructionAt (m.parked r clock).cpu.pc).operation = .halt := h
    obtain ⟨r', clock', hstep⟩ := exists_parked_step hhalt (answers (n + 1))
    refine ⟨r', clock', ?_⟩
    rw [ran, hran, hstep]
    rfl

variable (m)

theorem resume_parked (r : UInt8) (clock : UInt64) :
    resume (m.parked r clock).cpu =
      { m.cpu with r, clock, halted := false, blocked := false, pc := m.cpu.pc + 1 } := by
  have hhalted : (m.parked r clock).cpu.halted = true := rfl
  rw [resume, if_pos hhalted]
  rfl

/-- Accepting an interrupt, it is about to push the address behind the byte where it waits. -/
theorem ready_parked {ready : Machine} {r : UInt8} {clock : UInt64} {f : Cpu → Cpu}
    (hf : ∀ c, (f c).pc = (resume c).pc ∧ (f c).sp = (resume c).sp)
    (h : (m.parked r clock).mapCpu f = ready) : Ready m (m.cpu.pc + 1) ready := by
  subst h
  have hresume := m.resume_parked r clock
  exact ⟨(hf _).1.trans (congrArg (·.pc) hresume), (hf _).2.trans (congrArg (·.sp) hresume), rfl,
    rfl⟩

/-- A maskable interrupt of a waiting machine is accepted, unless there is no restart on the bus in
mode 0. -/
theorem exists_interrupt_parked (r : UInt8) (clock : UInt64) (hiff : m.cpu.iff1 = true)
    {bus : UInt8} (hbus : m.cpu.mode = .im0 → bus &&& 0xC7 = 0xC7) :
    ∃ a, (m.parked r clock).interrupt bus = .ok (some a) ∧ a.ResumesAt m (m.cpu.pc + 1) := by
  unfold interrupt
  rw [if_neg (by simp [parked, mapCpu, hiff]), if_neg fun hno => hno.2 (hbus hno.1)]
  refine ⟨_, rfl, ?_⟩
  generalize hready : (m.parked r clock).mapCpu _ = ready
  have henter := Exec.machine_enterHandler bus { machine := ready }
  exact (m.ready_parked (by exact fun _ => ⟨rfl, rfl⟩) hready).resumesAt henter

theorem resumesAt_nonMaskableInterrupt_parked (r : UInt8) (clock : UInt64) :
    (m.parked r clock).nonMaskableInterrupt.ResumesAt m (m.cpu.pc + 1) := by
  unfold nonMaskableInterrupt
  generalize hready : (m.parked r clock).mapCpu _ = ready
  exact (m.ready_parked (by exact fun _ => ⟨rfl, rfl⟩) hready).resumesAt
    (Exec.machine_enterNonMaskable { machine := ready })

/-- The first byte of a HALT is all of it, unless that is an index prefix; behind the prefix there
is the HALT again. -/
theorem behind_first_byte (h : (m.instructionAt m.cpu.pc).operation = .halt) :
    (m.cpu.pc + 1 = m.cpu.pc + UInt16.ofNat (m.instructionAt m.cpu.pc).length ↔
      m.read m.cpu.pc = 0x76) ∧
    (m.read m.cpu.pc ≠ 0x76 → m.read (m.cpu.pc + 1) = 0x76) := by
  rcases Instruction.bytes_of_halt h with ⟨h0, hlength⟩ | ⟨hindex, h1, hlength⟩
  · have hl : (m.instructionAt m.cpu.pc).length = 1 := hlength
    rw [hl]
    exact ⟨iff_of_true rfl h0, fun hne => absurd h0 hne⟩
  · have hl : (m.instructionAt m.cpu.pc).length = 2 := hlength
    have hne : m.read m.cpu.pc ≠ 0x76 := by
      rcases hindex with hb | hb <;> rw [hb] <;> decide
    rw [hl]
    refine ⟨iff_of_false (fun heq => ?_) hne, fun _ => h1⟩
    exact absurd (UInt16.add_right_inj _ |>.mp heq) (by decide)

/-- After a HALT at the program counter has been executed any number of times, an interrupt comes
back to the byte behind its first one.  That is behind the HALT if it has no prefix; and else it is
its second byte, which is a HALT by itself. -/
theorem resumes_behind_first_byte (h : (m.instructionAt m.cpu.pc).operation = .halt)
    (answers : Nat → UInt16 → UInt8) (n : Nat) :
    let waiting := m.ran answers (n + 1)
    (m.cpu.iff1 = true → ∀ bus, (m.cpu.mode = .im0 → bus &&& 0xC7 = 0xC7) →
      ∃ a, waiting.interrupt bus = .ok (some a) ∧ a.ResumesAt m (m.cpu.pc + 1)) ∧
    waiting.nonMaskableInterrupt.ResumesAt m (m.cpu.pc + 1) ∧
    (m.cpu.pc + 1 = m.cpu.pc + UInt16.ofNat (m.instructionAt m.cpu.pc).length ↔
      m.read m.cpu.pc = 0x76) ∧
    (m.read m.cpu.pc ≠ 0x76 → m.read (m.cpu.pc + 1) = 0x76) := by
  intro waiting
  obtain ⟨r, clock, hran⟩ := exists_parked h answers n
  have hwaiting : waiting = m.parked r clock := hran
  rw [hwaiting]
  exact ⟨fun hiff _ hbus => m.exists_interrupt_parked r clock hiff hbus,
    m.resumesAt_nonMaskableInterrupt_parked r clock, m.behind_first_byte h⟩

/-- A machine with some code at its program counter and interrupts enabled. -/
def interruptible (code : List UInt8) : Machine where
  cpu := { Cpu.powerOn with sp := 0xFF00, pc := 0x8000, iff1 := true, mode := .im1 }
  memory := Memory.blank.writeAll 0x8000 code

/-- After three rounds of HALT an interrupt comes back behind it.  With DD in front it comes back
to the HALT. -/
theorem resumes_behind_first_byte_interruptible :
    let plain := interruptible [0x76]
    let prefixed := interruptible [0xDD, 0x76]
    (plain.instructionAt plain.cpu.pc).operation = .halt ∧
      (∃ a, (plain.ran (fun _ _ => 0xFF) 3).interrupt 0xFF = .ok (some a) ∧
        a.ResumesAt plain 0x8001) ∧
      (prefixed.instructionAt prefixed.cpu.pc).operation = .halt ∧
      (∃ a, (prefixed.ran (fun _ _ => 0xFF) 3).interrupt 0xFF = .ok (some a) ∧
        a.ResumesAt prefixed 0x8001) ∧
      prefixed.read 0x8001 = 0x76 := by
  intro plain prefixed
  have hplain : (plain.instructionAt plain.cpu.pc).operation = .halt := by decide +kernel
  have hprefixed : (prefixed.instructionAt prefixed.cpu.pc).operation = .halt := by decide +kernel
  have hfirst : prefixed.read prefixed.cpu.pc ≠ 0x76 := by decide +kernel
  obtain ⟨hone, -⟩ := plain.resumes_behind_first_byte hplain (fun _ _ => 0xFF) 2
  obtain ⟨htwo, -, -, hsecond⟩ := prefixed.resumes_behind_first_byte hprefixed (fun _ _ => 0xFF) 2
  exact ⟨hplain, hone rfl 0xFF nofun, hprefixed, htwo rfl 0xFF nofun, hsecond hfirst⟩

/-- So not every HALT is left behind. -/
theorem not_forall_resumesAt_behind :
    ¬ ∀ (m : Machine) (answers : Nat → UInt16 → UInt8) (n : Nat) (bus : UInt8),
      (m.instructionAt m.cpu.pc).operation = .halt → m.cpu.iff1 = true →
      (m.cpu.mode = .im0 → bus &&& 0xC7 = 0xC7) →
      ∃ a, (m.ran answers (n + 1)).interrupt bus = .ok (some a) ∧
        a.ResumesAt m (m.cpu.pc + UInt16.ofNat (m.instructionAt m.cpu.pc).length) := by
  intro h
  let prefixed := interruptible [0xDD, 0x76]
  have hhalt : (prefixed.instructionAt prefixed.cpu.pc).operation = .halt := by decide +kernel
  obtain ⟨a, ha, hbehind⟩ := h prefixed (fun _ _ => 0xFF) 0 0xFF hhalt rfl nofun
  obtain ⟨r, clock, hran⟩ := exists_parked hhalt (fun _ _ => 0xFF) 0
  obtain ⟨a', ha', hnext⟩ : ∃ a, (prefixed.parked r clock).interrupt 0xFF = .ok (some a) ∧
      a.ResumesAt prefixed (prefixed.cpu.pc + 1) :=
    prefixed.exists_interrupt_parked r clock rfl nofun
  obtain rfl := Option.some.inj (Except.ok.inj (ha.symm.trans (hran ▸ ha')))
  have heq := hbehind.unique hnext (by decide) (by decide)
  revert heq
  decide +kernel

end Machine
end Spectrum
