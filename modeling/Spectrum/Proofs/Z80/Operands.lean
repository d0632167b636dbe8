import Mathlib.Tactic.Common
import Spectrum.Proofs.Memory
import Spectrum.Proofs.Z80.Decoding
import Spectrum.Proofs.Z80.Step

/-! # Memory operands

An operation on the byte at HL, or at an index register and a displacement, makes of the byte, the
accumulator and the flags another byte and other flags.  `ByteOperation` lists these operations and
`ByteOperation.apply` says what they compute, which does not depend on how the byte is addressed.
So an instruction with an index prefix does to the byte that it addresses what the instruction
without would do in a machine with HL there.

Main definitions: `ByteOperation`, `Machine.Touches`, `Machine.Stands`, `Machine.ActsAs`.
Main statements: `ByteOperation.execute_operation`, `Machine.actsAs_of_operation`,
`Machine.indexed_actsAs_indirect`. -/

namespace Spectrum
namespace Z80

/-! ### Operations on a byte -/

/-- What can be done with a byte in memory. -/
inductive ByteOperation where
  | arithmetic (op : Arithmetic)
  | inc
  | dec
  | replace (n : UInt8)
  | shift (op : Alu.Shift)
  | bit (number : UInt8)
  | res (number : UInt8)
  | set (number : UInt8)

/-- A register file with a byte copied to a register, if there is one. -/
def RegisterFile.copied (f : RegisterFile) (copy : Option Reg8) (v : UInt8) : RegisterFile :=
  match copy with
  | some r => f.set8 r v
  | none => f

namespace ByteOperation

/-- The operation on the byte that is addressed in one of the ways, with a register that receives a
copy of a byte that is shifted or has a bit changed. -/
def operation (p : Indirect) (copy : Option Reg8) : ByteOperation → Operation
  | arithmetic op => .arithmetic op (.place (.memory p))
  | inc => .inc (.memory p)
  | dec => .dec (.memory p)
  | replace n => .storeLiteral p n
  | shift op => .shift op (.memory p) copy
  | bit number => .bit number (.memory p)
  | res number => .res number (.memory p) copy
  | set number => .set number (.memory p) copy

/-- The register that receives a copy; only the operations of the bit page give one. -/
def copied (copy : Option Reg8) : ByteOperation → Option Reg8
  | shift _ | res _ | set _ => copy
  | _ => none

/-- The byte that is written, if one is, and the accumulator and flags afterwards.  A test of a bit
shows the high byte of the address. -/
def apply (b : ByteOperation) (address af : UInt16) (x : UInt8) : Option UInt8 × UInt16 :=
  let f := Flags.ofByte af.low
  let flags (g : Flags) := af.withLow g.toByte
  match b with
  | arithmetic op =>
    let r := op.apply af.high x f
    (none, UInt16.join r.1 r.2.toByte)
  | inc => (some (Alu.inc x f).1, flags (Alu.inc x f).2)
  | dec => (some (Alu.dec x f).1, flags (Alu.dec x f).2)
  | replace n => (some n, af)
  | shift op => (some (Alu.shift op x f).1, flags (Alu.shift op x f).2)
  | bit number => (none, flags (Alu.bit number x address.high f))
  | res number => (some (x &&& ~~~ Alu.mask number), af)
  | set number => (some (x ||| Alu.mask number), af)

/-- The machine after the operation on the byte at an address. -/
def effect (b : ByteOperation) (copy : Option Reg8) (address : UInt16) (m : Machine) : Machine :=
  let r := b.apply address m.cpu.af (m.read address)
  let after := m.mapCpu fun c => { c with af := r.2, wz := address }
  match r.1 with
  | some v => (after.write address v).mapCpu (·.mapFile (·.copied (b.copied copy) v))
  | none => after

end ByteOperation

/-- Where an operand is; the internal register is there as well. -/
def Indirect.At (p : Indirect) (address : UInt16) (c : Cpu) : Prop :=
  match p with
  | .hl => c.hl = address ∧ c.wz = address
  | .indexed index d => c.get16 index.register + d.displacement = address

theorem Exec.address_eq {p : Indirect} {a : UInt16} {e : Execution} (h : p.At a e.machine.cpu) :
    Exec.address p e = (a, { e with machine := e.machine.mapCpu fun c => { c with wz := a } }) := by
  cases p with
  | hl =>
    obtain ⟨hhl, hwz⟩ := h
    refine Prod.ext hhl ?_
    rw [← hwz]
    rfl
  | indexed index d =>
    obtain rfl := h
    rfl

theorem Operation.machine_load (answer : UInt16 → UInt8) (start : UInt16) (r : Reg8) {p : Indirect}
    {a : UInt16} {e : Execution} (h : p.At a e.machine.cpu) :
    ((ld r (.place (.memory p))).execute answer start e).2.machine =
      e.machine.mapCpu fun c =>
        { c with toRegisterFile := c.toRegisterFile.set8 r (e.machine.read a), wz := a } := by
  dsimp only [execute, Source.fetch, Place.fetch]
  simp only [bind, StateT.bind, Exec.address_eq h]
  rfl

theorem Operation.machine_store (answer : UInt16 → UInt8) (start : UInt16) (r : Reg8)
    {p : Indirect} {a : UInt16} {e : Execution} (h : p.At a e.machine.cpu) :
    ((store p r).execute answer start e).2.machine =
      (e.machine.mapCpu fun c => { c with wz := a }).write a (e.machine.cpu.get8 r) := by
  dsimp only [execute]
  simp only [bind, StateT.bind, Exec.address_eq h]
  rfl

namespace ByteOperation

variable {b : ByteOperation} {p : Indirect} {copy : Option Reg8} {a : UInt16} {e : Execution}

/-- However the byte is addressed, the operation does the same, and what it writes shows last. -/
theorem execute_operation (answer : UInt16 → UInt8) (start : UInt16) (h : p.At a e.machine.cpu) :
    let done := ((b.operation p copy).execute answer start e).2
    done.machine = b.effect copy a e.machine ∧
      ∀ v, (b.apply a e.machine.cpu.af (e.machine.read a)).1 = some v →
        done.events.head? = some (.write a v) := by
  have haddress := Exec.address_eq h
  cases b with
  | arithmetic op =>
    dsimp only [operation, Operation.execute, Source.fetch, Place.fetch]
    simp only [bind, StateT.bind, haddress]
    exact ⟨rfl, nofun⟩
  | inc | dec =>
    dsimp only [operation, Operation.execute, Place.update]
    simp only [bind, StateT.bind, haddress]
    exact ⟨rfl, fun v hv => Option.some.inj hv ▸ rfl⟩
  | replace n =>
    dsimp only [operation, Operation.execute]
    simp only [bind, StateT.bind, haddress]
    exact ⟨rfl, fun v hv => Option.some.inj hv ▸ rfl⟩
  | bit number =>
    dsimp only [operation, Operation.execute]
    simp only [bind, StateT.bind, haddress]
    exact ⟨rfl, nofun⟩
  | shift | res | set =>
    dsimp only [operation, Operation.execute, Place.update]
    simp only [bind, StateT.bind, haddress]
    refine ⟨?_, fun v hv => Option.some.inj hv ▸ ?_⟩ <;> cases copy <;> rfl

/-- Only a byte that is written is copied. -/
theorem written_of_copied (h : b.copied copy ≠ none) (address af : UInt16) (x : UInt8) :
    ∃ v, (b.apply address af x).1 = some v := by
  cases b with
  | shift | res | set => exact ⟨_, rfl⟩
  | arithmetic | inc | dec | replace | bit => exact absurd rfl h

/-! ### What the operations touch -/

variable (b) (copy) (a) (m : Machine)

theorem cpu_effect :
    (b.effect copy a m).cpu =
      let r := b.apply a m.cpu.af (m.read a)
      { m.cpu with
        toRegisterFile := RegisterFile.copied { m.cpu.toRegisterFile with af := r.2 }
          (b.copied copy) (r.1.getD 0)
        wz := a } := by
  have hwrite (f : Cpu → Cpu) (c : Cpu) (v : UInt8) :
      (({ m with cpu := c }.write a v).mapCpu f).cpu = f c :=
    congrArg f (Machine.cpu_write _ a v)
  cases b with
  | arithmetic | bit => rfl
  | inc | dec | replace | shift | res | set => exact hwrite _ _ _

theorem romProtected_effect : (b.effect copy a m).romProtected = m.romProtected := by
  unfold effect
  dsimp only
  split
  · exact Machine.romProtected_write _ _ _
  · rfl

theorem read_effect (x : UInt16) :
    (b.effect copy a m).read x =
      if x = a ∧ m.isProtected a = false then
        ((b.apply a m.cpu.af (m.read a)).1).getD (m.read a)
      else m.read x := by
  unfold effect
  dsimp only
  split
  · next v hv =>
    rw [hv, Option.getD_some]
    exact Machine.read_write _ a x v
  · next hv =>
    rw [hv, Option.getD_none]
    split
    · next h =>
      rw [h.1]
      rfl
    · rfl

end ByteOperation

theorem RegisterFile.copied_fetched (f : RegisterFile) (copy : Option Reg8) (v : UInt8)
    (pc : UInt16) (r : UInt8) :
    RegisterFile.copied { f with pc, r } copy v = { f.copied copy v with pc, r } := by
  cases copy with
  | none => rfl
  | some register => cases register <;> rfl

end Z80

namespace Machine

open Z80

/-- One machine comes from another by an instruction with an operand at an address, which leaves the
given registers but for the program counter and R. -/
structure Touches (m n : Machine) (address : UInt16) (file : RegisterFile) : Prop where
  romProtected : n.romProtected = m.romProtected
  read_eq : ∀ b, b ≠ address → n.read b = m.read b
  cpu_eq : n.cpu =
    { m.cpu with
      toRegisterFile := { file with pc := n.cpu.pc, r := n.cpu.r }
      clock := n.cpu.clock
      wz := address
      blocked := false }

variable {m : Machine} {b : ByteOperation} {page : Page} {p : Indirect} {copy : Option Reg8}
  {a : UInt16}

theorem af_fetched (i : Instruction) : (m.fetched i).machine.cpu.af = m.cpu.af := rfl

theorem read_fetched (i : Instruction) (x : UInt16) :
    (m.fetched i).machine.read x = m.read x := rfl

theorem isProtected_fetched (i : Instruction) (x : UInt16) :
    (m.fetched i).machine.isProtected x = m.isProtected x := rfl

theorem get16_fetched (m : Machine) (i : Instruction) (register : Reg16) :
    (m.fetched i).machine.cpu.get16 register = m.cpu.get16 register := by
  cases register <;> rfl

theorem flags_fetched (m : Machine) (i : Instruction) :
    (m.fetched i).machine.cpu.flags = m.cpu.flags := rfl

theorem memory_write_fetched (m : Machine) (i : Instruction) (a : UInt16) (v : UInt8) :
    ((m.fetched i).machine.write a v).memory = (m.write a v).memory := by
  rw [memory_write, memory_write]
  rfl

theorem at_fetched (h : p.At a m.cpu) (i : Instruction) : p.At a (m.fetched i).machine.cpu := by
  cases p with
  | hl => exact h
  | indexed index d => cases index <;> exact h

/-- An instruction is followed from the machine that has fetched it. -/
theorem touches_of_execute {i : Instruction} {file : RegisterFile} (answer : UInt16 → UInt8)
    (hi : m.instructionAt m.cpu.pc = i) {done : Execution}
    (hdone : (i.operation.execute answer m.cpu.pc (m.fetched i)).2 = done)
    (hrom : done.machine.romProtected = m.romProtected)
    (hread : ∀ x, x ≠ a → done.machine.read x = m.read x)
    (hcpu : done.machine.cpu =
      let c := (m.fetched i).machine.cpu
      { c with toRegisterFile := { file with pc := c.pc, r := c.r }, wz := a }) :
    m.Touches (m.step answer).1 a file := by
  rw [step_of_instruction answer hi, hdone]
  refine ⟨hrom, hread, ?_⟩
  dsimp only [mapCpu]
  rw [hcpu]
  rfl

theorem step_of_operation (answer : UInt16 → UInt8)
    (hi : m.instructionAt m.cpu.pc = ⟨page, b.operation p copy⟩) (h : p.At a m.cpu) :
    let r := b.apply a m.cpu.af (m.read a)
    let n := (m.step answer).1
    m.Touches n a (RegisterFile.copied { m.cpu.toRegisterFile with af := r.2 } (b.copied copy)
        (r.1.getD 0)) ∧
      n.read a = (if m.isProtected a = false then r.1.getD (m.read a) else m.read a) ∧
      ∀ v, r.1 = some v → (m.step answer).2.events.getLast? = some (.write a v) := by
  obtain ⟨hmachine, hevents⟩ :=
    ByteOperation.execute_operation answer m.cpu.pc (at_fetched h ⟨page, b.operation p copy⟩)
  rw [af_fetched, read_fetched] at hevents
  have hstep := step_of_instruction answer hi
  generalize hdone : ((b.operation p copy).execute answer m.cpu.pc
    (m.fetched ⟨page, b.operation p copy⟩)).2 = done at hmachine hevents hstep
  have hread (x : UInt16) : done.machine.read x =
      if x = a ∧ m.isProtected a = false then
        ((b.apply a m.cpu.af (m.read a)).1).getD (m.read a)
      else m.read x := by
    rw [hmachine, ByteOperation.read_effect, af_fetched, read_fetched, read_fetched,
      isProtected_fetched]
  refine ⟨touches_of_execute answer hi hdone ?_ (fun x hx => ?_) ?_, ?_, fun v hv => ?_⟩
  · rw [hmachine]
    exact ByteOperation.romProtected_effect _ _ _ _
  · rw [hread x, if_neg fun hc => hx hc.1]
  · rw [hmachine, ByteOperation.cpu_effect, af_fetched, read_fetched]
    generalize b.apply a m.cpu.af (m.read a) = r
    dsimp only
    rw [← RegisterFile.copied_fetched]
    rfl
  · rw [hstep]
    refine (hread a).trans ?_
    simp only [true_and]
  · rw [hstep]
    exact (List.getLast?_reverse ..).trans (hevents v hv)

/-- The state of a machine with HL and the internal register at an address, in front of other
code. -/
structure Stands (m p : Machine) (address : UInt16) (code : List UInt8) : Prop where
  romProtected : p.romProtected = m.romProtected
  read_eq : p.read address = m.read address
  cpu_eq : p.cpu = { m.cpu with hl := address, wz := address, pc := p.cpu.pc }
  code_eq : p.bytesAt p.cpu.pc code.length = code

/-- Such a machine has its code right behind the address. -/
def plain (m : Machine) (address : UInt16) (code : List UInt8) : Machine where
  cpu := { m.cpu with hl := address, wz := address, pc := address + 1 }
  memory := m.memory.writeAll (address + 1) code
  romProtected := m.romProtected

theorem bytesAt_writeAll (m : Machine) (base : UInt16) {code : List UInt8}
    (h : code.length ≤ Memory.size) :
    Machine.bytesAt { m with memory := m.memory.writeAll base code } base code.length = code := by
  induction code generalizing m base with
  | nil => rfl
  | cons value rest ih =>
    rw [List.length_cons] at h
    have hhead : (m.memory.writeAll base (value :: rest)).read base = value := by
      rw [Memory.writeAll, Memory.read_writeAll _ _ _ _ (by omega), UInt16.toNat_sub_succ,
        List.getElem?_eq_none (by unfold Memory.size at h; omega), Option.getD_none,
        Memory.read_write_same]
    have htail := ih { m with memory := m.memory.write base value } (base + 1) (by omega)
    exact congrArg₂ List.cons hhead htail

theorem stands_plain (m : Machine) (a : UInt16) {code : List UInt8}
    (h : code.length < Memory.size) : m.Stands (m.plain a code) a code where
  romProtected := rfl
  read_eq := by
    refine (Memory.read_writeAll _ _ _ _ (Nat.le_of_lt h)).trans ?_
    rw [UInt16.toNat_sub_succ, List.getElem?_eq_none (by unfold Memory.size at h; omega)]
    rfl
  cpu_eq := rfl
  code_eq :=
    bytesAt_writeAll { m with cpu := (m.plain a code).cpu } (a + 1) (Nat.le_of_lt h)

/-- An instruction with an operand at an address does to the byte there, to the accumulator and to
the flags what another has done in another machine, and to a register, if one is given, what that
has written. -/
structure ActsAs (m n : Machine) (address : UInt16) (plain : Machine × Executed)
    (copy : Option Reg8) : Prop where
  byte_eq : n.read address = plain.1.read address
  touches : ∃ v, (copy ≠ none → plain.2.events.getLast? = some (.write address v)) ∧
    m.Touches n address
      (RegisterFile.copied { m.cpu.toRegisterFile with af := plain.1.cpu.af } copy v)

section

variable {n q : Machine} {page' : Page} {code : List UInt8}

theorem Stands.at_hl (h : m.Stands q a code) : Indirect.hl.At a q.cpu := by
  rw [h.cpu_eq]
  exact ⟨rfl, rfl⟩

theorem Stands.af_eq (h : m.Stands q a code) : q.cpu.af = m.cpu.af := by
  rw [h.cpu_eq]

theorem actsAs_of_operation (answer : UInt16 → UInt8)
    (hi : m.instructionAt m.cpu.pc = ⟨page, b.operation p copy⟩) (h : p.At a m.cpu)
    (hq : m.Stands q a code)
    (hplain : q.instructionAt q.cpu.pc = ⟨page', b.operation .hl none⟩) :
    m.ActsAs (m.step answer).1 a (q.step answer) (b.copied copy) := by
  obtain ⟨htouches, hbyte, -⟩ := step_of_operation answer hi h
  obtain ⟨htouches', hbyte', hshown⟩ := step_of_operation answer hplain hq.at_hl
  have hprotected : q.isProtected a = m.isProtected a := by
    rw [isProtected, hq.romProtected, isProtected]
  rw [hq.af_eq, hq.read_eq] at htouches' hbyte' hshown
  have haf : (q.step answer).1.cpu.af = (b.apply a m.cpu.af (m.read a)).2 := by
    rw [htouches'.cpu_eq]
    cases b <;> rfl
  refine ⟨?_, ((b.apply a m.cpu.af (m.read a)).1).getD 0, fun hc => ?_, ?_⟩
  · rw [hbyte, hbyte', hprotected]
  · obtain ⟨v, hv⟩ := ByteOperation.written_of_copied hc a m.cpu.af (m.read a)
    rw [hv]
    exact hshown v hv
  · rw [haf]
    exact htouches

end

/-! ### Loads -/

variable {r : Reg8}

theorem step_of_load (answer : UInt16 → UInt8)
    (hi : m.instructionAt m.cpu.pc = ⟨page, .ld r (.place (.memory p))⟩) (h : p.At a m.cpu) :
    m.Touches (m.step answer).1 a (m.cpu.toRegisterFile.set8 r (m.read a)) ∧
      (m.step answer).1.read a = m.read a := by
  have hmachine := Operation.machine_load answer m.cpu.pc r
    (at_fetched h ⟨page, .ld r (.place (.memory p))⟩)
  have hstep := step_of_instruction answer hi
  generalize hdone : ((Operation.ld r (.place (.memory p))).execute answer m.cpu.pc
    (m.fetched ⟨page, .ld r (.place (.memory p))⟩)).2 = done at hmachine hstep
  rw [read_fetched] at hmachine
  refine ⟨touches_of_execute answer hi hdone ?_ (fun x hx => ?_) ?_, ?_⟩
  · rw [hmachine]
    rfl
  · rw [hmachine]
    rfl
  · rw [hmachine]
    generalize m.read a = v
    cases r <;> rfl
  · rw [hstep]
    exact congrArg (·.read a) hmachine

theorem step_of_store (answer : UInt16 → UInt8)
    (hi : m.instructionAt m.cpu.pc = ⟨page, .store p r⟩) (h : p.At a m.cpu) :
    m.Touches (m.step answer).1 a m.cpu.toRegisterFile ∧
      (m.step answer).1.read a = (m.write a (m.cpu.get8 r)).read a := by
  have hmachine := Operation.machine_store answer m.cpu.pc r (at_fetched h ⟨page, .store p r⟩)
  have hstep := step_of_instruction answer hi
  generalize hdone : ((Operation.store p r).execute answer m.cpu.pc
    (m.fetched ⟨page, .store p r⟩)).2 = done at hmachine hstep
  have hsource : (m.fetched ⟨page, .store p r⟩).machine.cpu.get8 r = m.cpu.get8 r := by
    cases r <;> rfl
  rw [hsource] at hmachine
  refine ⟨touches_of_execute answer hi hdone ?_ (fun x hx => ?_) ?_, ?_⟩
  · rw [hmachine]
    exact romProtected_write _ _ _
  · rw [hmachine, read_write, if_neg fun hc => hx hc.1]
    rfl
  · rw [hmachine, cpu_write]
    rfl
  · rw [hstep, read_write]
    refine (congrArg (·.read a) hmachine).trans ?_
    exact read_write _ _ _ _

end Machine

/-! ### Opcodes -/

namespace Z80

/-- The fields of an opcode. -/
def fields (opcode : UInt8) : Nat × Nat × Nat :=
  (opcode.toNat / 64, opcode.toNat / 8 % 8, opcode.toNat % 8)

variable {opcode : UInt8} {x y z : Nat}

theorem fields_eq_iff :
    fields opcode = (x, y, z) ↔
      opcode.toNat / 64 = x ∧ opcode.toNat / 8 % 8 = y ∧ opcode.toNat % 8 = z := by
  simp [fields]

theorem not_isPrefix (h : fields opcode = (x, y, z)) (hx : x ≤ 2) : ¬ IsPrefix opcode := by
  obtain ⟨rfl, -⟩ := fields_eq_iff.mp h
  rintro (rfl | rfl | rfl | rfl) <;> exact absurd hx (by decide)

section

variable (s : Substitution) (n₁ n₂ : UInt8)

theorem Operation.ofMain_arithmetic (h : fields opcode = (2, y, z)) :
    ofMain s opcode n₁ n₂ = .arithmetic (Arithmetic.ofCode y) (.place (s.place z)) := by
  obtain ⟨hx, hy, hz⟩ := fields_eq_iff.mp h
  unfold ofMain
  rw [hx, hy, hz]
  rfl

theorem Operation.ofMain_arithmeticLiteral (h : fields opcode = (3, y, 6)) :
    ofMain s opcode n₁ n₂ = .arithmetic (Arithmetic.ofCode y) (.literal n₁) := by
  obtain ⟨hx, hy, hz⟩ := fields_eq_iff.mp h
  unfold ofMain
  rw [hx, hy, hz]
  rfl

theorem Operation.ofMain_load (h : fields opcode = (1, y, 6)) (hy6 : y ≠ 6) :
    ofMain s opcode n₁ n₂ = .ld (Reg8.ofCode y) (.place (.memory s.memory)) := by
  obtain ⟨hx, hy, hz⟩ := fields_eq_iff.mp h
  unfold ofMain
  rw [hx, hy, hz]
  exact if_neg fun h => hy6 (beq_iff_eq.mp h)

theorem Operation.ofMain_store (h : fields opcode = (1, 6, z)) (hz6 : z ≠ 6) :
    ofMain s opcode n₁ n₂ = .store s.memory (Reg8.ofCode z) := by
  obtain ⟨hx, hy, hz⟩ := fields_eq_iff.mp h
  unfold ofMain
  rw [hx, hy, hz]
  exact if_neg fun h => hz6 (beq_iff_eq.mp h)

end

/-- The operations of the bit page. -/
def ByteOperation.ofBits (x y : Nat) : ByteOperation :=
  match x with
  | 0 => .shift (Alu.Shift.ofCode y)
  | 1 => .bit (UInt8.ofNat y)
  | 2 => .res (UInt8.ofNat y)
  | _ => .set (UInt8.ofNat y)

theorem Operation.ofBits_memory (h : fields opcode = (x, y, z)) (p : Indirect)
    (copy : Option Reg8) :
    ofBits opcode (.memory p) copy = (ByteOperation.ofBits x y).operation p copy := by
  obtain ⟨hx, hy, -⟩ := fields_eq_iff.mp h
  unfold ofBits
  dsimp only
  rw [hx, hy]
  rcases x with _ | _ | _ | x <;> rfl

theorem ByteOperation.copied_ofBits (x y : Nat) (copy : Option Reg8) :
    (ByteOperation.ofBits x y).copied copy = if x = 1 then none else copy := by
  rcases x with _ | _ | _ | x <;> rfl

/-- The opcodes of the main page that compute with the byte at HL: INC, DEC and the operations of
the accumulator. -/
def Computes (opcode : UInt8) : Prop :=
  opcode = 0x34 ∨ opcode = 0x35 ∨ ∃ y, fields opcode = (2, y, 6)

theorem Computes.exists_operation (h : Computes opcode) :
    ¬ IsPrefix opcode ∧ ∃ b : ByteOperation, b.copied none = none ∧
      ∀ s n₁ n₂, Operation.ofMain s opcode n₁ n₂ = b.operation s.memory none := by
  rcases h with rfl | rfl | ⟨y, hy⟩
  · exact ⟨by decide, .inc, rfl, fun _ _ _ => rfl⟩
  · exact ⟨by decide, .dec, rfl, fun _ _ _ => rfl⟩
  · exact ⟨not_isPrefix hy (Nat.le_refl 2), .arithmetic (Arithmetic.ofCode y), rfl,
      fun s n₁ n₂ => Operation.ofMain_arithmetic s n₁ n₂ hy⟩

end Z80

namespace Machine

open Z80

variable {m q : Machine} {index : Index} {a : UInt16} {opcode n : UInt8} {code : List UInt8}
  {x y z : Nat}

theorem Stands.read_pc (h : m.Stands q a (opcode :: code)) : q.read q.cpu.pc = opcode :=
  (List.cons.inj h.code_eq).1

theorem Stands.read_next (h : m.Stands q a (opcode :: n :: code)) :
    q.read (q.cpu.pc + 1) = n :=
  (List.cons.inj (List.cons.inj h.code_eq).2).1

theorem Stands.instructionAt_eq (h : m.Stands q a (opcode :: code)) (hp : ¬ IsPrefix opcode) :
    q.instructionAt q.cpu.pc =
      ⟨.main, .ofMain ⟨none, 0⟩ opcode (q.read (q.cpu.pc + 1)) (q.read (q.cpu.pc + 2))⟩ := by
  unfold instructionAt
  rw [h.read_pc]
  exact Instruction.decode_of_main hp

theorem instructionAt_of_indexed (hi : Index.ofByte? (m.read m.cpu.pc) = some index)
    (hp : ¬ IsPrefix (m.read (m.cpu.pc + 1))) :
    m.instructionAt m.cpu.pc =
      ⟨.indexed, .ofMain ⟨some index, m.read (m.cpu.pc + 2)⟩ (m.read (m.cpu.pc + 1))
        (m.read (m.cpu.pc + 2)) (m.read (m.cpu.pc + 3))⟩ :=
  Instruction.decode_of_indexed hi hp

theorem instructionAt_of_indexedBits (hi : Index.ofByte? (m.read m.cpu.pc) = some index)
    (hbits : m.read (m.cpu.pc + 1) = 0xCB) (hlast : fields (m.read (m.cpu.pc + 3)) = (x, y, z)) :
    m.instructionAt m.cpu.pc =
      ⟨.indexedBits, (ByteOperation.ofBits x y).operation (.indexed index (m.read (m.cpu.pc + 2)))
        (if z = 6 then none else some (Reg8.ofCode z))⟩ := by
  obtain ⟨-, -, hz⟩ := fields_eq_iff.mp hlast
  unfold instructionAt
  rw [hbits, Instruction.decode_of_indexedBits hi, Operation.ofBits_memory hlast, hz]
  simp only [beq_iff_eq]

theorem Stands.instructionAt_of_bits (h : m.Stands q a [0xCB, opcode])
    (hfields : fields opcode = (x, y, 6)) :
    q.instructionAt q.cpu.pc = ⟨.bits, (ByteOperation.ofBits x y).operation .hl none⟩ := by
  obtain ⟨-, -, hz⟩ := fields_eq_iff.mp hfields
  unfold instructionAt
  rw [h.read_pc, h.read_next, ← Operation.ofBits_memory hfields]
  dsimp only [Instruction.decode]
  rw [hz]
  rfl

/-- An instruction with an index prefix does to the byte that it addresses, the accumulator and the
flags what the one without does where HL and the internal register hold that address. -/
theorem indexed_actsAs_indirect (answer : UInt16 → UInt8)
    (hi : Index.ofByte? (m.read m.cpu.pc) = some index) :
    let f := m.cpu.toRegisterFile
    let opcode := m.read (m.cpu.pc + 1)
    let a := f.get16 index.register + (m.read (m.cpu.pc + 2)).displacement
    let last := m.read (m.cpu.pc + 3)
    let n := (m.step answer).1
    -- INC, DEC and the operations of the accumulator
    (∀ q, Computes opcode → m.Stands q a [opcode] → m.ActsAs n a (q.step answer) none) ∧
    -- LD (HL),n
    (∀ q, opcode = 0x36 → m.Stands q a [0x36, last] → m.ActsAs n a (q.step answer) none) ∧
    -- the bit page, where all but BIT give a copy
    (∀ q plain x y z, opcode = 0xCB → fields last = (x, y, z) → fields plain = (x, y, 6) →
      m.Stands q a [0xCB, plain] →
        m.ActsAs n a (q.step answer) (if x = 1 ∨ z = 6 then none else some (Reg8.ofCode z))) ∧
    -- LD r,(HL) and LD (HL),r
    (∀ y, y ≠ 6 → fields opcode = (1, y, 6) →
      m.Touches n a (f.set8 (Reg8.ofCode y) (m.read a)) ∧ n.read a = m.read a) ∧
    (∀ z, z ≠ 6 → fields opcode = (1, 6, z) →
      m.Touches n a f ∧ n.read a = (m.write a (f.get8 (Reg8.ofCode z))).read a) := by
  intro f opcode a last n
  have hat : (Indirect.indexed index (m.read (m.cpu.pc + 2))).At a m.cpu := rfl
  refine ⟨?_, ?_, ?_, ?_, ?_⟩
  · intro q hop hq
    obtain ⟨hp, b, hcopied, hof⟩ := hop.exists_operation
    have hm := (instructionAt_of_indexed hi hp).trans (congrArg _ (hof _ _ _))
    have hplain := (hq.instructionAt_eq hp).trans (congrArg _ (hof _ _ _))
    rw [← hcopied]
    exact actsAs_of_operation answer hm hat hq hplain
  · intro q hop hq
    have hread : m.read (m.cpu.pc + 1) = 0x36 := hop
    have hm : m.instructionAt m.cpu.pc = ⟨.indexed,
        (ByteOperation.replace last).operation (.indexed index (m.read (m.cpu.pc + 2))) none⟩ := by
      rw [instructionAt_of_indexed hi (by rw [hread]; decide), hread]
      rfl
    have hplain : q.instructionAt q.cpu.pc =
        ⟨.main, (ByteOperation.replace last).operation .hl none⟩ := by
      rw [hq.instructionAt_eq (by decide), hq.read_next]
      rfl
    exact actsAs_of_operation answer hm hat hq hplain
  · intro q plain x y z hop hlast hfields hq
    have hcopy : (ByteOperation.ofBits x y).copied (if z = 6 then none else some (Reg8.ofCode z)) =
        if x = 1 ∨ z = 6 then none else some (Reg8.ofCode z) := by
      rw [ByteOperation.copied_ofBits]
      by_cases hx : x = 1 <;> simp [hx]
    rw [← hcopy]
    exact actsAs_of_operation answer (instructionAt_of_indexedBits hi hop hlast) hat hq
      (hq.instructionAt_of_bits hfields)
  · intro y hy hop
    have hp := not_isPrefix hop (by decide)
    have hm := (instructionAt_of_indexed hi hp).trans
      (congrArg _ (Operation.ofMain_load _ _ _ hop hy))
    exact step_of_load answer hm hat
  · intro z hz hop
    have hp := not_isPrefix hop (by decide)
    have hm := (instructionAt_of_indexed hi hp).trans
      (congrArg _ (Operation.ofMain_store _ _ _ hop hz))
    exact step_of_store answer hm hat

/-- RLC (IX-1),B with a byte behind the code. -/
def rotating : Machine where
  cpu := { Cpu.powerOn with ix := 0x9000, pc := 0x8000 }
  memory := (Memory.blank.writeAll 0x8000 [0xDD, 0xCB, 0xFF, 0x00]).write 0x8FFF 0x81

/-- The byte is rotated as RLC (HL) does it, and B receives a copy. -/
theorem indexed_actsAs_indirect_rotating :
    let n := (rotating.step fun _ => 0xFF).1
    rotating.ActsAs n 0x8FFF ((rotating.plain 0x8FFF [0xCB, 0x06]).step fun _ => 0xFF) (some .b) ∧
      n.read 0x8FFF = 0x03 ∧ n.cpu.get8 .b = 0x03 := by
  have hi : Index.ofByte? (rotating.read rotating.cpu.pc) = some .ix := by decide +kernel
  have hstands : rotating.Stands (rotating.plain 0x8FFF [0xCB, 0x06]) 0x8FFF [0xCB, 0x06] :=
    rotating.stands_plain _ (by decide)
  obtain ⟨-, -, hbits, -⟩ := indexed_actsAs_indirect (fun _ => 0xFF) hi
  exact ⟨hbits _ 0x06 0 0 0 rfl rfl rfl hstands, by decide +kernel, by decide +kernel⟩

end Machine
end Spectrum
