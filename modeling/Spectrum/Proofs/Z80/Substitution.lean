import Mathlib.Tactic.Common
import Spectrum.Proofs.Z80.Renaming
import Spectrum.Proofs.Z80.Step

/-! # Index prefixes

An index prefix in front of an instruction without a memory operand puts IX or IY in the place of
HL.  To run the instruction with the prefix is to run it without, on a machine that has the two
registers exchanged: the opcode is decoded to the same operation with other registers, and an
operation with other registers does to the exchanged registers what it does to its own.  `Mirrors`
says so of the parts of instructions, for two executions that go on side by side, and is preserved
by the combinators.  The prefix itself costs one opcode fetch.

Main statements: `Operation.mirrors_execute`, `Machine.step_of_indexPrefix`. -/

namespace Spectrum
namespace Z80

/-! ### Two executions side by side -/

/-- The register file of the run with the prefix, when that of the run without is given: the prefix
has refreshed R once more. -/
def RegisterFile.mirror (index : Index) (f : RegisterFile) : RegisterFile :=
  { f.exchange index with r := refreshed f.r 1 }

namespace RegisterFile

variable (index : Index) (f : RegisterFile)

theorem get8_mirror (r : Reg8) : (f.mirror index).get8 (r.rename index) = f.get8 r := by
  cases index <;> cases r <;> rfl

theorem set8_mirror (r : Reg8) (v : UInt8) :
    (f.mirror index).set8 (r.rename index) v = (f.set8 r v).mirror index := by
  cases index <;> cases r <;> rfl

theorem get16_mirror (r : Reg16) : (f.mirror index).get16 (r.rename index) = f.get16 r := by
  cases index <;> cases r <;> rfl

theorem set16_mirror (r : Reg16) (v : UInt16) :
    (f.mirror index).set16 (r.rename index) v = (f.set16 r v).mirror index := by
  cases index <;> cases r <;> rfl

end RegisterFile

/-- The processor of the run with the prefix, when that of the run without is given. -/
def Cpu.mirror (index : Index) (c : Cpu) : Cpu := c.mapFile (·.mirror index)

/-- The execution with the prefix, whose fetch has shown already, when the one without is given. -/
def Execution.mirror (index : Index) (fetch : BusEvent) (e : Execution) : Execution where
  machine := e.machine.mapCpu (·.mirror index)
  cost := e.cost + 4
  events := e.events ++ [fetch]

namespace Cpu

variable (index : Index) (c : Cpu)

@[simp] theorem pc_mirror : (c.mirror index).pc = c.pc := by cases index <;> rfl

@[simp] theorem sp_mirror : (c.mirror index).sp = c.sp := by cases index <;> rfl

@[simp] theorem bc_mirror : (c.mirror index).bc = c.bc := by cases index <;> rfl

@[simp] theorem a_mirror : (c.mirror index).a = c.a := by cases index <;> rfl

@[simp] theorem flags_mirror : (c.mirror index).flags = c.flags := by cases index <;> rfl

theorem get8_mirror (r : Reg8) : (c.mirror index).get8 (r.rename index) = c.get8 r :=
  c.toRegisterFile.get8_mirror index r

theorem get16_mirror (r : Reg16) : (c.mirror index).get16 (r.rename index) = c.get16 r :=
  c.toRegisterFile.get16_mirror index r

end Cpu

namespace Exec

/-- A part of an instruction does to the execution with the prefix what another does to the one
without. -/
def Mirrors {α : Type} (index : Index) (fetch : BusEvent) (y x : Exec α) : Prop :=
  ∀ e, y (e.mirror index fetch) = ((x e).1, (x e).2.mirror index fetch)

variable {α β : Type} {index : Index} {fetch : BusEvent}

/-! ### Combinators -/

theorem mirrors_pure (a : α) : Mirrors index fetch (pure a) (pure a) := fun _ => rfl

theorem Mirrors.bind {x y : Exec α} {f g : α → Exec β} (hx : Mirrors index fetch y x)
    (hf : ∀ a, Mirrors index fetch (g a) (f a)) : Mirrors index fetch (y >>= g) (x >>= f) :=
  fun e => (congrArg (fun p : α × Execution => g p.1 p.2) (hx e)).trans (hf (x e).1 (x e).2)

/-- The two see different processors. -/
theorem mirrors_cpu {f g : Cpu → Exec β}
    (h : ∀ c, Mirrors index fetch (g (c.mirror index)) (f c)) :
    Mirrors index fetch (cpu >>= g) (cpu >>= f) := fun e => h e.machine.cpu e

theorem mirrors_ite {c : Prop} [Decidable c] {x y x' y' : Exec α} (hx : Mirrors index fetch x' x)
    (hy : Mirrors index fetch y' y) :
    Mirrors index fetch (if c then x' else y') (if c then x else y) := by
  split
  · exact hx
  · exact hy

/-! ### Bus cycles -/

theorem mirrors_modifyCpu {f g : Cpu → Cpu} (h : ∀ c, g (c.mirror index) = (f c).mirror index) :
    Mirrors index fetch (modifyCpu g) (modifyCpu f) := fun e =>
  congrArg (fun c : Cpu => ((), Execution.mk { e.machine with cpu := c } (e.cost + 4)
    (e.events ++ [fetch]))) (h e.machine.cpu)

theorem mirrors_modifyFile {f g : RegisterFile → RegisterFile}
    (h : ∀ r, g (r.mirror index) = (f r).mirror index) :
    Mirrors index fetch (modifyFile g) (modifyFile f) :=
  mirrors_modifyCpu fun c => congrArg (fun r => { c with toRegisterFile := r }) (h _)

theorem mirrors_set8 (r : Reg8) (v : UInt8) :
    Mirrors index fetch (modifyFile (·.set8 (r.rename index) v)) (modifyFile (·.set8 r v)) :=
  mirrors_modifyFile fun f => f.set8_mirror index r v

theorem mirrors_set16 (r : Reg16) (v : UInt16) :
    Mirrors index fetch (modifyFile (·.set16 (r.rename index) v)) (modifyFile (·.set16 r v)) :=
  mirrors_modifyFile fun f => f.set16_mirror index r v

theorem mirrors_flags : Mirrors index fetch flags flags := by
  cases index <;> exact fun _ => rfl

theorem mirrors_spend (n : Nat) : Mirrors index fetch (spend n) (spend n) := fun e =>
  congrArg (fun cost => ((), Execution.mk (e.mirror index fetch).machine cost
    (e.mirror index fetch).events)) (Nat.add_right_comm e.cost 4 n)

theorem mirrors_readByte (address : UInt16) :
    Mirrors index fetch (readByte address) (readByte address) := fun _ => rfl

theorem mirrors_writeByte (address : UInt16) (value : UInt8) :
    Mirrors index fetch (writeByte address value) (writeByte address value) := fun e => by
  have hwrite : (e.machine.mapCpu (·.mirror index)).write address value =
      (e.machine.write address value).mapCpu (·.mirror index) := by
    unfold Machine.write
    show (if e.machine.isProtected address = true then _ else _) = _
    split <;> rfl
  exact congrArg (fun m => ((), Execution.mk m (e.cost + 4 + 3)
    (.write address value :: (e.events ++ [fetch])))) hwrite

theorem mirrors_input (port : UInt16) (value : UInt8) :
    Mirrors index fetch (input port value) (input port value) := fun _ => rfl

theorem mirrors_output (port : UInt16) (value : UInt8) :
    Mirrors index fetch (output port value) (output port value) := fun _ => rfl

theorem mirrors_goto (address : UInt16) : Mirrors index fetch (goto address) (goto address) :=
  mirrors_modifyCpu fun c => by cases index <;> rfl

theorem mirrors_setWz (value : UInt16) : Mirrors index fetch (setWz value) (setWz value) :=
  mirrors_modifyCpu fun c => by cases index <;> rfl

theorem mirrors_setFlags (f : Flags) : Mirrors index fetch (setFlags f) (setFlags f) :=
  mirrors_modifyFile fun r => by cases index <;> rfl

theorem mirrors_setResult (r : UInt8 × Flags) : Mirrors index fetch (setResult r) (setResult r) :=
  mirrors_modifyFile fun r => by cases index <;> rfl

theorem mirrors_readWord (address : UInt16) :
    Mirrors index fetch (readWord address) (readWord address) :=
  (mirrors_readByte address).bind fun _ => (mirrors_readByte (address + 1)).bind fun _ =>
    mirrors_pure _

theorem mirrors_writeWord (address value : UInt16) :
    Mirrors index fetch (writeWord address value) (writeWord address value) :=
  (mirrors_writeByte address value.low).bind fun _ => mirrors_writeByte (address + 1) value.high

theorem mirrors_push (value : UInt16) : Mirrors index fetch (push value) (push value) := by
  refine (mirrors_modifyFile (by intro; cases index <;> rfl)).bind fun _ => mirrors_cpu fun c => ?_
  rw [c.sp_mirror]
  exact (mirrors_writeWord c.sp value).bind fun _ => mirrors_modifyCpu fun c => rfl

theorem mirrors_pop : Mirrors index fetch pop pop := by
  refine mirrors_cpu fun c => ?_
  rw [c.sp_mirror]
  refine (mirrors_readWord c.sp).bind fun value => ?_
  exact (mirrors_modifyCpu fun c => by cases index <;> rfl).bind fun _ => mirrors_pure value

theorem mirrors_fetch {s : Source} (h : ∀ p, s ≠ .place (.memory p)) :
    Mirrors index fetch (s.rename index).fetch s.fetch := by
  cases s with
  | literal n => exact mirrors_pure n
  | place p =>
    cases p with
    | memory p => exact absurd rfl (h p)
    | register r =>
      refine mirrors_cpu fun c => ?_
      rw [c.get8_mirror]
      exact mirrors_pure _

/-- A register is replaced by what is computed from it and the flags. -/
theorem mirrors_update {p : Place} (h : ∀ q, p ≠ .memory q) (direct indexed : Nat)
    (copy : Option Reg8) {f : UInt8 → Exec UInt8} (hf : ∀ x, Mirrors index fetch (f x) (f x)) :
    Mirrors index fetch ((p.rename index).update direct indexed copy f)
      (p.update direct indexed copy f) := by
  cases p with
  | memory q => exact absurd rfl (h q)
  | register r =>
    refine mirrors_cpu fun c => ?_
    rw [c.get8_mirror]
    exact (hf _).bind fun value => mirrors_set8 r value

theorem mirrors_jumpBy (d : UInt8) : Mirrors index fetch (jumpBy d) (jumpBy d) := by
  refine mirrors_cpu fun c => ?_
  rw [c.pc_mirror]
  exact (mirrors_goto _).bind fun _ => mirrors_spend 5

theorem mirrors_test (condition : Option Condition) :
    Mirrors index fetch (test condition) (test condition) := by
  cases condition with
  | none => exact mirrors_pure _
  | some cc => exact mirrors_flags.bind fun f => mirrors_pure _

theorem mirrors_callTo (address : UInt16) :
    Mirrors index fetch (callTo address) (callTo address) := by
  refine (mirrors_spend 1).bind fun _ => mirrors_cpu fun c => ?_
  rw [c.pc_mirror]
  exact (mirrors_push c.pc).bind fun _ => mirrors_goto address

theorem mirrors_returnFrom : Mirrors index fetch returnFrom returnFrom :=
  mirrors_pop.bind fun a => mirrors_goto a

end Exec

open Exec

/-- An operation with other registers does to the exchanged registers what it does to its own. -/
theorem Operation.mirrors_execute {op : Operation} (h : op.namesRegisters = true) (index : Index)
    (fetch : BusEvent) (answer : UInt16 → UInt8) (start start' : UInt16) :
    Mirrors index fetch ((op.rename index).execute answer start') (op.execute answer start) := by
  cases op with
  | nop | undefined => exact mirrors_pure ()
  | lonePrefix | di | ei | im => exact mirrors_modifyCpu fun c => by cases index <;> rfl
  | ld target source =>
    refine (mirrors_fetch fun p hp => ?_).bind fun value => mirrors_set8 target value
    subst hp
    cases h
  | loadVia pointer =>
    refine mirrors_cpu fun c => ?_
    rw [c.get16_mirror]
    refine (mirrors_readByte _).bind fun value => ?_
    exact (mirrors_modifyFile (by intro; cases index <;> rfl)).bind fun _ => mirrors_setWz _
  | storeVia pointer =>
    refine mirrors_cpu fun c => ?_
    rw [c.get16_mirror, c.a_mirror]
    exact (mirrors_writeByte _ _).bind fun _ => mirrors_setWz _
  | loadDirect address =>
    refine (mirrors_readByte address).bind fun value => ?_
    exact (mirrors_modifyFile (by intro; cases index <;> rfl)).bind fun _ => mirrors_setWz _
  | storeDirect address =>
    refine mirrors_cpu fun c => ?_
    rw [c.a_mirror]
    exact (mirrors_writeByte address _).bind fun _ => mirrors_setWz _
  | ldWord target n => exact mirrors_set16 target n
  | ldWordDirect target address =>
    refine (mirrors_readWord address).bind fun value => ?_
    exact (mirrors_set16 target value).bind fun _ => mirrors_setWz _
  | storeWordDirect address source =>
    refine mirrors_cpu fun c => ?_
    rw [c.get16_mirror]
    exact (mirrors_writeWord address _).bind fun _ => mirrors_setWz _
  | ldSp source =>
    refine (mirrors_modifyFile fun f => ?_).bind fun _ => mirrors_spend 2
    rw [f.get16_mirror]
    cases index <;> rfl
  | push source =>
    refine (mirrors_spend 1).bind fun _ => mirrors_cpu fun c => ?_
    rw [c.get16_mirror]
    exact mirrors_push _
  | pop target => exact mirrors_pop.bind fun value => mirrors_set16 target value
  | exAf => exact mirrors_modifyFile fun r => by cases index <;> rfl
  | exSp other =>
    refine mirrors_cpu fun c => ?_
    rw [c.get16_mirror, c.sp_mirror]
    refine (mirrors_readWord c.sp).bind fun value => (mirrors_writeWord c.sp _).bind fun _ => ?_
    refine (mirrors_set16 other value).bind fun _ => (mirrors_setWz value).bind fun _ => ?_
    exact mirrors_spend 3
  | arithmetic op source =>
    refine (mirrors_fetch fun p hp => ?_).bind fun x => mirrors_cpu fun c => ?_
    · subst hp
      cases h
    · rw [c.a_mirror, c.flags_mirror]
      exact mirrors_setResult _
  | inc place | dec place =>
    rw [rename, execute, execute]
    refine mirrors_update (fun q hq => ?_) 1 6 none fun x => ?_
    · subst hq
      cases h
    · exact mirrors_flags.bind fun f => (mirrors_setFlags _).bind fun _ => mirrors_pure _
  | daa | cpl | rotate =>
    refine mirrors_cpu fun c => ?_
    rw [c.a_mirror, c.flags_mirror]
    exact mirrors_setResult _
  | neg =>
    refine mirrors_cpu fun c => ?_
    rw [c.a_mirror]
    exact mirrors_setResult _
  | ccf | scf =>
    refine mirrors_cpu fun c => ?_
    rw [c.a_mirror, c.flags_mirror]
    exact mirrors_setFlags _
  | addWord target source =>
    refine mirrors_cpu fun c => ?_
    rw [c.get16_mirror, c.get16_mirror, c.flags_mirror]
    refine (mirrors_set16 target _).bind fun _ => (mirrors_setFlags _).bind fun _ => ?_
    exact (mirrors_setWz _).bind fun _ => mirrors_spend 7
  | incWord target | decWord target =>
    refine (mirrors_modifyFile fun f => ?_).bind fun _ => mirrors_spend 2
    rw [f.get16_mirror, f.set16_mirror]
  | jp condition address =>
    refine (mirrors_test condition).bind fun holds => ?_
    cases holds with
    | false => exact mirrors_setWz address
    | true =>
      exact (mirrors_modifyCpu fun c => by cases index <;> rfl).bind fun _ => mirrors_setWz address
  | jpRegister source =>
    refine mirrors_modifyCpu fun c => ?_
    rw [c.get16_mirror]
    cases index <;> rfl
  | jr condition d =>
    exact (mirrors_test condition).bind fun _ => mirrors_ite (mirrors_jumpBy d) (mirrors_pure _)
  | djnz d =>
    refine (mirrors_spend 1).bind fun _ => mirrors_cpu fun c => ?_
    rw [c.bc_mirror]
    refine (mirrors_modifyFile (by intro; cases index <;> rfl)).bind fun _ => ?_
    exact mirrors_ite (mirrors_jumpBy d) (mirrors_pure _)
  | call condition address =>
    refine (mirrors_test condition).bind fun holds => ?_
    cases holds with
    | false => exact mirrors_setWz address
    | true => exact (mirrors_callTo address).bind fun _ => mirrors_setWz address
  | ret condition =>
    cases condition with
    | none => exact mirrors_returnFrom
    | some cc =>
      refine (mirrors_spend 1).bind fun _ => (mirrors_test _).bind fun _ => ?_
      exact mirrors_ite mirrors_returnFrom (mirrors_pure _)
  | reti | retn =>
    exact (mirrors_modifyCpu fun c => by cases index <;> rfl).bind fun _ => mirrors_returnFrom
  | rst address => exact mirrors_callTo address
  | inLiteral low =>
    refine mirrors_cpu fun c => ?_
    rw [c.a_mirror]
    refine (mirrors_setWz _).bind fun _ => (mirrors_input _ _).bind fun value => ?_
    exact (mirrors_modifyFile (by intro; cases index <;> rfl)).bind fun _ => mirrors_spend 4
  | outLiteral low =>
    refine mirrors_cpu fun c => ?_
    rw [c.a_mirror]
    refine (mirrors_output _ _).bind fun _ => (mirrors_setWz _).bind fun _ => ?_
    exact mirrors_spend 4
  | _ => cases h

theorem Operation.operandBytes_rename (index : Index) (op : Operation) :
    (op.rename index).operandBytes = op.operandBytes := by
  cases op with
  | ld target source | arithmetic op source =>
    rcases source with (r | p) | n <;> rfl
  | inc place | dec place => cases place <;> rfl
  | _ => rfl

end Z80

namespace Machine

open Z80

/-- The events of a fetch come in front of those before it. -/
theorem fetchEvents_append (a : UInt16) (bytes : List UInt8) (events before : List BusEvent) :
    fetchEvents a bytes (events ++ before) = fetchEvents a bytes events ++ before := by
  induction bytes generalizing a events with
  | nil => rfl
  | cons b rest ih => exact ih (a + 1) (.read a b :: events)

/-- The machine in front of the opcode behind an index prefix, with HL and the index register
exchanged. -/
def behindPrefix (m : Machine) (index : Index) : Machine :=
  m.mapCpu fun c =>
    { c with toRegisterFile := { c.toRegisterFile.exchange index with pc := c.pc + 1 } }

theorem length_rename (index : Index) (op : Operation) :
    Instruction.length ⟨.indexed, op.rename index⟩ = Instruction.length ⟨.main, op⟩ + 1 := by
  rw [Instruction.length, Instruction.length, op.operandBytes_rename index]
  exact Nat.add_right_comm 1 1 op.operandBytes

theorem bytesAt_mapCpu (m : Machine) (f : Cpu → Cpu) (a : UInt16) (n : Nat) :
    (m.mapCpu f).bytesAt a n = m.bytesAt a n := by
  induction n generalizing a with
  | zero => rfl
  | succ n ih => exact congrArg (m.read a :: ·) (ih (a + 1))

/-- What has been fetched with the prefix is what is fetched behind it, and the prefix. -/
theorem fetched_of_indexPrefix (m : Machine) (index : Index) (op : Operation) :
    m.fetched ⟨.indexed, op.rename index⟩ =
      ((m.behindPrefix index).fetched ⟨.main, op⟩).mirror index
        (.read m.cpu.pc (m.read m.cpu.pc)) := by
  let n := Instruction.length ⟨.main, op⟩
  have hlength : Instruction.length ⟨.indexed, op.rename index⟩ = n + 1 := length_rename index op
  apply Execution.ext
  · have hpc : m.cpu.pc + UInt16.ofNat (n + 1) = m.cpu.pc + 1 + UInt16.ofNat n := by
      rw [← Cursor.address_succ, UInt16.add_assoc, UInt16.add_assoc, UInt16.add_comm 1]
    have hr : refreshed m.cpu.r 2 = refreshed (refreshed m.cpu.r 1) 1 :=
      (refreshed_refreshed m.cpu.r 1 1).symm
    have hcpu : (m.fetched ⟨.indexed, op.rename index⟩).machine =
        m.mapCpu fun c =>
          { c with
            toRegisterFile :=
              { c.toRegisterFile with
                r := refreshed m.cpu.r 2
                pc := m.cpu.pc + UInt16.ofNat (Instruction.length ⟨.indexed, op.rename index⟩) }
            blocked := false } := rfl
    rw [hcpu, hlength, hpc, hr]
    cases index <;> rfl
  · show 3 * Instruction.length ⟨.indexed, op.rename index⟩ + 2 = 3 * n + 1 + 4
    omega
  · show fetchEvents m.cpu.pc (m.bytesAt m.cpu.pc (Instruction.length _)) [] =
      fetchEvents (m.cpu.pc + 1) ((m.behindPrefix index).bytesAt (m.cpu.pc + 1) n) [] ++
        [.read m.cpu.pc (m.read m.cpu.pc)]
    rw [hlength, behindPrefix, bytesAt_mapCpu, ← fetchEvents_append]
    rfl

/-- An instruction with an index prefix does what it does without the prefix on the machine with HL
and the index register exchanged, which are exchanged back afterwards; it takes four T-states more
and refreshes R once more.  The ports may answer by the time. -/
theorem step_of_indexPrefix {m : Machine} {index : Index}
    (hindex : Index.ofByte? (m.read m.cpu.pc) = some index)
    (hop : Substitutable (m.read (m.cpu.pc + 1))) (answer : UInt64 → UInt16 → UInt8) :
    let exchanged := m.behindPrefix index
    let plain := exchanged.step (answer exchanged.cpu.clock)
    m.step (answer m.cpu.clock) =
      (plain.1.mapCpu fun c =>
        { c with
          toRegisterFile := { c.toRegisterFile.exchange index with r := refreshed c.r 1 }
          clock := c.clock + 4 },
        { address := m.cpu.pc
          bytes := m.read m.cpu.pc :: plain.2.bytes
          cost := plain.2.cost + 4
          events := .read m.cpu.pc (m.read m.cpu.pc) :: plain.2.events }) := by
  intro exchanged plain
  let pc := m.cpu.pc
  let op := Operation.ofMain ⟨none, 0⟩ (m.read (pc + 1)) (m.read (pc + 2)) (m.read (pc + 3))
  obtain ⟨hrename, hnames⟩ := ofMain_rename hop index (m.read (pc + 2)) (m.read (pc + 2))
    (m.read (pc + 3))
  have hindexed : m.instructionAt pc = ⟨.indexed, op.rename index⟩ :=
    (Instruction.decode_of_indexed hindex hop.main).trans
      (congrArg (Instruction.mk .indexed) hrename)
  have hplain : exchanged.instructionAt exchanged.cpu.pc = ⟨.main, op⟩ := by
    have h2 : pc + 1 + 1 = pc + 2 := Cursor.address_succ pc 1
    have h3 : pc + 1 + 2 = pc + 3 := by rw [UInt16.add_assoc]; rfl
    refine (Instruction.decode_of_main hop.main).trans ?_
    show Instruction.mk .main
      (.ofMain ⟨none, 0⟩ (m.read (pc + 1)) (m.read (pc + 1 + 1)) (m.read (pc + 1 + 2))) = _
    rw [h2, h3]
  have hmirror := Operation.mirrors_execute hnames index (.read pc (m.read pc))
    (answer m.cpu.clock) (pc + 1) pc (exchanged.fetched ⟨.main, op⟩)
  let done := (op.execute (answer m.cpu.clock) (pc + 1) (exchanged.fetched ⟨.main, op⟩)).2
  have hdone : ((op.rename index).execute (answer m.cpu.clock) pc
      (m.fetched ⟨.indexed, op.rename index⟩)).2 = done.mirror index (.read pc (m.read pc)) := by
    rw [fetched_of_indexPrefix, hmirror]
  have hevents : (done.mirror index (.read pc (m.read pc))).events.reverse =
      .read pc (m.read pc) :: done.events.reverse := List.reverse_append
  have hclock (t : UInt64) : t + UInt64.ofNat (done.cost + 4) = t + UInt64.ofNat done.cost + 4 := by
    rw [UInt64.ofNat_add, UInt64.add_assoc]
    rfl
  have hplainStep : plain = _ := exchanged.step_of_instruction (answer m.cpu.clock) hplain
  rw [m.step_of_instruction _ hindexed, hplainStep]
  dsimp only
  rw [hdone, hevents, length_rename]
  refine Prod.ext ?_ ?_
  · have hcpu : (fun c : Cpu => { c.mirror index with
          clock := c.clock + UInt64.ofNat (done.cost + 4) }) =
        fun c => { c.mirror index with clock := c.clock + UInt64.ofNat done.cost + 4 } :=
      funext fun c => by rw [hclock]
    refine (congrArg done.machine.mapCpu hcpu).trans ?_
    cases index <;> rfl
  · have hbytes : exchanged.bytesAt (pc + 1) (Instruction.length ⟨.main, op⟩) =
        m.bytesAt (pc + 1) (Instruction.length ⟨.main, op⟩) := m.bytesAt_mapCpu _ _ _
    have hpc : exchanged.cpu.pc = pc + 1 := rfl
    rw [hpc, hbytes]
    rfl

/-- ADD IX,BC at 0x8000. -/
def adding : Machine where
  cpu := { Cpu.powerOn with pc := 0x8000, bc := 0x0101, hl := 0xAAAA, ix := 0x7FFF, r := 0xFF }
  memory := Memory.blank.writeAll 0x8000 [0xDD, 0x09]

/-- It adds to IX what ADD HL,BC adds to HL, whose value IX has. -/
theorem step_of_indexPrefix_adding :
    let plain := (adding.behindPrefix .ix).step fun _ => 0xFF
    let prefixed := adding.step fun _ => 0xFF
    Index.ofByte? (adding.read 0x8000) = some .ix ∧ Substitutable (adding.read 0x8001) ∧
      (prefixed.1.cpu.ix, prefixed.1.cpu.hl) = (plain.1.cpu.hl, plain.1.cpu.ix) ∧
      prefixed.1.cpu.r = refreshed plain.1.cpu.r 1 ∧ prefixed.2.cost = plain.2.cost + 4 := by
  intro plain prefixed
  have hindex : Index.ofByte? (adding.read 0x8000) = some .ix := by decide +kernel
  have hop : Substitutable (adding.read 0x8001) := by decide +kernel
  have h : prefixed = _ := step_of_indexPrefix hindex hop fun _ _ => 0xFF
  rw [h]
  exact ⟨hindex, hop, rfl, rfl, rfl⟩

end Machine
end Spectrum
