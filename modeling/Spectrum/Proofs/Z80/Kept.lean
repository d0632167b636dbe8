import Mathlib.Tactic.Common
import Spectrum.Proofs.Z80.Registers
import Spectrum.Proofs.Z80.Step

/-! # What instructions keep

An instruction is put together from changes of the processor, memory accesses, idle T-states and bus
events.  A property of executions that all of these keep, `Exec.Steady`, is kept by every operation
that is permitted to: once for the bus cycles, and from them upwards one case for each operation.
The changes that an operation needs a permission for are few.  Interrupts have to wait after some of
them, only those that transfer control move the program counter, and only some move the stack or set
R; each of these must keep the property by itself.  `Exec.Stable` is what is kept by all of these
but the program counter and the waiting of interrupts.

Three such properties are that every input on the bus is what its port answered, that no interrupt
has to wait, and that the program counter stays behind the instruction.

Main statements: `Operation.keeps_execute_of_permitted`, `Operation.keeps_execute`,
`Operation.keeps_execute_of_memory`, `Machine.input_of_step`, `Machine.blocked_step`,
`Machine.pc_step`. -/

namespace Spectrum

namespace Z80

namespace Exec

/-- What stays of a processor, unless an operation is about just this. -/
structure Untouched (c c' : Cpu) : Prop where
  blocked : c'.blocked = c.blocked
  pc : c'.pc = c.pc
  sp : c'.sp = c.sp
  r : c'.r = c.r
  balance : c'.balance = c.balance

/-- A property of executions that parts of instructions keep, with ports that answer reads.  What is
written to memory shows on the bus at once. -/
structure Steady (answer : UInt16 → UInt8) (P : Execution → Prop) : Prop where
  cpu : ∀ {e} {f : Cpu → Cpu}, (∀ c, Untouched c (f c)) → P e →
    P { e with machine := e.machine.mapCpu f }
  cost : ∀ {e} cost, P e → P { e with cost }
  read : ∀ {e} address value, P e → P { e with events := .read address value :: e.events }
  write : ∀ {e} address value, P e → P { e with
    machine := e.machine.write address value, events := .write address value :: e.events }
  receive : ∀ {e} port, P e → P { e with events := .input port (answer port) :: e.events }
  send : ∀ {e} port value, P e → P { e with events := .output port value :: e.events }

/-- A property holds wherever the program counter stands. -/
def Roams (P : Execution → Prop) : Prop :=
  ∀ {e} address, P e → P { e with machine := e.machine.mapCpu fun c => { c with pc := address } }

/-- A property holds whether interrupts have to wait or not. -/
def Waits (P : Execution → Prop) : Prop :=
  ∀ {e}, P e → P { e with machine := e.machine.mapCpu fun c => { c with blocked := true } }

/-- A property holds wherever the stack is. -/
def Restacks (P : Execution → Prop) : Prop :=
  ∀ {e} address, P e → P { e with machine := e.machine.mapCpu fun c => { c with sp := address } }

/-- A property holds whatever R is. -/
def Reseeds (P : Execution → Prop) : Prop :=
  ∀ {e} value, P e → P { e with machine := e.machine.mapCpu fun c => { c with r := value } }

/-- A part of an instruction keeps a property. -/
def Keeps {α : Type} (P : Execution → Prop) (x : Exec α) : Prop := ∀ e, P e → P (x e).2

/-- Pushes and pops keep a property. -/
structure Stacks (P : Execution → Prop) : Prop where
  push : ∀ value, Keeps P (push value)
  pop : Keeps P pop

section

variable {α β : Type} {P : Execution → Prop} {x : Exec α}

/-! ### Combinators -/

theorem keeps_pure (a : α) : Keeps P (pure a) := fun _ h => h

theorem Keeps.bind {f : α → Exec β} (hx : Keeps P x) (hf : ∀ a, Keeps P (f a)) :
    Keeps P (x >>= f) := fun e h => hf (x e).1 (x e).2 (hx e h)

theorem keeps_ite {c : Prop} [Decidable c] {y : Exec α} (hx : c → Keeps P x) (hy : Keeps P y) :
    Keeps P (if c then x else y) := by
  split
  · next h => exact hx h
  · exact hy

theorem keeps_cpu : Keeps P cpu := fun _ h => h

theorem keeps_flags : Keeps P flags := fun _ h => h

end

namespace Steady

variable {answer : UInt16 → UInt8} {P : Execution → Prop} (hP : Steady answer P)

include hP

/-! ### Bus cycles -/

theorem modifyCpu {f : Cpu → Cpu} (hf : ∀ c, Untouched c (f c)) : Keeps P (modifyCpu f) :=
  fun _ h => hP.cpu hf h

theorem modifyFile {f : RegisterFile → RegisterFile}
    (hf : ∀ r, (f r).pc = r.pc ∧ (f r).sp = r.sp ∧ (f r).r = r.r) : Keeps P (modifyFile f) :=
  hP.modifyCpu fun _ => ⟨rfl, (hf _).1, (hf _).2.1, (hf _).2.2, rfl⟩

theorem set8 (r : Reg8) (v : UInt8) : Keeps P (Exec.modifyFile (·.set8 r v)) :=
  hP.modifyFile fun f => by cases r <;> exact ⟨rfl, rfl, rfl⟩

theorem set16 {r : Reg16} (hs : (r == .sp) = true → Restacks P) (v : UInt16) :
    Keeps P (Exec.modifyFile (·.set16 r v)) := by
  cases r with
  | sp => exact fun _ h => hs rfl v h
  | bc | de | hl | af | ix | iy => exact hP.modifyFile fun _ => ⟨rfl, rfl, rfl⟩

theorem spend (tstates : Nat) : Keeps P (spend tstates) := fun _ h => hP.cost _ h

theorem readByte (address : UInt16) : Keeps P (readByte address) := fun e h =>
  hP.read (e := { e with cost := e.cost + 3 }) address _ (hP.cost _ h)

theorem writeByte (address : UInt16) (value : UInt8) : Keeps P (writeByte address value) :=
  fun _ h => hP.cost _ (hP.write address value h)

theorem input (port : UInt16) : Keeps P (input port (answer port)) := fun _ h => hP.receive port h

theorem output (port : UInt16) (value : UInt8) : Keeps P (output port value) := fun _ h =>
  hP.send port value h

theorem setWz (value : UInt16) : Keeps P (setWz value) :=
  hP.modifyCpu fun _ => ⟨rfl, rfl, rfl, rfl, rfl⟩

theorem setFlags (flags : Flags) : Keeps P (setFlags flags) :=
  hP.modifyFile fun _ => ⟨rfl, rfl, rfl⟩

theorem setResult (result : UInt8 × Flags) : Keeps P (setResult result) :=
  hP.modifyFile fun _ => ⟨rfl, rfl, rfl⟩

theorem goto (hr : Roams P) (address : UInt16) : Keeps P (goto address) := fun _ h =>
  hP.cpu (f := fun c => { c with wz := address }) (fun _ => ⟨rfl, rfl, rfl, rfl, rfl⟩)
    (hr address h)

theorem readWord (address : UInt16) : Keeps P (readWord address) :=
  (hP.readByte address).bind fun _ => (hP.readByte (address + 1)).bind fun _ => keeps_pure _

theorem writeWord (address value : UInt16) : Keeps P (writeWord address value) :=
  (hP.writeByte address value.low).bind fun _ => hP.writeByte (address + 1) value.high

theorem address (p : Indirect) : Keeps P (address p) := by
  cases p with
  | hl => exact keeps_cpu.bind fun c => keeps_pure _
  | indexed index d => exact keeps_cpu.bind fun c => (hP.setWz _).bind fun _ => keeps_pure _

theorem placeFetch (p : Place) : Keeps P p.fetch := by
  cases p with
  | register r => exact keeps_cpu.bind fun c => keeps_pure _
  | memory p =>
    exact (hP.address p).bind fun a => (hP.readByte a).bind fun value =>
      (hP.spend _).bind fun _ => keeps_pure value

theorem sourceFetch (s : Source) : Keeps P s.fetch := by
  cases s with
  | place p => exact hP.placeFetch p
  | literal n => exact keeps_pure n

theorem placeUpdate (p : Place) (direct indexed : Nat) (copy : Option Reg8) {f : UInt8 → Exec UInt8}
    (hf : ∀ x, Keeps P (f x)) : Keeps P (p.update direct indexed copy f) := by
  cases p with
  | register r => exact keeps_cpu.bind fun c => (hf _).bind fun value => hP.set8 r value
  | memory p =>
    refine (hP.address p).bind fun a => (hP.readByte a).bind fun x => (hf x).bind fun value => ?_
    refine (hP.writeByte a value).bind fun _ => ?_
    cases copy with
    | some r => exact (hP.set8 r value).bind fun _ => hP.spend _
    | none => exact (keeps_pure ()).bind fun _ => hP.spend _

/-! ### Pieces of operations -/

theorem again (hr : Roams P) : Keeps P again := fun e h =>
  hP.cost _ (hr (e.machine.cpu.pc - 2) h)

theorem blockLoad (direction : Direction) {repeats : Bool} (hr : repeats = true → Roams P) :
    Keeps P (blockLoad direction repeats) := by
  refine keeps_cpu.bind fun c => (hP.readByte c.hl).bind fun value => ?_
  refine (hP.writeByte c.de value).bind fun _ => ?_
  refine (hP.modifyFile (by intro; exact ⟨rfl, rfl, rfl⟩)).bind fun _ => ?_
  refine (hP.setFlags _).bind fun _ => (hP.spend 2).bind fun _ => ?_
  refine keeps_ite (fun h => ?_) (keeps_pure _)
  rw [Bool.and_eq_true] at h
  exact (hP.again (hr h.1)).bind fun _ => hP.modifyCpu fun _ => ⟨rfl, rfl, rfl, rfl, rfl⟩

theorem blockCompare (direction : Direction) {repeats : Bool} (hr : repeats = true → Roams P) :
    Keeps P (blockCompare direction repeats) := by
  refine keeps_cpu.bind fun c => (hP.readByte c.hl).bind fun value => ?_
  refine (hP.modifyFile (by intro; exact ⟨rfl, rfl, rfl⟩)).bind fun _ => ?_
  refine (hP.setFlags _).bind fun _ => (hP.spend 5).bind fun _ => ?_
  refine keeps_ite (fun h => ?_) (hP.modifyCpu fun _ => ⟨rfl, rfl, rfl, rfl, rfl⟩)
  rw [Bool.and_eq_true, Bool.and_eq_true] at h
  exact (hP.again (hr h.1.1)).bind fun _ => hP.modifyCpu fun _ => ⟨rfl, rfl, rfl, rfl, rfl⟩

theorem blockInput (direction : Direction) {repeats : Bool} (hr : repeats = true → Roams P) :
    Keeps P (blockInput answer direction repeats) := by
  refine keeps_cpu.bind fun c => (hP.input c.bc).bind fun value => (hP.setWz _).bind fun _ => ?_
  refine (hP.spend 5).bind fun _ => (hP.writeByte c.hl value).bind fun _ => ?_
  refine (hP.modifyFile (by intro; exact ⟨rfl, rfl, rfl⟩)).bind fun _ => ?_
  refine (hP.setFlags _).bind fun _ => ?_
  refine keeps_ite (fun h => ?_) (keeps_pure _)
  rw [Bool.and_eq_true] at h
  exact hP.again (hr h.1)

theorem blockOutput (direction : Direction) {repeats : Bool} (hr : repeats = true → Roams P) :
    Keeps P (blockOutput direction repeats) := by
  refine keeps_cpu.bind fun c => (hP.readByte c.hl).bind fun value => ?_
  refine (hP.output _ value).bind fun _ => (hP.setWz _).bind fun _ => (hP.spend 5).bind fun _ => ?_
  refine (hP.modifyFile (by intro; exact ⟨rfl, rfl, rfl⟩)).bind fun _ => ?_
  refine (hP.setFlags _).bind fun _ => ?_
  refine keeps_ite (fun h => ?_) (keeps_pure _)
  rw [Bool.and_eq_true] at h
  exact hP.again (hr h.1)

theorem block (kind : BlockKind) (direction : Direction) {repeats : Bool}
    (hr : repeats = true → Roams P) : Keeps P (block answer kind direction repeats) := by
  cases kind with
  | load => exact hP.blockLoad direction hr
  | compare => exact hP.blockCompare direction hr
  | input => exact hP.blockInput direction hr
  | output => exact hP.blockOutput direction hr

theorem rotateDigits (f : UInt8 → UInt8 → UInt8 × UInt8) : Keeps P (rotateDigits f) := by
  refine keeps_cpu.bind fun c => (hP.readByte c.hl).bind fun value => ?_
  refine (hP.writeByte c.hl _).bind fun _ => (hP.setResult _).bind fun _ => ?_
  exact (hP.setWz _).bind fun _ => hP.spend 4

theorem jumpBy (hr : Roams P) (d : UInt8) : Keeps P (jumpBy d) :=
  keeps_cpu.bind fun _ => (hP.goto hr _).bind fun _ => hP.spend 5

omit hP in
theorem test (condition : Option Condition) : Keeps P (test condition) := by
  cases condition with
  | none => exact keeps_pure _
  | some cc => exact keeps_flags.bind fun f => keeps_pure _

theorem callTo (hr : Roams P) (hs : Stacks P) (address : UInt16) : Keeps P (callTo address) :=
  (hP.spend 1).bind fun _ => keeps_cpu.bind fun c => (hs.push c.pc).bind fun _ =>
    hP.goto hr address

theorem returnFrom (hr : Roams P) (hs : Stacks P) : Keeps P returnFrom :=
  hs.pop.bind fun a => hP.goto hr a

/-! ### Interrupts -/

theorem enterHandler (hr : Roams P) (hs : Stacks P) (bus : UInt8) :
    Keeps P (Machine.enterHandler bus) := by
  refine keeps_cpu.bind fun c => (hs.push c.pc).bind fun _ => ?_
  cases c.mode with
  | im0 | im1 => exact (hP.goto hr _).bind fun _ => hP.spend 7
  | im2 =>
    exact (hP.readWord _).bind fun address => (hP.goto hr address).bind fun _ => hP.spend 7

theorem enterNonMaskable (hr : Roams P) (hs : Stacks P) :
    Keeps P (do Exec.push (← Exec.cpu).pc; Exec.goto 0x66; Exec.spend 5) :=
  keeps_cpu.bind fun c => (hs.push c.pc).bind fun _ => (hP.goto hr 0x66).bind fun _ => hP.spend 5

end Steady

/-- A property that is kept even where the stack and R change. -/
structure Stable (answer : UInt16 → UInt8) (P : Execution → Prop) : Prop where
  cpu : ∀ {e} {f : Cpu → Cpu}, (∀ c, (f c).blocked = c.blocked ∧ (f c).pc = c.pc) → P e →
    P { e with machine := e.machine.mapCpu f }
  cost : ∀ {e} cost, P e → P { e with cost }
  read : ∀ {e} address value, P e → P { e with events := .read address value :: e.events }
  write : ∀ {e} address value, P e → P { e with
    machine := e.machine.write address value, events := .write address value :: e.events }
  receive : ∀ {e} port, P e → P { e with events := .input port (answer port) :: e.events }
  send : ∀ {e} port value, P e → P { e with events := .output port value :: e.events }

namespace Stable

variable {answer : UInt16 → UInt8} {P : Execution → Prop} (hP : Stable answer P)

include hP

theorem steady : Steady answer P where
  cpu := fun hf => hP.cpu fun c => ⟨(hf c).blocked, (hf c).pc⟩
  cost := hP.cost
  read := hP.read
  write := hP.write
  receive := hP.receive
  send := hP.send

theorem usesStack : Stacks P where
  push value := by
    have hdown : Keeps P (modifyFile fun f => { f with sp := f.sp - 2 }) := fun _ h =>
      hP.cpu (fun _ => ⟨rfl, rfl⟩) h
    have hcount : Keeps P (modifyCpu fun c => { c with balance := c.balance + 1 }) := fun _ h =>
      hP.cpu (fun _ => ⟨rfl, rfl⟩) h
    exact hdown.bind fun _ => keeps_cpu.bind fun c =>
      (hP.steady.writeWord c.sp value).bind fun _ => hcount
  pop := by
    have hup : Keeps P (modifyCpu fun c => { c with sp := c.sp + 2, balance := c.balance - 1 }) :=
      fun _ h => hP.cpu (fun _ => ⟨rfl, rfl⟩) h
    exact keeps_cpu.bind fun c => (hP.steady.readWord c.sp).bind fun value =>
      hup.bind fun _ => keeps_pure value

theorem restacks : Restacks P := fun address h =>
  hP.cpu (f := fun c => { c with sp := address }) (fun _ => ⟨rfl, rfl⟩) h

theorem reseeds : Reseeds P := fun value h =>
  hP.cpu (f := fun c => { c with r := value }) (fun _ => ⟨rfl, rfl⟩) h

end Stable

/-- What the processor has in the flag and the program counter stays as it is. -/
theorem stable_field {α : Type} (answer : UInt16 → UInt8) (field : Cpu → α) (v : α)
    (h : ∀ c c' : Cpu, c'.blocked = c.blocked ∧ c'.pc = c.pc → field c' = field c) :
    Stable answer fun e => field e.machine.cpu = v where
  cpu := fun hf he => (h _ _ (hf _)).trans he
  cost := fun _ he => he
  read := fun _ _ he => he
  write := fun address value he =>
    (congrArg field (Machine.cpu_write _ address value)).trans he
  receive := fun _ he => he
  send := fun _ _ he => he

/-- What depends on nothing but the flag, the program counter, the stack and R is kept as far as no
operation is about these. -/
theorem steady_field {α : Type} (answer : UInt16 → UInt8) (field : Cpu → α) (v : α)
    (h : ∀ c c' : Cpu, Untouched c c' → field c' = field c) :
    Steady answer fun e => field e.machine.cpu = v where
  cpu := fun hf he => (h _ _ (hf _)).trans he
  cost := fun _ he => he
  read := fun _ _ he => he
  write := fun address value he =>
    (congrArg field (Machine.cpu_write _ address value)).trans he
  receive := fun _ he => he
  send := fun _ _ he => he

end Exec

open Exec

/-- An interrupt has to wait after the operation. -/
def Operation.Blocks (op : Operation) : Prop := op = .ei ∨ ∃ index, op = .lonePrefix index

/-- Whether an operation may go on elsewhere than behind its instruction. -/
def Operation.transfers : Operation → Bool
  | .halt | .block _ _ true | .jp _ _ | .jpRegister _ | .jr _ _ | .djnz _ => true
  | .call _ _ | .ret _ | .reti | .retn | .rst _ => true
  | _ => false

/-- Whether an operation pushes or pops. -/
def Operation.usesStack : Operation → Bool
  | .push _ | .pop _ | .call _ _ | .ret _ | .reti | .retn | .rst _ => true
  | _ => false

/-- Whether an operation may move the stack to another place. -/
def Operation.restacks : Operation → Bool
  | .ldSp _ => true
  | .ldWord target _ | .ldWordDirect target _ | .incWord target | .decWord target => target == .sp
  | .pop target | .exSp target | .addWord target _ => target == .sp
  | _ => false

/-- The ways in which operations may break what their parts keep, with the parts that do so. -/
structure Operation.Permitted (op : Operation) (P : Execution → Prop) : Prop where
  waits : op.Blocks → Waits P
  roams : op.transfers = true → Roams P
  usesStack : op.usesStack = true → Stacks P
  restacks : op.restacks = true → Restacks P
  reseeds : op = .storeSpecial .r → Reseeds P

/-- What all parts keep, all operations keep that are permitted to. -/
theorem Operation.keeps_execute_of_permitted {answer : UInt16 → UInt8} {P : Execution → Prop}
    (hP : Steady answer P) (start : UInt16) {op : Operation} (hop : op.Permitted P) :
    Keeps P (op.execute answer start) := by
  cases op with
  | ei =>
    exact fun e h => hP.cpu (f := fun c => { c with iff1 := true, iff2 := true })
      (fun _ => ⟨rfl, rfl, rfl, rfl, rfl⟩) (hop.waits (.inl rfl) h)
  | lonePrefix index => exact fun e h => hop.waits (.inr ⟨index, rfl⟩) h
  | nop | undefined => exact keeps_pure ()
  | di | im => exact hP.modifyCpu fun _ => ⟨rfl, rfl, rfl, rfl, rfl⟩
  | halt =>
    exact fun e h => hP.cpu (f := fun c => { c with halted := true })
      (fun _ => ⟨rfl, rfl, rfl, rfl, rfl⟩) (hop.roams rfl start h)
  | jpRegister source => exact fun e h => hop.roams rfl (e.machine.cpu.get16 source) h
  | exDeHl | exAf | exx => exact hP.modifyFile fun _ => ⟨rfl, rfl, rfl⟩
  | ldWord target n => exact hP.set16 hop.restacks n
  | ld target source => exact (hP.sourceFetch source).bind fun _ => hP.set8 target _
  | store target source =>
    exact (hP.address target).bind fun a => keeps_cpu.bind fun c =>
      (hP.writeByte a _).bind fun _ => hP.spend _
  | storeLiteral target n =>
    exact (hP.address target).bind fun a => (hP.writeByte a n).bind fun _ => hP.spend _
  | loadVia pointer =>
    exact keeps_cpu.bind fun c => (hP.readByte _).bind fun _ =>
      (hP.set8 .a _).bind fun _ => hP.setWz _
  | storeVia pointer =>
    exact keeps_cpu.bind fun c => (hP.writeByte _ c.a).bind fun _ => hP.setWz _
  | loadDirect address =>
    exact (hP.readByte address).bind fun _ => (hP.set8 .a _).bind fun _ => hP.setWz _
  | storeDirect address =>
    exact keeps_cpu.bind fun c => (hP.writeByte address c.a).bind fun _ => hP.setWz _
  | loadSpecial source =>
    exact keeps_cpu.bind fun c => (hP.setResult _).bind fun _ => hP.spend 1
  | storeSpecial target =>
    refine Keeps.bind ?_ fun _ => hP.spend 1
    cases target with
    | i => exact hP.modifyFile fun _ => ⟨rfl, rfl, rfl⟩
    | r => exact fun e h => hop.reseeds rfl e.machine.cpu.a h
  | ldWordDirect target address =>
    exact (hP.readWord address).bind fun _ => (hP.set16 hop.restacks _).bind fun _ => hP.setWz _
  | storeWordDirect address source =>
    exact keeps_cpu.bind fun c => (hP.writeWord address _).bind fun _ => hP.setWz _
  | ldSp source =>
    refine Keeps.bind (fun e h => ?_) fun _ => hP.spend 2
    exact hop.restacks rfl (e.machine.cpu.get16 source) h
  | push source =>
    exact (hP.spend 1).bind fun _ => keeps_cpu.bind fun c => (hop.usesStack rfl).push _
  | pop target => exact (hop.usesStack rfl).pop.bind fun _ => hP.set16 hop.restacks _
  | exSp other =>
    exact keeps_cpu.bind fun c => (hP.readWord c.sp).bind fun value =>
      (hP.writeWord c.sp _).bind fun _ => (hP.set16 hop.restacks value).bind fun _ =>
        (hP.setWz value).bind fun _ => hP.spend 3
  | block kind direction repeats =>
    refine hP.block kind direction fun h => hop.roams ?_
    rw [h]
    rfl
  | arithmetic op source =>
    exact (hP.sourceFetch source).bind fun x => keeps_cpu.bind fun c => hP.setResult _
  | inc place | dec place =>
    rw [execute]
    exact hP.placeUpdate place _ _ _ fun x =>
      keeps_flags.bind fun f => (hP.setFlags _).bind fun _ => keeps_pure _
  | daa | cpl | neg | rotate => exact keeps_cpu.bind fun c => hP.setResult _
  | ccf | scf => exact keeps_cpu.bind fun c => hP.setFlags _
  | addWord target source =>
    exact keeps_cpu.bind fun c => (hP.set16 hop.restacks _).bind fun _ =>
      (hP.setFlags _).bind fun _ => (hP.setWz _).bind fun _ => hP.spend 7
  | adcWord | sbcWord =>
    exact keeps_cpu.bind fun c => (hP.set16 (fun h => absurd h (by decide)) _).bind fun _ =>
      (hP.setFlags _).bind fun _ => (hP.setWz _).bind fun _ => hP.spend 7
  | incWord target | decWord target =>
    exact Keeps.bind (fun e h => hP.set16 hop.restacks _ e h) fun _ => hP.spend 2
  | shift op place copy =>
    rw [execute]
    exact hP.placeUpdate place _ _ _ fun x =>
      keeps_flags.bind fun f => (hP.setFlags _).bind fun _ => keeps_pure _
  | bit number place =>
    cases place with
    | register r => exact keeps_cpu.bind fun c => hP.setFlags _
    | memory p =>
      exact (hP.address p).bind fun a => (hP.readByte a).bind fun x =>
        keeps_cpu.bind fun c => (hP.setFlags _).bind fun _ => hP.spend _
  | res number place copy | set number place copy =>
    rw [execute]
    exact hP.placeUpdate place _ _ _ fun x => keeps_pure _
  | rrd | rld =>
    rw [execute]
    exact hP.rotateDigits _
  | jp condition address =>
    refine (Steady.test condition).bind fun holds => ?_
    cases holds with
    | false => exact hP.setWz address
    | true =>
      exact fun e h => hP.cpu (f := fun c => { c with wz := address })
        (fun _ => ⟨rfl, rfl, rfl, rfl, rfl⟩) (hop.roams rfl address h)
  | jr condition d =>
    exact (Steady.test condition).bind fun _ =>
      keeps_ite (fun _ => hP.jumpBy (hop.roams rfl) d) (keeps_pure _)
  | djnz d =>
    exact (hP.spend 1).bind fun _ => keeps_cpu.bind fun c => (hP.set8 .b _).bind fun _ =>
      keeps_ite (fun _ => hP.jumpBy (hop.roams rfl) d) (keeps_pure _)
  | call condition address =>
    refine (Steady.test condition).bind fun holds => ?_
    cases holds with
    | false => exact hP.setWz address
    | true =>
      exact (hP.callTo (hop.roams rfl) (hop.usesStack rfl) address).bind fun _ => hP.setWz address
  | ret condition =>
    cases condition with
    | none => exact hP.returnFrom (hop.roams rfl) (hop.usesStack rfl)
    | some cc =>
      exact (hP.spend 1).bind fun _ => (Steady.test _).bind fun _ =>
        keeps_ite (fun _ => hP.returnFrom (hop.roams rfl) (hop.usesStack rfl)) (keeps_pure _)
  | reti | retn =>
    exact (hP.modifyCpu (by intro; exact ⟨rfl, rfl, rfl, rfl, rfl⟩)).bind fun _ =>
      hP.returnFrom (hop.roams rfl) (hop.usesStack rfl)
  | rst address => exact hP.callTo (hop.roams rfl) (hop.usesStack rfl) address
  | inLiteral low =>
    exact keeps_cpu.bind fun c => (hP.setWz _).bind fun _ => (hP.input _).bind fun _ =>
      (hP.set8 .a _).bind fun _ => hP.spend 4
  | inRegister target =>
    refine keeps_cpu.bind fun c => (hP.input c.bc).bind fun value => ?_
    cases target with
    | none =>
      exact (hP.setFlags _).bind fun _ => keeps_cpu.bind fun _ =>
        (hP.setWz _).bind fun _ => hP.spend 4
    | some r =>
      exact (hP.set8 r value).bind fun _ => (hP.setFlags _).bind fun _ =>
        keeps_cpu.bind fun _ => (hP.setWz _).bind fun _ => hP.spend 4
  | outLiteral low =>
    exact keeps_cpu.bind fun c => (hP.output _ c.a).bind fun _ =>
      (hP.setWz _).bind fun _ => hP.spend 4
  | outRegister source =>
    exact keeps_cpu.bind fun c => (hP.output c.bc _).bind fun _ =>
      (hP.setWz _).bind fun _ => hP.spend 4

/-- What is kept even where the stack and R change, all operations keep; those that transfer control
keep what holds everywhere. -/
theorem Operation.keeps_execute {answer : UInt16 → UInt8} {P : Execution → Prop}
    (hP : Stable answer P) (start : UInt16) {op : Operation} (hb : ¬ op.Blocks)
    (hr : op.transfers = true → Roams P) : Keeps P (op.execute answer start) :=
  keeps_execute_of_permitted hP.steady start
    ⟨fun h => absurd h hb, hr, fun _ => hP.usesStack, fun _ => hP.restacks, fun _ => hP.reseeds⟩

/-- What does not depend on the processor, every operation keeps. -/
theorem Operation.keeps_execute_of_memory {answer : UInt16 → UInt8} {P : Execution → Prop}
    (hP : Stable answer P)
    (hcpu : ∀ {e : Execution} cpu, P e → P { e with machine := { e.machine with cpu } })
    (start : UInt16) (op : Operation) : Keeps P (op.execute answer start) := by
  by_cases hb : op.Blocks
  · rcases hb with rfl | ⟨index, rfl⟩ <;> exact fun e h => hcpu _ h
  · exact keeps_execute hP start hb fun _ _ _ h => hcpu _ h

end Z80

namespace Machine

open Z80

variable (m : Machine) (answer : UInt16 → UInt8)

/-! ### Whole instructions -/

/-- Only reads show while an instruction is fetched. -/
theorem kept_fetchEvents {answer : UInt16 → UInt8} {P : Execution → Prop}
    (hP : Exec.Stable answer P) (address : UInt16) (bytes : List UInt8) {e : Execution} (h : P e) :
    P { e with events := fetchEvents address bytes e.events } := by
  induction bytes generalizing address e with
  | nil => exact h
  | cons b rest ih => exact ih (address + 1) (hP.read address b h)

/-- What does not depend on the processor holds at the end of an instruction, if it does at the
start. -/
theorem kept_carriedOut {P : Execution → Prop} (hP : Exec.Stable answer P)
    (hcpu : ∀ {e : Execution} cpu, P e → P { e with machine := { e.machine with cpu } })
    (h : P { machine := m }) : P (m.carriedOut answer) := by
  let i := m.instructionAt m.cpu.pc
  have hready : P { machine := (m.fetched i).machine } := hcpu (m.fetched i).machine.cpu h
  have hfetched : P (m.fetched i) :=
    kept_fetchEvents hP m.cpu.pc (m.bytesAt m.cpu.pc i.length) (hP.cost _ hready)
  exact i.operation.keeps_execute_of_memory hP hcpu m.cpu.pc _ hfetched

/-- Every input on the bus is what the port answered. -/
theorem input_of_step {port : UInt16} {value : UInt8}
    (h : .input port value ∈ (m.step answer).2.events) : value = answer port := by
  let P : Execution → Prop := fun e =>
    ∀ port value, BusEvent.input port value ∈ e.events → value = answer port
  -- an event that is no input leaves the inputs as they were
  have hskip {e : Execution} {event : BusEvent} (hne : ∀ port value, .input port value ≠ event)
      (he : P e) (port : UInt16) (value : UInt8) (hmem : .input port value ∈ event :: e.events) :
      value = answer port :=
    he port value ((List.mem_cons.mp hmem).resolve_left (hne port value))
  have hP : Exec.Stable answer P :=
    { cpu := fun _ h => h
      cost := fun _ h => h
      read := fun _ _ h => hskip (fun _ _ => nofun) h
      write := fun _ _ h => hskip (fun _ _ => nofun) h
      receive := fun {e} p h port value hmem => by
        rcases List.mem_cons.mp hmem with heq | hmem
        · obtain ⟨rfl, rfl⟩ := BusEvent.input.inj heq
          rfl
        · exact h port value hmem
      send := fun _ _ h => hskip (fun _ _ => nofun) h }
  have hdone : P (m.carriedOut answer) :=
    m.kept_carriedOut answer hP (fun _ h => h) fun _ _ h => absurd h List.not_mem_nil
  rw [m.step_eq_carriedOut answer] at h
  exact hdone port value (List.mem_reverse.mp h)

/-- After an instruction an interrupt has to wait exactly if its operation says so. -/
theorem blocked_step :
    (m.step answer).1.cpu.blocked = true ↔ (m.instructionAt m.cpu.pc).operation.Blocks := by
  have hP := Exec.stable_field answer Cpu.blocked false fun _ _ h => h.1
  rw [m.step_eq_carriedOut answer]
  by_cases hb : (m.instructionAt m.cpu.pc).operation.Blocks
  · refine iff_of_true ?_ hb
    unfold carriedOut
    rcases hb with he | ⟨index, he⟩ <;> dsimp only <;> rw [he] <;> rfl
  · have hkeeps := Operation.keeps_execute hP m.cpu.pc hb fun _ _ _ h => h
    refine iff_of_false (Bool.eq_false_iff.mp ?_) hb
    exact hkeeps (m.fetched (m.instructionAt m.cpu.pc)) rfl

/-- An instruction that does not transfer control goes on behind its bytes. -/
theorem pc_step (h : (m.instructionAt m.cpu.pc).operation.transfers = false) :
    (m.step answer).1.cpu.pc = m.cpu.pc + UInt16.ofNat (m.instructionAt m.cpu.pc).length := by
  have hP := Exec.stable_field answer (fun c => c.pc)
    (m.cpu.pc + UInt16.ofNat (m.instructionAt m.cpu.pc).length) fun _ _ h => h.2
  rw [m.step_eq_carriedOut answer]
  by_cases hb : (m.instructionAt m.cpu.pc).operation.Blocks
  · unfold carriedOut
    rcases hb with he | ⟨index, he⟩ <;> dsimp only <;> rw [he] <;> rfl
  · have hkeeps := Operation.keeps_execute hP m.cpu.pc hb fun ht => absurd (h.symm.trans ht) nofun
    exact hkeeps (m.fetched (m.instructionAt m.cpu.pc)) rfl

end Machine

end Spectrum
