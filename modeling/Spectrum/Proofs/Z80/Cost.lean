import Mathlib.Tactic.Common
import Spectrum.Proofs.Z80.Decoding
import Spectrum.Proofs.Z80.Step

/-! # What instructions cost

Parts of instructions only ever add to the cost, and leave the clock to `Machine.step`, which moves
it on once at the end.  `Exec.Within n` says so of a part that costs at most `n` T-states; it is
preserved by the combinators, and from the bus cycles upwards every operation is put together from
such parts.

Main statements: `Operation.within_execute`, `Machine.clock_step`, `Machine.clock_ran`,
`Machine.le_cost_step`, `Machine.step?_eq_ok`, `Machine.clock_interrupt`. -/

namespace Spectrum

namespace Z80

/-- A part of an instruction costs at most `n` T-states and leaves the clock alone. -/
structure Exec.Within {α : Type} (n : Nat) (x : Exec α) : Prop where
  le : ∀ e, e.cost ≤ (x e).2.cost
  cost : ∀ e, (x e).2.cost ≤ e.cost + n
  clock : ∀ e, (x e).2.machine.cpu.clock = e.machine.cpu.clock

namespace Exec

variable {α β : Type} {m n : Nat} {x : Exec α}

/-! ### Combinators -/

theorem Within.mono (h : x.Within m) (hmn : m ≤ n) : x.Within n where
  le := h.le
  cost := fun e => Nat.le_trans (h.cost e) (Nat.add_le_add_left hmn _)
  clock := h.clock

theorem within_pure (a : α) : (pure a : Exec α).Within n where
  le := fun _ => Nat.le_refl _
  cost := fun e => Nat.le_add_right e.cost n
  clock := fun _ => rfl

/-- What is left of the bound is for the rest. -/
theorem Within.bind {f : α → Exec β} (hx : x.Within m) (hm : m ≤ n)
    (hf : ∀ a, (f a).Within (n - m)) : (x >>= f).Within n where
  le := fun e => Nat.le_trans (hx.le e) ((hf _).le _)
  cost := fun e => by
    have h := hx.cost e
    have h' := (hf (x e).1).cost (x e).2
    have : ((x >>= f) e).2.cost = (f (x e).1 (x e).2).2.cost := rfl
    omega
  clock := fun e => ((hf _).clock _).trans (hx.clock e)

theorem Within.then {f : α → Exec β} (hx : x.Within 0) (hf : ∀ a, (f a).Within n) :
    (x >>= f).Within n := hx.bind (Nat.zero_le n) hf

theorem within_ite {c : Prop} [Decidable c] {y : Exec α} (hx : x.Within n) (hy : y.Within n) :
    (if c then x else y).Within n := by
  split
  · exact hx
  · exact hy

/-! ### Bus cycles -/

theorem within_cpu : cpu.Within 0 := ⟨fun _ => Nat.le_refl _, fun _ => Nat.le_refl _, fun _ => rfl⟩

theorem within_flags : flags.Within 0 :=
  ⟨fun _ => Nat.le_refl _, fun _ => Nat.le_refl _, fun _ => rfl⟩

/-- A change of the processor that is not one of its clock. -/
theorem within_modifyCpu {f : Cpu → Cpu} (hf : ∀ c, (f c).clock = c.clock) :
    (modifyCpu f).Within 0 :=
  ⟨fun _ => Nat.le_refl _, fun _ => Nat.le_refl _, fun _ => hf _⟩

theorem within_modifyFile (f : RegisterFile → RegisterFile) : (modifyFile f).Within 0 :=
  within_modifyCpu fun _ => rfl

theorem within_spend (n : Nat) : (spend n).Within n :=
  ⟨fun _ => Nat.le_add_right _ _, fun _ => Nat.le_refl _, fun _ => rfl⟩

theorem within_readByte (address : UInt16) : (readByte address).Within 3 :=
  ⟨fun _ => Nat.le_add_right _ _, fun _ => Nat.le_refl _, fun _ => rfl⟩

theorem within_writeByte (address : UInt16) (value : UInt8) : (writeByte address value).Within 3 :=
  ⟨fun _ => Nat.le_add_right _ _, fun _ => Nat.le_refl _,
    fun e => congrArg Cpu.clock (e.machine.cpu_write address value)⟩

theorem within_input (port : UInt16) (value : UInt8) : (input port value).Within 0 :=
  ⟨fun _ => Nat.le_refl _, fun _ => Nat.le_refl _, fun _ => rfl⟩

theorem within_output (port : UInt16) (value : UInt8) : (output port value).Within 0 :=
  ⟨fun _ => Nat.le_refl _, fun _ => Nat.le_refl _, fun _ => rfl⟩

theorem within_goto (address : UInt16) : (goto address).Within 0 := within_modifyCpu fun _ => rfl

theorem within_setWz (value : UInt16) : (setWz value).Within 0 := within_modifyCpu fun _ => rfl

theorem within_setFlags (flags : Flags) : (setFlags flags).Within 0 := within_modifyFile _

theorem within_setResult (result : UInt8 × Flags) : (setResult result).Within 0 :=
  within_modifyFile _

theorem within_readWord (address : UInt16) : (readWord address).Within 6 := by
  refine (within_readByte address).bind (by decide) fun low => ?_
  exact (within_readByte (address + 1)).bind (by decide) fun high => within_pure _

theorem within_writeWord (address value : UInt16) : (writeWord address value).Within 6 := by
  refine (within_writeByte address value.low).bind (by decide) fun _ => ?_
  exact within_writeByte (address + 1) value.high

theorem within_push (value : UInt16) : (push value).Within 6 := by
  refine (within_modifyFile _).then fun _ => within_cpu.then fun c => ?_
  refine (within_writeWord c.sp value).bind (by decide) fun _ => ?_
  exact within_modifyCpu fun _ => rfl

theorem within_pop : pop.Within 6 := by
  refine within_cpu.then fun c => (within_readWord c.sp).bind (by decide) fun value => ?_
  exact (within_modifyCpu (by intro; rfl)).then fun _ => within_pure value

theorem within_address (p : Indirect) : (address p).Within 0 := by
  cases p with
  | hl => exact within_cpu.then fun c => within_pure _
  | indexed index d => exact within_cpu.then fun c => (within_setWz _).then fun _ => within_pure _

end Exec

open Exec

theorem Indirect.delay_le (p : Indirect) (n : Nat) : p.delay n ≤ n := by
  cases p with
  | hl => exact Nat.zero_le n
  | indexed index d => exact Nat.le_refl n

theorem Place.within_fetch (p : Place) : p.fetch.Within 8 := by
  cases p with
  | register r => exact within_cpu.then fun c => within_pure _
  | memory p =>
    refine (within_address p).then fun a => ?_
    refine (within_readByte a).bind (by decide) fun value => ?_
    exact ((within_spend _).mono (p.delay_le 5)).bind (by decide) fun _ => within_pure value

theorem Source.within_fetch (s : Source) : s.fetch.Within 8 := by
  cases s with
  | place p => exact p.within_fetch
  | literal n => exact within_pure n

/-- A change of a place costs the accesses and what is told of them. -/
theorem Place.within_update (p : Place) {direct indexed : Nat} (hd : direct ≤ indexed)
    (copy : Option Reg8) {f : UInt8 → Exec UInt8} (hf : ∀ x, (f x).Within 0) :
    (p.update direct indexed copy f).Within (6 + indexed) := by
  cases p with
  | register r =>
    refine within_cpu.then fun c => (hf _).then fun value => ?_
    exact (within_modifyFile _).mono (Nat.zero_le _)
  | memory p =>
    refine (within_address p).then fun a => ?_
    refine (within_readByte a).bind (by omega) fun x => (hf x).then fun value => ?_
    refine (within_writeByte a value).bind (by omega) fun _ => ?_
    have hspend : ∀ n ≤ indexed, (spend n).Within (6 + indexed - 3 - 3) := fun n hn =>
      (within_spend n).mono (by omega)
    cases p with
    | hl =>
      cases copy with
      | some r => exact (within_modifyFile _).then fun _ => hspend direct hd
      | none => exact (within_pure ()).then fun _ => hspend direct hd
    | indexed index d =>
      cases copy with
      | some r => exact (within_modifyFile _).then fun _ => hspend indexed (Nat.le_refl _)
      | none => exact (within_pure ()).then fun _ => hspend indexed (Nat.le_refl _)

namespace Exec

/-! ### Pieces of operations -/

theorem within_again : again.Within 5 := by
  refine (within_modifyCpu (by intro; rfl)).then fun _ => ?_
  exact within_spend 5

theorem within_blockLoad (direction : Direction) (repeats : Bool) :
    (blockLoad direction repeats).Within 13 := by
  refine within_cpu.then fun c => (within_readByte c.hl).bind (by decide) fun value => ?_
  refine (within_writeByte c.de value).bind (by decide) fun _ => ?_
  refine (within_modifyFile _).then fun _ => (within_setFlags _).then fun _ => ?_
  refine (within_spend 2).bind (by decide) fun _ => within_ite ?_ (within_pure _)
  exact within_again.bind (by decide) fun _ => within_modifyCpu (by intro; rfl)

theorem within_blockCompare (direction : Direction) (repeats : Bool) :
    (blockCompare direction repeats).Within 13 := by
  refine within_cpu.then fun c => (within_readByte c.hl).bind (by decide) fun value => ?_
  refine (within_modifyFile _).then fun _ => (within_setFlags _).then fun _ => ?_
  refine (within_spend 5).bind (by decide) fun _ => within_ite ?_ ?_
  · exact within_again.bind (by decide) fun _ => within_modifyCpu (by intro; rfl)
  · exact (within_modifyCpu (by intro; rfl)).mono (Nat.zero_le _)

theorem within_blockInput (answer : UInt16 → UInt8) (direction : Direction) (repeats : Bool) :
    (blockInput answer direction repeats).Within 13 := by
  refine within_cpu.then fun c => (within_input c.bc _).then fun value => ?_
  refine (within_setWz _).then fun _ => (within_spend 5).bind (by decide) fun _ => ?_
  refine (within_writeByte c.hl value).bind (by decide) fun _ => ?_
  refine (within_modifyFile _).then fun _ => (within_setFlags _).then fun _ => ?_
  exact within_ite within_again (within_pure _)

theorem within_blockOutput (direction : Direction) (repeats : Bool) :
    (blockOutput direction repeats).Within 13 := by
  refine within_cpu.then fun c => (within_readByte c.hl).bind (by decide) fun value => ?_
  refine (within_output _ value).then fun _ => (within_setWz _).then fun _ => ?_
  refine (within_spend 5).bind (by decide) fun _ => ?_
  refine (within_modifyFile _).then fun _ => (within_setFlags _).then fun _ => ?_
  exact within_ite within_again (within_pure _)

theorem within_block (answer : UInt16 → UInt8) (kind : BlockKind) (direction : Direction)
    (repeats : Bool) : (block answer kind direction repeats).Within 13 := by
  cases kind with
  | load => exact within_blockLoad direction repeats
  | compare => exact within_blockCompare direction repeats
  | input => exact within_blockInput answer direction repeats
  | output => exact within_blockOutput direction repeats

theorem within_rotateDigits (f : UInt8 → UInt8 → UInt8 × UInt8) : (rotateDigits f).Within 10 := by
  refine within_cpu.then fun c => (within_readByte c.hl).bind (by decide) fun value => ?_
  refine (within_writeByte c.hl _).bind (by decide) fun _ => ?_
  refine (within_setResult _).then fun _ => (within_setWz _).then fun _ => ?_
  exact within_spend 4

theorem within_jumpBy (d : UInt8) : (jumpBy d).Within 5 := by
  refine within_cpu.then fun c => (within_goto _).then fun _ => ?_
  exact within_spend 5

theorem within_test (condition : Option Condition) : (test condition).Within 0 := by
  cases condition with
  | none => exact within_pure _
  | some cc => exact within_flags.then fun f => within_pure _

theorem within_callTo (address : UInt16) : (callTo address).Within 7 := by
  refine (within_spend 1).bind (by decide) fun _ => within_cpu.then fun c => ?_
  refine (within_push c.pc).bind (by decide) fun _ => ?_
  exact within_goto address

theorem within_returnFrom : returnFrom.Within 6 := by
  refine within_pop.bind (by decide) fun address => ?_
  exact within_goto address

end Exec

namespace Operation

/-- The T-states that an operation takes at most beside its fetches. -/
def maxCost : Operation → Nat
  | .ld _ _ | .store _ _ | .arithmetic _ _ => 8
  | .storeLiteral _ _ => 5
  | .loadVia _ | .storeVia _ | .loadDirect _ | .storeDirect _ => 3
  | .loadSpecial _ | .storeSpecial _ => 1
  | .ldWordDirect _ _ | .storeWordDirect _ _ => 6
  | .ldSp _ | .incWord _ | .decWord _ => 2
  | .push _ | .call _ _ | .ret _ | .rst _ => 7
  | .pop _ | .reti | .retn | .djnz _ => 6
  | .exSp _ => 15
  | .block _ _ _ => 13
  | .inc _ | .dec _ => 12
  | .addWord _ _ | .adcWord _ | .sbcWord _ => 7
  | .shift _ _ _ | .res _ _ _ | .set _ _ _ => 9
  | .bit _ _ => 6
  | .rrd | .rld => 10
  | .jr _ _ => 5
  | .inLiteral _ | .inRegister _ | .outLiteral _ | .outRegister _ => 4
  | .nop | .undefined _ | .lonePrefix _ | .halt | .di | .ei | .im _ | .ldWord _ _ => 0
  | .exDeHl | .exAf | .exx | .daa | .cpl | .neg | .ccf | .scf | .rotate _ => 0
  | .jp _ _ | .jpRegister _ => 0

/-- An operation costs no more than that. -/
theorem within_execute (answer : UInt16 → UInt8) (start : UInt16) (op : Operation) :
    (op.execute answer start).Within op.maxCost := by
  cases op with
  | nop | undefined => exact within_pure ()
  | lonePrefix | halt | di | ei | im => exact within_modifyCpu (by intro; rfl)
  | ldWord | exDeHl | exAf | exx => exact within_modifyFile _
  | ld target source =>
    refine source.within_fetch.bind (Nat.le_refl 8) fun value => ?_
    exact within_modifyFile _
  | store target source =>
    rw [maxCost]
    refine (within_address target).then fun a => within_cpu.then fun c => ?_
    refine (within_writeByte a _).bind (by decide) fun _ => ?_
    exact (within_spend _).mono (target.delay_le 5)
  | storeLiteral target n =>
    rw [maxCost]
    refine (within_address target).then fun a => ?_
    refine (within_writeByte a n).bind (by decide) fun _ => ?_
    exact (within_spend _).mono (target.delay_le 2)
  | loadVia pointer =>
    refine within_cpu.then fun c => (within_readByte _).bind (Nat.le_refl 3) fun value => ?_
    exact (within_modifyFile _).then fun _ => within_setWz _
  | storeVia pointer =>
    refine within_cpu.then fun c => (within_writeByte _ c.a).bind (Nat.le_refl 3) fun _ => ?_
    exact within_setWz _
  | loadDirect address =>
    refine (within_readByte address).bind (Nat.le_refl 3) fun value => ?_
    exact (within_modifyFile _).then fun _ => within_setWz _
  | storeDirect address =>
    refine within_cpu.then fun c => (within_writeByte address c.a).bind (Nat.le_refl 3) fun _ => ?_
    exact within_setWz _
  | loadSpecial source =>
    exact within_cpu.then fun c => (within_setResult _).then fun _ => within_spend 1
  | storeSpecial target => exact (within_modifyFile _).then fun _ => within_spend 1
  | ldWordDirect target address =>
    refine (within_readWord address).bind (Nat.le_refl 6) fun value => ?_
    exact (within_modifyFile _).then fun _ => within_setWz _
  | storeWordDirect address source =>
    refine within_cpu.then fun c => (within_writeWord address _).bind (Nat.le_refl 6) fun _ => ?_
    exact within_setWz _
  | ldSp source => exact (within_modifyFile _).then fun _ => within_spend 2
  | push source =>
    rw [maxCost]
    refine (within_spend 1).bind (by decide) fun _ => within_cpu.then fun c => ?_
    exact within_push _
  | pop target =>
    refine within_pop.bind (Nat.le_refl 6) fun value => ?_
    exact within_modifyFile _
  | exSp other =>
    rw [maxCost]
    refine within_cpu.then fun c => (within_readWord c.sp).bind (by decide) fun value => ?_
    refine (within_writeWord c.sp _).bind (by decide) fun _ => ?_
    refine (within_modifyFile _).then fun _ => (within_setWz value).then fun _ => ?_
    exact within_spend 3
  | block kind direction repeats => exact within_block answer kind direction repeats
  | arithmetic op source =>
    refine source.within_fetch.bind (Nat.le_refl 8) fun x => within_cpu.then fun c => ?_
    exact within_setResult _
  | inc place | dec place =>
    rw [execute]
    refine place.within_update (show 1 ≤ 6 by decide) none fun x => ?_
    exact within_flags.then fun f => (within_setFlags _).then fun _ => within_pure _
  | daa | cpl | neg | rotate => exact within_cpu.then fun c => within_setResult _
  | ccf | scf => exact within_cpu.then fun c => within_setFlags _
  | addWord | adcWord | sbcWord =>
    refine within_cpu.then fun c => (within_modifyFile _).then fun _ => ?_
    exact (within_setFlags _).then fun _ => (within_setWz _).then fun _ => within_spend 7
  | incWord | decWord => exact (within_modifyFile _).then fun _ => within_spend 2
  | shift op place copy =>
    rw [execute]
    refine place.within_update (show 1 ≤ 3 by decide) copy fun x => ?_
    exact within_flags.then fun f => (within_setFlags _).then fun _ => within_pure _
  | bit number place =>
    rw [maxCost]
    cases place with
    | register r => exact within_cpu.then fun c => (within_setFlags _).mono (by decide)
    | memory p =>
      refine (within_address p).then fun a => (within_readByte a).bind (by decide) fun x => ?_
      refine within_cpu.then fun c => (within_setFlags _).then fun _ => ?_
      refine (within_spend _).mono ?_
      cases p with
      | hl => exact show 1 ≤ 3 by decide
      | indexed index d => exact Nat.le_refl 3
  | res number place copy | set number place copy =>
    rw [execute]
    exact place.within_update (show 1 ≤ 3 by decide) copy fun x => within_pure _
  | rrd | rld =>
    rw [execute]
    exact within_rotateDigits _
  | jp condition address =>
    refine (within_test condition).then fun holds => ?_
    cases holds with
    | false => exact within_setWz address
    | true => exact (within_modifyCpu (by intro; rfl)).then fun _ => within_setWz address
  | jpRegister => exact within_modifyCpu (by intro; rfl)
  | jr condition d =>
    exact (within_test condition).then fun _ => within_ite (within_jumpBy d) (within_pure _)
  | djnz d =>
    rw [maxCost]
    refine (within_spend 1).bind (by decide) fun _ => within_cpu.then fun c => ?_
    exact (within_modifyFile _).then fun _ => within_ite (within_jumpBy d) (within_pure _)
  | call condition address =>
    refine (within_test condition).then fun holds => ?_
    cases holds with
    | false => exact (within_setWz address).mono (Nat.zero_le _)
    | true =>
      refine (within_callTo address).bind (Nat.le_refl 7) fun _ => ?_
      exact within_setWz address
  | ret condition =>
    rw [maxCost]
    cases condition with
    | none => exact within_returnFrom.mono (by decide)
    | some cc =>
      refine (within_spend 1).bind (by decide) fun _ => (within_test _).then fun _ => ?_
      exact within_ite within_returnFrom (within_pure _)
  | reti | retn => exact (within_modifyCpu (by intro; rfl)).then fun _ => within_returnFrom
  | rst address => exact within_callTo address
  | inLiteral low =>
    refine within_cpu.then fun c => (within_setWz _).then fun _ => ?_
    refine (within_input _ _).then fun value => (within_modifyFile _).then fun _ => ?_
    exact within_spend 4
  | inRegister target =>
    refine within_cpu.then fun c => (within_input c.bc _).then fun value => ?_
    cases target with
    | none =>
      refine (within_setFlags _).then fun _ => ?_
      exact within_cpu.then fun _ => (within_setWz _).then fun _ => within_spend 4
    | some r =>
      refine (within_modifyFile _).then fun _ => (within_setFlags _).then fun _ => ?_
      exact within_cpu.then fun _ => (within_setWz _).then fun _ => within_spend 4
  | outLiteral low =>
    refine within_cpu.then fun c => (within_output _ c.a).then fun _ => ?_
    exact (within_setWz _).then fun _ => within_spend 4
  | outRegister source =>
    refine within_cpu.then fun c => (within_output c.bc _).then fun _ => ?_
    exact (within_setWz _).then fun _ => within_spend 4

/-- Operations with many operand bytes have little else to do. -/
theorem operandBytes_add_maxCost_le (op : Operation) : 3 * op.operandBytes + op.maxCost ≤ 15 := by
  have hplace := Place.operandBytes_le
  have hindirect := Indirect.operandBytes_le
  have hsource := Source.operandBytes_le
  cases op <;> grind [operandBytes, maxCost]

theorem maxCost_ofBits_le (opcode : UInt8) (place : Place) (copy : Option Reg8) :
    (ofBits opcode place copy).maxCost ≤ 9 := by
  unfold ofBits
  dsimp only
  split
  · exact Nat.le_refl 9
  · exact show 6 ≤ 9 by decide
  · exact Nat.le_refl 9
  · exact Nat.le_refl 9

end Operation

/-- An instruction with everything that can happen in it takes 23 T-states at most. -/
theorem Instruction.cost_decode_le (b₀ b₁ b₂ b₃ : UInt8) {i : Instruction}
    (hi : decode b₀ b₁ b₂ b₃ = i) :
    3 * i.length + i.page.fetches + i.operation.maxCost ≤ 23 := by
  have hd := hi ▸ decoded_decode b₀ b₁ b₂ b₃
  have hop := i.operation.operandBytes_add_maxCost_le
  unfold length
  cases hd with
  | main | bits | extended | lonePrefix | indexed =>
    simp only [Page.opcodeBytes, Page.fetches] at hop ⊢
    omega
  | indexedBits index copy =>
    -- three opcode bytes, but none of the bit operations costs as much as others do
    have hmax := Operation.maxCost_ofBits_le b₃ (.memory (.indexed index b₂)) copy
    have hbytes : (Place.memory (.indexed index b₂)).operandBytes = 1 := rfl
    simp only [Operation.operandBytes_ofBits, Page.opcodeBytes, Page.fetches, hbytes]
    omega

end Z80

namespace Machine

open Z80

/-! ### Whole instructions -/

/-- The clock goes on by what an instruction costs, which is not much. -/
theorem clock_step (m : Machine) (answer : UInt16 → UInt8) :
    (m.step answer).2.cost ≤ 23 ∧
      (m.step answer).1.cpu.clock = m.cpu.clock + UInt64.ofNat (m.step answer).2.cost := by
  let i := m.instructionAt m.cpu.pc
  have hw := Operation.within_execute answer m.cpu.pc i.operation
  have hcost : (m.carriedOut answer).cost ≤ (m.fetched i).cost + i.operation.maxCost :=
    hw.cost (m.fetched i)
  have hmax := Instruction.cost_decode_le _ _ _ _ (show m.instructionAt m.cpu.pc = i from rfl)
  have hfetched : (m.fetched i).cost = 3 * i.length + i.page.fetches := rfl
  rw [m.step_eq_carriedOut answer]
  refine ⟨?_, ?_⟩
  · dsimp only
    omega
  · exact congrArg (· + UInt64.ofNat _) (hw.clock (m.fetched i))

/-- The clock shows what some instructions in a row cost. -/
theorem clock_ran (answers : Nat → UInt16 → UInt8) (m : Machine) (n : Nat) :
    (m.ran answers n).cpu.clock = m.cpu.clock + UInt64.ofNat (m.costs answers n) := by
  induction n with
  | zero => exact (UInt64.add_zero _).symm
  | succ n ih =>
    rw [ran, (clock_step _ _).2, ih, costs, UInt64.ofNat_add, UInt64.add_assoc]

/-- To fetch a single opcode takes four T-states, and every instruction fetches one. -/
theorem le_cost_step (m : Machine) (answer : UInt16 → UInt8) : 4 ≤ (m.step answer).2.cost := by
  let i := m.instructionAt m.cpu.pc
  have hle : (m.fetched i).cost ≤ (m.carriedOut answer).cost :=
    (Operation.within_execute answer m.cpu.pc i.operation).le (m.fetched i)
  have hpage : 4 ≤ 3 * i.page.opcodeBytes + i.page.fetches := by
    cases i.page <;> decide
  have hfetched : (m.fetched i).cost =
      3 * (i.page.opcodeBytes + i.operation.operandBytes) + i.page.fetches := rfl
  rw [m.step_eq_carriedOut answer]
  dsimp only
  omega

/-- No step fails, since there are no bytes that stand for no instruction. -/
theorem step?_eq_step (m : Machine) (answer : UInt16 → UInt8) :
    m.step? answer = .ok (m.step answer) := by
  have hhandled : m.fetch.1.unhandled? = none := by
    rw [fetch, Instruction.fetch_eq]
    exact Instruction.unhandled?_decode _ _ _ _
  unfold step?
  rw [hhandled]

/-- Whatever is in memory, the processor has an instruction for it: no step fails, and it fetches
from 1 to 4 bytes and takes from 4 to 23 T-states, which is what it moves the clock on by. -/
theorem step?_eq_ok (m : Machine) (answer : UInt16 → UInt8) :
    ∃ after executed, m.step? answer = .ok (after, executed) ∧
      (1 ≤ executed.length ∧ executed.length ≤ 4) ∧
      (4 ≤ executed.cost ∧ executed.cost ≤ 23) ∧
      after.cpu.clock = m.cpu.clock + UInt64.ofNat executed.cost := by
  obtain ⟨hcost, hclock⟩ := m.clock_step answer
  refine ⟨(m.step answer).1, (m.step answer).2, m.step?_eq_step answer, ?_,
    ⟨m.le_cost_step answer, hcost⟩, hclock⟩
  rw [m.length_step]
  exact Instruction.length_decode _ _ _ _

theorem within_enterHandler (bus : UInt8) : (enterHandler bus).Within 19 := by
  refine Exec.within_cpu.then fun c => (Exec.within_push c.pc).bind (by decide) fun _ => ?_
  cases c.mode with
  | im0 =>
    refine (Exec.within_goto _).then fun _ => ?_
    exact (Exec.within_spend 7).mono (by decide)
  | im1 =>
    refine (Exec.within_goto _).then fun _ => ?_
    exact (Exec.within_spend 7).mono (by decide)
  | im2 =>
    refine (Exec.within_readWord _).bind (by decide) fun a => (Exec.within_goto a).then fun _ => ?_
    exact Exec.within_spend 7

/-- The same of an interrupt. -/
theorem clock_interrupt {m : Machine} {bus : UInt8} {a : Accepted}
    (h : m.interrupt bus = .ok (some a)) :
    a.cost ≤ 19 ∧ a.machine.cpu.clock = m.cpu.clock + UInt64.ofNat a.cost := by
  obtain rfl := eq_of_interrupt h
  have hw := within_enterHandler bus
  refine ⟨?_, ?_⟩
  · exact Nat.le_trans (hw.cost _) (Nat.le_of_eq (Nat.zero_add 19))
  · refine congrArg (· + UInt64.ofNat _) ((hw.clock _).trans ?_)
    show (resume m.cpu).clock = m.cpu.clock
    unfold resume
    split <;> rfl

end Machine
end Spectrum
