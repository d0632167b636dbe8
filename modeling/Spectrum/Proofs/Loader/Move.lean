import Mathlib.Tactic.Common
import Spectrum.Proofs.Loader.Scene
import Spectrum.Proofs.Z80.Registers
import Spectrum.Proofs.Z80.Step

/-! # The instructions of polling loops

The loops of the catalogue are made of few kinds of instruction.  A `Move` is one of them, read off
the bytes of a pattern by `Move.parse`; where the pattern stands in memory, so does the instruction.
Its effect is split in two: `Move.act` is what it does to the accumulator, the flags, the counter
and R, and `Move.after` adds where it leads and how long it takes, given whether it jumps.

Main statements: `Move.instructionAt_of_parse`, `Move.machine_step`, `Move.data_step`,
`Move.events_step`. -/

namespace Spectrum.Loader

open Z80 Tape

/-- An instruction of a polling loop.  The displacement of a relative jump may be left open by the
pattern, the address of an absolute jump always is. -/
inductive Move where
  | count (down : Bool)
  | ret (cc : Condition)
  | jr (cc : Condition) (displacement : Option UInt8)
  | jp (cc : Condition)
  | load (n : UInt8)
  | loadDirect (address : UInt16)
  | copy
  | nop
  | sample
  | rotate (long : Bool)
  | combine (op : Arithmetic) (r : Reg8)
  | combineWith (op : Arithmetic) (n : UInt8)
  | setCarry
  | storeR
deriving DecidableEq, Repr

/-- Of the events of an instruction a session notes those at ports. -/
theorem Session.foldl_note (m : Machine) (address : UInt16) (events : List BusEvent)
    (s : Session) :
    events.foldl (note m address) s =
      (events.filter BusEvent.isAtPort).foldl (note m address) s := by
  rw [List.foldl_filter]
  congr 1
  funext s event
  cases event <;> rfl

namespace Move

/-- The instruction that a pattern begins with. -/
def parse : List (Option UInt8) → Option Move
  | some 0x04 :: _ => some (.count false)
  | some 0x05 :: _ => some (.count true)
  | some 0xC8 :: _ => some (.ret .z)
  | some 0xD0 :: _ => some (.ret .nc)
  | some 0xD8 :: _ => some (.ret .c)
  | some 0x20 :: some d :: _ => some (.jr .nz (some d))
  | some 0x28 :: d :: _ => some (.jr .z d)
  | some 0x30 :: d :: _ => some (.jr .nc d)
  | some 0xCA :: _ => some (.jp .z)
  | some 0x3E :: some n :: _ => some (.load n)
  | some 0x3A :: some low :: some high :: _ => some (.loadDirect (UInt16.join high low))
  | some 0x7F :: _ => some .copy
  | some 0x00 :: _ => some .nop
  | some 0xDB :: some 0xFE :: _ => some .sample
  | some 0x1F :: _ => some (.rotate false)
  | some 0xCB :: some 0x1F :: _ => some (.rotate true)
  | some 0xAF :: _ => some (.combine .xor .a)
  | some 0xB7 :: _ => some (.combine .or .a)
  | some 0xA7 :: _ => some (.combine .and .a)
  | some 0xA9 :: _ => some (.combine .xor .c)
  | some 0xE6 :: some n :: _ => some (.combineWith .and n)
  | some 0xD6 :: some n :: _ => some (.combineWith .sub n)
  | some 0x37 :: _ => some .setCarry
  | some 0xED :: some 0x4F :: _ => some .storeR
  | _ => none

/-- The instruction itself, with what the pattern leaves open taken from two bytes. -/
def instruction (low high : UInt8) : Move → Instruction
  | .count false => ⟨.main, .inc (.register .b)⟩
  | .count true => ⟨.main, .dec (.register .b)⟩
  | .ret cc => ⟨.main, .ret (some cc)⟩
  | .jr cc d => ⟨.main, .jr (some cc) (d.getD low)⟩
  | .jp cc => ⟨.main, .jp (some cc) (UInt16.join high low)⟩
  | .load n => ⟨.main, .ld .a (.literal n)⟩
  | .loadDirect address => ⟨.main, .loadDirect address⟩
  | .copy => ⟨.main, .ld .a (.place (.register .a))⟩
  | .nop => ⟨.main, .nop⟩
  | .sample => ⟨.main, .inLiteral 0xFE⟩
  | .rotate false => ⟨.main, .rotate .rr⟩
  | .rotate true => ⟨.bits, .shift .rr (.register .a) none⟩
  | .combine op r => ⟨.main, .arithmetic op (.place (.register r))⟩
  | .combineWith op n => ⟨.main, .arithmetic op (.literal n)⟩
  | .setCarry => ⟨.main, .scf⟩
  | .storeR => ⟨.extended, .storeSpecial .r⟩

/-- Where a pattern stands, the instruction stands that it begins with. -/
theorem instructionAt_of_parse {m : Machine} {a : UInt16} {pattern : List (Option UInt8)}
    {move : Move} (hf : PollingLoop.fitsAt m.memory a pattern = true)
    (hp : parse pattern = some move) :
    m.instructionAt a = move.instruction (m.read (a + 1)) (m.read (a + 2)) := by
  have h2 : a + 1 + 1 = a + 2 := by
    rw [UInt16.add_assoc]
    rfl
  unfold parse at hp
  unfold Machine.instructionAt Machine.read
  split at hp <;> cases hp <;>
    simp only [PollingLoop.fitsAt, Bool.and_eq_true, beq_iff_eq, h2] at hf
  all_goals
    obtain ⟨h, hf⟩ := hf
    rw [← h]
  case h_7 d _ | h_8 d _ =>
    cases d with
    | none => rfl
    | some d =>
      rw [PollingLoop.fitsAt, Bool.and_eq_true, beq_iff_eq] at hf
      rw [← hf.1]
      rfl
  case h_11 low high _ =>
    rw [← hf.1, ← hf.2.1]
    rfl
  case h_6 | h_10 | h_14 | h_16 | h_21 | h_22 | h_24 =>
    rw [← hf.1]
    rfl
  all_goals rfl

/-! ### Effects -/

/-- The bytes of the instruction. -/
def length : Move → UInt16
  | .jp _ | .loadDirect _ => 3
  | .jr _ _ | .load _ | .sample | .rotate true | .combineWith _ _ | .storeR => 2
  | _ => 1

/-- The opcode bytes of the instruction. -/
def fetches : Move → Nat
  | .rotate true | .storeR => 2
  | _ => 1

/-- Whether the instruction jumps with some flags. -/
def jumps (f : Flags) : Move → Bool
  | .ret cc | .jr cc _ | .jp cc => cc.holds f
  | _ => false

/-- The T-states that the instruction takes; a return that is carried out is not considered. -/
def cost (jumps : Bool) : Move → Nat
  | .ret _ => 5
  | .jr _ _ => if jumps then 12 else 7
  | .jp _ => 10
  | .load _ | .combineWith _ _ => 7
  | .loadDirect _ => 13
  | .sample => 11
  | .rotate true => 8
  | .storeR => 9
  | _ => 4

/-- Where the instruction leads. -/
def target (low high : UInt8) (pc : UInt16) (jumps : Bool) : Move → UInt16
  | .jr _ d => if jumps then pc + 2 + (d.getD low).displacement else pc + 2
  | .jp _ => if jumps then UInt16.join high low else pc + 3
  | move => pc + move.length

/-- The internal register after the instruction. -/
def wz (low high : UInt8) (c : Cpu) (jumps : Bool) : Move → UInt16
  | .jr _ d => if jumps then c.pc + 2 + (d.getD low).displacement else c.wz
  | .jp _ => UInt16.join high low
  | .loadDirect address => address + 1
  | .sample => UInt16.join c.a 0xFE + 1
  | _ => c.wz

/-- The byte that the instruction takes from memory or from a port. -/
def taken (m : Machine) (answer : UInt16 → UInt8) : Move → UInt8
  | .loadDirect address => m.read address
  | .sample => answer (UInt16.join m.cpu.a 0xFE)
  | _ => 0

/-- What the instruction does to the accumulator, the flags, the counter and R, given the byte that
it takes. -/
def act (byte : UInt8) (f : RegisterFile) : Move → RegisterFile
  | .count down =>
    let r := if down then Alu.dec f.bc.high f.flags else Alu.inc f.bc.high f.flags
    (f.setFlags r.2).set8 .b r.1
  | .load n => f.set8 .a n
  | .loadDirect _ | .sample => f.set8 .a byte
  | .copy => f.set8 .a f.a
  | .rotate false => f.setResult (Alu.rotate .rr f.a f.flags)
  | .rotate true =>
    let r := Alu.shift .rr f.a f.flags
    (f.setFlags r.2).set8 .a r.1
  | .combine op r => f.setResult (op.apply f.a (f.get8 r) f.flags)
  | .combineWith op n => f.setResult (op.apply f.a n f.flags)
  | .setCarry => f.setFlags (Alu.scf f.a f.flags)
  | .storeR => { f with r := f.a }
  | _ => f

@[simp] theorem low_bc_act (byte : UInt8) (f : RegisterFile) (move : Move) :
    (move.act byte f).bc.low = f.bc.low := by
  cases move with
  | count down => exact UInt16.low_withHigh _ _
  | rotate long => cases long <;> rfl
  | _ => rfl

theorem bc_act_count (down : Bool) (byte : UInt8) (f : RegisterFile) :
    ((count down).act byte f).bc =
      f.bc.withHigh (if down then f.bc.high - 1 else f.bc.high + 1) := by
  cases down with
  | false => exact congrArg f.bc.withHigh (Alu.inc_eq f.bc.high f.flags).1
  | true => exact congrArg f.bc.withHigh (Alu.dec_eq f.bc.high f.flags).1

theorem bc_act {move : Move} (h : ∀ down, move ≠ .count down) (byte : UInt8) (f : RegisterFile) :
    (move.act byte f).bc = f.bc := by
  cases move with
  | count down => exact absurd rfl (h down)
  | rotate long => cases long <;> rfl
  | _ => rfl

/-- The processor after the instruction, given the byte that it takes and whether it jumps. -/
def after (low high byte : UInt8) (jumps : Bool) (c : Cpu) (move : Move) : Cpu :=
  { c with
    toRegisterFile :=
      { move.act byte (c.toRegisterFile.refresh move.fetches) with
        pc := move.target low high c.pc jumps }
    wz := move.wz low high c jumps
    blocked := false
    clock := c.clock + UInt64.ofNat (move.cost jumps) }

/-- What a processor consists of besides the registers that moves change. -/
def rest (c : Cpu) : Cpu :=
  { c with af := 0, bc := 0, r := 0, pc := 0, wz := 0, blocked := false, clock := 0 }

theorem rest_after (low high byte : UInt8) (jumps : Bool) (c : Cpu) (move : Move) :
    rest (move.after low high byte jumps c) = rest c := by
  cases move with
  | count down => cases down <;> rfl
  | rotate long => cases long <;> rfl
  | _ => rfl

/-- The rest and the registers that moves change make up a processor. -/
theorem eq_of_rest {c d : Cpu} (h : rest c = rest d) (haf : c.af = d.af) (hbc : c.bc = d.bc)
    (hr : c.r = d.r) (hpc : c.pc = d.pc) (hwz : c.wz = d.wz) (hblocked : c.blocked = d.blocked)
    (hclock : c.clock = d.clock) : c = d := by
  have hc : ∀ c : Cpu,
      c = { rest c with
        af := c.af, bc := c.bc, r := c.r, pc := c.pc, wz := c.wz, blocked := c.blocked
        clock := c.clock } := fun _ => rfl
  rw [hc c, hc d, h, haf, hbc, hr, hpc, hwz, hblocked, hclock]

section

variable {m : Machine} {move : Move} {low high : UInt8} (answer : UInt16 → UInt8)

theorem machine_step {jumps : Bool} (hi : m.instructionAt m.cpu.pc = move.instruction low high)
    (hj : move.jumps m.cpu.flags = jumps) (hret : ∀ cc, move = .ret cc → jumps = false) :
    (m.step answer).1 =
      m.mapCpu fun c => move.after low high (move.taken m answer) jumps c := by
  rw [Machine.step_of_instruction answer hi]
  unfold after
  cases move with
  | count down => cases down <;> rfl
  | ret cc =>
    obtain rfl := hret cc rfl
    have hf : cc.holds (m.fetched ⟨.main, .ret (some cc)⟩).machine.cpu.flags = false := hj
    dsimp only [instruction]
    rw [Operation.execute_ret answer _ hf]
    rfl
  | jr cc d =>
    have hf : cc.holds (m.fetched ⟨.main, .jr (some cc) (d.getD low)⟩).machine.cpu.flags =
        jumps := hj
    dsimp only [instruction]
    rw [Operation.execute_jr answer _ _ hf]
    cases jumps <;> rfl
  | jp cc =>
    have hf : cc.holds (m.fetched ⟨.main, .jp (some cc) (.join high low)⟩).machine.cpu.flags =
        jumps := hj
    dsimp only [instruction]
    rw [Operation.execute_jp answer _ _ hf]
    cases jumps <;> rfl
  | load n => rfl
  | loadDirect address => rfl
  | copy => rfl
  | nop => rfl
  | sample => rfl
  | rotate long => cases long <;> rfl
  | combine op r => rfl
  | combineWith op n => rfl
  | setCarry => rfl
  | storeR => rfl

/-- What any step does to the accumulator, the flags, the counter, R and memory, even if it returns
from the loop. -/
theorem data_step (hi : m.instructionAt m.cpu.pc = move.instruction low high) :
    (m.step answer).1.memory = m.memory ∧
      let f := move.act (move.taken m answer) (m.cpu.toRegisterFile.refresh move.fetches)
      (m.step answer).1.cpu.af = f.af ∧ (m.step answer).1.cpu.bc = f.bc ∧
        (m.step answer).1.cpu.r = f.r := by
  by_cases hret : (∃ cc, move = .ret cc) ∧ move.jumps m.cpu.flags = true
  · obtain ⟨⟨cc, rfl⟩, hj⟩ := hret
    have hf : cc.holds (m.fetched ⟨.main, .ret (some cc)⟩).machine.cpu.flags = true := hj
    rw [Machine.step_of_instruction answer hi]
    dsimp only [instruction]
    rw [Operation.execute_ret answer _ hf]
    exact ⟨rfl, rfl, rfl, rfl⟩
  · have hj : ∀ cc, move = .ret cc → move.jumps m.cpu.flags = false := by
      intro cc hcc
      rw [← Bool.not_eq_true]
      exact fun h => hret ⟨⟨cc, hcc⟩, h⟩
    rw [machine_step answer hi rfl hj]
    exact ⟨rfl, rfl, rfl, rfl⟩

/-- Of all moves only a sample shows at a port. -/
theorem events_step (hi : m.instructionAt m.cpu.pc = move.instruction low high) :
    (m.step answer).2.events.filter BusEvent.isAtPort =
      if move = .sample then
        [.input (UInt16.join m.cpu.a 0xFE) (answer (UInt16.join m.cpu.a 0xFE))]
      else [] := by
  rw [Machine.step_of_instruction answer hi]
  cases move with
  | count down => cases down <;> rfl
  | ret cc =>
    dsimp only [instruction]
    rw [Operation.execute_ret answer _ rfl, if_neg (show ret cc ≠ sample by simp)]
    cases cc.holds _ <;> rfl
  | jr cc d =>
    dsimp only [instruction]
    rw [Operation.execute_jr answer _ _ rfl, if_neg (show jr cc d ≠ sample by simp)]
    cases cc.holds _ <;> rfl
  | jp cc =>
    dsimp only [instruction]
    rw [Operation.execute_jp answer _ _ rfl, if_neg (show jp cc ≠ sample by simp)]
    rfl
  | load n => rfl
  | loadDirect address => rfl
  | copy => rfl
  | nop => rfl
  | sample => rfl
  | rotate long => cases long <;> rfl
  | combine op r => rfl
  | combineWith op n => rfl
  | setCarry => rfl
  | storeR => rfl

theorem portReads_step (hi : m.instructionAt m.cpu.pc = move.instruction low high)
    (time : UInt64) :
    (m.step answer).2.portReads time =
      if move = .sample then
        [{ time, port := UInt16.join m.cpu.a 0xFE, value := answer (UInt16.join m.cpu.a 0xFE) }]
      else [] := by
  rw [Executed.portReads_eq, events_step answer hi]
  split <;> rfl

theorem foldl_note_step (hi : m.instructionAt m.cpu.pc = move.instruction low high) (s : Session) :
    (m.step answer).2.events.foldl (Session.note m (m.step answer).2.address) s =
      if move = .sample then s.noteInput m m.cpu.pc (UInt16.join m.cpu.a 0xFE) else s := by
  have haddress : (m.step answer).2.address = m.cpu.pc := by
    rw [Machine.step_eq_carriedOut]
  rw [haddress, Session.foldl_note, events_step answer hi]
  split <;> rfl

end

end Move
end Spectrum.Loader
