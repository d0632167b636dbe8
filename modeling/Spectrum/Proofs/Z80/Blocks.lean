import Mathlib.Tactic.Common
import Spectrum.Proofs.Z80.Cost
import Spectrum.Proofs.Z80.Operands

/-! # Block instructions that repeat

LDIR and LDDR copy a byte, CPIR and CPDR compare one with the accumulator; each counts BC down and
goes back over itself until it is done, so that it is fetched again for each byte.

A run of such an instruction is taken round by round: `Machine.counted` says what every round does
to the counter, the pointer and R, and `Machine.Copying` and `Machine.Searching` are kept by all
rounds but the last.

Main definitions: `Machine.blockCount`, `Machine.copied`, `Machine.searchEnd`.
Main statements: `Machine.ran_of_blockLoad`, `Machine.ran_of_blockCompare`. -/

namespace Spectrum

namespace Z80

/-- The bytes of a block instruction that repeats. -/
def BlockKind.code (kind : BlockKind) (d : Direction) : List UInt8 :=
  let opcode : UInt8 := match kind with
    | .load => 0xB0
    | .compare => 0xB1
    | .input => 0xB2
    | .output => 0xB3
  [0xED, match d with
    | .up => opcode
    | .down => opcode + 8]

/-- An address some steps on from a base. -/
def Direction.moved (d : Direction) (base : UInt16) (n : Nat) : UInt16 :=
  base + UInt16.ofNat n * d.step

theorem Direction.moved_zero (d : Direction) (base : UInt16) : d.moved base 0 = base := by
  unfold moved
  grind

theorem Direction.moved_succ (d : Direction) (base : UInt16) (n : Nat) :
    d.moved base (n + 1) = d.moved base n + d.step := by
  unfold moved
  rw [UInt16.ofNat_add]
  grind

end Z80

namespace Machine

open Z80

variable {m : Machine} {d : Direction}

theorem instructionAt_of_blockCode {kind : BlockKind}
    (h : m.bytesAt m.cpu.pc 2 = kind.code d) :
    m.instructionAt m.cpu.pc = ⟨.extended, .block kind d true⟩ := by
  obtain ⟨hextended, hrest⟩ := List.cons.inj h
  obtain ⟨hopcode, -⟩ := List.cons.inj hrest
  unfold instructionAt
  rw [hextended, hopcode]
  cases kind <;> cases d <;> rfl

end Machine

namespace Z80.Exec

/-- LDIR and LDDR copy a byte and go back over themselves if there are more. -/
theorem blockLoad_eq (d : Direction) (e : Execution) :
    let m := e.machine
    let c := m.cpu
    let value := m.read c.hl
    let more := c.bc - 1 != 0
    let done := (blockLoad d true e).2
    done.machine =
      { m with
        memory := (m.write c.de value).memory
        cpu := { c with
          bc := c.bc - 1
          de := c.de + d.step
          hl := c.hl + d.step
          af := c.af.withLow (Alu.blockLoadFlags c.a value more c.flags).toByte
          pc := if more then c.pc - 2 else c.pc
          wz := if more then c.pc - 2 + 1 else c.wz } } ∧
      done.cost = e.cost + (if more then 13 else 8) := by
  intro m c value more done
  -- the byte is copied and counted, and only the way back is left
  let counted : Execution :=
    { machine := (m.write c.de value).mapCpu fun c' => { c' with
        bc := c.bc - 1
        de := c'.de + d.step
        hl := c'.hl + d.step
        af := c'.af.withLow (Alu.blockLoadFlags c.a value more c.flags).toByte }
      cost := e.cost + 8
      events := .write c.de value :: .read c.hl value :: e.events }
  have hdone : done = (((do
      if more then
        again
        modifyCpu fun c => { c with wz := c.pc + 1 }) : Exec Unit) counted).2 := rfl
  have hcpu : (m.write c.de value).cpu = c := m.cpu_write c.de value
  have hrom : (m.write c.de value).romProtected = m.romProtected := m.romProtected_write c.de value
  rw [hdone]
  simp only [counted, Machine.mapCpu, hcpu, hrom]
  clear_value more
  cases more with
  | false => exact ⟨rfl, rfl⟩
  | true => exact ⟨rfl, rfl⟩

/-- CPIR and CPDR go back if there are more and the byte is not the one. -/
theorem blockCompare_eq (d : Direction) (e : Execution) :
    let m := e.machine
    let c := m.cpu
    let value := m.read c.hl
    let more := c.bc - 1 != 0
    let again := more && c.a != value
    let done := (blockCompare d true e).2
    done.machine =
      { m with
        cpu := { c with
          bc := c.bc - 1
          hl := c.hl + d.step
          af := c.af.withLow (Alu.blockCompareFlags c.a value more c.flags).toByte
          pc := if again then c.pc - 2 else c.pc
          wz := if again then c.pc - 2 + 1 else c.wz + d.step } } ∧
      done.cost = e.cost + (if again then 13 else 8) := by
  intro m c value more again' done
  let counted : Execution :=
    { machine := { m with cpu := { c with
        bc := c.bc - 1
        hl := c.hl + d.step
        af := c.af.withLow (Alu.blockCompareFlags c.a value more c.flags).toByte } }
      cost := e.cost + 8
      events := .read c.hl value :: e.events }
  have hdone : done = (((do
      if again' then
        again
        modifyCpu fun c => { c with wz := c.pc + 1 }
      else
        modifyCpu fun c => { c with wz := c.wz + d.step }) : Exec Unit) counted).2 := rfl
  rw [hdone]
  clear_value again'
  cases again' with
  | false => exact ⟨rfl, rfl⟩
  | true => exact ⟨rfl, rfl⟩

end Z80.Exec

namespace Machine

open Z80

variable {m : Machine} {d : Direction}

theorem step_of_blockLoad (answer : UInt16 → UInt8)
    (h : m.bytesAt m.cpu.pc 2 = BlockKind.load.code d) :
    let c := m.cpu
    let value := m.read c.hl
    let more := c.bc - 1 != 0
    let n := (m.step answer).1
    n = { m with
        memory := (m.write c.de value).memory
        cpu := { c with
          bc := c.bc - 1
          de := c.de + d.step
          hl := c.hl + d.step
          af := c.af.withLow (Alu.blockLoadFlags c.a value more c.flags).toByte
          pc := if more then c.pc else c.pc + 2
          r := refreshed c.r 2
          wz := if more then c.pc + 1 else c.wz
          blocked := false
          clock := n.cpu.clock } } ∧
      (m.step answer).2.cost = if more then 21 else 16 := by
  intro c value more n
  let i : Instruction := ⟨.extended, .block .load d true⟩
  obtain ⟨hmachine, hcost⟩ := Exec.blockLoad_eq d (m.fetched i)
  generalize hdone : (Exec.blockLoad d true (m.fetched i)).2 = done at hmachine hcost
  obtain ⟨hstep, hspent⟩ := step_of_execute answer (instructionAt_of_blockCode h) hdone
  have hn : n = _ := hstep
  have hmore : ((m.fetched i).machine.cpu.bc - 1 != 0) = more := rfl
  have hback : (m.fetched i).machine.cpu.pc - 2 = c.pc := UInt16.add_sub_cancel _ _
  rw [hmore] at hmachine hcost
  rw [hback, memory_write_fetched] at hmachine
  rw [hmachine] at hn
  refine ⟨?_, ?_⟩
  · rw [hn]
    rfl
  · rw [hspent, hcost]
    show 8 + (if more then 13 else 8) = _
    clear_value more
    cases more <;> rfl

theorem step_of_blockCompare (answer : UInt16 → UInt8)
    (h : m.bytesAt m.cpu.pc 2 = BlockKind.compare.code d) :
    let c := m.cpu
    let value := m.read c.hl
    let more := c.bc - 1 != 0
    let again := more && c.a != value
    let n := (m.step answer).1
    n = { m with
        cpu := { c with
          bc := c.bc - 1
          hl := c.hl + d.step
          af := c.af.withLow (Alu.blockCompareFlags c.a value more c.flags).toByte
          pc := if again then c.pc else c.pc + 2
          r := refreshed c.r 2
          wz := if again then c.pc + 1 else c.wz + d.step
          blocked := false
          clock := n.cpu.clock } } ∧
      (m.step answer).2.cost = if again then 21 else 16 := by
  intro c value more again n
  let i : Instruction := ⟨.extended, .block .compare d true⟩
  obtain ⟨hmachine, hcost⟩ := Exec.blockCompare_eq d (m.fetched i)
  generalize hdone : (Exec.blockCompare d true (m.fetched i)).2 = done at hmachine hcost
  obtain ⟨hstep, hspent⟩ := step_of_execute answer (instructionAt_of_blockCode h) hdone
  have hn : n = _ := hstep
  have hagain : (((m.fetched i).machine.cpu.bc - 1 != 0) &&
    (m.fetched i).machine.cpu.a != (m.fetched i).machine.read (m.fetched i).machine.cpu.hl) =
      again := rfl
  have hback : (m.fetched i).machine.cpu.pc - 2 = c.pc := UInt16.add_sub_cancel _ _
  rw [hagain] at hmachine hcost
  rw [hback] at hmachine
  rw [hmachine] at hn
  refine ⟨?_, ?_⟩
  · rw [hn]
    rfl
  · rw [hspent, hcost]
    show 8 + (if again then 13 else 8) = _
    clear_value again
    cases again <;> rfl

/-! ### Rounds -/

/-- How many bytes the counter of a machine stands for. -/
def blockCount (m : Machine) : Nat := if m.cpu.bc = 0 then 65536 else m.cpu.bc.toNat

theorem blockCount_pos (m : Machine) : 0 < m.blockCount := by
  unfold blockCount
  split
  · decide
  · next h =>
    rw [← UInt16.toNat_inj] at h
    exact Nat.pos_of_ne_zero h

/-- The counter is zero when all of them have been counted, and not before. -/
theorem bc_sub_bne_zero {k : Nat} (hk : k < m.blockCount) :
    (m.cpu.bc - UInt16.ofNat (k + 1) != 0) = decide (k + 1 < m.blockCount) := by
  have hbc := m.cpu.bc.toNat_lt
  have hzero : (0 : UInt16).toNat = 0 := rfl
  unfold blockCount at hk ⊢
  rw [Bool.eq_iff_iff, bne_iff_ne, decide_eq_true_eq, ne_eq, ← UInt16.toNat_inj, UInt16.toNat_sub,
    UInt16.toNat_ofNat', hzero]
  by_cases h : m.cpu.bc = 0
  · rw [if_pos h] at hk ⊢
    rw [h, hzero]
    omega
  · rw [if_neg h] at hk ⊢
    omega

/-- What a round of a block instruction leaves behind in a processor, beside the count. -/
structure Marks where
  flags : Flags
  wz : UInt16
  blocked : Bool
  clock : UInt64

/-- Those of a processor. -/
def marks (m : Machine) : Marks :=
  { flags := m.cpu.flags, wz := m.cpu.wz, blocked := m.cpu.blocked, clock := m.cpu.clock }

/-- A machine in which bytes have been counted, and HL moved over them. -/
def counted (d : Direction) (m : Machine) (k : Nat) (pc : UInt16) (x : Marks) : Machine :=
  m.mapCpu fun c => { c with
    bc := c.bc - UInt16.ofNat k
    hl := d.moved c.hl k
    af := c.af.withLow x.flags.toByte
    pc := pc
    r := refreshed c.r (2 * k)
    wz := x.wz
    blocked := x.blocked
    clock := x.clock }

section

variable (d : Direction) (m : Machine) (k : Nat) (pc pc' : UInt16) (x x' : Marks)

theorem a_counted : (m.counted d k pc x).cpu.a = m.cpu.a :=
  RegisterFile.a_setFlags m.cpu.toRegisterFile x.flags

theorem flags_counted : (m.counted d k pc x).cpu.flags = x.flags :=
  RegisterFile.flags_setFlags m.cpu.toRegisterFile x.flags

/-- The marks of a machine in which bytes have been counted are to be read off it. -/
theorem eq_of_counted {n : Machine} (h : n = m.counted d k pc x) :
    n.cpu.flags = x.flags ∧
      n = { m with
        cpu := { m.cpu with
          af := m.cpu.af.withLow n.cpu.flags.toByte
          bc := m.cpu.bc - UInt16.ofNat k
          hl := d.moved m.cpu.hl k
          pc := pc
          r := refreshed m.cpu.r (2 * k)
          wz := n.cpu.wz
          blocked := x.blocked
          clock := n.cpu.clock } } := by
  subst h
  refine ⟨flags_counted .., ?_⟩
  rw [flags_counted]
  rfl

theorem counted_zero : m.counted d 0 m.cpu.pc m.marks = m := by
  have hbc : m.cpu.bc - UInt16.ofNat 0 = m.cpu.bc := UInt16.sub_zero _
  have haf : m.cpu.af.withLow m.cpu.flags.toByte = m.cpu.af := by
    rw [RegisterFile.flags, Flags.toByte_ofByte]
    exact UInt16.join_high_low _
  unfold counted marks
  dsimp only [mapCpu]
  rw [hbc, d.moved_zero, haf, refreshed_zero]

theorem bc_sub_one : m.cpu.bc - UInt16.ofNat k - 1 = m.cpu.bc - UInt16.ofNat (k + 1) := by
  rw [UInt16.ofNat_add]
  grind

theorem counted_succ :
    ((m.counted d k pc x).mapCpu fun c => { c with
      bc := c.bc - 1
      hl := c.hl + d.step
      af := c.af.withLow x'.flags.toByte
      pc := pc'
      r := refreshed c.r 2
      wz := x'.wz
      blocked := x'.blocked
      clock := x'.clock }) = m.counted d (k + 1) pc' x' := by
  unfold counted
  dsimp only [mapCpu]
  rw [bc_sub_one, UInt16.withLow_withLow, ← d.moved_succ, refreshed_refreshed]
  rfl

end

/-! ### Copies -/

/-- A machine in which some bytes have been copied in a row, each as it stands by then. -/
def copied (d : Direction) (m : Machine) : (k : Nat) → Machine
  | 0 => m
  | k + 1 =>
    (m.copied d k).write (d.moved m.cpu.de k) ((m.copied d k).read (d.moved m.cpu.hl k))

theorem romProtected_copied (d : Direction) (m : Machine) (k : Nat) :
    (m.copied d k).romProtected = m.romProtected := by
  induction k with
  | zero => rfl
  | succ k ih => rw [copied, romProtected_write, ih]

/-- A byte stays if each write to it is dropped. -/
theorem read_copied {k : Nat} {a : UInt16}
    (h : ∀ i < k, d.moved m.cpu.de i = a → m.isProtected a) : (m.copied d k).read a = m.read a := by
  induction k with
  | zero => rfl
  | succ k ih =>
    have hprotected : (m.copied d k).isProtected (d.moved m.cpu.de k) =
        m.isProtected (d.moved m.cpu.de k) := by
      rw [isProtected, romProtected_copied, isProtected]
    rw [copied, read_write, hprotected, ih fun i hi => h i (Nat.lt_succ_of_lt hi), if_neg]
    rintro ⟨ha, hfalse⟩
    rw [← ha, h k (Nat.lt_succ_self k) ha.symm] at hfalse
    cases hfalse

/-- The machine with these bytes and with DE behind them. -/
def copying (d : Direction) (m : Machine) (k : Nat) : Machine :=
  { m with memory := (m.copied d k).memory, cpu := { m.cpu with de := d.moved m.cpu.de k } }

theorem copying_zero (d : Direction) (m : Machine) : m.copying d 0 = m := by
  unfold copying
  rw [d.moved_zero]
  rfl

theorem memory_write_copying (d : Direction) (m : Machine) (k : Nat) (c : Cpu) :
    (write { m.copying d k with cpu := c } (d.moved m.cpu.de k)
      ((m.copied d k).read (d.moved m.cpu.hl k))).memory = (m.copied d (k + 1)).memory := by
  rw [copied, memory_write, memory_write, isProtected, isProtected, romProtected_copied]
  rfl

/-- One round of a copy. -/
theorem step_copying (answer : UInt16 → UInt8) {k : Nat} (x : Marks)
    (h : (m.copying d k).bytesAt m.cpu.pc 2 = BlockKind.load.code d) :
    let s := (m.copying d k).counted d k m.cpu.pc x
    let last := (m.copied d k).read (d.moved m.cpu.hl k)
    let more := m.cpu.bc - UInt16.ofNat (k + 1) != 0
    let n := (s.step answer).1
    n = (m.copying d (k + 1)).counted d (k + 1) (if more then m.cpu.pc else m.cpu.pc + 2)
        { flags := Alu.blockLoadFlags m.cpu.a last more x.flags
          wz := if more then m.cpu.pc + 1 else x.wz
          blocked := false
          clock := n.cpu.clock } ∧
      (s.step answer).2.cost = if more then 21 else 16 := by
  intro s last more n
  obtain ⟨hn, hcost⟩ := step_of_blockLoad (m := s) answer h
  have hmore : (s.cpu.bc - 1 != 0) = more := congrArg (· != 0) (bc_sub_one m k)
  have ha : s.cpu.a = m.cpu.a := a_counted ..
  have hflags : s.cpu.flags = x.flags := flags_counted ..
  have hlast : s.read s.cpu.hl = last := rfl
  have hmemory : (s.write s.cpu.de last).memory = (m.copied d (k + 1)).memory :=
    memory_write_copying d m k s.cpu
  have hde : s.cpu.de + d.step = d.moved m.cpu.de (k + 1) := (d.moved_succ _ k).symm
  rw [hmore] at hn hcost
  rw [ha, hflags, hlast, hmemory, hde] at hn
  refine ⟨hn.trans ?_, hcost⟩
  rw [← counted_succ d (m.copying d (k + 1)) k m.cpu.pc _ x]
  generalize n.cpu.clock = now
  clear_value last more
  rfl

/-- The instruction stays if each write to it is dropped. -/
theorem bytesAt_copying (h : m.bytesAt m.cpu.pc 2 = BlockKind.load.code d)
    (hkept : ∀ i < m.blockCount, d.moved m.cpu.de i = m.cpu.pc ∨
      d.moved m.cpu.de i = m.cpu.pc + 1 → m.isProtected (d.moved m.cpu.de i)) {k : Nat}
    (hk : k ≤ m.blockCount) : (m.copying d k).bytesAt m.cpu.pc 2 = BlockKind.load.code d := by
  have hread {a : UInt16} (ha : a = m.cpu.pc ∨ a = m.cpu.pc + 1) :
      (m.copied d k).read a = m.read a :=
    read_copied fun i hi hi' => hi' ▸ hkept i (Nat.lt_of_lt_of_le hi hk) (hi' ▸ ha)
  rw [← h]
  exact congrArg₂ (fun b₀ b₁ => [b₀, b₁]) (hread (.inl rfl)) (hread (.inr rfl))

/-- A machine in the middle of a copy, with S, Z and the carry as they were. -/
def Copying (d : Direction) (m : Machine) (k : Nat) (s : Machine) : Prop :=
  ∃ x, s = (m.copying d k).counted d k m.cpu.pc x ∧
    x.flags.s = m.cpu.flags.s ∧ x.flags.z = m.cpu.flags.z ∧ x.flags.c = m.cpu.flags.c

theorem copying_start : m.Copying d 0 m :=
  ⟨m.marks, by rw [copying_zero, counted_zero], rfl, rfl, rfl⟩

theorem Copying.round {k : Nat} {s : Machine} (hs : m.Copying d k s) (answer : UInt16 → UInt8)
    (h : (m.copying d k).bytesAt m.cpu.pc 2 = BlockKind.load.code d) (hk : k + 1 < m.blockCount) :
    m.Copying d (k + 1) (s.step answer).1 ∧ (s.step answer).2.cost = 21 := by
  obtain ⟨x, rfl, hflags⟩ := hs
  obtain ⟨hn, hcost⟩ := step_copying answer x h
  rw [bc_sub_bne_zero (Nat.lt_of_succ_lt hk), decide_eq_true hk] at hn hcost
  exact ⟨⟨_, hn, hflags⟩, hcost⟩

/-- LDIR and LDDR copy the bytes one after another, each as it stands by then, and only then go on.
The instruction must not write over itself, unless the write is dropped. -/
theorem ran_of_blockLoad (answers : Nat → UInt16 → UInt8)
    (h : m.bytesAt m.cpu.pc 2 = BlockKind.load.code d)
    (hkept : ∀ i < m.blockCount, d.moved m.cpu.de i = m.cpu.pc ∨
      d.moved m.cpu.de i = m.cpu.pc + 1 → m.isProtected (d.moved m.cpu.de i)) :
    let count := m.blockCount
    let n := m.ran answers count
    (∀ k < count, (m.ran answers k).cpu.pc = m.cpu.pc) ∧
      n = { m with
        memory := (m.copied d count).memory
        cpu := { m.cpu with
          af := m.cpu.af.withLow n.cpu.flags.toByte
          bc := 0
          de := d.moved m.cpu.de count
          hl := d.moved m.cpu.hl count
          pc := m.cpu.pc + 2
          r := refreshed m.cpu.r (2 * count)
          wz := n.cpu.wz
          blocked := false
          clock := m.cpu.clock + UInt64.ofNat (m.costs answers count) } } ∧
      n.cpu.flags = { m.cpu.flags with
        y := n.cpu.flags.y, h := false, x := n.cpu.flags.x, pv := false, n := false } ∧
      m.costs answers count = 21 * (count - 1) + 16 := by
  obtain ⟨j, hj⟩ : ∃ j, m.blockCount = j + 1 := Nat.exists_eq_succ_of_ne_zero m.blockCount_pos.ne'
  have hcode {k : Nat} (hk : k ≤ j) := bytesAt_copying h hkept (k := k) (by omega)
  have hrun {k : Nat} (hk : k ≤ j) := ran_of_rounds answers copying_start
    (fun k hk s answer hs => hs.round answer (hcode (Nat.le_of_lt hk)) (by omega)) hk
  -- the last round finds the counter at one
  obtain ⟨⟨x, hlast, hs, hz, hc⟩, hcosts⟩ := hrun (Nat.le_refl j)
  have hmore : (m.cpu.bc - UInt16.ofNat (j + 1) != 0) = false := by
    rw [bc_sub_bne_zero (by omega), hj]
    exact decide_eq_false (Nat.lt_irrefl _)
  have hbc : m.cpu.bc - UInt16.ofNat (j + 1) = 0 := by simpa using hmore
  obtain ⟨hstep, hcost⟩ := step_copying (answers j) x (hcode (Nat.le_refl j))
  rw [hmore, ← hlast] at hstep hcost
  have hlast' : m.ran answers (j + 1) = _ := hstep
  obtain ⟨hflags, hn⟩ := eq_of_counted _ _ _ _ _ hlast'
  rw [clock_ran] at hn
  rw [hj]
  refine ⟨fun k hk => ?_, ?_, ?_, ?_⟩
  · obtain ⟨⟨_, hs, -⟩, -⟩ := hrun (Nat.le_of_lt_succ hk)
    rw [hs]
    rfl
  · rw [← hbc]
    exact hn
  · rw [hflags]
    dsimp only
    rw [← hs, ← hz, ← hc]
    rfl
  · rw [costs, hcosts, hcost]
    rfl

/-- LDIR in the ROM, to addresses that wrap round into it. -/
def spilling : Machine where
  cpu := { Cpu.powerOn with bc := 3, de := 0xFFFE, hl := 0x8000, pc := 0 }
  memory := (Memory.blank.writeAll 0 [0xED, 0xB0]).writeAll 0x8000 [0x11, 0x22, 0x33]
  romProtected := true

/-- The last of its bytes is dropped. -/
theorem ran_of_blockLoad_spilling :
    let answers : Nat → UInt16 → UInt8 := fun _ _ => 0xFF
    let n := spilling.ran answers 3
    n.cpu.pc = 2 ∧ n.cpu.de = 1 ∧ n.bytesAt 0xFFFE 4 = [0x11, 0x22, 0xED, 0xB0] ∧
      spilling.costs answers 3 = 58 := by
  intro answers n
  have hcount : spilling.blockCount = 3 := by decide +kernel
  obtain ⟨-, hn, -, hcosts⟩ := ran_of_blockLoad (m := spilling) (d := .up) answers
    (by decide +kernel) (by decide +kernel)
  rw [hcount] at hn hcosts
  have hmemory : n.memory = (spilling.copied .up 3).memory :=
    (congrArg memory hn).trans rfl
  refine ⟨(congrArg (·.cpu.pc) hn).trans rfl, (congrArg (·.cpu.de) hn).trans ?_, ?_, hcosts⟩
  · decide +kernel
  · show [n.memory.read _, n.memory.read _, n.memory.read _, n.memory.read _] = _
    rw [hmemory]
    decide +kernel

/-! ### Searches -/

/-- The number of the byte that a search ends with: the first that is equal to the accumulator, or
else the last. -/
def searchEnd (d : Direction) (m : Machine) : Nat :=
  ((List.range m.blockCount).find? fun i => m.read (d.moved m.cpu.hl i) == m.cpu.a).getD
    (m.blockCount - 1)

theorem searchEnd_spec (d : Direction) (m : Machine) :
    m.searchEnd d < m.blockCount ∧
      (∀ i < m.searchEnd d, m.read (d.moved m.cpu.hl i) ≠ m.cpu.a) ∧
      (m.searchEnd d + 1 < m.blockCount → m.read (d.moved m.cpu.hl (m.searchEnd d)) = m.cpu.a) := by
  have hcount := m.blockCount_pos
  unfold searchEnd
  cases hfind : (List.range m.blockCount).find? fun i =>
      m.read (d.moved m.cpu.hl i) == m.cpu.a with
  | some i =>
    obtain ⟨hi, hmem, hbefore⟩ := List.find?_range_eq_some.mp hfind
    refine ⟨List.mem_range.mp hmem, fun j hj => ?_, fun _ => beq_iff_eq.mp hi⟩
    simpa using hbefore j hj
  | none =>
    have hnone := List.find?_range_eq_none.mp hfind
    refine ⟨Nat.sub_lt hcount Nat.one_pos, fun i hi => ?_, fun h => ?_⟩
    · simpa using hnone i (Nat.lt_of_lt_of_le hi (Nat.sub_le _ _))
    · rw [Option.getD_none] at h
      omega

/-- One round of a search. -/
theorem step_searching (answer : UInt16 → UInt8) (k : Nat) (x : Marks)
    (h : m.bytesAt m.cpu.pc 2 = BlockKind.compare.code d) :
    let s := m.counted d k m.cpu.pc x
    let value := m.read (d.moved m.cpu.hl k)
    let more := m.cpu.bc - UInt16.ofNat (k + 1) != 0
    let again := more && m.cpu.a != value
    let n := (s.step answer).1
    n = m.counted d (k + 1) (if again then m.cpu.pc else m.cpu.pc + 2)
        { flags := Alu.blockCompareFlags m.cpu.a value more x.flags
          wz := if again then m.cpu.pc + 1 else x.wz + d.step
          blocked := false
          clock := n.cpu.clock } ∧
      (s.step answer).2.cost = if again then 21 else 16 := by
  intro s value more again n
  obtain ⟨hn, hcost⟩ := step_of_blockCompare (m := s) answer h
  have hmore : (s.cpu.bc - 1 != 0) = more := congrArg (· != 0) (bc_sub_one m k)
  have ha : s.cpu.a = m.cpu.a := a_counted ..
  have hflags : s.cpu.flags = x.flags := flags_counted ..
  have hvalue : s.read s.cpu.hl = value := rfl
  have hagain : (more && m.cpu.a != value) = again := rfl
  rw [hmore, ha, hvalue, hagain] at hn hcost
  rw [hflags] at hn
  refine ⟨hn.trans ?_, hcost⟩
  rw [← counted_succ d m k m.cpu.pc _ x]
  generalize n.cpu.clock = now
  clear_value more value again
  rfl

/-- A machine in the middle of a search, with the carry as it was. -/
def Searching (d : Direction) (m : Machine) (k : Nat) (s : Machine) : Prop :=
  ∃ x, s = m.counted d k m.cpu.pc x ∧ x.flags.c = m.cpu.flags.c

theorem searching_start : m.Searching d 0 m := ⟨m.marks, (counted_zero d m).symm, rfl⟩

theorem Searching.round {k : Nat} {s : Machine} (hs : m.Searching d k s) (answer : UInt16 → UInt8)
    (h : m.bytesAt m.cpu.pc 2 = BlockKind.compare.code d) (hk : k < m.searchEnd d) :
    m.Searching d (k + 1) (s.step answer).1 ∧ (s.step answer).2.cost = 21 := by
  obtain ⟨x, rfl, hc⟩ := hs
  obtain ⟨hend, hbefore, -⟩ := m.searchEnd_spec d
  obtain ⟨hn, hcost⟩ := step_searching answer k x h
  have hagain : (m.cpu.bc - UInt16.ofNat (k + 1) != 0 &&
      m.cpu.a != m.read (d.moved m.cpu.hl k)) = true := by
    rw [bc_sub_bne_zero (by omega), Bool.and_eq_true, decide_eq_true_eq, bne_iff_ne]
    exact ⟨by omega, (hbefore k hk).symm⟩
  rw [hagain] at hn hcost
  exact ⟨⟨_, hn, hc⟩, hcost⟩

/-- CPIR and CPDR go on behind the first byte that is equal to the accumulator, or behind the last
byte, and not before. -/
theorem ran_of_blockCompare (answers : Nat → UInt16 → UInt8)
    (h : m.bytesAt m.cpu.pc 2 = BlockKind.compare.code d) :
    let k := m.searchEnd d
    let n := m.ran answers (k + 1)
    (∀ j ≤ k, (m.ran answers j).cpu.pc = m.cpu.pc) ∧
      n = { m with
        cpu := { m.cpu with
          af := m.cpu.af.withLow n.cpu.flags.toByte
          bc := m.cpu.bc - UInt16.ofNat (k + 1)
          hl := d.moved m.cpu.hl (k + 1)
          pc := m.cpu.pc + 2
          r := refreshed m.cpu.r (2 * (k + 1))
          wz := n.cpu.wz
          blocked := false
          clock := m.cpu.clock + UInt64.ofNat (m.costs answers (k + 1)) } } ∧
      n.cpu.flags = { n.cpu.flags with
        z := m.read (d.moved m.cpu.hl k) == m.cpu.a
        pv := n.cpu.bc != 0
        n := true
        c := m.cpu.flags.c } ∧
      m.costs answers (k + 1) = 21 * k + 16 := by
  obtain ⟨hend, -, hmatch⟩ := m.searchEnd_spec d
  intro k n
  have hrun {j : Nat} (hj : j ≤ k) := ran_of_rounds answers searching_start
    (fun j hj s answer hs => hs.round answer h hj) hj
  -- the last round finds the byte or the counter at one
  obtain ⟨⟨x, hlast, hc⟩, hcosts⟩ := hrun (Nat.le_refl k)
  have hagain : (m.cpu.bc - UInt16.ofNat (k + 1) != 0 &&
      m.cpu.a != m.read (d.moved m.cpu.hl k)) = false := by
    rw [bc_sub_bne_zero hend, Bool.and_eq_false_imp, decide_eq_true_eq]
    exact fun hmore => by rw [hmatch hmore, bne_self_eq_false]
  obtain ⟨hstep, hcost⟩ := step_searching (answers k) k x h
  rw [hagain, ← hlast] at hstep hcost
  have hlast' : n = _ := hstep
  obtain ⟨hflags, hn⟩ := eq_of_counted _ _ _ _ _ hlast'
  have hclock : n.cpu.clock = _ := clock_ran answers m (k + 1)
  have hbc : n.cpu.bc = m.cpu.bc - UInt16.ofNat (k + 1) := congrArg (·.cpu.bc) hn
  have hz : (m.cpu.a - m.read (d.moved m.cpu.hl k) == 0) =
      (m.read (d.moved m.cpu.hl k) == m.cpu.a) := by
    rw [Bool.eq_iff_iff, beq_iff_eq, beq_iff_eq, UInt8.sub_eq_iff_eq_add, UInt8.zero_add, eq_comm]
  refine ⟨fun j hj => ?_, ?_, ?_, ?_⟩
  · obtain ⟨⟨_, hs, -⟩, -⟩ := hrun hj
    rw [hs]
    rfl
  · rw [← hclock]
    exact hn
  · rw [hflags, hbc, ← hz, ← hc]
    rfl
  · rw [costs, hcosts, hcost]
    rfl

/-- CPDR down from address 1, with the byte that it looks for at the top of memory. -/
def finding : Machine where
  cpu := { Cpu.powerOn with af := 0x2200, bc := 5, hl := 1, pc := 0x8000 }
  memory := (Memory.blank.writeAll 0x8000 [0xED, 0xB9]).write 0xFFFF 0x22

/-- The third byte is the one, and two are left. -/
theorem ran_of_blockCompare_finding :
    let answers : Nat → UInt16 → UInt8 := fun _ _ => 0xFF
    let n := finding.ran answers 3
    n.cpu.pc = 0x8002 ∧ n.cpu.hl = 0xFFFE ∧ n.cpu.bc = 2 ∧ n.cpu.flags.z = true ∧
      n.cpu.flags.pv = true ∧ finding.costs answers 3 = 58 := by
  intro answers n
  have hend : finding.searchEnd .down = 2 := by decide +kernel
  obtain ⟨-, hn, hflags, hcosts⟩ :=
    ran_of_blockCompare (m := finding) (d := .down) answers (by decide +kernel)
  rw [hend] at hn hflags hcosts
  have hbc : n.cpu.bc = 2 := (congrArg (·.cpu.bc) hn).trans (by decide +kernel)
  refine ⟨(congrArg (·.cpu.pc) hn).trans rfl, (congrArg (·.cpu.hl) hn).trans ?_, hbc,
    (congrArg Flags.z hflags).trans ?_, (congrArg Flags.pv hflags).trans ?_, hcosts⟩
  · decide +kernel
  · decide +kernel
  · exact (congrArg (· != 0) hbc).trans rfl

end Machine
end Spectrum
