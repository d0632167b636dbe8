import Mathlib.Tactic.Common
import Spectrum.Loader.Direct
import Spectrum.Proofs.Loader.Course
import Spectrum.Proofs.Memory

/-! # Where the data of a block goes

A tape can be loaded without running anything, by `standardLoad`, or by a running machine whose
loading routine is trapped.  The one cuts the body out of the data of a block, the other counts
bytes off behind the flag and takes the one behind them as parity; both put the same bytes at the
same addresses.

Main definitions: `Memory.Placed`, `Block.Names`, `checksum`, `Scene.TrapsOn`.
Main statements: `placed_standardLoad`, `Scene.loaded_step`, `placed_by_both_loaders`. -/

namespace Spectrum

namespace Memory

/-- Whether an address is one of the `count` from `base` on. -/
def Covers (base : UInt16) (count : Nat) (a : UInt16) : Prop :=
  base ≤ a ∧ a.toNat < base.toNat + count

instance (base : UInt16) (count : Nat) (a : UInt16) : Decidable (Covers base count a) :=
  inferInstanceAs (Decidable (_ ∧ _))

/-- Bytes have been placed at an address, and apart from some other addresses nothing else has
changed. -/
structure Placed (m n : Memory) (base : UInt16) (image : List UInt8) (others : List UInt16) :
    Prop where
  slice_eq : n.slice base.toNat image.length = image
  read_eq : ∀ a, ¬ Covers base image.length a → a ∉ others → n.read a = m.read a

theorem placed_load (m : Memory) (base : UInt16) (image : List UInt8)
    (h : base.toNat + image.length ≤ size) : Placed m (m.load base image) base image [] where
  slice_eq := by
    have hbefore : (m.toList.take base.toNat).length = base.toNat := by
      rw [List.length_take, length_toList]
      omega
    rw [slice, toList_load m base image h, List.append_assoc, List.drop_left' hbefore,
      List.take_left]
  read_eq := by
    intro a ha _
    rw [read_load m base a image]
    by_cases hb : base ≤ a
    · have hout : image.length ≤ a.toNat - base.toNat := by
        have := UInt16.le_iff_toNat_le.mp hb
        have : ¬ a.toNat < base.toNat + image.length := fun hlt => ha ⟨hb, hlt⟩
        omega
      rw [if_pos hb, List.getElem?_eq_none hout, Option.getD_none]
    · rw [if_neg hb]

theorem Placed.trans {m n k : Memory} {base : UInt16} {image : List UInt8} {others : List UInt16}
    (h : Placed m n base image []) (hfit : base.toNat + image.length ≤ size)
    (hout : ∀ a ∈ others, ¬ Covers base image.length a)
    (hk : ∀ a, a ∉ others → k.read a = n.read a) : Placed m k base image others where
  slice_eq := by
    refine Eq.trans (slice_congr hfit fun i hi => hk _ fun hmem => hout _ hmem ?_) h.slice_eq
    have hi' : (UInt16.ofNat (base.toNat + i)).toNat = base.toNat + i :=
      UInt16.toNat_ofNat_of_lt' (Nat.lt_of_lt_of_le (by omega) hfit)
    refine ⟨?_, ?_⟩
    · rw [UInt16.le_iff_toNat_le, hi']
      omega
    · omega
  read_eq := fun a ha hn => (hk a hn).trans (h.read_eq a ha List.not_mem_nil)

end Memory

namespace Loader

open Z80 Tape

/-- A header of bytes with a destination. -/
structure Names (header : Block) (address : UInt16) : Prop where
  hasData : header.hasData = true
  flag : header.flag = 0
  length : headerFields ≤ header.data.length
  type : header.data.getD 1 0 = 3
  address : UInt16.join (header.data.getD 15 0) (header.data.getD 14 0) = address

/-- The data of a block: a flag, a body, and a byte of parity. -/
structure Carries (block : Block) (flag : UInt8) (body : List UInt8) (parity : UInt8) : Prop where
  kind : block.kind = .data
  data : block.data = flag :: (body ++ [parity])

/-- The exclusive or of all bytes, which is zero if the parity is right. -/
def checksum (data : List UInt8) : UInt8 := data.foldl (· ^^^ ·) 0

section

variable {header block : Block} {flag parity : UInt8} {body : List UInt8} {address : UInt16}

theorem Names.destination_eq (h : Names header address) : destination header = .ok address := by
  unfold destination
  dsimp only
  rw [h.type, h.address]
  rfl

theorem Carries.hasData (h : Carries block flag body parity) : block.hasData = true := by
  simp [Block.hasData, h.kind, h.data]

theorem Carries.flag_eq (h : Carries block flag body parity) : block.flag = flag := by
  rw [Block.flag, h.data]
  rfl

theorem Carries.checksum_eq (h : Carries block flag body parity) :
    checksum block.data = body.foldl (· ^^^ ·) flag ^^^ parity := by
  rw [checksum, h.data, List.foldl_cons, List.foldl_append, UInt8.zero_xor]
  rfl

/-! ### Without running -/

theorem placeBlocks_of_names (h : Names header address) (memory : Memory)
    (pending : Option UInt16) (rest : List Block) :
    placeBlocks memory pending (header :: rest) = placeBlocks memory (some address) rest := by
  have hlen : ¬ header.data.length < headerFields := Nat.not_lt.mpr h.length
  simp [placeBlocks, h.hasData, h.flag, hlen, h.destination_eq]

theorem placeBlocks_of_carries (h : Carries block flag body parity) (hflag : flag ≠ 0)
    (memory : Memory) (rest : List Block) :
    placeBlocks memory (some address) (block :: rest) =
      placeBlocks (memory.load address body) none rest := by
  have hbody : (block.data.drop 1).take (block.data.length - 2) = body := by
    rw [h.data]
    simp
  rw [placeBlocks]
  simp only [h.hasData, h.flag_eq, hbody, hflag, beq_iff_eq, Bool.not_true, Bool.false_eq_true,
    if_false]

/-- The body of a block goes to where the header before it says. -/
theorem placed_standardLoad (hheader : Names header address)
    (hblock : Carries block flag body parity) (hflag : flag ≠ 0)
    (hfit : address.toNat + body.length ≤ Memory.size) (config : Config) :
    ∃ snapshot, standardLoad [header, block] config = ([], .ok snapshot) ∧
      Memory.Placed Memory.blank snapshot.memory address body [] := by
  refine ⟨{ memory := Memory.blank.load address body, registers := basicRegisters config.start },
    ?_, Memory.placed_load Memory.blank address body hfit⟩
  unfold standardLoad
  rw [placeBlocks_of_names hheader, placeBlocks_of_carries hblock hflag]
  rfl

end

namespace Scene

/-! ### By the loading routine -/

/-- Bytes that go to RAM are placed like an image. -/
theorem writeBytes_eq_load (m : Machine) {address : UInt16} {data : List UInt8}
    (ha : Machine.ramStart ≤ address) (hfit : address.toNat + data.length ≤ Memory.size) :
    writeBytes m address data = m.load address data := by
  have hall : writeBytes m address data =
      { m with memory := m.memory.writeAll address data } := by
    induction data generalizing m address with
    | nil => rfl
    | cons b rest ih =>
      have hb : m.write address b = { m with memory := m.memory.write address b } := by
        have : m.isProtected address = false := by
          simp [Machine.isProtected, UInt16.not_lt.mpr ha]
        rw [Machine.write, if_neg (by simp [this])]
      rw [writeBytes, hb]
      cases rest with
      | nil => rfl
      | cons c rest =>
        rw [List.length_cons, List.length_cons] at hfit
        have hnext : (address + 1).toNat = address.toNat + 1 := by
          rw [UInt16.toNat_add]
          exact Nat.mod_eq_of_lt (Nat.lt_of_lt_of_le (by simp) hfit)
        rw [UInt16.le_iff_toNat_le] at ha
        refine ih _ ?_ ?_
        · rw [UInt16.le_iff_toNat_le]
          omega
        · rw [List.length_cons]
          omega
  rw [hall, Machine.load, Memory.load, List.take_of_length_le (by omega)]

/-- The data of a block goes to IX onwards, if as many bytes are wanted as it has. -/
theorem placeData_of_carries {m : Machine} {block : Block} {parity : UInt8} {body : List UInt8}
    (h : Carries block m.cpu.a body parity) (hde : m.cpu.de.toNat = body.length) :
    placeData m block.data = (writeBytes m m.cpu.ix body).mapCpu fun c =>
      { c with
        af := UInt16.join (checksum block.data) (compareWithOne (checksum block.data)).toByte
        bc := c.bc.withHigh 0xB0
        de := 0
        hl := UInt16.join (checksum block.data) parity
        ix := c.ix + UInt16.ofNat body.length } := by
  rw [h.checksum_eq]
  unfold placeData
  simp only [h.data, hde, List.drop_one, List.tail_cons, List.take_left, List.drop_left]

/-- R is refreshed while the tape moves as if the ROM waited for it. -/
theorem machine_moveTapeTo (s : Scene) (index : Nat) :
    (s.moveTapeTo index).machine = s.machine.mapCpu fun c =>
      { c with
        r := refreshed c.r ((((s.moveTapeTo index).clock - s.clock) /
          UInt64.ofNat PollingLoop.rom.loopTime).toNat * PollingLoop.rom.refreshes)
        clock := (s.moveTapeTo index).clock } := by
  have hstay : ∀ t : Scene, t.machine = s.machine → t.machine = s.machine.mapCpu fun c =>
      { c with
        r := refreshed c.r (((t.clock - s.clock) /
          UInt64.ofNat PollingLoop.rom.loopTime).toNat * PollingLoop.rom.refreshes)
        clock := t.clock } := fun t ht => by
    have hclock : t.clock = s.clock := congrArg (·.cpu.clock) ht
    rw [ht, hclock, UInt64.sub_self, UInt64.zero_div, UInt64.toNat_zero, Nat.zero_mul]
    simp only [refreshed_zero]
    rfl
  unfold moveTapeTo
  dsimp only [mapSession]
  split
  · split
    · rename_i last origin _ _
      generalize hmoved : Scene.mapCpu _ _ = t
      have hclock : t.clock = s.clock +
          (origin + UInt64.ofNat (s.session.signal.edges.getD last 0) - s.clock) := by
        rw [← hmoved]
        rfl
      rw [hclock, show ∀ a b : UInt64, a + b - a = b by grind, ← hmoved]
      rfl
    · exact hstay _ rfl
  · exact hstay _ rfl

theorem cpu_leaveRoutine (m : Machine) :
    (leaveRoutine m).cpu =
      { m.cpu with sp := m.cpu.sp - 2, pc := loadRoutineExit, iff1 := false, iff2 := false } := by
  unfold leaveRoutine Machine.writeWord
  simp [Machine.mapCpu]

theorem isProtected_write (m : Machine) (a b : UInt16) (v : UInt8) :
    (m.write a v).isProtected b = m.isProtected b := by
  unfold Machine.isProtected
  rw [Machine.romProtected_write]

/-- The routine is left with a return address below the stack, where that is not protected. -/
theorem read_leaveRoutine (m : Machine) (a : UInt16) :
    (leaveRoutine m).read a =
      if m.isProtected a then m.read a
      else if a = m.cpu.sp - 2 then loadRoutineReturn.low
      else if a = m.cpu.sp - 1 then loadRoutineReturn.high
      else m.read a := by
  have hnext : m.cpu.sp - 2 + 1 = m.cpu.sp - 1 := by grind
  have hne : m.cpu.sp - 2 ≠ m.cpu.sp - 1 := by grind
  change (m.writeWord (m.cpu.sp - 2) loadRoutineReturn).read a = _
  rw [Machine.writeWord, Machine.read_write, Machine.read_write, isProtected_write, hnext]
  by_cases hlow : a = m.cpu.sp - 2
  · subst hlow
    cases m.isProtected (m.cpu.sp - 2) <;> simp [hne]
  · by_cases hhigh : a = m.cpu.sp - 1
    · subst hhigh
      cases m.isProtected (m.cpu.sp - 1) <;> simp [hlow]
    · simp [hlow, hhigh]

/-- In memory only the two bytes below the stack show how the routine is left. -/
theorem read_leaveRoutine_of_not_mem (m : Machine) {a : UInt16}
    (h : a ∉ [m.cpu.sp - 2, m.cpu.sp - 1]) :
    (leaveRoutine m).memory.read a = m.memory.read a := by
  have hne : a ≠ m.cpu.sp - 2 ∧ a ≠ m.cpu.sp - 1 := by simpa using h
  have hread := read_leaveRoutine m a
  rw [if_neg hne.1, if_neg hne.2, ite_self] at hread
  exact hread

/-- The loading routine is about to be carried out on a block. -/
structure TrapsOn (s : Scene) (block : Block) : Prop where
  traps : s.traps = true
  ahead : ∃ range, s.ahead? = some range ∧ s.session.signal.blocks.getD range.block {} = block

section

variable {s : Scene} {block : Block} {flag parity : UInt8} {body : List UInt8} {address : UInt16}

theorem TrapsOn.trapRoutine_eq (h : s.TrapsOn block) : ∃ t r clock,
    s.trapRoutine = (t, none) ∧
      t.machine = leaveRoutine ((placeData s.machine block.data).mapCpu
        fun c => { c with r, clock }) := by
  obtain ⟨range, hrange, rfl⟩ := h.ahead
  obtain ⟨u, hplace, -, hload⟩ := loadBlock_of_some hrange
  have hmove := u.machine_moveTapeTo range.stop
  rw [hplace] at hmove
  exact ⟨_, _, _, (trapRoutine_of_traps h.traps).trans hload, congrArg leaveRoutine hmove⟩

/-- The registers ask for the bytes of a block with a flag to be put somewhere else than where the
routine will leave the stack. -/
structure Asks (c : Cpu) (flag : UInt8) (address : UInt16) (count : Nat) : Prop where
  a_eq : c.a = flag
  ix_eq : c.ix = address
  de_eq : c.de.toNat = count
  stack : ∀ a ∈ [c.sp - 2, c.sp - 1], ¬ Memory.Covers address count a

/-- What the loading routine makes of a machine that asks for the whole body of a block: the body is
where it belongs, IX is behind it, none of it is left to load, and the carry tells whether the
parity is right.  Two bytes of the stack change as well. -/
structure Loaded (m n : Machine) (block : Block) (address : UInt16) (body : List UInt8) :
    Prop where
  placed : Memory.Placed m.memory n.memory address body [m.cpu.sp - 2, m.cpu.sp - 1]
  ix_eq : n.cpu.ix = address + UInt16.ofNat body.length
  de_eq : n.cpu.de = 0
  carry_iff : n.cpu.flags.c = true ↔ checksum block.data = 0

theorem TrapsOn.loaded (h : s.TrapsOn block) (hblock : Carries block flag body parity)
    (hasks : Asks s.machine.cpu flag address body.length) (hram : Machine.ramStart ≤ address)
    (hfit : address.toNat + body.length ≤ Memory.size) :
    ∃ t, s.trapRoutine = (t, none) ∧ Loaded s.machine t.machine block address body := by
  obtain ⟨t, r, clock, htrap, hmachine⟩ := h.trapRoutine_eq
  obtain ⟨rfl, rfl, hde, hstack⟩ := hasks
  rw [placeData_of_carries hblock hde, writeBytes_eq_load _ hram hfit] at hmachine
  refine ⟨t, htrap, ?_, ?_, ?_, ?_⟩
  · refine (Memory.placed_load _ _ body hfit).trans hfit hstack fun a ha => ?_
    rw [hmachine]
    exact read_leaveRoutine_of_not_mem _ ha
  · rw [hmachine, cpu_leaveRoutine]
    rfl
  · rw [hmachine, cpu_leaveRoutine]
    rfl
  · rw [hmachine, cpu_leaveRoutine]
    change (Flags.ofByte (UInt16.join _ _).low).c = true ↔ _
    rw [UInt16.low_join, Flags.ofByte_toByte]
    exact beq_iff_eq

/-- Nothing else in the step touches what has been loaded. -/
theorem loaded_step (h : s.atTrap.TrapsOn block) (hblock : Carries block flag body parity)
    (hasks : Asks s.atTrap.machine.cpu flag address body.length)
    (hram : Machine.ramStart ≤ address)
    (hfit : address.toNat + body.length ≤ Memory.size) :
    Loaded s.atTrap.machine s.step.1.1.machine block address body := by
  obtain ⟨t, htrap, hloaded⟩ := h.loaded hblock hasks hram hfit
  rwa [machine_step_of_trap h.traps htrap]

end

end Scene

/-! ### Both -/

/-- The body of a block with a flag other than that of a header is put to the same place, and
nowhere else, by loading the block behind its header and by the loading routine. -/
theorem placed_by_both_loaders {header block : Block} {flag parity : UInt8} {body : List UInt8}
    {address : UInt16} {s : Scene} (config : Config) (hheader : Names header address)
    (hblock : Carries block flag body parity) (hflag : flag ≠ 0)
    (hram : Machine.ramStart ≤ address) (hfit : address.toNat + body.length ≤ Memory.size)
    (htrap : s.atTrap.TrapsOn block)
    (hasks : Scene.Asks s.atTrap.machine.cpu flag address body.length) :
    (∃ snapshot, standardLoad [header, block] config = ([], .ok snapshot) ∧
      Memory.Placed Memory.blank snapshot.memory address body []) ∧
    Scene.Loaded s.atTrap.machine s.step.1.1.machine block address body :=
  ⟨placed_standardLoad hheader hblock hflag hfit config,
    Scene.loaded_step htrap hblock hasks hram hfit⟩

/-- The header of a file of two bytes that belong to 0xFFFE. -/
def fileHeader : Block where
  timings := { pilotCount := 0 }
  data := [0, 3, 0x66, 0x69, 0x6C, 0x65, 0x20, 0x20, 0x20, 0x20, 0x20, 0x20, 2, 0, 0xFE, 0xFF,
    0, 0x80, 0x86]

/-- Its body, at the top of memory. -/
def fileBlock : Block where
  timings := { pilotCount := 0 }
  data := [0xFF, 1, 2, 0xFC]

/-- The file about to play into a machine that asks for its body. -/
def fileScene : Scene where
  machine :=
    { cpu := { Cpu.powerOn with
        af := 0xFF00, ix := 0xFFFE, de := 2, sp := 0x8000, pc := Scene.loadRoutine - 1 } }
  session :=
    { signal := (Signal.ofBlocks [fileHeader, fileBlock]).toOption.getD default
      config := { accelerators := [] }, loops := [], runStart := 0, origin := some 0 }

/-- The file goes to the last two addresses. -/
theorem placed_by_both_loaders_fileScene :
    (∃ snapshot, standardLoad [fileHeader, fileBlock] {} = ([], .ok snapshot) ∧
      Memory.Placed Memory.blank snapshot.memory 0xFFFE [1, 2] []) ∧
    Memory.Placed fileScene.atTrap.machine.memory fileScene.step.1.1.machine.memory 0xFFFE [1, 2]
      [0x7FFE, 0x7FFF] ∧
    fileScene.step.1.1.machine.cpu.ix = 0 ∧ fileScene.step.1.1.machine.cpu.de = 0 ∧
    fileScene.step.1.1.machine.cpu.flags.c = true := by
  have hheader : Names fileHeader 0xFFFE := ⟨by decide, by decide, by decide, by decide, by decide⟩
  have hblock : Carries fileBlock 0xFF [1, 2] 0xFC := ⟨rfl, rfl⟩
  have htrap : fileScene.atTrap.TrapsOn fileBlock :=
    ⟨by decide +kernel, ⟨1, 304, 304, 368⟩, by decide +kernel, by decide +kernel⟩
  have hsp : fileScene.atTrap.machine.cpu.sp = 0x8000 := by decide +kernel
  have hasks : Scene.Asks fileScene.atTrap.machine.cpu 0xFF 0xFFFE 2 := by
    refine ⟨by decide +kernel, by decide +kernel, by decide +kernel, ?_⟩
    rw [hsp]
    exact List.forall_mem_cons.mpr ⟨by decide, List.forall_mem_singleton.mpr (by decide)⟩
  obtain ⟨hdirect, hload⟩ := placed_by_both_loaders {} hheader hblock (by decide) (by decide)
    (by decide) htrap hasks
  have hplaced := hload.placed
  rw [hsp] at hplaced
  exact ⟨hdirect, hplaced, hload.ix_eq, hload.de_eq, hload.carry_iff.mpr (by decide)⟩

end Loader
end Spectrum
