import Mathlib.Data.List.Nodup
import Mathlib.Tactic.Common
import Spectrum.Proofs.Loader.Level
import Spectrum.Proofs.Loader.Placement

/-! # The loading routine in one step

A trap carries out the ROM's loading routine on the next block of the tape that has the flag in the
accumulator.  What it does to memory and to the registers is what the ROM does with the bytes of
the block: as many as DE asks for go to IX onwards, and the one behind them is taken as parity.  A
block that is too short leaves the rest of the destination with the last byte read.

Main definitions: `Signal.Wanted`, `CarriedOut`, `Scene.Loads`.
Main statements: `Signal.nextRange?_of_wanted`, `carriedOut_leaveRoutine`, `Scene.loadBlock_loads`. -/

namespace Spectrum

open Z80

/-! ### Which block is taken -/

/-- A block with data begins with its flag. -/
theorem Tape.Block.data_eq {b : Tape.Block} (h : b.hasData = true) :
    b.data = b.flag :: b.data.tail := by
  unfold hasData at h
  unfold flag
  cases hd : b.data with
  | nil => simp [hd] at h
  | cons first rest => rfl

namespace Tape.Signal

variable {s : Signal} {blocks : List Block} {index : Nat} {flag : UInt8} {range : DataRange}

/-- A data block that has a flag, by its number on the tape, with none of its data in the past. -/
def Wanted (s : Signal) (blocks : List Block) (index : Nat) (flag : UInt8) (i : Nat) : Prop :=
  ∃ b, blocks[i]? = some b ∧ b.hasData = true ∧ b.flag = flag ∧
    ∀ range ∈ s.ranges, range.block = i → index ≤ range.data

theorem wanted_iff (h : ofBlocks blocks = .ok s) (hr : range ∈ s.ranges) :
    s.Wanted blocks index flag range.block ↔ index ≤ range.data ∧ s.flagOf range = flag := by
  have hp := plays_of_ofBlocks h
  obtain ⟨b, hb, hrecords⟩ := hp.wellFormed.records range hr
  rw [hp.flagOf_eq hb]
  constructor
  · rintro ⟨c, hc, -, hflag, hindex⟩
    obtain rfl := Option.some.inj (hb.symm.trans hc)
    exact ⟨hindex range hr rfl, hflag⟩
  · rintro ⟨hindex, hflag⟩
    refine ⟨b, hb, hrecords.hasData, hflag, fun other ho heq => ?_⟩
    have hnodup : (s.ranges.map (·.block)).Nodup :=
      List.pairwise_map.mpr ((pairwise_block h).imp Nat.ne_of_lt)
    exact List.inj_on_of_nodup_map hnodup hr ho heq.symm ▸ hindex

theorem nextRange?_eq_find? (h : ofBlocks blocks = .ok s) :
    s.nextRange? index flag =
      s.ranges.find? fun range => index ≤ range.data && s.flagOf range == flag :=
  find?_dropWhile_of_sorted _ _ ((plays_of_ofBlocks h).pairwise_data.imp fun hde => by omega)

/-- The first wanted block of the tape is found. -/
theorem nextRange?_of_wanted (h : ofBlocks blocks = .ok s) {i : Nat}
    (hi : s.Wanted blocks index flag i) (hfirst : ∀ j < i, ¬ s.Wanted blocks index flag j) :
    ∃ range ∈ s.ranges, range.block = i ∧ s.nextRange? index flag = some range := by
  obtain ⟨b, hb, hd, -⟩ := id hi
  obtain ⟨range, hr, rfl⟩ := exists_range h hb hd
  refine ⟨range, hr, rfl, ?_⟩
  obtain ⟨before, behind, hsplit⟩ := List.append_of_mem hr
  rw [nextRange?_eq_find? h, List.find?_eq_some_iff_append]
  refine ⟨by simpa using (wanted_iff h hr).mp hi, before, behind, hsplit, fun other ho => ?_⟩
  have hmem : other ∈ s.ranges := hsplit ▸ List.mem_append_left _ ho
  have hlt : other.block < range.block := by
    have := hsplit ▸ pairwise_block h
    exact (List.pairwise_append.mp this).2.2 other ho range List.mem_cons_self
  rw [Bool.not_eq_true', Bool.eq_false_iff]
  simpa using mt (wanted_iff h hmem).mpr (hfirst _ hlt)

theorem nextRange?_of_not_wanted (h : ofBlocks blocks = .ok s)
    (hi : ∀ i, ¬ s.Wanted blocks index flag i) : s.nextRange? index flag = none := by
  rw [nextRange?_eq_find? h, List.find?_eq_none]
  intro range hr
  simpa using mt (wanted_iff h hr).mpr (hi range.block)

end Tape.Signal

namespace Loader

open Tape

namespace Scene

/-! ### What is written -/

/-- Bytes are read at their distance from where they have been written, except in protected
memory. -/
theorem read_writeBytes (m : Machine) (base a : UInt16) {data : List UInt8}
    (h : data.length ≤ Memory.size) :
    (writeBytes m base data).read a =
      if m.isProtected a then m.read a else data[(a - base).toNat]?.getD (m.read a) := by
  have hall : (writeBytes m base data).read a =
      if m.isProtected a then m.read a else (m.memory.writeAll base data).read a := by
    induction data generalizing m base with
    | nil => exact (ite_self _).symm
    | cons b rest ih =>
      have hrest : rest.length ≤ Memory.size := Nat.le_of_succ_le h
      rw [writeBytes, ih _ _ hrest, isProtected_write, m.read_write]
      by_cases hp : m.isProtected a = true
      · rw [if_pos hp, if_pos hp, if_neg]
        rintro ⟨rfl, hb⟩
        exact absurd hp (Bool.eq_false_iff.mp hb)
      · rw [if_neg hp, if_neg hp, Memory.writeAll, Memory.read_writeAll _ _ _ _ hrest,
          Memory.read_writeAll _ _ _ _ hrest]
        congr 1
        change (m.write base b).read a = _
        rw [m.read_write, Memory.read_write, Machine.read]
        by_cases hab : a = base
        · subst hab
          simp [hp]
        · simp [hab, Ne.symm hab]
  rw [hall, Memory.read_writeAll _ _ _ _ h]
  rfl

/-! ### What the registers become -/

/-- The flags are those of the comparison of the accumulator with one. -/
theorem compareWithOne_eq (a : UInt8) : compareWithOne a = Alu.compare a 1 :=
  UInt8.of_fin (P := fun a => compareWithOne a = Alu.compare a 1) (by decide +kernel) a

/-- The bytes of a block that are read: its flag, as many behind it as are wanted, and one more. -/
def bytesRead (c : Cpu) (body : List UInt8) : List UInt8 := c.a :: body.take (c.de.toNat + 1)

/-- What the loading routine leaves at an address.  The return address below the stack is written
last, and nothing is written to protected memory. -/
def byteLoaded (m : Machine) (body : List UInt8) (a : UInt16) : UInt8 :=
  if m.isProtected a then m.read a
  else if a = m.cpu.sp - 2 then loadRoutineReturn.low
  else if a = m.cpu.sp - 1 then loadRoutineReturn.high
  else if (a - m.cpu.ix).toNat < m.cpu.de.toNat then
    body.getD (a - m.cpu.ix).toNat (body.getLastD m.cpu.a)
  else m.read a

section

variable {m : Machine} {body : List UInt8}

theorem placeData_of_lt (h : m.cpu.de.toNat < body.length) :
    placeData m (m.cpu.a :: body) =
      (writeBytes m m.cpu.ix (body.take m.cpu.de.toNat)).mapCpu fun c =>
        { c with
          af := UInt16.join (checksum (bytesRead m.cpu body))
            (Alu.compare (checksum (bytesRead m.cpu body)) 1).toByte
          bc := c.bc.withHigh 0xB0
          de := 0
          hl := UInt16.join (checksum (bytesRead m.cpu body)) ((bytesRead m.cpu body).getLastD 0)
          ix := c.ix + c.de } := by
  have hread : bytesRead m.cpu body =
      m.cpu.a :: (body.take m.cpu.de.toNat ++ [body[m.cpu.de.toNat]]) := by
    rw [bytesRead, List.take_succ_eq_append_getElem h]
  have hchecksum : checksum (bytesRead m.cpu body) =
      (body.take m.cpu.de.toNat).foldl (· ^^^ ·) m.cpu.a ^^^ body[m.cpu.de.toNat] := by
    rw [hread, checksum, List.foldl_cons, UInt8.zero_xor, List.foldl_append]
    rfl
  have hlast : (bytesRead m.cpu body).getLastD 0 = body[m.cpu.de.toNat] := by
    rw [hread, List.getLastD_cons, List.getLastD_concat]
  have hcount : (body.take m.cpu.de.toNat).length = m.cpu.de.toNat := List.length_take_of_le h.le
  unfold placeData
  rw [hchecksum, hlast, ← compareWithOne_eq]
  simp only [List.drop_one, List.tail_cons, List.drop_eq_getElem_cons h, hcount,
    UInt16.ofNat_toNat]
  simp only [Machine.mapCpu, cpu_writeBytes]

theorem placeData_of_le (h : body.length ≤ m.cpu.de.toNat) :
    placeData m (m.cpu.a :: body) =
      (writeBytes m m.cpu.ix (body ++
        List.replicate (m.cpu.de.toNat - body.length) (body.getLastD m.cpu.a))).mapCpu fun c =>
          { c with
            af := 0
            de := c.de - UInt16.ofNat body.length
            hl := UInt16.join (checksum (bytesRead m.cpu body)) ((bytesRead m.cpu body).getLastD 0)
            ix := c.ix + UInt16.ofNat body.length } := by
  have hread : bytesRead m.cpu body = m.cpu.a :: body := by
    rw [bytesRead, List.take_of_length_le (Nat.le_succ_of_le h)]
  have hchecksum : checksum (bytesRead m.cpu body) = body.foldl (· ^^^ ·) m.cpu.a := by
    rw [hread, checksum, List.foldl_cons, UInt8.zero_xor]
  have hlast : (bytesRead m.cpu body).getLastD 0 = body.getLastD m.cpu.a := by
    rw [hread, List.getLastD_cons]
  unfold placeData
  rw [hchecksum, hlast]
  simp only [List.drop_one, List.tail_cons, List.drop_eq_nil_of_le h, List.take_of_length_le h]

/-- Whether the block is long enough or not, the destination is filled. -/
theorem read_placeData (m : Machine) (body : List UInt8) (a : UInt16) :
    (placeData m (m.cpu.a :: body)).read a =
      if m.isProtected a then m.read a
      else if (a - m.cpu.ix).toNat < m.cpu.de.toNat then
        body.getD (a - m.cpu.ix).toNat (body.getLastD m.cpu.a)
      else m.read a := by
  have hsize : m.cpu.de.toNat < Memory.size := m.cpu.de.toNat_lt
  generalize hi : (a - m.cpu.ix).toNat = i
  rcases Nat.lt_or_ge m.cpu.de.toNat body.length with h | h
  · have hlength : (body.take m.cpu.de.toNat).length ≤ Memory.size :=
      Nat.le_trans (List.length_take_le _ _) hsize.le
    have hread := read_writeBytes m m.cpu.ix a hlength
    rw [placeData_of_lt h]
    change (writeBytes _ _ _).read a = _
    rw [hread, hi, List.getElem?_take]
    congr 1
    split
    · rw [List.getD_eq_getElem?_getD, List.getElem?_eq_getElem (by omega)]
      rfl
    · rfl
  · let rest := List.replicate (m.cpu.de.toNat - body.length) (body.getLastD m.cpu.a)
    have hlength : (body ++ rest).length ≤ Memory.size := by
      rw [List.length_append, List.length_replicate]
      omega
    have hread := read_writeBytes m m.cpu.ix a hlength
    rw [placeData_of_le h]
    change (writeBytes _ _ _).read a = _
    rw [hread, hi, List.getElem?_append, List.getElem?_replicate, List.getD_eq_getElem?_getD]
    congr 1
    by_cases hb : i < body.length
    · rw [if_pos hb, if_pos (by omega), List.getElem?_eq_getElem hb]
      rfl
    · rw [if_neg hb, List.getElem?_eq_none (Nat.not_lt.mp hb)]
      by_cases hw : i < m.cpu.de.toNat
      · rw [if_pos hw, if_pos (by omega)]
        rfl
      · rw [if_neg hw, if_neg (by omega)]
        rfl

end

/-- What the loading routine makes of a machine with a block whose flag is in the accumulator and
has `body` behind it.  The block is long enough if there is parity behind the bytes that DE asks
for.  Only R and the clock depend on more than the machine and the block. -/
structure CarriedOut (m n : Machine) (body : List UInt8) : Prop where
  read_eq : ∀ a, n.read a = byteLoaded m body a
  complete : m.cpu.de.toNat < body.length →
    n.cpu.ix = m.cpu.ix + m.cpu.de ∧ n.cpu.de = 0 ∧ n.cpu.bc = m.cpu.bc.withHigh 0xB0 ∧
      n.cpu.a = checksum (bytesRead m.cpu body) ∧
      n.cpu.af.low = (Alu.compare n.cpu.a 1).toByte
  short : body.length ≤ m.cpu.de.toNat →
    n.cpu.ix = m.cpu.ix + UInt16.ofNat body.length ∧
      n.cpu.de = m.cpu.de - UInt16.ofNat body.length ∧ n.cpu.bc = m.cpu.bc ∧ n.cpu.af = 0
  h_eq : n.cpu.hl.high = checksum (bytesRead m.cpu body)
  l_eq : n.cpu.hl.low = (bytesRead m.cpu body).getLastD 0
  sp_eq : n.cpu.sp = m.cpu.sp - 2
  pc_eq : n.cpu.pc = loadRoutineExit
  iff_eq : n.cpu.iff1 = false ∧ n.cpu.iff2 = false
  kept : n = { m with
    memory := n.memory
    cpu := { m.cpu with
      af := n.cpu.af, bc := n.cpu.bc, de := n.cpu.de, hl := n.cpu.hl, ix := n.cpu.ix,
      sp := n.cpu.sp, pc := n.cpu.pc, iff1 := n.cpu.iff1, iff2 := n.cpu.iff2,
      r := n.cpu.r, clock := n.cpu.clock } }

section

variable {m : Machine} {body : List UInt8} (r : UInt8) (clock : UInt64)

theorem cpu_leaveRoutine_of_lt (h : m.cpu.de.toNat < body.length) :
    (leaveRoutine ((placeData m (m.cpu.a :: body)).mapCpu fun c => { c with r, clock })).cpu =
      { m.cpu with
        af := UInt16.join (checksum (bytesRead m.cpu body))
          (Alu.compare (checksum (bytesRead m.cpu body)) 1).toByte
        bc := m.cpu.bc.withHigh 0xB0
        de := 0
        hl := UInt16.join (checksum (bytesRead m.cpu body)) ((bytesRead m.cpu body).getLastD 0)
        ix := m.cpu.ix + m.cpu.de
        sp := m.cpu.sp - 2, pc := loadRoutineExit, iff1 := false, iff2 := false, r, clock } := by
  rw [cpu_leaveRoutine, placeData_of_lt h]
  simp only [Machine.mapCpu, cpu_writeBytes]

theorem cpu_leaveRoutine_of_le (h : body.length ≤ m.cpu.de.toNat) :
    (leaveRoutine ((placeData m (m.cpu.a :: body)).mapCpu fun c => { c with r, clock })).cpu =
      { m.cpu with
        af := 0
        de := m.cpu.de - UInt16.ofNat body.length
        hl := UInt16.join (checksum (bytesRead m.cpu body)) ((bytesRead m.cpu body).getLastD 0)
        ix := m.cpu.ix + UInt16.ofNat body.length
        sp := m.cpu.sp - 2, pc := loadRoutineExit, iff1 := false, iff2 := false, r, clock } := by
  rw [cpu_leaveRoutine, placeData_of_le h]
  simp only [Machine.mapCpu, cpu_writeBytes]

theorem romProtected_writeBytes (m : Machine) (address : UInt16) (data : List UInt8) :
    (writeBytes m address data).romProtected = m.romProtected := by
  induction data generalizing m address with
  | nil => rfl
  | cons b rest ih => rw [writeBytes, ih, Machine.romProtected_write]

theorem romProtected_placeData (m : Machine) (data : List UInt8) :
    (placeData m data).romProtected = m.romProtected := by
  unfold placeData
  dsimp only
  split <;> exact romProtected_writeBytes _ _ _

theorem romProtected_leaveRoutine (m : Machine) :
    (leaveRoutine m).romProtected = m.romProtected := by
  unfold leaveRoutine Machine.writeWord
  simp [Machine.mapCpu]

theorem cpu_placeData (m : Machine) (data : List UInt8) :
    ∃ af bc de hl ix, (placeData m data).cpu = { m.cpu with af, bc, de, hl, ix } := by
  unfold placeData
  dsimp only
  split <;> exact ⟨_, _, _, _, _, by simp only [Machine.mapCpu, cpu_writeBytes]; rfl⟩

/-- What is read afterwards, from the destination, from the stack and from anywhere else. -/
theorem read_leaveRoutine_placeData (m : Machine) (body : List UInt8) (a : UInt16) :
    (leaveRoutine ((placeData m (m.cpu.a :: body)).mapCpu fun c => { c with r, clock })).read a =
      byteLoaded m body a := by
  let placed := placeData m (m.cpu.a :: body)
  have hsp : placed.cpu.sp = m.cpu.sp := by
    obtain ⟨_, _, _, _, _, h⟩ := cpu_placeData m (m.cpu.a :: body)
    rw [h]
  have hprotected : placed.isProtected a = m.isProtected a := by
    rw [Machine.isProtected, romProtected_placeData, ← Machine.isProtected]
  rw [read_leaveRoutine]
  show (if placed.isProtected a then placed.read a
    else if a = placed.cpu.sp - 2 then loadRoutineReturn.low
    else if a = placed.cpu.sp - 1 then loadRoutineReturn.high
    else placed.read a) = _
  rw [hsp, hprotected, read_placeData, byteLoaded]
  cases m.isProtected a <;> rfl

theorem carriedOut_leaveRoutine (m : Machine) (body : List UInt8) :
    CarriedOut m (leaveRoutine ((placeData m (m.cpu.a :: body)).mapCpu
      fun c => { c with r, clock })) body := by
  have hrom : (leaveRoutine ((placeData m (m.cpu.a :: body)).mapCpu
      fun c => { c with r, clock })).romProtected = m.romProtected :=
    (romProtected_leaveRoutine _).trans (romProtected_placeData m _)
  have hread := read_leaveRoutine_placeData r clock m body
  rcases Nat.lt_or_ge m.cpu.de.toNat body.length with h | h
  · have hcpu := cpu_leaveRoutine_of_lt r clock h
    generalize leaveRoutine _ = n at hrom hread hcpu
    obtain ⟨cpu, memory, romProtected⟩ := n
    subst hrom hcpu
    exact {
      read_eq := hread
      complete := fun _ => ⟨rfl, rfl, rfl, UInt16.high_join _ _, by simp [RegisterFile.a]⟩
      short := fun hle => absurd h (Nat.not_lt.mpr hle)
      h_eq := UInt16.high_join _ _
      l_eq := UInt16.low_join _ _
      sp_eq := rfl
      pc_eq := rfl
      iff_eq := ⟨rfl, rfl⟩
      kept := rfl }
  · have hcpu := cpu_leaveRoutine_of_le r clock h
    generalize leaveRoutine _ = n at hrom hread hcpu
    obtain ⟨cpu, memory, romProtected⟩ := n
    subst hrom hcpu
    exact {
      read_eq := hread
      complete := fun hlt => absurd h (Nat.not_le.mpr hlt)
      short := fun _ => ⟨rfl, rfl, rfl, rfl⟩
      h_eq := UInt16.high_join _ _
      l_eq := UInt16.low_join _ _
      sp_eq := rfl
      pc_eq := rfl
      iff_eq := ⟨rfl, rfl⟩
      kept := rfl }

end

/-! ### The tape -/

/-- The time of the last edge of a range, for a tape that started at `origin`. -/
def lastEdge (signal : Signal) (origin : UInt64) (range : DataRange) : UInt64 :=
  origin + UInt64.ofNat (signal.edges.getD (range.stop - 1) 0)

/-- What the loading routine makes of a scene with the tape playing from `origin`, when the block of
`range` is taken, which has `body` behind its flag.  The clock goes forward to the last edge of the
block unless it is past that, and in either case the tape is there afterwards. -/
structure Loads (s t : Scene) (origin : UInt64) (range : DataRange) (body : List UInt8) :
    Prop where
  machine : CarriedOut s.machine t.machine body
  clock_eq : t.clock =
    if 0 < range.stop ∧ s.clock < lastEdge s.session.signal origin range then
      lastEdge s.session.signal origin range
    else s.clock
  r_eq : t.machine.cpu.r = refreshed s.machine.cpu.r (((t.clock - s.clock) /
    UInt64.ofNat PollingLoop.rom.loopTime).toNat * PollingLoop.rom.refreshes)
  index_eq : t.session.index = range.stop
  origin_eq : 0 < range.stop → ∃ start, t.session.origin = some start ∧
    t.clock = lastEdge s.session.signal start range

/-- The tape is moved behind a block. -/
theorem moveTapeTo_stop (s : Scene) {origin : UInt64} (ho : s.session.origin = some origin)
    (range : DataRange) :
    ((s.moveTapeTo range.stop).clock =
      if 0 < range.stop ∧ s.clock < lastEdge s.session.signal origin range then
        lastEdge s.session.signal origin range
      else s.clock) ∧
    (s.moveTapeTo range.stop).session.index = range.stop ∧
    (0 < range.stop → ∃ start, (s.moveTapeTo range.stop).session.origin = some start ∧
      (s.moveTapeTo range.stop).clock = lastEdge s.session.signal start range) := by
  unfold lastEdge
  cases hstop : range.stop with
  | zero => exact ⟨rfl, rfl, fun h => absurd h (Nat.lt_irrefl 0)⟩
  | succ last =>
    rw [Nat.add_sub_cancel]
    rcases s.moveTapeTo_cases last ho with ⟨hlt, hclock, hsession⟩ | ⟨hnot, hclock, hsession⟩
    · rw [if_pos ⟨Nat.succ_pos last, hlt⟩, hsession]
      exact ⟨hclock, rfl, fun _ => ⟨origin, ho, hclock⟩⟩
    · rw [if_neg fun h => hnot h.2, hsession]
      refine ⟨hclock, rfl, fun _ => ⟨_, rfl, ?_⟩⟩
      rw [hclock]
      grind

/-! ### The routine -/

variable {s : Scene} {blocks : List Block} {origin : UInt64}

/-- Placing a block, moving the tape behind it and leaving is what the routine does. -/
theorem loads_leaveRoutine {u : Scene} {body : List UInt8}
    (hplace : u.machine = placeData s.machine (s.machine.cpu.a :: body))
    (hsignal : u.session.signal = s.session.signal) (ho : u.session.origin = some origin)
    (range : DataRange) :
    Loads s { u.moveTapeTo range.stop with
      machine := leaveRoutine (u.moveTapeTo range.stop).machine } origin range body := by
  have hclock : u.clock = s.clock := (congrArg (·.cpu.clock) hplace).trans (clock_placeData _ _)
  have hr : (placeData s.machine (s.machine.cpu.a :: body)).cpu.r = s.machine.cpu.r := by
    obtain ⟨_, _, _, _, _, h⟩ := cpu_placeData s.machine (s.machine.cpu.a :: body)
    rw [h]
  obtain ⟨htime, hindex, horigin⟩ := u.moveTapeTo_stop ho range
  have hmachine := u.machine_moveTapeTo range.stop
  have hleave : (leaveRoutine (u.moveTapeTo range.stop).machine).cpu.clock =
      (u.moveTapeTo range.stop).clock := clock_leaveRoutine _
  rw [hclock, hsignal] at htime
  rw [hsignal] at horigin
  rw [hclock, hplace] at hmachine
  constructor
  case machine =>
    rw [hmachine]
    exact carriedOut_leaveRoutine _ _ _ _
  case clock_eq => exact hleave.trans htime
  case r_eq =>
    show (leaveRoutine (u.moveTapeTo range.stop).machine).cpu.r = refreshed _
      ((((leaveRoutine (u.moveTapeTo range.stop).machine).cpu.clock - s.clock) / _).toNat * _)
    rw [hleave, cpu_leaveRoutine, hmachine, ← hr]
    rfl
  case index_eq => exact hindex
  case origin_eq =>
    intro hstop
    obtain ⟨start, hstart, hedge⟩ := horigin hstop
    exact ⟨start, hstart, hleave.trans hedge⟩

/-- With the tape playing the loading routine takes the first block of the tape that has the flag
in the accumulator and whose data has not begun to play, and carries out what the ROM would.  If
there is none it fails, and nothing happens to the machine. -/
theorem loadBlock_loads (hs : Signal.ofBlocks blocks = .ok s.session.signal)
    (ho : s.session.origin = some origin) :
    let wanted := s.session.signal.Wanted blocks (s.session.indexAt s.clock) s.machine.cpu.a
    ((∀ i, ¬ wanted i) → ∃ t, s.loadBlock = (t, some .endOfTape) ∧ t.machine = s.machine) ∧
    ∀ i, wanted i → (∀ j < i, ¬ wanted j) →
      ∃ t block body, ∃ range ∈ s.session.signal.ranges, s.loadBlock = (t, none) ∧
        range.block = i ∧ blocks[i]? = some block ∧ block.data = s.machine.cpu.a :: body ∧
        Loads s t origin range body := by
  intro wanted
  constructor
  · intro hnone
    exact ⟨_, loadBlock_of_none (Signal.nextRange?_of_not_wanted hs hnone), s.machine_passedOver⟩
  · intro i hi hfirst
    obtain ⟨range, hr, rfl, hnext⟩ := Signal.nextRange?_of_wanted hs hi hfirst
    obtain ⟨block, hblock, hdata, hflag, -⟩ := hi
    have hbody : block.data = s.machine.cpu.a :: block.data.tail := hflag ▸ Block.data_eq hdata
    obtain ⟨u, hplace, hsession, hload⟩ := loadBlock_of_some hnext
    rw [(Signal.plays_of_ofBlocks hs).getD_blocks hblock, hbody] at hplace
    refine ⟨_, block, block.data.tail, range, hr, hload, rfl, hblock, hbody, ?_⟩
    exact loads_leaveRoutine hplace (congrArg (·.signal) hsession)
      ((congrArg (·.origin) hsession).trans ho) range

/-- A machine that asks for the two bytes of a file at the top of memory is given them, and the
parity is right. -/
theorem loadBlock_loads_fileScene :
    Signal.ofBlocks [fileHeader, fileBlock] = .ok fileScene.session.signal ∧
      fileScene.session.origin = some 0 ∧
      ∃ t, fileScene.loadBlock = (t, none) ∧ t.machine.read 0xFFFE = 1 ∧
        t.machine.read 0xFFFF = 2 ∧ t.machine.read 0 = 0 ∧ t.machine.read 0x7FFE = 0x3F ∧
        t.machine.cpu.ix = 0 ∧ t.machine.cpu.de = 0 ∧ t.machine.cpu.a = 0 ∧
        t.machine.cpu.sp = 0x7FFE := by
  have hs : Signal.ofBlocks [fileHeader, fileBlock] = .ok fileScene.session.signal := by
    have hok : (Signal.ofBlocks [fileHeader, fileBlock]).isOk = true := by decide +kernel
    change _ = Except.ok ((Signal.ofBlocks [fileHeader, fileBlock]).toOption.getD default)
    cases h : Signal.ofBlocks [fileHeader, fileBlock] with
    | error e => rw [h] at hok; cases hok
    | ok signal => rfl
  have hindex : fileScene.session.indexAt fileScene.clock = 0 := by decide +kernel
  obtain ⟨t, block, body, range, -, hload, -, hblock, hbody, hloads⟩ :=
    (loadBlock_loads hs rfl).2 1 ⟨fileBlock, rfl, by decide, by decide, fun range _ _ =>
      hindex ▸ Nat.zero_le _⟩ fun j hj => by
        obtain rfl : j = 0 := by omega
        rintro ⟨b, hb, -, hflag, -⟩
        obtain rfl := Option.some.inj hb
        exact absurd hflag (by decide)
  obtain rfl := Option.some.inj hblock
  obtain rfl : [1, 2, 0xFC] = body := (List.cons.inj hbody).2
  have hcarried := hloads.machine
  obtain ⟨hix, hde, -, ha, -⟩ := hcarried.complete (by decide)
  refine ⟨hs, rfl, t, hload, ?_, ?_, ?_, ?_, hix, hde, ha, hcarried.sp_eq⟩
  all_goals exact (hcarried.read_eq _).trans (by decide +kernel)

end Scene
end Loader
end Spectrum
