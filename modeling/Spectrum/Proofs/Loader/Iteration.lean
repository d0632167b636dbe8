import Mathlib.Tactic.Common
import Spectrum.Proofs.Loader.Route

/-! # An iteration of a polling loop

An iteration in which the counter does not wrap round and the sample is the level that the loop
waits on is executed to its end.  The machine is followed move by move, along the outlook of the
loop, to the closing jump, which leads back to the start.

Main statements: `PollingLoop.Outlook.Holds.step`, `PollingLoop.Outlook.Holds.ran`,
`PollingLoop.Regular.ran_route`. -/

namespace Spectrum.Loader

open Z80

namespace PollingLoop

/-- The counter of a loop after an iteration. -/
def counted (loop : PollingLoop) (b : UInt8) : UInt8 :=
  if loop.countsDown then b - 1 else b + 1

/-- A machine that starts an iteration waits on a level, and the counter does not come to zero. -/
structure Waits (loop : PollingLoop) (awaited : Bool) (m : Machine) : Prop where
  level : m.cpu.bc.low &&& loop.earMask = loop.masked awaited
  counts : loop.counted m.cpu.bc.high ≠ 0

/-! ### From move to move -/

/-- A machine within an iteration is as an outlook from its start predicts. -/
structure Outlook.Holds (loop : PollingLoop) (address : UInt16) (m : Machine) (k : Outlook)
    (n : Machine) : Prop where
  machine : n = { m with cpu := n.cpu }
  rest : Move.rest n.cpu = Move.rest m.cpu
  pc : n.cpu.pc = address + k.offset
  clock : n.cpu.clock = m.cpu.clock + UInt64.ofNat k.time
  bc : n.cpu.bc =
    if k.counted then m.cpu.bc.withHigh (loop.counted m.cpu.bc.high) else m.cpu.bc
  view : k.view.Holds m.cpu.r n.cpu.toRegisterFile

section

variable {loop : PollingLoop} {address : UInt16} {awaited : Bool} {m n : Machine} {k l : Outlook}
  {x : UInt16 × Move}

theorem Outlook.holds_start (hpc : m.cpu.pc = address) :
    Outlook.Holds loop address m {} m where
  machine := rfl
  rest := rfl
  pc := by rw [hpc]; exact (UInt16.add_zero address).symm
  clock := (UInt64.add_zero _).symm
  bc := rfl
  view := View.holds_nothing _

namespace Outlook

theorem of_after (hk : k.after loop awaited x = some l) :
    x.1 = k.offset ∧ (x.2 = .sample → k.sampled = false ∧ k.time = loop.inTime) := by
  obtain ⟨⟨hoffset, -, -, hsample⟩, -⟩ := Option.ite_none_right_eq_some.mp hk
  exact ⟨hoffset, hsample⟩

/-- A sample that is to come has been taken after its move. -/
theorem sampled_after (hk : k.after loop awaited x = some l) :
    l.sampled = (k.sampled || decide (x.2 = .sample)) := by
  obtain ⟨-, hk⟩ := Option.ite_none_right_eq_some.mp hk
  obtain ⟨view, -, rfl⟩ := Option.map_eq_some_iff.mp hk
  rfl

theorem Holds.standsAt (h : Holds loop address m k n) (hat : loop.StandsAt m address) :
    loop.StandsAt n address := by
  refine hat.congr ?_
  rw [h.machine]

theorem Holds.low_bc (h : Holds loop address m k n) : n.cpu.bc.low = m.cpu.bc.low := by
  have hbc := h.bc
  split at hbc <;> rw [hbc]
  exact UInt16.low_withHigh _ _

theorem Holds.instructionAt (h : Holds loop address m k n) (hat : loop.StandsAt m address)
    (hx : x ∈ loop.moves) (hoffset : x.1 = k.offset) :
    n.instructionAt n.cpu.pc =
      x.2.instruction (n.read (address + x.1 + 1)) (n.read (address + x.1 + 2)) := by
  rw [h.pc, ← hoffset]
  exact (h.standsAt hat).instructionAt hx

/-- A move counts only if none before it did, and then as the loop does. -/
theorem Holds.bc_act (h : Holds loop address m k n) {move : Move} (byte : UInt8)
    (hcount : ∀ down, move = .count down → k.counted = false ∧ down = loop.countsDown) :
    (move.act byte (n.cpu.toRegisterFile.refresh move.fetches)).bc =
      if k.counted || decide (move = .count loop.countsDown) then
        m.cpu.bc.withHigh (loop.counted m.cpu.bc.high)
      else m.cpu.bc := by
  have hbc := h.bc
  by_cases hdown : ∃ down, move = .count down
  · obtain ⟨down, rfl⟩ := hdown
    obtain ⟨hk, rfl⟩ := hcount down rfl
    rw [hk, if_neg Bool.false_ne_true] at hbc
    have hrefresh : (n.cpu.toRegisterFile.refresh
        (Move.count loop.countsDown).fetches).bc = m.cpu.bc := hbc
    rw [decide_eq_true rfl, Bool.or_true, if_pos rfl, Move.bc_act_count, hrefresh]
    rfl
  · rw [Move.bc_act (fun down h => hdown ⟨down, h⟩), decide_eq_false fun h => hdown ⟨_, h⟩,
      Bool.or_false]
    exact hbc

/-- One move leads to what the outlook after it predicts, if a sample is the level that the loop
waits on. -/
theorem Holds.step (h : Holds loop address m k n) (hat : loop.StandsAt m address)
    (hw : loop.Waits awaited m) (hx : x ∈ loop.moves) (hk : k.after loop awaited x = some l)
    {answer : UInt16 → UInt8}
    (hanswer : x.2 = .sample → answer (UInt16.join n.cpu.a 0xFE) = PollingLoop.sampled awaited) :
    l.Holds loop address m (n.step answer).1 := by
  obtain ⟨⟨hoffset, hjumps, hcount, -⟩, hk⟩ := Option.ite_none_right_eq_some.mp hk
  obtain ⟨view, hview, rfl⟩ := Option.map_eq_some_iff.mp hk
  have hm : (n.step answer).1 = n.mapCpu fun c =>
      x.2.after (n.read (address + x.1 + 1)) (n.read (address + x.1 + 2))
        (x.2.taken n answer) x.2.forward c :=
    Move.machine_step answer (h.instructionAt hat hx hoffset) (h.view.jumps hjumps)
      fun _ => Move.forward_ret
  have hbc := h.bc_act (x.2.taken n answer) hcount
  have hview' : view.Holds m.cpu.r (x.2.act (x.2.taken n answer)
      (n.cpu.toRegisterFile.refresh x.2.fetches)) := by
    refine h.view.after (by rw [h.low_bc, hw.level]) (fun hs => ?_) (fun down hdown _ => ?_) hview
    · rw [← hanswer hs, hs]
      exact UInt8.and_neg_one
    · obtain ⟨-, rfl⟩ := hcount down hdown
      rw [hbc, decide_eq_true hdown, Bool.or_true, if_pos rfl, UInt16.high_withHigh]
      exact hw.counts
  rw [hm]
  constructor
  case machine =>
    nth_rewrite 1 [h.machine]
    rfl
  case rest => exact (Move.rest_after _ _ _ _ _ _).trans h.rest
  case pc =>
    refine (Move.target_forward _ _ _ _).trans ?_
    rw [h.pc, UInt16.add_assoc]
  case clock =>
    show n.cpu.clock + UInt64.ofNat (x.2.cost x.2.forward) = _
    rw [h.clock, UInt64.ofNat_add, UInt64.add_assoc]
  case bc => exact hbc
  case view => exact hview'.congr rfl rfl

/-- What a move reads from ports, if anything, it reads from the tape and at the time of the
loop. -/
theorem Holds.portReads_step (h : Holds loop address m k n) (hat : loop.StandsAt m address)
    (hx : x ∈ loop.moves) (hk : k.after loop awaited x = some l) (answer : UInt16 → UInt8) :
    (n.step answer).2.portReads n.cpu.clock =
      List.replicate (if x.2 = .sample then 1 else 0)
        { time := m.cpu.clock + UInt64.ofNat loop.inTime
          port := UInt16.join n.cpu.a 0xFE
          value := answer (UInt16.join n.cpu.a 0xFE) } := by
  obtain ⟨hoffset, hsample⟩ := of_after hk
  rw [Move.portReads_step answer (h.instructionAt hat hx hoffset)]
  split
  · rename_i hs
    rw [h.clock, (hsample hs).2]
    rfl
  · rfl

/-- Moves in a row lead to what the outlook after them predicts.  The tape is sampled at the time of
the loop, and no other port is read. -/
theorem Holds.ran (h : Holds loop address m k n) (hat : loop.StandsAt m address)
    (hw : loop.Waits awaited m) {moves : List (UInt16 × Move)} {answers : Nat → UInt16 → UInt8}
    (hm : ∀ x ∈ moves, x ∈ loop.moves) (hk : moves.foldlM (Outlook.after loop awaited) k = some l)
    (hreads : ∀ read ∈ n.portReads answers moves.length,
      read.value = PollingLoop.sampled awaited) :
    l.Holds loop address m (n.ran answers moves.length) ∧
      (∀ i x, moves[i]? = some x → (n.ran answers i).cpu.pc = address + x.1) ∧
      (n.portReads answers moves.length).map (fun read => (read.time, read.port.low)) =
        List.replicate (moves.countP fun x => x.2 = .sample)
          (m.cpu.clock + UInt64.ofNat loop.inTime, 0xFE) := by
  induction moves generalizing n k answers with
  | nil =>
    cases hk
    exact ⟨h, fun _ _ hx => (nomatch hx), rfl⟩
  | cons x rest ih =>
    obtain ⟨u, hu, hrest⟩ := Option.bind_eq_some_iff.mp hk
    have hx := hm x List.mem_cons_self
    -- what is read is read by the first of the moves or by the others
    have hfirst : n.portReads answers 1 = _ := h.portReads_step hat hx hu (answers 0)
    rw [List.length_cons, Nat.add_comm] at hreads ⊢
    rw [n.portReads_add] at hreads
    have hanswer : x.2 = .sample →
        answers 0 (UInt16.join n.cpu.a 0xFE) = PollingLoop.sampled awaited := by
      intro hs
      rw [hfirst, if_pos hs] at hreads
      exact hreads _ (List.mem_append_left _ List.mem_cons_self)
    have hstep := h.step hat hw hx hu hanswer
    obtain ⟨hl, hpc, hrests⟩ := ih hstep (fun y hy => hm y (List.mem_cons_of_mem x hy)) hrest
      fun read hread => hreads read (List.mem_append_right _ hread)
    have hran : ∀ i, n.ran answers (1 + i) =
        (n.step (answers 0)).1.ran (fun i => answers (1 + i)) i := n.ran_add answers 1
    refine ⟨?_, ?_, ?_⟩
    · rw [hran]
      exact hl
    · intro i y hy
      cases i with
      | zero =>
        obtain rfl := Option.some.inj hy
        rw [(of_after hu).1]
        exact h.pc
      | succ i =>
        rw [Nat.add_comm, hran]
        exact hpc i y hy
    · rw [n.portReads_add, List.map_append, hfirst, List.map_replicate, UInt16.low_join,
        List.countP_cons, Nat.add_comm, List.replicate_add]
      exact congrArg₂ (· ++ ·) (by simp) hrests

end Outlook

end

/-! ### The closing jump -/

/-- The registers at the closing jump of an iteration that goes on. -/
theorem Regular.af {loop : PollingLoop} {awaited : Bool} {r : UInt8} {f : RegisterFile}
    (hr : loop.Regular awaited) (h : (loop.closingView awaited).Holds r f) : f.af = 0x0054 := by
  have ha := h.value
  rw [hr.mask, hr.value] at ha
  have hlow := h.flags 0x54 (by rw [hr.flags]; rfl)
  apply UInt16.ext_halves
  · exact UInt8.and_neg_one.symm.trans ha
  · exact hlow

theorem flags_z_of_af {f : RegisterFile} (h : f.af = 0x0054) : f.flags.z = true := by
  unfold RegisterFile.flags
  rw [h]
  rfl

theorem Regular.closing_ne_sample {loop : PollingLoop} {awaited : Bool}
    (hr : loop.Regular awaited) : loop.closing.2 ≠ .sample := by
  intro hs
  have hcloses := hr.closes
  rw [hs] at hcloses
  cases hcloses

section

variable {loop : PollingLoop} {address : UInt16} {awaited : Bool} {m n : Machine}
  (answer : UInt16 → UInt8)

/-- The closing jump is taken exactly if the zero flag is set. -/
theorem Regular.step_closing (hr : loop.Regular awaited) (hat : loop.StandsAt n address)
    (hpc : n.cpu.pc = address + loop.closing.1) :
    (n.step answer).1 = n.mapCpu fun c =>
      loop.closing.2.after (n.read (address + loop.closing.1 + 1))
        (n.read (address + loop.closing.1 + 2)) 0 n.cpu.flags.z c := by
  have hi := hat.instructionAt hr.closing_mem
  rw [← hpc] at hi ⊢
  rcases Move.eq_of_closes hr.closes with ⟨d, hmove, -⟩ | hmove <;> rw [hmove] at hi ⊢
  · exact Move.machine_step answer hi rfl fun _ hret => nomatch hret
  · exact Move.machine_step answer hi rfl fun _ hret => nomatch hret

theorem Regular.step_closing_back (hr : loop.Regular awaited) (hat : loop.StandsAt n address)
    (hpc : n.cpu.pc = address + loop.closing.1) (hz : n.cpu.flags.z = true) :
    (n.step answer).1 = n.mapCpu fun c =>
      { c with
        toRegisterFile := { c.toRegisterFile.refresh 1 with pc := address }
        wz := address
        blocked := false
        clock := c.clock + UInt64.ofNat (loop.closing.2.cost true) } := by
  rw [hr.step_closing answer hat hpc, hz]
  unfold Machine.mapCpu Move.after
  have habsolute := hr.absolute
  rcases Move.eq_of_closes hr.closes with ⟨d, hmove, hback⟩ | hmove
  · have hback' : address + loop.closing.1 + 2 + d.displacement = address := by
      rw [UInt16.add_assoc, UInt16.add_assoc, ← UInt16.add_assoc loop.closing.1, hback,
        UInt16.add_zero]
    rw [hmove]
    dsimp only [Move.act, Move.target, Move.wz, Move.fetches, Option.getD]
    simp only [hpc, hback', if_true]
  · have hback' : UInt16.join (n.read (address + loop.closing.1 + 2))
        (n.read (address + loop.closing.1 + 1)) = address := by
      obtain ⟨hlast, hlength⟩ := habsolute hmove
      have hjump := hat.closing hlast
      rw [hlength, ← UInt16.add_assoc, UInt16.add_assoc _ 1 1] at hjump
      exact hjump
    rw [hmove]
    dsimp only [Move.act, Move.target, Move.wz, Move.fetches]
    simp only [hback', if_true]

theorem Regular.pc_step_closing (hr : loop.Regular awaited) (hat : loop.StandsAt n address)
    (hpc : n.cpu.pc = address + loop.closing.1) (hz : n.cpu.flags.z = false) :
    (n.step answer).1.cpu.pc ≠ address := by
  have honward : n.cpu.pc + loop.closing.2.length ≠ address := by
    rw [hpc]
    intro heq
    apply hr.onward
    simpa [UInt16.add_assoc] using heq
  rw [hr.step_closing answer hat hpc, hz]
  rcases Move.eq_of_closes hr.closes with ⟨d, hmove, -⟩ | hmove <;> rw [hmove] at honward ⊢
  · exact honward
  · exact honward

/-! ### A whole iteration -/

/-- The outlook at the closing jump of an iteration that goes on. -/
def closingOutlook (loop : PollingLoop) (awaited : Bool) : Outlook where
  offset := loop.closing.1
  time := loop.loopTime - loop.closing.2.cost true
  counted := true
  sampled := true
  view := loop.closingView awaited

/-- The processor after an iteration that goes on. -/
def iterated (loop : PollingLoop) (awaited : Bool) (c : Cpu) : Cpu :=
  { Scene.afterIterations loop 1 c with
    af := 0x0054
    r := refreshed ((loop.closingView awaited).loaded?.getD c.r)
      ((loop.closingView awaited).refreshes + 1)
    wz := c.pc
    blocked := false }

/-- The closing jump of an iteration that goes on completes it. -/
theorem Regular.step_closingOutlook (hr : loop.Regular awaited) (hat : loop.StandsAt m address)
    (hpc : m.cpu.pc = address) (h : (loop.closingOutlook awaited).Holds loop address m n) :
    (n.step answer).1 = m.mapCpu (loop.iterated awaited) := by
  have haf := hr.af h.view
  rw [hr.step_closing_back answer (h.standsAt hat) h.pc (flags_z_of_af haf), h.machine]
  refine congrArg (fun c => { m with cpu := c }) (Move.eq_of_rest ?_ ?_ ?_ ?_ ?_ ?_ ?_ ?_)
  · exact h.rest
  · exact haf
  · exact h.bc
  · show refreshed n.cpu.r 1 = _
    rw [h.view.r, refreshed_refreshed]
    rfl
  · exact hpc.symm
  · exact hpc.symm
  · rfl
  · show n.cpu.clock + UInt64.ofNat (loop.closing.2.cost true) =
      m.cpu.clock + UInt64.ofNat (1 * loop.loopTime)
    rw [h.clock, UInt64.add_assoc, ← UInt64.ofNat_add, Nat.one_mul]
    exact congrArg (fun t => _ + UInt64.ofNat t) (Nat.sub_add_cancel hr.time)

theorem Regular.length_route (hr : loop.Regular awaited) :
    loop.route.length = loop.moves.dropLast.length + 1 := by
  unfold route
  rw [List.length_map, hr.moves]
  simp

theorem Regular.getElem?_dropLast_moves (hr : loop.Regular awaited) {i : Nat} {x : UInt16 × Move}
    (hx : loop.moves.dropLast[i]? = some x) : loop.moves[i]? = some x := by
  rw [hr.moves, List.getElem?_append_left (List.getElem?_eq_some_iff.mp hx).1, hx]

theorem Regular.getElem?_moves (hr : loop.Regular awaited) {i : Nat} {x : UInt16 × Move}
    (hx : loop.moves[i]? = some x) :
    loop.moves.dropLast[i]? = some x ∨ i = loop.moves.dropLast.length ∧ x = loop.closing := by
  rw [hr.moves] at hx
  rcases Nat.lt_trichotomy i loop.moves.dropLast.length with hi | rfl | hi
  · rw [List.getElem?_append_left hi] at hx
    exact .inl hx
  · rw [List.getElem?_concat_length] at hx
    exact .inr ⟨rfl, (Option.some.inj hx).symm⟩
  · rw [List.getElem?_eq_none (by rw [List.length_append]; exact hi)] at hx
    cases hx

/-- An iteration that samples what the loop waits on passes all its instructions and goes on.  The
tape is sampled at the time of the loop. -/
theorem Regular.ran_route (hr : loop.Regular awaited) (hat : loop.StandsAt m address)
    (hpc : m.cpu.pc = address) (hw : loop.Waits awaited m) {answers : Nat → UInt16 → UInt8}
    (hreads : ∀ read ∈ m.portReads answers loop.route.length, read.value = sampled awaited) :
    (∀ i offset, loop.route[i]? = some offset →
        (m.ran answers i).cpu.pc = address + offset) ∧
      m.ran answers loop.route.length = m.mapCpu (loop.iterated awaited) ∧
      (m.portReads answers loop.route.length).map (fun read => (read.time, read.port.low)) =
        List.replicate (loop.moves.countP fun x => x.2 = .sample)
          (m.cpu.clock + UInt64.ofNat loop.inTime, 0xFE) := by
  rw [hr.length_route] at hreads ⊢
  obtain ⟨hclosing, hpcs, hsamples⟩ := (Outlook.holds_start hpc).ran hat hw
    (fun x hx => hr.moves ▸ List.mem_append_left _ hx)
    (show _ = some (loop.closingOutlook awaited) from hr.outlook)
    fun read hread => hreads read (List.mem_append_left _ hread)
  refine ⟨?_, hr.step_closingOutlook _ hat hpc hclosing, ?_⟩
  · intro i offset hi
    obtain ⟨x, hx, rfl⟩ := Option.map_eq_some_iff.mp (by rwa [route, List.getElem?_map] at hi)
    rcases hr.getElem?_moves hx with hx | ⟨rfl, rfl⟩
    · exact hpcs i x hx
    · exact hclosing.pc
  · let n := m.ran answers loop.moves.dropLast.length
    have hi := hclosing.pc ▸ (hclosing.standsAt hat).instructionAt hr.closing_mem
    have hlast := Move.portReads_step (answers loop.moves.dropLast.length) hi n.cpu.clock
    rw [if_neg hr.closing_ne_sample] at hlast
    rw [Machine.portReads, hlast, List.append_nil, hsamples]
    conv_rhs => rw [hr.moves]
    rw [List.countP_append]
    simp [hr.closing_ne_sample]

end

end PollingLoop
end Spectrum.Loader
