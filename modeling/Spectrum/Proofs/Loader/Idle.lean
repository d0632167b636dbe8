import Mathlib.Tactic.Common
import Spectrum.Proofs.Loader.Lap

/-! # Idle iterations

From settled registers, an iteration that samples the level which it waits on and does not wrap its
counter round is executed to its end, and changes the machine just as `afterIterations` has it.  The
proof follows the outlook of the loop move by move.

Main statements: `Scene.Reached.execute`, `Scene.Settled.idle`. -/

namespace Spectrum.Loader

open Z80 Tape

namespace Scene

/-- The scene after some instructions, with nothing between them. -/
def executed (s : Scene) : Nat → Scene
  | 0 => s
  | n + 1 => (s.executed n).execute.1

theorem executed_add (s : Scene) (m n : Nat) : s.executed (m + n) = (s.executed m).executed n := by
  induction n with
  | zero => rfl
  | succ n ih =>
    rw [← Nat.add_assoc, executed, ih]
    rfl

/-- In the iteration of a loop that begins in a scene, nothing happens: no key is held, the sample
is going to be the level that the loop waits on, and the counter does not come to zero. -/
structure Idle (loop : PollingLoop) (awaited : Bool) (s : Scene) : Prop where
  released : s.session.keyboard.held = []
  waits : s.machine.cpu.bc.low &&& loop.earMask = loop.masked awaited
  level : (s.session.advanceTape (s.clock + UInt64.ofNat loop.inTime)).level = awaited
  counts : loop.counted s.machine.cpu.bc.high ≠ 0

theorem Idle.waiting {loop : PollingLoop} {awaited : Bool} {s : Scene}
    (h : Idle loop awaited s) : loop.Waits awaited s.machine :=
  ⟨h.waits, h.counts⟩

/-- A scene within an iteration is as an outlook from its start predicts, and if the tape has been
sampled, the session has noted it. -/
structure Reached (loop : PollingLoop) (address : UInt16) (s : Scene) (k : PollingLoop.Outlook)
    (t : Scene) : Prop where
  holds : k.Holds loop address s.machine t.machine
  session : if k.sampled then s.session.Sampled (s.clock + UInt64.ofNat loop.inTime) t.session
    else t.session = s.session

section

variable {loop : PollingLoop} {address : UInt16} {awaited : Bool} {s t : Scene}
  {k l : PollingLoop.Outlook}

theorem reached_start (hpc : s.machine.cpu.pc = address) : Reached loop address s {} s :=
  ⟨PollingLoop.Outlook.holds_start hpc, rfl⟩

/-- When the outlook has the sample, it is the level that the loop waits on. -/
theorem Reached.answer (h : Reached loop address s k t) (hidle : Idle loop awaited s)
    (hk : k.sampled = false) (htime : k.time = loop.inTime) (high : UInt8) :
    t.session.answer t.clock (UInt16.join high 0xFE) = PollingLoop.sampled awaited := by
  have hsession := h.session
  rw [hk, if_neg Bool.false_ne_true] at hsession
  have hclock : t.clock = s.clock + UInt64.ofNat loop.inTime := htime ▸ h.holds.clock
  rw [hsession, hclock, ← hidle.level]
  exact Session.answer_eq hidle.released _ _

theorem Reached.session_execute (h : Reached loop address s k t)
    (hat : loop.StandsAt t.machine address) {x : UInt16 × Move} (hx : x ∈ loop.moves)
    (hpc : t.machine.cpu.pc = address + x.1)
    (hsample : x.2 = .sample → k.sampled = false ∧ k.time = loop.inTime) :
    if k.sampled || decide (x.2 = .sample) then
      s.session.Sampled (s.clock + UInt64.ofNat loop.inTime) t.execute.1.session
    else t.execute.1.session = s.session := by
  have hsession := h.session
  have hexecute := Scene.session_execute hat hx hpc
  by_cases hs : x.2 = .sample
  · obtain ⟨hk, htime⟩ := hsample hs
    rw [hk, if_neg Bool.false_ne_true] at hsession
    rw [decide_eq_true hs, Bool.or_true, if_pos rfl, hexecute, if_pos hs, hsession, ← htime,
      ← show t.machine.cpu.clock = s.clock + UInt64.ofNat k.time from h.holds.clock]
    exact s.session.sampled_noteInput t.machine _ (Session.isUlaPort_join _)
  · rw [decide_eq_false hs, Bool.or_false, hexecute, if_neg hs]
    exact hsession

theorem Reached.execute (h : Reached loop address s k t) (hat : loop.StandsAt s.machine address)
    (hidle : Idle loop awaited s) {x : UInt16 × Move} (hx : x ∈ loop.moves)
    (hk : k.after loop awaited x = some l) : Reached loop address s l t.execute.1 := by
  obtain ⟨hoffset, hsample⟩ := PollingLoop.Outlook.of_after hk
  have hpc : t.machine.cpu.pc = address + x.1 := by
    rw [h.holds.pc, hoffset]
  have hstep : l.Holds loop address s.machine t.execute.1.machine :=
    h.holds.step hat hidle.waiting hx hk fun hs =>
      h.answer hidle (hsample hs).1 (hsample hs).2 _
  refine ⟨hstep, ?_⟩
  rw [PollingLoop.Outlook.sampled_after hk]
  exact h.session_execute (h.holds.standsAt hat) hx hpc hsample

theorem Reached.executed (h : Reached loop address s k t) (hat : loop.StandsAt s.machine address)
    (hidle : Idle loop awaited s) {moves : List (UInt16 × Move)}
    (hm : ∀ x ∈ moves, x ∈ loop.moves)
    (hk : moves.foldlM (PollingLoop.Outlook.after loop awaited) k = some l) :
    Reached loop address s l (t.executed moves.length) ∧
      ∀ i x, moves[i]? = some x → (t.executed i).machine.cpu.pc = address + x.1 := by
  induction moves generalizing t k with
  | nil =>
    cases hk
    exact ⟨h, fun _ _ hx => nomatch hx⟩
  | cons x rest ih =>
    obtain ⟨u, hu, hrest⟩ := Option.bind_eq_some_iff.mp hk
    have hx := h.execute hat hidle (hm x List.mem_cons_self) hu
    have hshift : ∀ i, t.executed (i + 1) = t.execute.1.executed i := fun i => by
      rw [Nat.add_comm, executed_add]
      rfl
    obtain ⟨hl, hpc⟩ := ih hx (fun y hy => hm y (List.mem_cons_of_mem x hy)) hrest
    refine ⟨?_, fun i y hy => ?_⟩
    · rw [List.length_cons, hshift]
      exact hl
    · cases i with
      | zero =>
        obtain rfl := Option.some.inj hy
        rw [(PollingLoop.Outlook.of_after hu).1]
        exact h.holds.pc
      | succ i =>
        rw [hshift]
        exact hpc i y hy

end

/-- From settled registers, an iteration that goes on does just what `afterIterations` has. -/
theorem Settled.iterated {loop : PollingLoop} {address : UInt16} {awaited : Bool} {c : Cpu}
    (h : Settled loop address awaited c) (hr : loop.Regular awaited) :
    loop.iterated awaited c = afterIterations loop 1 c := by
  have hrefreshes := hr.refreshes
  refine Move.eq_of_rest rfl h.af.symm rfl ?_ rfl (h.pc.trans h.wz.symm) h.blocked.symm rfl
  show refreshed _ _ = refreshed c.r (1 * loop.refreshes)
  rw [Nat.one_mul]
  cases hl : (loop.closingView awaited).loaded? with
  | none =>
    rw [if_pos hl] at hrefreshes
    rw [hrefreshes]
    rfl
  | some byte =>
    rw [if_neg (by rw [hl]; exact Option.some_ne_none byte)] at hrefreshes
    rw [hrefreshes, refreshed_zero]
    exact (h.r byte hl).symm

/-- From settled registers an idle iteration is executed to its end, and it changes the machine as
`afterIterations` has it. -/
theorem Settled.idle {loop : PollingLoop} {address : UInt16} {awaited : Bool} {s : Scene}
    (h : Settled loop address awaited s.machine.cpu) (hr : loop.Regular awaited)
    (hat : loop.StandsAt s.machine address) (hidle : Idle loop awaited s) :
    (∀ i offset, loop.route[i]? = some offset →
        (s.executed i).machine.cpu.pc = address + offset) ∧
      (s.executed loop.route.length).machine = s.machine.mapCpu (afterIterations loop 1) ∧
      s.session.Sampled (s.clock + UInt64.ofNat loop.inTime)
        (s.executed loop.route.length).session := by
  obtain ⟨hreached, hpc⟩ := (reached_start h.pc).executed hat hidle
    (fun x hx => hr.moves ▸ List.mem_append_left _ hx)
    (show _ = some (loop.closingOutlook awaited) from hr.outlook)
  let t := s.executed loop.moves.dropLast.length
  have hat' : loop.StandsAt t.machine address := hreached.holds.standsAt hat
  refine ⟨fun i offset hi => ?_, ?_, ?_⟩
  · rw [PollingLoop.route, List.getElem?_map, Option.map_eq_some_iff] at hi
    obtain ⟨x, hx, rfl⟩ := hi
    rcases hr.getElem?_moves hx with hx | ⟨rfl, rfl⟩
    · exact hpc i x hx
    · exact hreached.holds.pc
  · have hiterated :=
      hr.step_closingOutlook (t.session.answer t.clock) hat h.pc hreached.holds
    rw [hr.length_route]
    exact hiterated.trans (congrArg (fun c => { s.machine with cpu := c }) (h.iterated hr))
  · rw [hr.length_route, executed, session_execute hat' hr.closing_mem hreached.holds.pc,
      if_neg hr.closing_ne_sample]
    exact hreached.session

end Scene
end Spectrum.Loader
