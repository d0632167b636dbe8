import Mathlib.Tactic.Common
import Spectrum.Proofs.Loader.Elapsed
import Spectrum.Proofs.Loader.Idle

/-! # Skipped iterations

When an iteration of a polling loop has been completed, some more of them are skipped: those in
which nothing is going to happen.  This is the same as executing them, instruction by instruction.
The registers are settled by the completed iteration, the samples of all the iterations to come see
the level that they wait on, since they lie before the next edge, and the counter does not wrap
round.

Main statements: `Scene.executed_idle`, `Scene.Completes.executed_skipped`. -/

namespace Spectrum.Loader

open Z80 Tape

/-! ### Iterations in a row -/

namespace Scene

/-- The counter of a loop after some iterations. -/
def countedBy (loop : PollingLoop) (n : Nat) (b : UInt8) : UInt8 :=
  if loop.countsDown then b - UInt8.ofNat n else b + UInt8.ofNat n

theorem countedBy_zero (loop : PollingLoop) (b : UInt8) : countedBy loop 0 b = b := by
  unfold countedBy
  split
  · exact UInt8.sub_zero b
  · exact UInt8.add_zero b

theorem counted_countedBy (loop : PollingLoop) (n : Nat) (b : UInt8) :
    loop.counted (countedBy loop n b) = countedBy loop (n + 1) b := by
  unfold PollingLoop.counted countedBy
  rw [UInt8.ofNat_add]
  split <;> grind

theorem afterIterations_zero (loop : PollingLoop) (c : Cpu) : afterIterations loop 0 c = c := by
  refine Move.eq_of_rest rfl rfl ?_ ?_ rfl rfl rfl ?_
  · show c.bc.withHigh (countedBy loop 0 c.bc.high) = c.bc
    rw [countedBy_zero, UInt16.withHigh_high]
  · show refreshed c.r (0 * loop.refreshes) = c.r
    rw [Nat.zero_mul, refreshed_zero]
  · show c.clock + UInt64.ofNat (0 * loop.loopTime) = c.clock
    rw [Nat.zero_mul]
    exact UInt64.add_zero c.clock

theorem mapCpu_afterIterations_zero (loop : PollingLoop) (s : Scene) :
    s.mapCpu (afterIterations loop 0) = s := by
  unfold mapCpu Machine.mapCpu
  rw [afterIterations_zero]

theorem afterIterations_succ (loop : PollingLoop) (n : Nat) (c : Cpu) :
    afterIterations loop 1 (afterIterations loop n c) = afterIterations loop (n + 1) c := by
  have hrest : ∀ n c, Move.rest (afterIterations loop n c) = Move.rest c := fun _ _ => rfl
  refine Move.eq_of_rest (by rw [hrest, hrest, hrest]) (show c.af = c.af from rfl) ?_ ?_
    (show c.pc = c.pc from rfl) (show c.wz = c.wz from rfl) (show c.blocked = c.blocked from rfl) ?_
  · show (c.bc.withHigh (countedBy loop n c.bc.high)).withHigh
        (loop.counted (c.bc.withHigh (countedBy loop n c.bc.high)).high) =
      c.bc.withHigh (countedBy loop (n + 1) c.bc.high)
    rw [UInt16.high_withHigh, UInt16.withHigh_withHigh, counted_countedBy]
  · show refreshed (refreshed c.r (n * loop.refreshes)) (1 * loop.refreshes) =
      refreshed c.r ((n + 1) * loop.refreshes)
    rw [refreshed_refreshed, Nat.add_mul]
  · show c.clock + UInt64.ofNat (n * loop.loopTime) + UInt64.ofNat (1 * loop.loopTime) =
      c.clock + UInt64.ofNat ((n + 1) * loop.loopTime)
    rw [UInt64.add_assoc, ← UInt64.ofNat_add, Nat.add_mul]

theorem countedBy_ne_zero {loop : PollingLoop} {n : Nat} {b : UInt8}
    (h : n < if loop.countsDown then (b - 1).toNat else (0xFF - b).toNat) :
    countedBy loop (n + 1) b ≠ 0 := by
  intro h0
  have hn : n < 256 := by
    split at h <;> exact Nat.lt_trans h (UInt8.toNat_lt _)
  have hnat : (UInt8.ofNat n).toNat = n := by
    rw [UInt8.toNat_ofNat']
    omega
  unfold countedBy at h0
  rw [UInt8.ofNat_add] at h0
  split at h
  · rename_i hdown
    rw [if_pos hdown] at h0
    have hb : b - 1 = UInt8.ofNat n := by
      grind
    rw [hb] at h
    omega
  · rename_i hup
    rw [if_neg hup] at h0
    have hb : 0xFF - b = UInt8.ofNat n := by
      grind
    rw [hb] at h
    omega

/-- As many steps as it takes to cover a distance, less one, do not cover it. -/
theorem mul_lt_of_lt_div {d m n : Nat} (h : n < (d + m - 1) / m) : n * m < d := by
  rcases Nat.eq_zero_or_pos m with rfl | hm
  · rw [Nat.div_zero] at h
    exact absurd h (Nat.not_lt_zero n)
  · have hle := (Nat.le_div_iff_mul_le hm).mp h
    rw [Nat.succ_mul] at hle
    omega

/-- What an idle iteration needs: the tape is as awaited when it is sampled, the counter does not
come to zero, and the sample lies before the next edge. -/
theorem of_lt_idleIterations {session : Session} {origin : UInt64} {loop : PollingLoop} {c : Cpu}
    {n : Nat} (h : n < idleIterations session origin loop c) :
    let time := Clock.since origin (c.clock + UInt64.ofNat loop.inTime)
    let index := session.signal.edgesUntil time
    ¬ c.clock + UInt64.ofNat loop.inTime < origin ∧
      Signal.levelAfter index = (c.bc.low &&& loop.earMask != 0) ∧
      countedBy loop (n + 1) c.bc.high ≠ 0 ∧
      (index < session.signal.edges.size →
        time + n * loop.loopTime < session.signal.edges.getD index 0) := by
  unfold idleIterations at h
  unfold Clock.since
  dsimp only at h ⊢
  split at h
  · exact absurd h (Nat.not_lt_zero n)
  · rename_i hsample
    split at h
    · exact absurd h (Nat.not_lt_zero n)
    · rename_i hlevel
      refine ⟨hsample, by simpa using hlevel, ?_, fun hindex => ?_⟩
      · refine countedBy_ne_zero (Nat.lt_of_lt_of_le h ?_)
        split
        · exact Nat.le_refl _
        · exact Nat.min_le_left _ _
      · rw [Array.getElem?_eq_getElem hindex] at h
        have hmul := mul_lt_of_lt_div (Nat.lt_of_lt_of_le h (Nat.min_le_right _ _))
        rw [Array.getD_eq_getD_getElem?, Array.getElem?_eq_getElem hindex, Option.getD_some]
        omega

/-! ### Executing what is skipped -/

/-- An iteration of a loop at an address is executed from a scene on, instruction by instruction,
and leads back to the address. -/
structure Passes (loop : PollingLoop) (address : UInt16) (s : Scene) : Prop where
  pc : ∀ i offset, loop.route[i]? = some offset →
    (s.executed i).machine.cpu.pc = address + offset
  back : (s.executed loop.route.length).machine.cpu.pc = address

/-- A scene is one after some idle iterations from another, with a number of edges in the past since
the first of their samples. -/
structure Idled (loop : PollingLoop) (index : Nat) (s : Scene) (n : Nat) (t : Scene) : Prop where
  machine : t.machine = s.machine.mapCpu (afterIterations loop n)
  signal : t.session.signal = s.session.signal
  origin : t.session.origin = s.session.origin
  keyboard : t.session.keyboard = s.session.keyboard
  index_le : t.session.index ≤ index
  index_eq : 0 < n → t.session.index = index

theorem Settled.afterIterations {loop : PollingLoop} {address : UInt16} {awaited : Bool} {c : Cpu}
    (h : Settled loop address awaited c) (hr : loop.Regular awaited) (n : Nat) :
    Settled loop address awaited (afterIterations loop n c) where
  af := h.af
  pc := h.pc
  wz := h.wz
  blocked := h.blocked
  r := fun byte hb => by
    have hrefreshes := hr.refreshes
    rw [if_neg (by rw [hb]; exact Option.some_ne_none byte)] at hrefreshes
    show refreshed c.r (n * loop.refreshes) = _
    rw [hrefreshes, Nat.mul_zero, refreshed_zero]
    exact h.r byte hb

section

variable {loop : PollingLoop} {address : UInt16} {s t : Scene} {origin : UInt64} {n : Nat}

/-- The number of edges in the past when the next iteration samples the tape. -/
def sampledIndex (loop : PollingLoop) (origin : UInt64) (s : Scene) : Nat :=
  s.session.signal.edgesUntil (Clock.since origin (s.clock + UInt64.ofNat loop.inTime))

/-- On time, the sample has no fewer edges in the past than there are now. -/
theorem Paced.index_le_sampledIndex (h : s.Paced) (horigin : s.session.origin = some origin)
    (hsorted : s.session.signal.Sorted)
    (hsince : Clock.since origin (s.clock + UInt64.ofNat loop.inTime) =
      Clock.since origin s.clock + loop.inTime) :
    s.session.index ≤ sampledIndex loop origin s := by
  unfold sampledIndex
  rw [hsince]
  exact Nat.le_trans (h.upTo origin horigin)
    (Signal.edgesUntil_mono hsorted (Nat.le_add_right _ _))

/-- The sample after some idle iterations has the same edges in the past as the first. -/
theorem Idled.indexAt (h : Idled loop (sampledIndex loop origin s) s n t)
    (horigin : s.session.origin = some origin) (hsorted : s.session.signal.Sorted)
    (hn : n < idleIterations s.session origin loop s.machine.cpu)
    (hroom : Clock.since origin (s.clock + UInt64.ofNat loop.inTime) + n * loop.loopTime < 2 ^ 64) :
    t.session.indexAt (t.clock + UInt64.ofNat loop.inTime) = sampledIndex loop origin s := by
  obtain ⟨hsample, -, -, hedge⟩ := of_lt_idleIterations hn
  have hclock : t.clock + UInt64.ofNat loop.inTime =
      s.clock + UInt64.ofNat loop.inTime + UInt64.ofNat (n * loop.loopTime) := by
    have ht : t.clock = s.clock + UInt64.ofNat (n * loop.loopTime) :=
      congrArg (·.cpu.clock) h.machine
    rw [ht]
    grind
  have hsame : s.session.signal.edgesUntil
      (Clock.since origin (t.clock + UInt64.ofNat loop.inTime)) = sampledIndex loop origin s := by
    rw [hclock, Clock.since_add hroom]
    exact Signal.edgesUntil_eq hsorted (Nat.le_add_right _ _) hedge
  unfold Session.indexAt
  rw [h.origin, horigin]
  dsimp only
  split
  · rename_i hlt
    have hpos : 0 < n := by
      by_contra h0
      obtain rfl : n = 0 := by omega
      have hlt' : s.clock + UInt64.ofNat loop.inTime < origin := by
        rw [hclock, Nat.zero_mul] at hlt
        simpa using hlt
      exact hsample hlt'
    exact h.index_eq hpos
  · have hsame' : t.session.signal.edgesUntil
        (t.clock + UInt64.ofNat loop.inTime - origin).toNat = sampledIndex loop origin s := by
      rw [h.signal]
      exact hsame
    rw [hsame']
    exact Nat.max_eq_right h.index_le

/-- While iterations are left to be skipped, the next one is idle. -/
theorem Idled.idle (h : Idled loop (sampledIndex loop origin s) s n t) (hl : loop ∈ catalogue)
    (hreleased : s.session.keyboard.held = []) (horigin : s.session.origin = some origin)
    (hindex : t.session.indexAt (t.clock + UInt64.ofNat loop.inTime) = sampledIndex loop origin s)
    (hn : n < idleIterations s.session origin loop s.machine.cpu) :
    Idle loop (s.machine.cpu.bc.low &&& loop.earMask != 0) t := by
  obtain ⟨-, hlevel, hcount, -⟩ := of_lt_idleIterations hn
  have hr := PollingLoop.regular_of_mem hl true
  have hcpu : t.machine.cpu = afterIterations loop n s.machine.cpu := congrArg Machine.cpu h.machine
  have hrunning : t.session.origin.isSome = true := by
    rw [h.origin, horigin]
    rfl
  constructor
  case released => rw [h.keyboard, hreleased]
  case waits =>
    rw [hcpu]
    exact (congrArg (· &&& loop.earMask) (UInt16.low_withHigh _ _)).trans (hr.and_earMask _)
  case level =>
    show (t.session.origin.isSome && Signal.levelAfter (t.session.indexAt _)) = _
    rw [hrunning, Bool.true_and, hindex]
    exact hlevel
  case counts =>
    rw [hcpu]
    show loop.counted (UInt16.withHigh _ (countedBy loop n s.machine.cpu.bc.high)).high ≠ 0
    rw [UInt16.high_withHigh, counted_countedBy]
    exact hcount

theorem Idled.succ {index : Nat} {u : Scene} (h : Idled loop index s n t)
    (hmachine : u.machine = t.machine.mapCpu (afterIterations loop 1))
    (hsampled : t.session.Sampled (t.clock + UInt64.ofNat loop.inTime) u.session)
    (hindex : t.session.indexAt (t.clock + UInt64.ofNat loop.inTime) = index) :
    Idled loop index s (n + 1) u where
  machine := by
    rw [hmachine, h.machine]
    exact congrArg (fun c => { s.machine with cpu := c })
      (afterIterations_succ loop n s.machine.cpu)
  signal := hsampled.signal.trans h.signal
  origin := hsampled.origin.trans h.origin
  keyboard := hsampled.keyboard.trans h.keyboard
  index_le := by rw [hsampled.index, hindex]
  index_eq := fun _ => hsampled.index.trans hindex

/-- Idle iterations are executed one after the other, each to its end. -/
theorem executed_idle (hl : loop ∈ catalogue)
    (hset : Settled loop address (s.machine.cpu.bc.low &&& loop.earMask != 0) s.machine.cpu)
    (hat : loop.StandsAt s.machine address) (hreleased : s.session.keyboard.held = [])
    (horigin : s.session.origin = some origin) (hsorted : s.session.signal.Sorted)
    (hindex : s.session.index ≤ sampledIndex loop origin s)
    (hn : n ≤ idleIterations s.session origin loop s.machine.cpu)
    (hroom : Clock.since origin (s.clock + UInt64.ofNat loop.inTime) + n * loop.loopTime < 2 ^ 64) :
    (∀ j < n, Passes loop address (s.executed (j * loop.route.length))) ∧
      Idled loop (sampledIndex loop origin s) s n (s.executed (n * loop.route.length)) := by
  induction n with
  | zero =>
    refine ⟨fun j hj => absurd hj (Nat.not_lt_zero j), ?_⟩
    rw [Nat.zero_mul]
    refine ⟨?_, rfl, rfl, rfl, hindex, fun h => absurd h (Nat.lt_irrefl 0)⟩
    exact (congrArg Scene.machine (mapCpu_afterIterations_zero loop s)).symm
  | succ n ih =>
    have hmul : (n + 1) * loop.loopTime = n * loop.loopTime + loop.loopTime := Nat.succ_mul _ _
    obtain ⟨hpasses, hidled⟩ := ih (by omega) (by omega)
    let t := s.executed (n * loop.route.length)
    let awaited := s.machine.cpu.bc.low &&& loop.earMask != 0
    have hr := PollingLoop.regular_of_mem hl awaited
    have hindexAt := hidled.indexAt horigin hsorted (by omega) (by omega)
    have hidle := hidled.idle hl hreleased horigin hindexAt (by omega)
    have hat' : loop.StandsAt t.machine address := hat.congr (by rw [hidled.machine]; rfl)
    have hset' : Settled loop address awaited t.machine.cpu := by
      rw [hidled.machine]
      exact hset.afterIterations hr n
    obtain ⟨hpc, hmachine, hsampled⟩ := hset'.idle hr hat' hidle
    have hnext : s.executed ((n + 1) * loop.route.length) = t.executed loop.route.length := by
      rw [Nat.succ_mul, executed_add]
    refine ⟨fun j hj => ?_, ?_⟩
    · rcases Nat.lt_succ_iff_lt_or_eq.mp hj with hj | rfl
      · exact hpasses j hj
      · refine ⟨hpc, ?_⟩
        rw [hmachine]
        exact hset'.pc
    · rw [hnext]
      exact hidled.succ hmachine hsampled hindexAt

end

/-! ### What a step skips -/

theorem inTime_le {loop : PollingLoop} (h : loop ∈ catalogue) : loop.inTime ≤ 65 := by
  revert loop
  decide +kernel

theorem reachable_after {signal : Signal} {config : Config} {s : Scene}
    (h : Reachable signal config s) {n : Nat} (hok : ∀ i < n, (s.after i).step.1.2 = .ok false) :
    Reachable signal config (s.after n) := by
  obtain ⟨machine, session, hc, hl⟩ := h
  exact ⟨machine, session, hc, hl.trans (leads_after hok)⟩

/-- When an iteration of a loop has been completed, the iterations that are skipped are just those
that would have been executed: each of them to its end, with the same machine after the last. -/
theorem Completes.executed_skipped {blocks : List Block} {signal : Signal} {config : Config}
    {loop : PollingLoop} {address : UInt16} {s : Scene}
    (hs : Signal.ofBlocks blocks = .ok signal) (hroom : FitsClock signal config)
    (hreach : Reachable signal config s) (hl : loop ∈ catalogue)
    (hat : loop.StandsAt s.machine address) (h : Completes loop address s) :
    let t := (s.after (loop.route.length - 1)).execute
    t.1.session.foundAt? address = some loop →
      ∃ n, t.1.skipIterations t.2 = t.1.mapCpu (afterIterations loop n) ∧
        (∀ j < n, Passes loop address (t.1.executed (j * loop.route.length))) ∧
        (t.1.skipIterations t.2).machine = (t.1.executed (n * loop.route.length)).machine := by
  intro u hfound
  let t := s.after (loop.route.length - 1)
  change t.execute.1.session.foundAt? address = some loop at hfound
  have hr : ∀ awaited, loop.Regular awaited := PollingLoop.regular_of_mem hl
  obtain ⟨hset, hmem⟩ := h.settled hr hat
  have ht : Reachable signal config t := reachable_after hreach fun i hi => h.continues i hi
  have hpc : t.execute.1.machine.cpu.pc = address := h.back
  rcases t.execute.1.skipIterations_cases t.execute.2 with
    he | ⟨origin, loop', horigin, -, hf, -, -, -, he⟩
  · refine ⟨0, ?_, fun j hj => absurd hj (Nat.not_lt_zero j), ?_⟩
    · rw [mapCpu_afterIterations_zero]
      exact he
    · rw [Nat.zero_mul]
      exact congrArg Scene.machine he
  · obtain rfl : loop' = loop := by
      rw [hpc, hfound] at hf
      exact (Option.some.inj hf).symm
    have hroom' : signal.length + config.timeout.toNat + 2 ^ 15 ≤ 2 ^ 64 := hroom
    have hsignal : t.session.signal = signal := ht.fixed.1
    have hsignal' : t.execute.1.session.signal = signal := t.later_execute.signal.trans hsignal
    have hsorted := (Signal.plays_of_ofBlocks hs).sorted
    obtain ⟨hpaced, hage⟩ := ht.paced hs hroom
    obtain ⟨hpaced', hage'⟩ := hpaced.execute (by rw [hsignal]; exact hsorted)
      (by rw [hsignal]; omega)
    have hin := inTime_le hl
    have helapsed := hpaced'.elapsed origin horigin
    rw [hsignal'] at helapsed
    have hsince : Clock.since origin (t.execute.1.clock + UInt64.ofNat loop'.inTime) =
        Clock.since origin t.execute.1.clock + loop'.inTime := Clock.since_add (by omega)
    have hsorted' : t.execute.1.session.signal.Sorted := by
      rw [hsignal']
      exact hsorted
    have hindex := hpaced'.index_le_sampledIndex horigin hsorted' hsince
    have hreleased : t.execute.1.session.keyboard.held = [] := by
      rw [t.keyboard_execute]
      exact h.released
    have hbound := idleIterations_mul_le t.execute.1.session origin t.execute.1.machine.cpu
      (loopTime_le hl)
    have hat' : loop'.StandsAt t.execute.1.machine address := hat.congr hmem
    obtain ⟨hpasses, hidled⟩ := executed_idle (s := t.execute.1) hl hset hat' hreleased horigin
      hsorted' hindex (Nat.le_refl _) (by omega)
    refine ⟨_, he, hpasses, ?_⟩
    exact (congrArg Scene.machine he).trans hidled.machine.symm

/-! ### A tape that is waited for -/

/-- A machine in a loop that waits for the end of the low level. -/
def waitingMachine : Machine where
  cpu := { Cpu.powerOn with bc := 0, pc := 0x8000 }
  memory := Memory.blank.writeAll 0x8000 [0x04, 0xC8, 0xDB, 0xFE, 0xA9, 0xE6, 0x40, 0x28, 0xF7]

/-- That machine with the tape about to play. -/
def waitingScene : Scene where
  machine := waitingMachine
  session :=
    { signal := twoPulses, config := {}, loops := catalogue, runStart := 0, origin := some 0 }

theorem ofBlocks_twoPulses :
    Signal.ofBlocks [{ kind := .pulses, pulses := [30000, 30000] }] = .ok twoPulses := by
  rfl

theorem reachable_waitingScene : Reachable twoPulses {} waitingScene :=
  ⟨waitingMachine, _, create_default twoPulses 0, (Leads.refl _).start⟩

/-- The loop of that machine. -/
def waitingLoop : PollingLoop := catalogue.getD 36 default

theorem completes_waitingScene : Completes waitingLoop 0x8000 waitingScene where
  pc := by
    have h : ∀ i < waitingLoop.route.length, (waitingScene.after i).machine.cpu.pc =
        0x8000 + waitingLoop.route.getD i 0 := by decide +kernel
    intro i offset hi
    rw [h i (List.getElem?_eq_some_iff.mp hi).1, List.getD_eq_getElem?_getD, hi]
    rfl
  machine := by
    have h : ∀ i < waitingLoop.route.length - 1,
        ((waitingScene.after i).execute.1.session.foundAt?
            (waitingScene.after i).execute.1.machine.cpu.pc).isNone = true ∧
          (waitingScene.after i).execute.1.traps = false ∧
          (waitingScene.after i).execute.1.machine.cpu.iff1 = false := by
      decide +kernel
    intro i hi
    obtain ⟨hf, ht, hi⟩ := h i hi
    exact machine_step_of_quiet (Option.isNone_iff_eq_none.mp hf) ht hi
  continues := by decide +kernel
  released := by decide +kernel
  unkeyed := by decide +kernel
  back := by decide +kernel

/-- There iterations are skipped, and would have been executed. -/
theorem executed_skipped_waitingScene :
    Signal.ofBlocks [{ kind := .pulses, pulses := [30000, 30000] }] = .ok twoPulses ∧
      FitsClock twoPulses {} ∧ Reachable twoPulses {} waitingScene ∧ waitingLoop ∈ catalogue ∧
      waitingLoop.StandsAt waitingScene.machine 0x8000 ∧
      Completes waitingLoop 0x8000 waitingScene ∧
      let t := (waitingScene.after (waitingLoop.route.length - 1)).execute
      t.1.session.foundAt? 0x8000 = some waitingLoop ∧ ∃ n, 0 < n ∧
        t.1.skipIterations t.2 = t.1.mapCpu (afterIterations waitingLoop n) ∧
        (t.1.skipIterations t.2).machine =
          (t.1.executed (n * waitingLoop.route.length)).machine := by
  have hroom : FitsClock twoPulses {} := by
    unfold FitsClock
    decide +kernel
  have hl : waitingLoop ∈ catalogue := by decide +kernel
  have hat : waitingLoop.StandsAt waitingScene.machine 0x8000 := by
    refine ⟨by decide +kernel, ?_⟩
    decide +kernel
  have hfound : (waitingScene.after (waitingLoop.route.length - 1)).execute.1.session.foundAt?
      0x8000 = some waitingLoop := by
    decide +kernel
  obtain ⟨n, hskip, -, hmachine⟩ := completes_waitingScene.executed_skipped ofBlocks_twoPulses hroom
    reachable_waitingScene hl hat hfound
  refine ⟨ofBlocks_twoPulses, hroom, reachable_waitingScene, hl, hat, completes_waitingScene,
    hfound, n, Nat.pos_of_ne_zero fun h0 => ?_, hskip, hmachine⟩
  -- without skipped iterations the clock would stand still
  rw [h0, mapCpu_afterIterations_zero] at hskip
  have hclock := congrArg (·.machine.cpu.clock) hskip
  revert hclock
  decide +kernel

end Scene
end Spectrum.Loader
