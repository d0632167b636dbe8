import Mathlib.Data.Nat.Find
import Mathlib.Tactic.Common
import Spectrum.Loader.Simulation
import Spectrum.Proofs.Loader.Level

/-! # Runs end

A run goes on until a step ends it or fails, and nothing but its clock says that one comes.  Every
instruction takes four T-states or more, and what happens between instructions may move the clock on
but never back: the instruction, the skip and the interrupt add to it, and the tape is only moved to
an edge that is ahead.  So the time of a run is up after a quarter as many instructions as it has
T-states, provided that the clock, which has 64 bits, does not run over before.

Main definitions: `Scene.Ticks`, `Scene.InTime`.
Main statements: `Scene.InTime.ticks`, `Scene.InTime.after`, `Scene.InTime.ends`,
`fastLoad_ends`. -/

namespace Spectrum

theorem Clock.toNat_add {time : UInt64} {n : Nat} (h : time.toNat + n < 2 ^ 64) :
    (time + UInt64.ofNat n).toNat = time.toNat + n := by
  rw [UInt64.toNat_add, UInt64.toNat_ofNat']
  omega

namespace Loader

open Z80 Tape

namespace Scene

variable {s t : Scene} {blocks : List Block}

/-! ### The clock in a step -/

/-- The instruction takes the clock on by four T-states or more, and neither the iterations that are
skipped, nor the loading routine, which moves the tape, nor the interrupt behind it take it back. -/
structure Ticks (s : Scene) : Prop where
  instruction : s.clock.toNat + 4 ≤ s.execute.1.clock.toNat
  skip : s.execute.1.clock ≤ s.atTrap.clock
  trap : s.atTrap.clock ≤ s.atTrap.trapRoutine.1.clock
  interrupt : s.atTrap.trapRoutine.1.clock ≤ s.step.1.1.clock

theorem Ticks.clock_le (h : s.Ticks) : s.clock.toNat + 4 ≤ s.step.1.1.clock.toNat :=
  Nat.le_trans h.instruction (UInt64.le_iff_toNat_le.mp
    (UInt64.le_trans h.skip (UInt64.le_trans h.trap h.interrupt)))

theorem Ticks.forward (h : s.Ticks) : s.Forward :=
  UInt64.le_iff_toNat_le.mpr (Nat.le_trans (Nat.le_add_right _ 4) h.clock_le)

/-- A tape that does not start in the future is moved to an edge ahead, if at all. -/
theorem clock_moveTapeTo (hs : s.session.signal.Sorted) {origin : UInt64}
    (ho : s.session.origin = some origin) (hle : origin ≤ s.clock)
    (hroom : s.clock.toNat + s.session.signal.length < 2 ^ 64) (index : Nat) :
    s.clock ≤ (s.moveTapeTo index).clock ∧
      (s.moveTapeTo index).clock.toNat ≤ s.clock.toNat + s.session.signal.length := by
  cases index with
  | zero => exact ⟨UInt64.le_refl _, Nat.le_add_right _ _⟩
  | succ last =>
    rcases s.moveTapeTo_cases last ho with ⟨hlt, hclock, -⟩ | ⟨-, hclock, -⟩
    · have hedge := Signal.getD_le_length hs last
      rw [UInt64.le_iff_toNat_le] at hle
      rw [hclock]
      refine ⟨UInt64.le_of_lt hlt, ?_⟩
      rw [Clock.toNat_add (by omega)]
      omega
    · rw [hclock]
      exact ⟨UInt64.le_refl _, Nat.le_add_right _ _⟩

/-- The loading routine takes the clock on by no more than the tape is long. -/
theorem clock_trapRoutine (hs : s.session.signal.Sorted)
    (hstarted : ∀ origin, s.session.origin = some origin → origin ≤ s.clock)
    (hroom : s.clock.toNat + s.session.signal.length < 2 ^ 64) :
    s.clock ≤ s.trapRoutine.1.clock ∧
      s.trapRoutine.1.clock.toNat ≤ s.clock.toNat + s.session.signal.length := by
  have hstay : s.clock ≤ s.clock ∧ s.clock.toNat ≤ s.clock.toNat + s.session.signal.length :=
    ⟨UInt64.le_refl _, Nat.le_add_right _ _⟩
  cases htraps : s.traps with
  | false =>
    rw [trapRoutine_of_untrapped htraps]
    exact hstay
  | true =>
    rcases ht : s.trapRoutine with ⟨t, error⟩
    cases error with
    | some e =>
      dsimp only
      rw [(passedOver_of_trap ht).2]
      exact hstay
    | none =>
      obtain ⟨origin, ho⟩ := exists_origin_of_traps htraps
      obtain ⟨range, u, -, hm, hu, rfl⟩ := exists_ahead_of_trap htraps ht
      have hclock : u.clock = s.clock := (congrArg (·.cpu.clock) hm).trans (clock_placeData _ _)
      have hsignal : u.session.signal = s.session.signal := congrArg (·.signal) hu
      have hmove := clock_moveTapeTo (by rw [hsignal]; exact hs)
        ((congrArg (·.origin) hu).trans ho) (by rw [hclock]; exact hstarted origin ho)
        (by rw [hclock, hsignal]; exact hroom) range.stop
      rw [hclock, hsignal] at hmove
      rw [show Scene.clock { u.moveTapeTo range.stop with
        machine := leaveRoutine (u.moveTapeTo range.stop).machine } =
          (u.moveTapeTo range.stop).clock from clock_leaveRoutine _]
      exact hmove

/-! ### Scenes in time -/

/-- The time of the run is not up, but for one that has none; its tape is on time; and the clock has
room for all of the time and the tape. -/
structure InTime (s : Scene) : Prop where
  onTime : s.OnTime
  started : s.session.runStart ≤ s.clock
  young : s.clock.toNat < s.session.runStart.toNat + max 1 s.session.config.timeout.toNat
  room : s.session.runStart.toNat + s.session.config.timeout.toNat + s.session.signal.length <
    2 ^ 63

theorem InTime.ticks (h : s.InTime) (hp : s.session.signal.Plays blocks)
    (htime : ∀ address loop, s.execute.1.session.foundAt? address = some loop →
      loop.loopTime ≤ 65) : s.Ticks := by
  have hyoung := h.young
  have hroom := h.room
  -- What each part adds is known as a number, so that no sum is found to run over.
  obtain ⟨hcost, hclock⟩ := s.machine.clock_step (s.session.answer s.clock)
  have hmin := s.machine.le_cost_step (s.session.answer s.clock)
  generalize (s.machine.step (s.session.answer s.clock)).2.cost = cost at hcost hclock hmin
  have hexecute : s.execute.1.clock.toNat = s.clock.toNat + cost :=
    (congrArg UInt64.toNat hclock).trans (Clock.toNat_add (by unfold clock at hyoung; omega))
  obtain ⟨m, hm, hskip⟩ := clock_skipIterations s.execute.2 htime
  have hatTrap : s.atTrap.clock.toNat = s.execute.1.clock.toNat + m :=
    (congrArg UInt64.toNat hskip).trans (Clock.toNat_add (by omega))
  have hsignal := s.later_atTrap.signal
  have horigin : s.atTrap.session.origin = s.session.origin := by
    rw [atTrap, session_skipIterations, origin_execute]
  obtain ⟨htrap, hlength⟩ := clock_trapRoutine (s := s.atTrap) (hsignal ▸ hp.sorted)
    (fun origin ho => UInt64.le_iff_toNat_le.mpr <| by
      have := UInt64.le_iff_toNat_le.mp (h.onTime.started origin (horigin ▸ ho))
      omega)
    (by rw [hsignal]; omega)
  rw [hsignal] at hlength
  obtain ⟨n, hn, hstep⟩ := s.clock_step
  refine ⟨by omega, UInt64.le_iff_toNat_le.mpr (by omega), htrap, UInt64.le_iff_toNat_le.mpr ?_⟩
  rw [hstep, Clock.toNat_add (by omega)]
  exact Nat.le_add_right _ n

/-- A step that does not end the run leaves it some of its time. -/
theorem age_step (hok : s.step.1.2 = .ok false) :
    s.step.1.1.age < s.step.1.1.session.config.timeout.toNat := by
  have ho := s.outcome_step
  generalize s.step.1 = r at ho hok ⊢
  cases ho with
  | untaken => cases hok
  | untyped => cases hok
  | done =>
    obtain ⟨hstop, hyoung⟩ := age_checkStop (Except.ok.inj hok)
    dsimp only
    rw [hstop]
    exact hyoung

theorem InTime.step (h : s.InTime) (hp : s.session.signal.Plays blocks)
    (htime : ∀ address loop, s.execute.1.session.foundAt? address = some loop →
      loop.loopTime ≤ 65) (hok : s.step.1.2 = .ok false) : s.step.1.1.InTime := by
  have hticks := h.ticks hp htime
  have hsame := s.sameRun_step
  have hroom := h.room
  have hstarted : s.step.1.1.session.runStart ≤ s.step.1.1.clock := by
    rw [hsame.runStart]
    exact UInt64.le_trans h.started hticks.forward
  refine ⟨(h.onTime.step hp (by omega) htime hticks.forward).1, hstarted, ?_, ?_⟩
  · have hage := age_step hok
    unfold age Clock.since at hage
    rw [UInt64.toNat_sub_of_le _ _ hstarted] at hage
    omega
  · rw [hsame.runStart, hsame.config, hsame.signal]
    exact hroom

/-! ### Runs -/

theorem run_succ (s : Scene) (fuel : Nat) :
    s.run (fuel + 1) =
      match s.step.1 with
      | (t, .error e) => (t, .failed e)
      | (t, .ok true) => (t, .stopped)
      | (t, .ok false) => t.run fuel := by
  rfl

theorem run_of_goesOn {n : Nat} (h : ∀ k < n, (s.after k).step.1.2 = .ok false) (fuel : Nat) :
    s.run (n + fuel) = (s.after n).run fuel := by
  induction n generalizing fuel with
  | zero => rw [Nat.zero_add, after]
  | succ n ih =>
    have hn : (s.after n).step.1 = (s.after (n + 1), .ok false) :=
      Prod.ext rfl (h n (Nat.lt_succ_self n))
    rw [Nat.add_assoc, Nat.add_comm 1, ih fun k hk => h k (by omega), run_succ, hn]

theorem run_of_ends (h : s.step.1.2 ≠ .ok false) :
    ∃ ending, ending ≠ .exhausted ∧ ∀ fuel, s.run (fuel + 1) = (s.step.1.1, ending) := by
  simp only [run_succ]
  generalize s.step.1 = r at h ⊢
  match r, h with
  | (t, .error e), _ => exact ⟨.failed e, nofun, fun _ => rfl⟩
  | (t, .ok true), _ => exact ⟨.stopped, nofun, fun _ => rfl⟩
  | (t, .ok false), h => exact absurd rfl h

/-- A run ends with the first step that does not let it go on, if there is one, and is cut short by
less fuel. -/
theorem exists_run_eq (h : ∃ k, (s.after k).step.1.2 ≠ .ok false) :
    ∃ n ending, (∀ k < n, (s.after k).step.1.2 = .ok false) ∧ ending ≠ .exhausted ∧
      ∀ fuel, s.run fuel =
        if fuel < n + 1 then (s.after fuel, .exhausted) else (s.after (n + 1), ending) := by
  classical
  let n := Nat.find h
  have hgo : ∀ k < n, (s.after k).step.1.2 = .ok false := fun k hk =>
    Classical.not_not.mp (Nat.find_min h hk)
  obtain ⟨ending, hne, hend⟩ := run_of_ends (Nat.find_spec h)
  refine ⟨n, ending, hgo, hne, fun fuel => ?_⟩
  split
  · exact run_of_goesOn (fun k hk => hgo k (by omega)) 0
  · obtain ⟨rest, rfl⟩ : ∃ rest, fuel = n + (rest + 1) := ⟨fuel - n - 1, by omega⟩
    rw [run_of_goesOn hgo]
    exact hend rest

section

variable {signal : Signal} {config : Config} {past : List Scene} {n : Nat}

/-- As long as a run goes on it is in time, and its clock counts the instructions. -/
theorem InTime.after (h : s.InTime) (hp : signal.Plays blocks)
    (hc : Course .Any signal config past s)
    (hgo : ∀ k < n, (s.after k).step.1.2 = .ok false) :
    (s.after n).InTime ∧ (s.after n).session.runStart = s.session.runStart ∧
      s.session.runStart.toNat + 4 * n ≤ (s.after n).clock.toNat := by
  induction n with
  | zero => exact ⟨h, rfl, UInt64.le_iff_toNat_le.mp h.started⟩
  | succ n ih =>
    obtain ⟨hn, hstart, hclock⟩ := ih fun k hk => hgo k (by omega)
    have hcourse := hc.after n
    have hplays : (s.after n).session.signal.Plays blocks := hcourse.fixed.1 ▸ hp
    have hticks := (hn.ticks hplays fun _ _ => hcourse.loopTime_le).clock_le
    refine ⟨hn.step hplays (fun _ _ => hcourse.loopTime_le) (hgo n (Nat.lt_succ_self n)), ?_, ?_⟩
    · exact (s.after n).sameRun_step.runStart.trans hstart
    · rw [Scene.after]
      omega

/-- A run that goes on for some instructions has the time for them. -/
theorem InTime.lt_timeout (h : s.InTime) (hp : signal.Plays blocks)
    (hc : Course .Any signal config past s)
    (hgo : ∀ k < n, (s.after k).step.1.2 = .ok false) : 4 * n < max 1 config.timeout.toNat := by
  obtain ⟨hn, hstart, hclock⟩ := h.after hp hc hgo
  have hyoung := hn.young
  rw [hstart, (hc.after n).fixed.2.1] at hyoung
  omega

/-- A run in time ends, and all fuel that does not cut it short leads to the same end. -/
theorem InTime.ends (h : s.InTime) (hp : signal.Plays blocks)
    (hc : Course .Any signal config past s) :
    ∃ n ending, 0 < n ∧ n ≤ max 1 ((config.timeout.toNat + 3) / 4) ∧ ending ≠ .exhausted ∧
      (∀ fuel, s.run fuel =
        if fuel < n then (s.after fuel, .exhausted) else (s.after n, ending)) ∧
      ∀ k < n, (s.after k).Ticks := by
  have hex : ∃ k, (s.after k).step.1.2 ≠ .ok false := by
    by_contra hall
    push Not at hall
    have := h.lt_timeout hp hc (n := config.timeout.toNat + 1) fun k _ => hall k
    omega
  obtain ⟨n, ending, hgo, hne, hrun⟩ := exists_run_eq hex
  have hlt := h.lt_timeout hp hc hgo
  refine ⟨n + 1, ending, Nat.succ_pos n, by omega, hne, hrun, fun k hk => ?_⟩
  have hcourse := hc.after k
  exact (h.after hp hc fun j hj => hgo j (by omega)).1.ticks (hcourse.fixed.1 ▸ hp)
    fun _ _ => hcourse.loopTime_le

end

end Scene

/-! ### Loads -/

/-- A load from a state with the tape playing ends, at the latest when its time is up: it executes
no more instructions than a quarter of its time, rounded up, or one if it has no time.  Its fuel
does not cut it short, and in each of its steps the clock goes on by four T-states or more and is
never taken back. -/
theorem fastLoad_ends {blocks : List Block} {signal : Signal} {config : Config}
    {loops : List PollingLoop} (m : Machine) (registers : Registers) (start : UInt16)
    (hs : Signal.ofBlocks blocks = .ok signal) (hl : config.loops = .ok loops)
    (hroom : registers.clock.toNat + config.timeout.toNat + signal.length < 2 ^ 63) :
    ∃ scene, playingScene signal config m registers = .ok scene ∧
      let s : Scene := { scene with machine := scene.machine.startAt start }
      ∃ n ending, 0 < n ∧ n ≤ max 1 ((config.timeout.toNat + 3) / 4) ∧ ending ≠ .exhausted ∧
        fastLoad signal config m registers start = .ok (s.after n, ending) ∧
        (∀ fuel, s.run fuel =
          if fuel < n then (s.after fuel, .exhausted) else (s.after n, ending)) ∧
        ∀ k < n, (s.after k).Ticks := by
  let session : Session := { signal, config, loops, runStart := registers.clock }
  have hsession : Session.create signal config registers.clock = .ok session :=
    Session.create_eq_ok_iff.mpr ⟨loops, hl, rfl⟩
  let scene : Scene :=
    { machine := m.setRegisters registers, session := session.startTape registers.clock }
  have hscene : playingScene signal config m registers = .ok scene := by
    unfold playingScene
    rw [hsession]
  let s : Scene := { scene with machine := scene.machine.startAt start }
  have hcourse : Course .Any signal config [] s :=
    (Course.create s.machine hsession).handle s.machine rfl (.start _ registers.clock)
  have hintime : s.InTime :=
    { onTime := Scene.onTime_of_origin registers.clock rfl rfl (UInt64.le_refl _) (Nat.zero_le _)
      started := UInt64.le_refl _
      young := show registers.clock.toNat < registers.clock.toNat + max 1 config.timeout.toNat by
        omega
      room := hroom }
  obtain ⟨n, ending, hpos, hle, hne, hrun, hticks⟩ :=
    hintime.ends (Signal.plays_of_ofBlocks hs) hcourse
  refine ⟨scene, hscene, n, ending, hpos, hle, hne, ?_, hrun, hticks⟩
  have hfuel : ¬ Scene.fuelFor config < n := by
    unfold Scene.fuelFor
    omega
  unfold fastLoad
  rw [hscene]
  dsimp only
  rw [Scene.runToEnd, show s.session.config = config from rfl, hrun, if_neg hfuel]

/-- In six T-states a machine with blank memory executes two instructions at most. -/
theorem fastLoad_ends_blank :
    let config : Config := { accelerators := [], timeout := 6 }
    Signal.ofBlocks edgesTape = .ok edgesSignal ∧ config.loops = .ok [] ∧
      ({} : Registers).clock.toNat + config.timeout.toNat + edgesSignal.length < 2 ^ 63 ∧
      ∃ (s : Scene) (n : Nat) (ending : Scene.Ending), 0 < n ∧ n ≤ 2 ∧ ending ≠ .exhausted ∧
        fastLoad edgesSignal config {} {} 0x8000 = .ok (s.after n, ending) ∧
        ∀ k < n, (s.after k).Ticks := by
  intro config
  have hroom : ({} : Registers).clock.toNat + config.timeout.toNat + edgesSignal.length <
      2 ^ 63 := by decide +kernel
  have hbound : max 1 ((config.timeout.toNat + 3) / 4) ≤ 2 := by decide
  obtain ⟨scene, -, n, ending, hpos, hle, hne, hload, -, hticks⟩ :=
    fastLoad_ends {} {} 0x8000 ofBlocks_edgesTape (show config.loops = .ok [] from rfl) hroom
  exact ⟨ofBlocks_edgesTape, rfl, hroom, _, n, ending, hpos, Nat.le_trans hle hbound, hne, hload,
    hticks⟩

end Loader
end Spectrum
