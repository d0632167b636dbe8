import Mathlib.Data.UInt
import Mathlib.Tactic.Common
import Spectrum.Proofs.Loader.FoundLoops
import Spectrum.Proofs.Z80.Cost

/-! # The time of the tape

The clock has 64 bits and may start anywhere, so times are compared by their distance from the start
of the run or of the tape.  As long as the tape and the time of a run fit into the clock, the tape
is never ahead of its time: no more of its edges are in the past than lie between its start and now.
`Scene.Paced` is the invariant, which every part of a step keeps.

Main statements: `Scene.Paced.advance`, `Scene.Paced.step`, `Scene.Reachable.paced`. -/

namespace Spectrum

/-! ### Distances between times -/

/-- The T-states from one time to another, if the later one is ahead by less than a full turn of the
clock. -/
def Clock.since (start time : UInt64) : Nat := (time - start).toNat

namespace Clock

@[simp] theorem since_self (time : UInt64) : since time time = 0 := by
  unfold since
  rw [UInt64.sub_self]
  rfl

/-- A time that is a little later is farther away, unless the clock makes a full turn. -/
theorem since_add {start time : UInt64} {n : Nat} (h : since start time + n < 2 ^ 64) :
    since start (time + UInt64.ofNat n) = since start time + n := by
  unfold since at h ⊢
  have he : time + UInt64.ofNat n - start = (time - start) + UInt64.ofNat n := by
    grind
  rw [he, UInt64.toNat_add, UInt64.toNat_ofNat']
  omega

end Clock

namespace Loader

open Z80 Tape

/-! ### Edges in the past -/

namespace Session

/-- No more edges are in the past than there are up to a time. -/
def UpTo (s : Session) (time : UInt64) : Prop :=
  ∀ origin, s.origin = some origin → s.index ≤ s.signal.edgesUntil (Clock.since origin time)

theorem upTo_advanceTape {s : Session} {time : UInt64} (h : s.UpTo time) :
    (s.advanceTape time).UpTo time := by
  intro origin ho
  have hs := h origin ho
  show s.indexAt time ≤ _
  unfold indexAt
  rw [show s.origin = some origin from ho]
  dsimp only
  split
  · exact hs
  · exact Nat.max_le.mpr ⟨hs, Nat.le_refl _⟩

theorem UpTo.notes {s t : Session} {time : UInt64} (h : s.UpTo time) (hn : s.Notes time t) :
    t.UpTo time := by
  obtain ⟨index, _, _, _, _, hi, rfl⟩ := hn
  rcases hi with rfl | rfl
  · exact h
  · exact upTo_advanceTape h

end Session

namespace Scene

/-- The T-states since the start of the run. -/
def age (s : Scene) : Nat := Clock.since s.session.runStart s.clock

/-- The tape is not ahead of its time, and has not played for longer than it and the run last. -/
structure Paced (s : Scene) : Prop where
  elapsed : ∀ origin, s.session.origin = some origin →
    Clock.since origin s.clock ≤ s.session.signal.length + s.age
  upTo : s.session.UpTo s.clock

section

variable {s t : Scene} {n : Nat}

/-- Time goes on while the tape stays. -/
theorem Paced.advance (h : s.Paced) (hsorted : s.session.signal.Sorted)
    (hsignal : t.session.signal = s.session.signal)
    (hstart : t.session.runStart = s.session.runStart)
    (horigin : t.session.origin = s.session.origin) (hindex : t.session.index = s.session.index)
    (hclock : t.clock = s.clock + UInt64.ofNat n)
    (hroom : s.session.signal.length + s.age + n < 2 ^ 64) :
    t.Paced ∧ t.age = s.age + n := by
  have hage : t.age = s.age + n := by
    unfold age
    rw [hstart, hclock]
    exact Clock.since_add (by unfold age at hroom; omega)
  have hsince : ∀ origin, s.session.origin = some origin →
      Clock.since origin t.clock = Clock.since origin s.clock + n := by
    intro origin ho
    have := h.elapsed origin ho
    rw [hclock]
    exact Clock.since_add (by omega)
  refine ⟨⟨fun origin ho => ?_, fun origin ho => ?_⟩, hage⟩
  · rw [horigin] at ho
    have := h.elapsed origin ho
    rw [hsince origin ho, hsignal, hage]
    omega
  · rw [horigin] at ho
    rw [hsince origin ho, hsignal, hindex]
    exact Nat.le_trans (h.upTo origin ho)
      (Signal.edgesUntil_mono hsorted (Nat.le_add_right _ n))

/-- Only the tape changes. -/
theorem Paced.congr (h : s.Paced) (hclock : t.clock = s.clock)
    (hsignal : t.session.signal = s.session.signal)
    (hstart : t.session.runStart = s.session.runStart)
    (horigin : t.session.origin = s.session.origin) (hup : t.session.UpTo s.clock) : t.Paced where
  elapsed := by
    unfold age
    rw [hclock, hsignal, hstart, horigin]
    exact h.elapsed
  upTo := by
    rw [hclock]
    exact hup

/-! ### Parts of a step -/

theorem Paced.execute (h : s.Paced) (hsorted : s.session.signal.Sorted)
    (hroom : s.session.signal.length + s.age + 32 < 2 ^ 64) :
    s.execute.1.Paced ∧ s.execute.1.age ≤ s.age + 32 := by
  obtain ⟨hcost, hclock⟩ := s.machine.clock_step (s.session.answer s.clock)
  have hl := s.later_execute
  let noted : Scene := { s with session := s.execute.1.session }
  have hnoted : noted.Paced :=
    h.congr rfl hl.signal hl.runStart s.origin_execute (h.upTo.notes s.notes_execute)
  have hage : noted.age = s.age := congrArg (Clock.since · s.clock) hl.runStart
  have hsignal : noted.session.signal = s.session.signal := hl.signal
  obtain ⟨hp, ha⟩ := hnoted.advance (t := s.execute.1) (by rw [hsignal]; exact hsorted) rfl rfl rfl
    rfl hclock (by rw [hsignal, hage]; omega)
  exact ⟨hp, by omega⟩

/-- No more iterations are idle than the counter has values. -/
theorem idleIterations_lt (session : Session) (origin : UInt64) (loop : PollingLoop) (c : Cpu) :
    idleIterations session origin loop c < 256 := by
  have hwrap : (if loop.countsDown then (c.bc.high - 1).toNat else (0xFF - c.bc.high).toNat) <
      256 := by
    split <;> exact UInt8.toNat_lt _
  unfold idleIterations
  dsimp only
  split
  · omega
  · split
    · omega
    · split <;> omega

theorem idleIterations_mul_le (session : Session) (origin : UInt64) {loop : PollingLoop} (c : Cpu)
    (h : loop.loopTime ≤ 65) :
    idleIterations session origin loop c * loop.loopTime ≤ 16575 := by
  have hn := idleIterations_lt session origin loop c
  exact Nat.mul_le_mul (show _ ≤ 255 by omega) h

theorem Paced.skipIterations (h : s.Paced) (hsorted : s.session.signal.Sorted) (e : Executed)
    (htime : ∀ address loop, s.session.foundAt? address = some loop → loop.loopTime ≤ 65)
    (hroom : s.session.signal.length + s.age + 16575 < 2 ^ 64) :
    (s.skipIterations e).Paced ∧ (s.skipIterations e).age ≤ s.age + 16575 := by
  rcases s.skipIterations_cases e with he | ⟨origin, loop, -, -, hf, -, -, -, he⟩
  · rw [he]
    exact ⟨h, by omega⟩
  · have hbound := idleIterations_mul_le s.session origin s.machine.cpu (htime _ _ hf)
    rw [he]
    obtain ⟨hp, ha⟩ := h.advance (t := s.mapCpu (afterIterations loop
      (idleIterations s.session origin loop s.machine.cpu))) hsorted rfl rfl rfl rfl rfl (by omega)
    exact ⟨hp, by omega⟩

theorem Paced.offerInterrupt (h : s.Paced) (hsorted : s.session.signal.Sorted) (frame : UInt64)
    (hroom : s.session.signal.length + s.age + 19 < 2 ^ 64) :
    (s.offerInterrupt frame).Paced ∧ (s.offerInterrupt frame).age ≤ s.age + 19 := by
  rcases s.offerInterrupt_cases frame with hoffer | ⟨a, ha, hoffer⟩
  · rw [hoffer]
    exact ⟨h, by omega⟩
  · obtain ⟨hcost, hclock⟩ := Machine.clock_interrupt ha
    rw [hoffer]
    obtain ⟨hp, hage⟩ := h.advance
      (t := { s with
        machine := a.machine
        session := { s.session with interruptFrame := some frame } })
      hsorted rfl rfl rfl rfl hclock (by omega)
    exact ⟨hp, by omega⟩

theorem Paced.followTape (h : s.Paced) : s.followTape.Paced := by
  have ha : (s.mapSession (·.advanceTape s.clock)).Paced :=
    h.congr rfl rfl rfl rfl (Session.upTo_advanceTape h.upTo)
  unfold Scene.followTape
  dsimp only
  split
  · exact ⟨ha.elapsed, ha.upTo⟩
  · exact ha

/-- A run that goes on is younger than its time is up. -/
theorem age_checkStop (h : s.checkStop.2 = false) :
    s.checkStop.1 = s ∧ s.age < s.session.config.timeout.toNat := by
  unfold Scene.checkStop at h ⊢
  split
  · rename_i hr
    refine ⟨rfl, ?_⟩
    unfold stopReason? at hr
    dsimp only at hr
    split at hr
    · cases hr
    · split at hr
      · cases hr
      · split at hr
        · cases hr
        · rename_i ht
          exact UInt64.lt_iff_toNat_lt.mp (UInt64.not_le.mp ht)
  · rename_i hr
    rw [hr] at h
    cases h

/-- A tape that starts is on time. -/
theorem paced_of_start (horigin : s.session.origin = some s.clock) (hindex : s.session.index = 0) :
    s.Paced where
  elapsed := fun origin ho => by
    obtain rfl := Option.some.inj (horigin.symm.trans ho)
    rw [Clock.since_self]
    exact Nat.zero_le _
  upTo := fun origin ho => by
    rw [hindex]
    exact Nat.zero_le _

theorem Paced.typeKeys (h : s.Paced) (frame : UInt64) :
    (s.typeKeys frame).1.Paced ∧ (s.typeKeys frame).1.age = s.age := by
  obtain ⟨_, _, origin, index, hkeys, hcases⟩ := s.session_typeKeys frame
  have hclock := s.clock_typeKeys frame
  have hage : (s.typeKeys frame).1.age = s.age := by
    unfold age
    rw [hkeys, hclock]
  refine ⟨?_, hage⟩
  rcases hcases with ⟨-, rfl, rfl⟩ | ⟨-, -, rfl, rfl⟩
  · refine h.congr hclock ?_ ?_ ?_ ?_ <;> rw [hkeys]
    exact h.upTo
  · refine paced_of_start ?_ ?_ <;> rw [hkeys]
    rw [hclock]

/-- A tape that is moved to an edge has played for as long as that is from its start. -/
theorem since_moveTapeTo (last : Nat) {origin : UInt64} (ho : s.session.origin = some origin)
    (hroom : s.session.signal.edges.getD last 0 < 2 ^ 64) :
    let edge := s.session.signal.edges.getD last 0
    let moved := s.moveTapeTo (last + 1)
    ∃ start, moved.session = { s.session with index := last + 1, origin := some start } ∧
      Clock.since start moved.clock = edge ∧
      (start = origin ∨
        ¬ s.clock < origin + UInt64.ofNat edge ∧ moved.clock = s.clock ∧
          start = s.clock - UInt64.ofNat edge) := by
  intro edge moved
  have htoNat : (UInt64.ofNat edge).toNat = edge := by
    rw [UInt64.toNat_ofNat']
    exact Nat.mod_eq_of_lt hroom
  rcases s.moveTapeTo_cases last ho with ⟨-, hclock, hsession⟩ | ⟨hnlt, hclock, hsession⟩
  · refine ⟨origin, ?_, ?_, .inl rfl⟩
    · rw [← ho]
      exact hsession
    · have hsince : moved.clock - origin = UInt64.ofNat edge := by
        rw [hclock]
        grind
      rw [Clock.since, hsince, htoNat]
  · refine ⟨_, hsession, ?_, .inr ⟨hnlt, hclock, rfl⟩⟩
    have hsince : moved.clock - (s.clock - UInt64.ofNat edge) = UInt64.ofNat edge := by
      rw [hclock]
      grind
    rw [Clock.since, hsince, htoNat]

/-- A tape that is moved is on time again. -/
theorem Paced.moveTapeTo (h : s.Paced) (hsorted : s.session.signal.Sorted) {index : Nat}
    (hi : index ≤ s.session.signal.edges.size) (hroom : s.session.signal.length < 2 ^ 64) :
    (s.moveTapeTo index).Paced := by
  cases index with
  | zero =>
    exact h.congr (t := s.mapSession fun t => { t with index := 0 }) rfl rfl rfl rfl
      fun _ _ => Nat.zero_le _
  | succ last =>
    have hedge := Signal.getD_le_length hsorted last
    have hindex : last + 1 ≤ s.session.signal.edgesUntil (s.session.signal.edges.getD last 0) :=
      (Signal.lt_edgesUntil hsorted hi).mpr (Nat.le_refl _)
    cases ho : s.session.origin with
    | none =>
      obtain ⟨start, hsession, hnone⟩ := s.session_moveTapeTo (last + 1)
      obtain rfl := hnone.mpr ho
      constructor <;> rw [hsession] <;> exact fun _ => nofun
    | some origin =>
      obtain ⟨start, hsession, hsince, -⟩ := since_moveTapeTo last ho (by omega)
      constructor <;> rw [hsession]
      · rintro _ ⟨⟩
        rw [hsince]
        exact Nat.le_trans hedge (Nat.le_add_right _ _)
      · rintro _ ⟨⟩
        rw [hsince]
        exact hindex

/-- A step that is trapped leaves the tape on time and interrupts disabled. -/
theorem Paced.trapRoutine (h : s.Paced) {blocks : List Block}
    (hp : s.session.signal.Plays blocks) (hroom : s.session.signal.length < 2 ^ 64)
    (ht : s.trapRoutine = (t, none)) : t = s ∨ t.Paced ∧ t.machine.cpu.iff1 = false := by
  unfold Scene.trapRoutine at ht
  split at ht
  · cases hr : s.ahead? with
    | none =>
      rw [loadBlock_of_none hr] at ht
      cases ht
    | some range =>
      obtain ⟨u, hm, hs, hu⟩ := loadBlock_of_some hr
      rw [hu] at ht
      obtain rfl := (Prod.mk.inj ht).1
      have hclock : u.clock = s.clock := (congrArg (·.cpu.clock) hm).trans (clock_placeData _ _)
      have hpaced : u.Paced := by
        refine h.congr hclock ?_ ?_ ?_ ?_ <;> rw [hs]
        · rfl
        · rfl
        · rfl
        · exact Session.upTo_advanceTape h.upTo
      have hsignal : u.session.signal = s.session.signal := by
        rw [hs]
        rfl
      have hstop : range.stop ≤ u.session.signal.edges.size := by
        rw [hsignal, ← Array.length_toList]
        exact hp.wellFormed.within range (mem_of_ahead? hp hr).1
      have hmoved := hpaced.moveTapeTo (by rw [hsignal]; exact hp.sorted) hstop
        (by rw [hsignal]; exact hroom)
      exact .inr ⟨hmoved.congr (clock_leaveRoutine _) rfl rfl rfl hmoved.upTo, rfl⟩
  · exact .inl (Prod.mk.inj ht).1.symm

end

/-! ### Runs -/

/-- A tape, and the time that a run may take, together fit into the clock.  The command line takes
fewer than `2 ^ 32` seconds for a run, and the clock makes a full turn in more than a hundred
thousand years. -/
def FitsClock (signal : Signal) (config : Config) : Prop :=
  signal.length + config.timeout.toNat + 2 ^ 15 ≤ 2 ^ 64

theorem Paced.step {s : Scene} (h : s.Paced) {blocks : List Block}
    (hp : s.session.signal.Plays blocks) (hroom : FitsClock s.session.signal s.session.config)
    (htime : ∀ address loop, s.execute.1.session.foundAt? address = some loop →
      loop.loopTime ≤ 65)
    (hage : s.age ≤ s.session.config.timeout.toNat) (hok : s.step.1.2 = .ok false) :
    s.step.1.1.Paced ∧ s.step.1.1.age ≤ s.step.1.1.session.config.timeout.toNat := by
  have hroom' : s.session.signal.length + s.session.config.timeout.toNat + 2 ^ 15 ≤ 2 ^ 64 := hroom
  have hl := s.later_execute
  obtain ⟨he, hea⟩ := h.execute hp.sorted (by omega)
  obtain ⟨ha, haa⟩ := he.skipIterations (by rw [hl.signal]; exact hp.sorted) s.execute.2 htime
    (by rw [hl.signal]; omega)
  have hsignal : s.atTrap.session.signal = s.session.signal := by
    rw [atTrap, session_skipIterations]
    exact hl.signal
  rcases hr : s.atTrap.trapRoutine with ⟨t, error⟩
  cases error with
  | some error =>
    rw [step_of_trap_error hr] at hok
    cases hok
  | none =>
    have ht := ha.trapRoutine (by rw [← atTrap, hsignal]; exact hp)
      (by rw [← atTrap, hsignal]; omega) hr
    rw [step_of_trap hr] at hok ⊢
    rcases hk : t.typeKeys (Clock.frame t.clock) with ⟨u, error⟩
    rw [hk] at hok
    cases error with
    | some error => cases hok
    | none =>
      dsimp only at hok ⊢
      obtain ⟨hstop, hyoung⟩ := age_checkStop (Except.ok.inj hok)
      rw [hstop]
      refine ⟨?_, Nat.le_of_lt hyoung⟩
      refine Paced.followTape ?_
      have hu : u = (t.typeKeys (Clock.frame t.clock)).1 := by rw [hk]
      rcases ht with ht | ⟨ht, hi⟩
      · have hpaced : t.Paced := ht ▸ ha
        have hta : t.age ≤ s.execute.1.age + 16575 := ht ▸ haa
        have hus : u.session.signal = s.session.signal := by
          obtain ⟨_, _, _, _, hkeys, -⟩ := t.session_typeKeys (Clock.frame t.clock)
          rw [hu, hkeys, ht]
          exact hsignal
        obtain ⟨hup, hua⟩ := hpaced.typeKeys (Clock.frame t.clock)
        rw [← hu] at hup hua
        exact (hup.offerInterrupt (by rw [hus]; exact hp.sorted) _ (by rw [hus]; omega)).1
      · obtain ⟨hup, -⟩ := ht.typeKeys (Clock.frame t.clock)
        have hi' : u.machine.cpu.iff1 = false := by
          rw [hu, machine_typeKeys]
          exact hi
        rw [offerInterrupt_of_disabled hi', hu]
        exact hup

theorem loopTime_le {loop : PollingLoop} (h : loop ∈ catalogue) : loop.loopTime ≤ 65 := by
  revert loop
  decide +kernel

/-- In all scenes of a run the tape is not ahead of its time. -/
theorem Reachable.paced {blocks : List Block} {signal : Signal} {config : Config} {s : Scene}
    (h : Reachable signal config s) (hs : Signal.ofBlocks blocks = .ok signal)
    (hroom : FitsClock signal config) : s.Paced ∧ s.age ≤ config.timeout.toNat := by
  have hp := Signal.plays_of_ofBlocks hs
  refine h.induction (P := fun t => t.Paced ∧ t.age ≤ config.timeout.toNat)
    (fun machine session hc => ?_) (fun t _ ih => ?_) (fun t chords _ ih => ?_)
    fun t ht ih hok => ?_
  · obtain ⟨loops, -, rfl⟩ := Session.create_eq_ok_iff.mp hc
    refine ⟨{ elapsed := fun _ ho => ?_, upTo := fun _ ho => ?_ }, ?_⟩
    · cases ho
    · cases ho
    · exact Nat.le_trans (Nat.le_of_eq (Clock.since_self _)) (Nat.zero_le _)
  · exact ⟨paced_of_start rfl rfl, ih.2⟩
  · exact ⟨⟨ih.1.elapsed, ih.1.upTo⟩, ih.2⟩
  · obtain ⟨hsignal, hconfig, -⟩ := ht.fixed
    obtain ⟨-, hconfig', -⟩ := (ht.step hok).fixed
    have hplays : t.session.signal.Plays blocks := by
      rw [hsignal]
      exact hp
    have hstep := ih.1.step hplays (by rw [hsignal, hconfig]; exact hroom)
      (fun _ _ hf => loopTime_le (ht.mem_catalogue hf)) (by rw [hconfig]; exact ih.2) hok
    rw [hconfig'] at hstep
    exact hstep

end Scene
end Loader
end Spectrum
