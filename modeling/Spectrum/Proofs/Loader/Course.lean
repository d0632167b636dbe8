import Mathlib.Tactic.Common
import Spectrum.Proofs.Loader.Elapsed
import Spectrum.Proofs.Loader.FoundLoops

/-! # Courses

A course is a run together with the scenes that its instructions started in.  Between instructions
the machine may be changed in any way but for its clock, and the session as `Handling` allows; what
an instruction leads to is followed even if it ends or fails.

The clock has 64 bits.  A step moves it by a few instructions' time, unless the loading routine is
trapped; so a clock that is not behind at the end of a step was never behind in it.

Main definition: `Course`.
Main statements: `Course.exists_prefix`, `Course.fixed`, `Scene.Forward.clock_le`. -/

namespace Spectrum.Loader

open Z80 Tape

/-! ### Runs with their past -/

/-- What a session may be turned into between the instructions of a run. -/
abbrev Handling := Scene → Session → Prop

namespace Handling

/-- The border may be set, the tape be started at any time, and chords be queued. -/
inductive Any : Handling
  | leave (s : Scene) : Any s s.session
  | border (s : Scene) (colour : UInt8) : Any s (s.session.setBorder colour)
  | start (s : Scene) (time : UInt64) : Any s (s.session.startTape time)
  | type (s : Scene) (chords : List (List String)) : Any s (s.session.typeThenStart chords)

/-- The border may be set; the tape may be started once, with the clock as it stands, at once or
after chords have been typed. -/
inductive Once : Handling
  | leave (s : Scene) : Once s s.session
  | border (s : Scene) (colour : UInt8) : Once s (s.session.setBorder colour)
  | start (s : Scene) (ho : s.session.origin = none) (ht : s.session.typing = none) :
      Once s (s.session.startTape s.clock)
  | type (s : Scene) (ho : s.session.origin = none) (chords : List (List String)) :
      Once s (s.session.typeThenStart chords)

theorem Once.any {s : Scene} {t : Session} (h : Once s t) : Any s t := by
  cases h with
  | leave => exact .leave s
  | border _ colour => exact .border s colour
  | start => exact .start s s.clock
  | type _ ho chords => exact .type s chords

/-- Whatever is done, the tape, the choices and what is known of polling loops stay. -/
theorem Any.fixed {s : Scene} {t : Session} (h : Any s t) :
    t.signal = s.session.signal ∧ t.config = s.session.config ∧ t.loops = s.session.loops ∧
      t.found = s.session.found := by
  cases h <;> exact ⟨rfl, rfl, rfl, rfl⟩

end Handling

/-- The scenes of the runs with a signal and a configuration, each with the scenes in which the
instructions before it started. -/
inductive Course (handling : Handling) (signal : Signal) (config : Config) :
    List Scene → Scene → Prop
  | create (machine : Machine) {session : Session}
      (h : Session.create signal config machine.cpu.clock = .ok session) :
      Course handling signal config [] { machine, session }
  | handle {past : List Scene} {s : Scene} (h : Course handling signal config past s)
      (machine : Machine) (hc : machine.cpu.clock = s.clock) {session : Session}
      (hs : handling s session) : Course handling signal config past { s with machine, session }
  | step {past : List Scene} {s : Scene} (h : Course handling signal config past s) :
      Course handling signal config (past ++ [s]) s.step.1.1

section

variable {handling : Handling} {signal : Signal} {config : Config} {past : List Scene} {s u : Scene}

theorem Course.mono {handling' : Handling} (h : Course handling signal config past s)
    (hh : ∀ s t, handling s t → handling' s t) : Course handling' signal config past s := by
  induction h with
  | create machine h => exact .create machine h
  | handle h machine hc hs ih => exact ih.handle machine hc (hh _ _ hs)
  | step h ih => exact ih.step

/-- What came before a scene of the past is the beginning of it. -/
theorem Course.exists_prefix (h : Course handling signal config past s) (hu : u ∈ past) :
    ∃ before, before ++ [u] <+: past ∧ Course handling signal config before u := by
  induction h with
  | create machine h => exact absurd hu List.not_mem_nil
  | handle h machine hc hs ih => exact ih hu
  | @step past s h ih =>
    rcases List.mem_append.mp hu with hu | hu
    · obtain ⟨before, hbefore, hcourse⟩ := ih hu
      exact ⟨before, hbefore.trans (List.prefix_append _ _), hcourse⟩
    · obtain rfl := List.mem_singleton.mp hu
      exact ⟨past, List.prefix_refl _, h⟩

/-- Some steps in a row. -/
theorem Course.after (h : Course handling signal config past s) (n : Nat) :
    Course handling signal config (past ++ (List.range n).map s.after) (s.after n) := by
  induction n with
  | zero =>
    rw [List.range_zero, List.map_nil, List.append_nil]
    exact h
  | succ n ih =>
    rw [List.range_succ, List.map_append, ← List.append_assoc]
    exact ih.step

/-- The tape and the choices stay throughout, and all loops that are found are among those looked
for. -/
theorem Course.fixed (h : Course .Any signal config past s) :
    s.session.signal = signal ∧ s.session.config = config ∧
      config.loops = .ok s.session.loops ∧
      ∀ entry ∈ s.session.found, entry.2 ∈ s.session.loops := by
  induction h with
  | create machine h =>
    obtain ⟨loops, hl, rfl⟩ := Session.create_eq_ok_iff.mp h
    exact ⟨rfl, rfl, hl, fun _ hf => nomatch hf⟩
  | handle h machine hc hs ih =>
    obtain ⟨hsignal, hconfig, hloops, hfound⟩ := hs.fixed
    dsimp only
    rw [hsignal, hconfig, hloops, hfound]
    exact ih
  | @step past s h ih =>
    have hsame := s.sameRun_step
    rw [hsame.signal, hsame.config, hsame.loops, s.found_step]
    refine ⟨ih.1, ih.2.1, ih.2.2.1, fun entry hf => ?_⟩
    rcases Scene.found_execute hf with hf | hf
    · exact ih.2.2.2 entry hf
    · exact hf.mem

theorem Course.loopTime_le (h : Course .Any signal config past s) {address : UInt16}
    {loop : PollingLoop} (hf : s.execute.1.session.foundAt? address = some loop) :
    loop.loopTime ≤ 65 := by
  obtain ⟨-, -, hloops, hfound⟩ := h.fixed
  have hmem : loop ∈ s.session.loops := by
    rcases Scene.found_execute (Session.mem_found_of_foundAt? hf) with hf | hf
    · exact hfound _ hf
    · exact hf.mem
  exact Scene.loopTime_le (mem_catalogue_of_loops hloops loop hmem)

end

namespace Scene

/-! ### The clock of a step -/

/-- The clock does not run over in the step of a scene. -/
def Forward (s : Scene) : Prop := s.clock ≤ s.step.1.1.clock

instance : DecidablePred Forward := fun _ => inferInstanceAs (Decidable (_ ≤ _))

/-- A time that is not behind after two advances is not behind after the first. -/
theorem le_add_of_le_add_add {time : UInt64} {m n : Nat} (hmn : m + n < 2 ^ 64)
    (h : time ≤ time + UInt64.ofNat m + UInt64.ofNat n) :
    time ≤ time + UInt64.ofNat m ∧
      time + UInt64.ofNat m ≤ time + UInt64.ofNat m + UInt64.ofNat n := by
  have ht := time.toNat_lt
  rw [UInt64.le_iff_toNat_le] at h ⊢
  rw [UInt64.le_iff_toNat_le]
  simp only [UInt64.toNat_add, UInt64.toNat_ofNat'] at h ⊢
  omega

theorem clock_skipIterations {s : Scene} (e : Executed)
    (htime : ∀ address loop, s.session.foundAt? address = some loop → loop.loopTime ≤ 65) :
    ∃ n ≤ 16575, (s.skipIterations e).clock = s.clock + UInt64.ofNat n := by
  rcases s.skipIterations_cases e with he | ⟨origin, loop, -, -, hf, -, -, -, he⟩
  · refine ⟨0, Nat.zero_le _, ?_⟩
    rw [he]
    exact (UInt64.add_zero _).symm
  · rw [he]
    exact ⟨_, idleIterations_mul_le s.session origin s.machine.cpu (htime _ _ hf), rfl⟩

variable {s t u : Scene}

theorem clock_atTrap
    (htime : ∀ address loop, s.execute.1.session.foundAt? address = some loop →
      loop.loopTime ≤ 65) :
    ∃ n ≤ 16607, s.atTrap.clock = s.clock + UInt64.ofNat n := by
  obtain ⟨hcost, hclock⟩ := s.machine.clock_step (s.session.answer s.clock)
  obtain ⟨n, hn, hskip⟩ := clock_skipIterations s.execute.2 htime
  refine ⟨(s.machine.step (s.session.answer s.clock)).2.cost + n, by omega, ?_⟩
  rw [atTrap, hskip, UInt64.ofNat_add, ← UInt64.add_assoc]
  exact congrArg (· + UInt64.ofNat n) hclock

theorem clock_offerInterrupt (s : Scene) (frame : UInt64) :
    ∃ n ≤ 19, (s.offerInterrupt frame).clock = s.clock + UInt64.ofNat n := by
  rcases s.offerInterrupt_cases frame with h | ⟨a, ha, h⟩
  · rw [h]
    exact ⟨0, Nat.zero_le _, (UInt64.add_zero _).symm⟩
  · obtain ⟨hcost, hclock⟩ := Machine.clock_interrupt ha
    rw [h]
    exact ⟨_, hcost, hclock⟩

theorem clock_ending (s : Scene) : s.followTape.checkStop.1.clock = s.clock := by
  unfold clock
  rw [machine_checkStop, machine_followTape]

theorem clock_typed {error : Option UnknownKey}
    (h : t.typeKeys (Clock.frame t.clock) = (u, error)) : u.clock = t.clock := by
  have hclock := t.clock_typeKeys (Clock.frame t.clock)
  rw [h] at hclock
  exact hclock

/-- Behind the loading routine only an interrupt moves the clock on. -/
theorem clock_step (s : Scene) :
    ∃ n ≤ 19, s.step.1.1.clock = s.atTrap.trapRoutine.1.clock + UInt64.ofNat n := by
  have ho := s.outcome_step
  generalize s.step.1 = r at ho ⊢
  cases ho with
  | untaken ht =>
    rw [ht]
    exact ⟨0, Nat.zero_le _, (UInt64.add_zero _).symm⟩
  | untyped ht hu =>
    rw [ht]
    exact ⟨0, Nat.zero_le _, (clock_typed hu).trans (UInt64.add_zero _).symm⟩
  | @done t u ht hu =>
    obtain ⟨n, hn, hc⟩ := clock_offerInterrupt u (Clock.frame t.clock)
    refine ⟨n, hn, ?_⟩
    rw [clock_ending, hc, clock_typed hu, ht]

theorem clock_step_of_untrapped (h : s.atTrap.traps = false) :
    ∃ n ≤ 19, s.step.1.1.clock = s.atTrap.clock + UInt64.ofNat n := by
  have hstep := s.clock_step
  rw [trapRoutine_of_untrapped h] at hstep
  exact hstep

/-- A trap that does not fail is that of a block ahead. -/
theorem exists_ahead_of_trap (htraps : s.traps = true) (ht : s.trapRoutine = (t, none)) :
    ∃ (range : DataRange) (u : Scene), s.ahead? = some range ∧
      u.machine = placeData s.machine (s.session.signal.blocks.getD range.block {}).data ∧
      u.session = s.session.advanceTape s.clock ∧
      t = { u.moveTapeTo range.stop with
        machine := leaveRoutine (u.moveTapeTo range.stop).machine } := by
  rw [trapRoutine_of_traps htraps] at ht
  cases hr : s.ahead? with
  | none =>
    rw [loadBlock_of_none hr] at ht
    cases ht
  | some range =>
    obtain ⟨u, hm, hs, hu⟩ := loadBlock_of_some hr
    rw [hu] at ht
    exact ⟨range, u, rfl, hm, hs, (Prod.mk.inj ht).1.symm⟩

/-- A trap leaves interrupts disabled. -/
theorem iff1_of_trap (htraps : s.traps = true) (ht : s.trapRoutine = (t, none)) :
    t.machine.cpu.iff1 = false := by
  obtain ⟨range, u, -, -, -, rfl⟩ := exists_ahead_of_trap htraps ht
  rfl

/-- Behind a trap nothing touches the machine. -/
theorem machine_step_of_trap (htraps : s.atTrap.traps = true)
    (ht : s.atTrap.trapRoutine = (t, none)) : s.step.1.1.machine = t.machine := by
  have hi := iff1_of_trap htraps ht
  have hm := t.machine_typeKeys (Clock.frame t.clock)
  have ho := s.outcome_step
  generalize s.step.1 = r at ho ⊢
  cases ho with
  | untaken ht' =>
    rw [ht] at ht'
    cases ht'
  | untyped ht' hu =>
    rw [ht] at ht'
    cases ht'
    rwa [hu] at hm
  | @done t' u ht' hu =>
    rw [ht] at ht'
    cases ht'
    rw [hu] at hm
    rw [offerInterrupt_of_disabled (by rw [hm]; exact hi), machine_checkStop, machine_followTape]
    exact hm

theorem clock_step_of_trap (htraps : s.atTrap.traps = true)
    (ht : s.atTrap.trapRoutine = (t, none)) : s.step.1.1.clock = t.clock :=
  congrArg (·.cpu.clock) (machine_step_of_trap htraps ht)

/-- If the clock does not run over and nothing is trapped, it does not go back in any part of the
step. -/
theorem Forward.clock_le (h : s.Forward)
    (htime : ∀ address loop, s.execute.1.session.foundAt? address = some loop → loop.loopTime ≤ 65)
    (htraps : s.atTrap.traps = false) :
    s.clock ≤ s.atTrap.clock ∧ s.atTrap.clock ≤ s.step.1.1.clock := by
  obtain ⟨m, hm, ha⟩ := clock_atTrap htime
  obtain ⟨n, hn, hc⟩ := clock_step_of_untrapped htraps
  unfold Forward at h
  rw [hc, ha] at h
  rw [hc, ha]
  exact le_add_of_le_add_add (by omega) h

end Scene
end Spectrum.Loader
