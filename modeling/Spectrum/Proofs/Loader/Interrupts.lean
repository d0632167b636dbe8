import Mathlib.Tactic.Common
import Spectrum.Proofs.Loader.Course
import Spectrum.Proofs.Z80.Kept

/-! # The interrupts of the frames

The interrupt of a frame is raised at its start and offered after every instruction until it has
been accepted or is no longer raised.  The session remembers the frame of the latest interrupt that
was accepted, which in a run whose clock does not run over is never ahead of the clock; so each frame
accepts at most one, and one that an instruction has come to has not accepted any.

Main definitions: `Scene.accepted?`, `Scene.acceptedFrame?`.
Main statements: `Scene.offerInterrupt_eq`, `Scene.of_acceptedFrame?`, `Scene.acceptedFrame?_eq`,
`Course.interrupted`, `Course.interrupt_of_frame`. -/

namespace Spectrum

open Z80 Tape

namespace Clock

theorem frame_mono {a b : UInt64} (h : a ≤ b) : frame a ≤ frame b := by
  rw [UInt64.le_iff_toNat_le] at h ⊢
  unfold frame
  rw [UInt64.toNat_div, UInt64.toNat_div]
  exact Nat.div_le_div_right h

/-- A time that is a little later in another frame is at the start of it. -/
theorem withinFrame_lt {a b : UInt64} {n : Nat} (hle : a ≤ b) (hb : b = a + UInt64.ofNat n)
    (hn : n ≤ 32) (hf : frame a ≠ frame b) : withinFrame b < interruptLength := by
  have hne : a.toNat / 69888 ≠ b.toNat / 69888 := fun h => hf (by
    rw [← UInt64.toNat_inj]
    exact (UInt64.toNat_div a frameLength).trans (h.trans (UInt64.toNat_div b frameLength).symm))
  have hmod : (withinFrame b).toNat = b.toNat % 69888 := UInt64.toNat_mod b frameLength
  have hlength : interruptLength.toNat = 32 := rfl
  have hsum : b.toNat = a.toNat + n := by
    have ha := a.toNat_lt
    rw [UInt64.le_iff_toNat_le] at hle
    rw [hb, UInt64.toNat_add, UInt64.toNat_ofNat'] at hle ⊢
    omega
  rw [UInt64.lt_iff_toNat_lt, hmod, hlength]
  omega

end Clock

namespace Machine

/-- An interrupt is accepted exactly if interrupts are enabled and none has to wait. -/
theorem exists_accepted_iff (m : Machine) :
    (∃ a, m.interrupt 0xFF = .ok (some a)) ↔ m.cpu.iff1 = true ∧ m.cpu.blocked = false := by
  have hbus : ¬ (m.cpu.mode = .im0 ∧ (0xFF : UInt8) &&& 0xC7 ≠ 0xC7) := fun h => h.2 rfl
  unfold interrupt
  rw [if_neg hbus]
  cases m.cpu.iff1 <;> cases m.cpu.blocked <;> simp

end Machine

namespace Loader.Scene

variable {s t u : Scene}

/-! ### Accepting an interrupt -/

/-- The interrupt that is accepted if that of the frame is offered: if interrupts are wanted at all,
none has been accepted in the frame, it is still raised, and the processor accepts it. -/
def accepted? (s : Scene) : Option Accepted :=
  if s.session.config.interrupts && s.session.interruptFrame != some (Clock.frame s.clock)
      && Clock.withinFrame s.clock < Clock.interruptLength then
    match s.machine.interrupt 0xFF with
    | .ok accepted => accepted
    | .error _ => none
  else none

theorem offerInterrupt_eq (s : Scene) :
    s.offerInterrupt (Clock.frame s.clock) =
      match s.accepted? with
      | none => s
      | some a =>
        { s with
          machine := a.machine
          session := { s.session with interruptFrame := some (Clock.frame s.clock) } } := by
  unfold offerInterrupt accepted?
  split
  · rcases s.machine.interrupt 0xFF with _ | _ | a <;> rfl
  · rfl

theorem accepted?_eq_some_iff {a : Accepted} :
    s.accepted? = some a ↔
      s.session.config.interrupts = true ∧
      s.session.interruptFrame ≠ some (Clock.frame s.clock) ∧
      Clock.withinFrame s.clock < Clock.interruptLength ∧
      s.machine.interrupt 0xFF = .ok (some a) := by
  unfold accepted?
  split
  · rename_i h
    simp only [Bool.and_eq_true, bne_iff_ne, decide_eq_true_eq] at h
    rcases s.machine.interrupt 0xFF with _ | _ | b <;> simp [h]
  · rename_i h
    simp only [Bool.and_eq_true, bne_iff_ne, decide_eq_true_eq] at h
    simp only [reduceCtorEq, false_iff]
    exact fun h' => h ⟨⟨h'.1, h'.2.1⟩, h'.2.2.1⟩

/-- The scene of a step in which the interrupt of the frame is offered, if the step comes to it. -/
def offering? (s : Scene) : Option Scene :=
  match s.atTrap.trapRoutine with
  | (_, some _) => none
  | (t, none) =>
    match t.typeKeys (Clock.frame t.clock) with
    | (_, some _) => none
    | (u, none) => some u

/-- The frame whose interrupt is accepted in a step. -/
def acceptedFrame? (s : Scene) : Option UInt64 :=
  s.offering?.bind fun t => t.accepted?.map fun _ => Clock.frame t.clock

theorem of_offering (h : s.offering? = some u) :
    ∃ t, s.atTrap.trapRoutine = (t, none) ∧ t.typeKeys (Clock.frame t.clock) = (u, none) := by
  unfold offering? at h
  split at h
  · cases h
  · rename_i t ht
    split at h
    · cases h
    · rename_i u' hu
      cases h
      exact ⟨t, ht, hu⟩

theorem of_acceptedFrame? {frame : UInt64} (h : s.acceptedFrame? = some frame) :
    ∃ t a, s.offering? = some t ∧ t.accepted? = some a ∧ Clock.frame t.clock = frame := by
  obtain ⟨t, ht, h⟩ := Option.bind_eq_some_iff.mp h
  obtain ⟨a, ha, rfl⟩ := Option.map_eq_some_iff.mp h
  exact ⟨t, a, ht, ha, rfl⟩

theorem step_of_offering (h : s.offering? = some u) :
    s.step.1 = (((u.offerInterrupt (Clock.frame u.clock)).followTape).checkStop.1,
      .ok ((u.offerInterrupt (Clock.frame u.clock)).followTape).checkStop.2) := by
  obtain ⟨t, ht, hu⟩ := of_offering h
  rw [step_of_trap ht, hu, clock_typed hu]

/-- With interrupts enabled, nothing is skipped. -/
theorem atTrap_of_enabled (h : s.execute.1.machine.cpu.iff1 = true) : s.atTrap = s.execute.1 := by
  rcases s.execute.1.skipIterations_cases s.execute.2 with he | ⟨_, _, -, hi, -⟩
  · exact he
  · rw [h] at hi
    cases hi

/-- With interrupts enabled, one is offered directly after the instruction: skipping needs them
disabled, and a trap disables them. -/
theorem of_offering_enabled (h : s.offering? = some u) (hi : u.machine.cpu.iff1 = true) :
    s.atTrap = s.execute.1 ∧ s.atTrap.traps = false ∧ u.machine = s.execute.1.machine := by
  obtain ⟨t, ht, hu⟩ := of_offering h
  have hm := t.machine_typeKeys (Clock.frame t.clock)
  rw [hu] at hm
  have htraps : s.atTrap.traps = false := by
    by_contra htraps
    rw [hm, iff1_of_trap (Bool.eq_true_of_not_eq_false htraps) ht] at hi
    cases hi
  have hr := trapRoutine_of_untrapped htraps
  obtain rfl : s.atTrap = t := (Prod.mk.inj (hr.symm.trans ht)).1
  have hiff : s.atTrap.machine.cpu.iff1 = s.execute.1.machine.cpu.iff1 := by
    rcases s.execute.1.skipIterations_cases s.execute.2 with he | ⟨_, _, -, -, -, -, -, -, he⟩ <;>
      exact congrArg (·.machine.cpu.iff1) he
  have hskip : s.atTrap = s.execute.1 := atTrap_of_enabled (by rw [← hiff, ← hm, hi])
  exact ⟨hskip, htraps, hm.trans (congrArg Scene.machine hskip)⟩

/-! ### What a session remembers -/

theorem interruptFrame_of_trap {error : Option LoadError} (h : s.atTrap.trapRoutine = (t, error)) :
    t.session.interruptFrame = s.session.interruptFrame := by
  obtain ⟨_, _, _, _, _, -, hnotes⟩ := s.notes_execute
  obtain ⟨_, _, ht, -⟩ := s.atTrap.session_trapRoutine
  rw [h, session_atTrap, hnotes] at ht
  rw [ht]

theorem interruptFrame_typed {error : Option UnknownKey}
    (h : t.typeKeys (Clock.frame t.clock) = (u, error)) :
    u.session.interruptFrame = t.session.interruptFrame := by
  obtain ⟨_, _, _, _, hkeys, -⟩ := t.session_typeKeys (Clock.frame t.clock)
  rw [h] at hkeys
  rw [hkeys]

theorem interruptFrame_offering (h : s.offering? = some u) :
    u.session.interruptFrame = s.session.interruptFrame := by
  obtain ⟨t, ht, hu⟩ := of_offering h
  exact (interruptFrame_typed hu).trans (interruptFrame_of_trap ht)

theorem interruptFrame_step (s : Scene) :
    s.step.1.1.session.interruptFrame = s.acceptedFrame?.or s.session.interruptFrame := by
  have ho := s.outcome_step
  unfold acceptedFrame?
  generalize s.step.1 = r at ho ⊢
  cases ho with
  | untaken ht =>
    have hnone : s.offering? = none := by simp only [offering?, ht]
    rw [hnone]
    exact interruptFrame_of_trap ht
  | @untyped t u e ht hu =>
    have hnone : s.offering? = none := by simp only [offering?, ht, hu]
    rw [hnone]
    exact (interruptFrame_typed hu).trans (interruptFrame_of_trap ht)
  | @done t u ht hu =>
    have hsome : s.offering? = some u := by simp only [offering?, ht, hu]
    rw [hsome]
    obtain ⟨_, _, hending⟩ := (u.offerInterrupt (Clock.frame t.clock)).session_ending
    rw [hending, ← clock_typed hu, offerInterrupt_eq, Option.bind_some]
    cases u.accepted? with
    | none => exact interruptFrame_offering hsome
    | some a => rfl

/-- What a step accepts is the interrupt of the frame that its instruction has come to, at the start
of the frame, and nothing else happens to the machine behind the instruction. -/
theorem accepted_of_acceptedFrame? {frame : UInt64} (h : s.acceptedFrame? = some frame) :
    let m := s.execute.1.machine
    frame = Clock.frame m.cpu.clock ∧ Clock.withinFrame m.cpu.clock < Clock.interruptLength ∧
      s.session.interruptFrame ≠ some frame ∧ s.atTrap.traps = false ∧
      m.cpu.iff1 = true ∧ ¬ (s.machine.instructionAt s.machine.cpu.pc).operation.Blocks ∧
      ∃ a, m.interrupt 0xFF = .ok (some a) ∧ s.step.1.1.machine = a.machine := by
  intro m
  obtain ⟨t, a, ht, ha, rfl⟩ := of_acceptedFrame? h
  obtain ⟨-, hframe, hwithin, haccept⟩ := accepted?_eq_some_iff.mp ha
  obtain ⟨hi, hb⟩ := t.machine.exists_accepted_iff.mp ⟨a, haccept⟩
  obtain ⟨-, htraps, hm⟩ := of_offering_enabled ht hi
  have hclock : t.clock = m.cpu.clock := congrArg (·.cpu.clock) hm
  rw [hm] at hi hb haccept
  have hop : ¬ (s.machine.instructionAt s.machine.cpu.pc).operation.Blocks := fun hop => by
    rw [← s.machine.blocked_step (s.session.answer s.clock)] at hop
    exact nomatch hb.symm.trans hop
  refine ⟨by rw [hclock], hclock ▸ hwithin, ?_, htraps, hi, hop, a, haccept, ?_⟩
  · rw [← interruptFrame_offering ht]
    exact hframe
  · rw [step_of_offering ht, machine_checkStop, machine_followTape, offerInterrupt_eq, ha]

/-- If a step accepts no interrupt, the machine stays as the loading routine leaves it. -/
theorem machine_step_of_not_accepted (h : s.acceptedFrame? = none) :
    s.step.1.1.machine = s.atTrap.trapRoutine.1.machine := by
  have ho := s.outcome_step
  generalize s.step.1 = r at ho ⊢
  cases ho with
  | untaken ht => rw [ht]
  | @untyped t u e ht hu =>
    rw [ht, ← t.machine_typeKeys (Clock.frame t.clock), hu]
  | @done t u ht hu =>
    have hsome : s.offering? = some u := by simp only [offering?, ht, hu]
    have hnone : u.accepted? = none := by
      unfold acceptedFrame? at h
      rw [hsome, Option.bind_some, Option.map_eq_none_iff] at h
      exact h
    rw [machine_checkStop, machine_followTape, ← clock_typed hu, offerInterrupt_eq, hnone, ht,
      ← t.machine_typeKeys (Clock.frame t.clock), hu]

/-- The interrupt of a frame that an instruction has come to is accepted, if nothing is trapped,
interrupts are enabled and none has to wait, and none was accepted in the frame. -/
theorem acceptedFrame?_eq (hconfig : s.session.config.interrupts = true)
    (htraps : s.atTrap.traps = false)
    (hi : s.execute.1.machine.cpu.iff1 = true) (hb : s.execute.1.machine.cpu.blocked = false)
    (hwithin : Clock.withinFrame s.execute.1.clock < Clock.interruptLength)
    (hframe : s.session.interruptFrame ≠ some (Clock.frame s.execute.1.clock)) :
    s.acceptedFrame? = some (Clock.frame s.execute.1.clock) ∨
      ∃ e, s.step.1.2 = .error (.key e) := by
  have hr : s.atTrap.trapRoutine = (s.execute.1, none) := by
    rw [← atTrap_of_enabled hi]
    exact trapRoutine_of_untrapped htraps
  have hm := s.execute.1.machine_typeKeys (Clock.frame s.execute.1.clock)
  rcases hu : s.execute.1.typeKeys (Clock.frame s.execute.1.clock) with ⟨u, error⟩
  rw [hu] at hm
  cases error with
  | some e =>
    refine .inr ⟨e, ?_⟩
    rw [step_of_trap hr, hu]
  | none =>
    have hoffering : s.offering? = some u := by simp only [offering?, hr, hu]
    have hclock : u.clock = s.execute.1.clock := clock_typed hu
    have hconfig' : u.session.config = s.session.config := by
      obtain ⟨_, _, _, _, hkeys, -⟩ := s.execute.1.session_typeKeys (Clock.frame s.execute.1.clock)
      rw [hu] at hkeys
      rw [hkeys]
      exact s.later_execute.config
    obtain ⟨a, ha⟩ := s.execute.1.machine.exists_accepted_iff.mpr ⟨hi, hb⟩
    have haccepted : u.accepted? = some a := by
      refine accepted?_eq_some_iff.mpr ⟨hconfig'.symm ▸ hconfig, ?_, hclock.symm ▸ hwithin, ?_⟩
      · rw [interruptFrame_offering hoffering, hclock]
        exact hframe
      · rw [hm]
        exact ha
    refine .inl ?_
    unfold acceptedFrame?
    rw [hoffering, Option.bind_some, haccepted, Option.map_some, hclock]

end Loader.Scene

namespace Loader

/-! ### Courses -/

section

variable {signal : Signal} {config : Config} {past : List Scene} {s : Scene}

/-- The interrupts that were accepted are those of later and later frames, the last of which is the
one that the session remembers and is not ahead of the clock. -/
structure Interrupted (past : List Scene) (s : Scene) : Prop where
  ordered : (past.filterMap Scene.acceptedFrame?).Pairwise (· < ·)
  last : ∀ frame ∈ past.filterMap Scene.acceptedFrame?,
    ∃ latest, s.session.interruptFrame = some latest ∧ frame ≤ latest
  notAhead : ∀ latest, s.session.interruptFrame = some latest → latest ≤ Clock.frame s.clock

theorem Interrupted.step (h : Interrupted past s) (hf : s.Forward)
    (htime : ∀ address loop, s.execute.1.session.foundAt? address = some loop →
      loop.loopTime ≤ 65) : Interrupted (past ++ [s]) s.step.1.1 := by
  have hstep := s.interruptFrame_step
  have hframes : (past ++ [s]).filterMap Scene.acceptedFrame? =
      past.filterMap Scene.acceptedFrame? ++ s.acceptedFrame?.toList := by
    rw [List.filterMap_append]
    cases ha : s.acceptedFrame? <;> simp [ha]
  cases ha : s.acceptedFrame? with
  | none =>
    rw [ha, Option.toList_none, List.append_nil] at hframes
    rw [ha, Option.none_or] at hstep
    refine ⟨hframes ▸ h.ordered, ?_, fun latest hl => ?_⟩
    · rw [hframes, hstep]
      exact h.last
    · rw [hstep] at hl
      exact UInt64.le_trans (h.notAhead latest hl) (Clock.frame_mono hf)
  | some frame =>
    rw [ha, Option.toList_some] at hframes
    rw [ha, Option.some_or] at hstep
    obtain ⟨hframe, -, hne, htraps, hi, -⟩ := Scene.accepted_of_acceptedFrame? ha
    obtain ⟨hle, hle'⟩ := hf.clock_le htime htraps
    have hnow : frame = Clock.frame s.atTrap.clock := Scene.atTrap_of_enabled hi ▸ hframe
    have hbefore : ∀ earlier ∈ past.filterMap Scene.acceptedFrame?, earlier < frame := by
      intro earlier he
      obtain ⟨latest, hl, hel⟩ := h.last earlier he
      have hlf : latest ≤ frame :=
        hnow ▸ UInt64.le_trans (h.notAhead latest hl) (Clock.frame_mono hle)
      have hlne : latest ≠ frame := fun heq => hne (heq ▸ hl)
      exact UInt64.lt_of_le_of_lt hel (UInt64.lt_of_le_of_ne hlf hlne)
    refine ⟨?_, ?_, fun latest hl => ?_⟩
    · rw [hframes, List.pairwise_append]
      exact ⟨h.ordered, List.pairwise_singleton _ _, fun earlier he later hl =>
        List.mem_singleton.mp hl ▸ hbefore earlier he⟩
    · intro earlier he
      rw [hframes] at he
      refine ⟨frame, hstep, ?_⟩
      rcases List.mem_append.mp he with he | he
      · exact UInt64.le_of_lt (hbefore earlier he)
      · rw [List.mem_singleton.mp he]
        exact UInt64.le_refl _
    · obtain rfl := Option.some.inj (hstep.symm.trans hl)
      rw [hnow]
      exact Clock.frame_mono hle'

theorem Course.interrupted (h : Course .Any signal config past s) (hf : ∀ u ∈ past, u.Forward) :
    Interrupted past s := by
  induction h with
  | create machine h =>
    obtain ⟨loops, -, rfl⟩ := Session.create_eq_ok_iff.mp h
    exact ⟨List.Pairwise.nil, fun _ => nofun, fun _ => nofun⟩
  | @handle past s h machine hc session hs ih =>
    have ih := ih hf
    have hsame : session.interruptFrame = s.session.interruptFrame := by
      cases hs <;> rfl
    refine ⟨ih.ordered, ?_, ?_⟩
    · dsimp only
      rw [hsame]
      exact ih.last
    · dsimp only
      rw [hsame, Scene.clock, hc]
      exact ih.notAhead
  | @step past s h ih =>
    exact (ih fun u hu => hf u (List.mem_append_left _ hu)).step
      (hf s (List.mem_append_right _ (List.mem_singleton_self s))) fun _ _ => h.loopTime_le

/-- An interrupt that has not been accepted in a frame that is not over is accepted in the step that
comes to the frame, if there the processor accepts one. -/
theorem Interrupted.acceptedFrame?_eq (h : Interrupted past s)
    (hconfig : s.session.config.interrupts = true) (hf : s.Forward)
    (htime : ∀ address loop, s.execute.1.session.foundAt? address = some loop →
      loop.loopTime ≤ 65)
    (htraps : s.atTrap.traps = false)
    (hnew : Clock.frame s.clock ≠ Clock.frame s.execute.1.clock)
    (hi : s.execute.1.machine.cpu.iff1 = true) (hb : s.execute.1.machine.cpu.blocked = false) :
    s.acceptedFrame? = some (Clock.frame s.execute.1.clock) ∨
      ∃ e, s.step.1.2 = .error (.key e) := by
  have hle : s.clock ≤ s.execute.1.clock :=
    Scene.atTrap_of_enabled hi ▸ (hf.clock_le htime htraps).1
  obtain ⟨hcost, hclock⟩ := s.machine.clock_step (s.session.answer s.clock)
  refine Scene.acceptedFrame?_eq hconfig htraps hi hb
    (Clock.withinFrame_lt hle hclock (hcost.trans (by decide)) hnew) fun hl => ?_
  -- The frame cannot have been remembered, for it is ahead of the clock.
  have hahead := h.notAhead _ hl
  exact hnew (UInt64.le_antisymm (Clock.frame_mono hle) hahead)

/-- In a run with interrupts in which the clock does not run over, the interrupts that are accepted
are those of different frames; each is accepted behind an instruction, in the first 32 T-states of
its frame, with interrupts enabled and not behind EI or a lone prefix; and a step that takes the
clock into a new frame, without a trap, to a state with interrupts enabled and not blocked, accepts
the interrupt of that frame, unless it fails in typing.  Such a step does not skip anything. -/
theorem Course.interrupt_of_frame (hi : config.interrupts = true)
    (h : Course .Any signal config past s) (hf : ∀ u ∈ past, u.Forward) :
    (past.filterMap Scene.acceptedFrame?).Pairwise (· < ·) ∧
    (∀ u ∈ past, u.acceptedFrame? = none →
      u.step.1.1.machine = u.atTrap.trapRoutine.1.machine) ∧
    (∀ u ∈ past, ∀ frame, u.acceptedFrame? = some frame →
      let m := u.execute.1.machine
      frame = Clock.frame m.cpu.clock ∧ Clock.withinFrame m.cpu.clock < Clock.interruptLength ∧
        m.cpu.iff1 = true ∧ ¬ (u.machine.instructionAt u.machine.cpu.pc).operation.Blocks ∧
        ∃ a, m.interrupt 0xFF = .ok (some a) ∧ u.step.1.1.machine = a.machine) ∧
    ∀ u ∈ past, u.atTrap.traps = false → Clock.frame u.clock ≠ Clock.frame u.execute.1.clock →
      u.execute.1.machine.cpu.iff1 = true → u.execute.1.machine.cpu.blocked = false →
      u.atTrap = u.execute.1 ∧ (u.acceptedFrame? = some (Clock.frame u.execute.1.clock) ∨
        ∃ e, u.step.1.2 = .error (.key e)) := by
  refine ⟨(h.interrupted hf).ordered, fun u _ => Scene.machine_step_of_not_accepted,
    fun u _ frame ha => ?_, fun u hu htraps hnew hiff hb => ?_⟩
  · obtain ⟨hframe, hwithin, -, -, hiff, hblocks, haccept⟩ := Scene.accepted_of_acceptedFrame? ha
    exact ⟨hframe, hwithin, hiff, hblocks, haccept⟩
  · obtain ⟨before, hbefore, hcourse⟩ := h.exists_prefix hu
    have hforward : ∀ v ∈ before, v.Forward := fun v hv =>
      hf v (hbefore.subset (List.mem_append_left _ hv))
    have hconfig : u.session.config.interrupts = true := by
      rw [hcourse.fixed.2.1]
      exact hi
    exact ⟨Scene.atTrap_of_enabled hiff, (hcourse.interrupted hforward).acceptedFrame?_eq hconfig
      (hf u hu) (fun _ _ => hcourse.loopTime_le) htraps hnew hiff hb⟩

end

/-! ### Past the end of the clock -/

/-- A tape of two blocks of a single bit each, the second of which is slow. -/
def twoBitTape : List Block :=
  [{ data := [0], timings := { pilotCount := 0, zero := 1, usedBits := 1, pause := 0 } },
    { data := [0], timings := { pilotCount := 0, zero := 34937, usedBits := 1, pause := 0 } }]

/-- The signal of that tape. -/
def twoBitSignal : Signal where
  blocks := twoBitTape.toArray
  edges := #[1, 2, 34939, 69876]
  ranges := [{ block := 0, start := 0, data := 0, stop := 2 },
    { block := 1, start := 2, data := 2, stop := 4 }]

theorem ofBlocks_twoBitTape : Signal.ofBlocks twoBitTape = .ok twoBitSignal := by
  rfl

/-- A machine at the end of the first frame, with interrupts enabled.  The first interrupt goes to
the loading routine, which is left with B counted down, to itself until it is zero, and to
`EI; NOP` then. -/
def countingMachine : Machine where
  cpu :=
    { Cpu.powerOn with af := 0, bc := 0x0200, sp := 0x8000, pc := 0x1000, iff1 := true,
                       iff2 := true, clock := 69884 }
  memory := (Memory.blank.writeAll 0x0038 [0xC3, 0x56, 0x05]).writeAll Scene.loadRoutineExit
    [0x05, 0xC2, 0x56, 0x05, 0xFB, 0x00]

/-- That machine, with the tape to start just before the clock runs over. -/
def countingScene : Scene where
  machine := countingMachine
  session :=
    { signal := twoBitSignal, config := { accelerators := [], timeout := 2 ^ 64 - 1 }, loops := [],
      runStart := 69884, origin := some (2 ^ 64 - 10) }

theorem course_countingScene (n : Nat) :
    Course .Any twoBitSignal { accelerators := [], timeout := 2 ^ 64 - 1 }
      ((List.range n).map countingScene.after) (countingScene.after n) := by
  have hcreate : Course .Any twoBitSignal { accelerators := [], timeout := 2 ^ 64 - 1 } []
      { machine := countingMachine
        session := { countingScene.session with origin := none } } := .create _ rfl
  exact (hcreate.handle _ rfl (.start _ (2 ^ 64 - 10))).after n

/-- The first step accepts the interrupt of the second frame. -/
theorem acceptedFrame?_countingScene :
    countingScene.session.config.interrupts = true ∧
      (∀ u ∈ (List.range 1).map countingScene.after, u.Forward) ∧
      countingScene.acceptedFrame? = some 1 := by
  have hforward : ∀ u ∈ (List.range 1).map countingScene.after, u.Forward := by decide +kernel
  have h := (Course.interrupt_of_frame rfl (course_countingScene 1) hforward).2.2.2 countingScene
    (List.mem_singleton_self _) (by decide +kernel) (by decide +kernel) (by decide +kernel)
    (by decide +kernel)
  have hok : countingScene.step.1.2.isOk = true := by decide +kernel
  refine ⟨rfl, hforward, h.2.resolve_right fun ⟨e, he⟩ => ?_⟩
  rw [he] at hok
  cases hok

/-- After eight steps, in which two traps have taken the clock to its end and, from its beginning,
to the end of the first frame again, the interrupt of the second frame is lost. -/
theorem not_forall_acceptedFrame?_eq :
    ¬ ∀ (blocks : List Block) (signal : Signal) (config : Config) (past : List Scene) (s : Scene),
      Signal.ofBlocks blocks = .ok signal → config.interrupts = true →
      Course .Any signal config past s → ∀ u ∈ past,
        u.atTrap = u.execute.1 → u.atTrap.traps = false →
        Clock.frame u.execute.1.clock = Clock.frame u.clock + 1 →
        u.execute.1.machine.cpu.iff1 = true → u.execute.1.machine.cpu.blocked = false →
        u.acceptedFrame? = some (Clock.frame u.execute.1.clock) ∨
          ∃ e, u.step.1.2 = .error (.key e) := by
  intro h
  have henabled : (countingScene.after 7).execute.1.machine.cpu.iff1 = true := by decide +kernel
  have hok : (countingScene.after 7).step.1.2.isOk = true := by decide +kernel
  have hlost : (countingScene.after 7).acceptedFrame? = none := by decide +kernel
  have hmem : countingScene.after 7 ∈ (List.range 8).map countingScene.after :=
    List.mem_map_of_mem (List.mem_range.mpr (by decide))
  have hgot := h _ _ _ _ _ ofBlocks_twoBitTape rfl (course_countingScene 8) _ hmem
    (Scene.atTrap_of_enabled henabled) (by decide +kernel) (by decide +kernel) henabled
    (by decide +kernel)
  rcases hgot with hgot | ⟨e, he⟩
  · rw [hlost] at hgot
    cases hgot
  · rw [he] at hok
    cases hok

end Loader
end Spectrum
