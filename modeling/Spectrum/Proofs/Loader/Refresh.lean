import Mathlib.Tactic.Common
import Spectrum.Proofs.Loader.Routine
import Spectrum.Proofs.Z80.Refresh

/-! # R while a tape loads

What a scene does between instructions may refresh R: iterations of a polling loop that are skipped,
the time that a block takes which is loaded at once, and interrupts.  None of it does anything else
to R, so as in the machine alone only LD R,A changes the top bit.

Main definition: `Scene.Unseeded`.
Main statements: `Scene.refreshesTo_step`, `r_counts_opcodes`. -/

namespace Spectrum.Loader

open Z80 Tape

namespace Scene

/-! ### The parts of a step -/

theorem refreshesTo_skipIterations (s : Scene) (e : Executed) :
    RefreshesTo s.machine.cpu.r (s.skipIterations e).machine.cpu.r := by
  rcases s.skipIterations_cases e with h | ⟨origin, loop, -, -, -, -, -, -, h⟩
  · rw [h]
    exact refreshesTo_of_eq rfl
  · rw [h]
    exact ⟨_, rfl⟩

theorem refreshesTo_loadBlock (s : Scene) :
    RefreshesTo s.machine.cpu.r s.loadBlock.1.machine.cpu.r := by
  cases h : s.ahead? with
  | none =>
    rw [loadBlock_of_none h, machine_passedOver]
    exact refreshesTo_of_eq rfl
  | some range =>
    obtain ⟨t, hm, -, ht⟩ := loadBlock_of_some h
    obtain ⟨_, _, _, _, _, hplaced⟩ :=
      cpu_placeData s.machine (s.session.signal.blocks.getD range.block {}).data
    have hr : t.machine.cpu.r = s.machine.cpu.r := by
      rw [hm, hplaced]
    rw [ht]
    dsimp only
    rw [cpu_leaveRoutine, machine_moveTapeTo, ← hr]
    exact ⟨_, rfl⟩

theorem refreshesTo_trapRoutine (s : Scene) :
    RefreshesTo s.machine.cpu.r s.trapRoutine.1.machine.cpu.r := by
  unfold trapRoutine
  split
  · exact s.refreshesTo_loadBlock
  · exact refreshesTo_of_eq rfl

theorem refreshesTo_offerInterrupt (s : Scene) (frame : UInt64) :
    RefreshesTo s.machine.cpu.r (s.offerInterrupt frame).machine.cpu.r := by
  rcases s.offerInterrupt_cases frame with h | ⟨a, ha, h⟩
  · rw [h]
    exact refreshesTo_of_eq rfl
  · rw [h]
    exact ⟨1, Machine.r_interrupt ha⟩

/-- What comes after the instruction refreshes R and does nothing else to it. -/
theorem refreshesTo_of_execute (s : Scene) :
    RefreshesTo s.execute.1.machine.cpu.r s.step.1.1.machine.cpu.r := by
  have hskip : RefreshesTo s.execute.1.machine.cpu.r s.atTrap.machine.cpu.r :=
    s.execute.1.refreshesTo_skipIterations s.execute.2
  refine (hskip.trans s.atTrap.refreshesTo_trapRoutine).trans ?_
  have ho := s.outcome_step
  generalize s.step.1 = r at ho ⊢
  cases ho with
  | untaken ht =>
    rw [ht]
    exact refreshesTo_of_eq rfl
  | @untyped t u e ht hu =>
    have hm := t.machine_typeKeys (Clock.frame t.clock)
    rw [hu] at hm
    rw [ht]
    exact refreshesTo_of_eq (congrArg (·.cpu.r) hm)
  | @done t u ht hu =>
    have hm := t.machine_typeKeys (Clock.frame t.clock)
    rw [hu] at hm
    rw [ht, machine_checkStop, machine_followTape]
    exact (refreshesTo_of_eq (congrArg (·.cpu.r) hm)).trans (u.refreshesTo_offerInterrupt _)

/-- So in a whole step R is refreshed, unless the instruction is LD R,A. -/
theorem refreshesTo_step {s : Scene} (h : ¬ s.machine.LoadsR) :
    RefreshesTo s.machine.cpu.r s.step.1.1.machine.cpu.r :=
  RefreshesTo.trans ⟨_, Machine.r_step h (s.session.answer s.clock)⟩ s.refreshesTo_of_execute

/-! ### Runs -/

/-- The scenes that a run comes to without LD R,A.  Between steps anything may change but R. -/
inductive Unseeded (start : Scene) : Scene → Prop
  | start : Unseeded start start
  | step {s : Scene} (h : Unseeded start s) (hr : ¬ s.machine.LoadsR) : Unseeded start s.step.1.1
  | change {s : Scene} (h : Unseeded start s) (t : Scene)
      (hr : t.machine.cpu.r = s.machine.cpu.r) : Unseeded start t

theorem Unseeded.refreshesTo {start s : Scene} (h : start.Unseeded s) :
    RefreshesTo start.machine.cpu.r s.machine.cpu.r := by
  induction h with
  | start => exact refreshesTo_of_eq rfl
  | step h hr ih => exact ih.trans (refreshesTo_step hr)
  | change h t hr ih => exact ih.trans (refreshesTo_of_eq hr)

end Scene

/-- R counts the opcodes of every instruction and the interrupts in its low seven bits.  Only LD R,A
sets it; so without it the top bit stays in every run, also where loops are skipped and blocks are
loaded at once. -/
theorem r_counts_opcodes (m : Machine) :
    (∀ answer, ¬ m.LoadsR →
      Counts m.cpu.r (opcodesFetched (m.read m.cpu.pc) (m.read (m.cpu.pc + 1)))
        (m.step answer).1.cpu.r) ∧
    (∀ answer, m.LoadsR → (m.step answer).1.cpu.r = m.cpu.a) ∧
    (∀ bus a, m.interrupt bus = .ok (some a) → Counts m.cpu.r 1 a.machine.cpu.r) ∧
    Counts m.cpu.r 1 m.nonMaskableInterrupt.machine.cpu.r ∧
    (∀ n, Z80.Unseeded m n → n.cpu.r.bit 7 = m.cpu.r.bit 7) ∧
    ∀ s t : Scene, s.Unseeded t → t.machine.cpu.r.bit 7 = s.machine.cpu.r.bit 7 := by
  refine ⟨fun answer h => ?_, fun answer h => Machine.r_step_of_loadsR h answer,
    fun bus a ha => ?_, ?_, fun n h => h.refreshesTo.bit_eq, fun s t h => h.refreshesTo.bit_eq⟩
  · rw [Machine.r_step h answer]
    exact counts_refreshed _ _
  · rw [Machine.r_interrupt ha]
    exact counts_refreshed _ _
  · rw [m.r_nonMaskableInterrupt]
    exact counts_refreshed _ _

/-- A machine with interrupts enabled, some code at its program counter and R about to wrap
round. -/
def counting (code : List UInt8) : Machine where
  cpu := { Cpu.powerOn with pc := 0x8000, r := 0xFF, iff1 := true, mode := .im1 }
  memory := Memory.blank.writeAll 0x8000 code

/-- The scene of `fileScene` with R set. -/
def seededScene : Scene :=
  { fileScene with machine := fileScene.machine.mapCpu fun c => { c with r := 0xFF } }

/-- RLC (IX+0) and interrupts make R wrap round below its top bit, which stays when a file is loaded
at once too; and LD R,A sets R. -/
theorem r_counts_opcodes_counting :
    let rotating := counting [0xDD, 0xCB, 0x00, 0x06]
    let loading := counting [0xED, 0x4F]
    ¬ rotating.LoadsR ∧ Counts 0xFF 2 (rotating.step fun _ => 0xFF).1.cpu.r ∧
      (rotating.step fun _ => 0xFF).1.nonMaskableInterrupt.machine.cpu.r.bit 7 = true ∧
      (∃ a, rotating.interrupt 0xFF = .ok (some a) ∧ Counts 0xFF 1 a.machine.cpu.r) ∧
      loading.LoadsR ∧ (loading.step fun _ => 0xFF).1.cpu.r = loading.cpu.a ∧
      ¬ seededScene.machine.LoadsR ∧ seededScene.step.1.1.machine.cpu.r.bit 7 = true := by
  intro rotating loading
  have hrotating : ¬ rotating.LoadsR := by decide +kernel
  have hloading : loading.LoadsR := by decide +kernel
  have hseeded : ¬ seededScene.machine.LoadsR := by decide +kernel
  have htwo : opcodesFetched (rotating.read 0x8000) (rotating.read 0x8001) = 2 := by decide +kernel
  obtain ⟨hstep, -, hinterrupt, -, hrun, hscenes⟩ := r_counts_opcodes rotating
  obtain ⟨-, hload, -⟩ := r_counts_opcodes loading
  have hcounts := hstep (fun _ => 0xFF) hrotating
  rw [show rotating.read rotating.cpu.pc = rotating.read 0x8000 from rfl,
    show rotating.read (rotating.cpu.pc + 1) = rotating.read 0x8001 from rfl, htwo] at hcounts
  have htop : (0xFF : UInt8).bit 7 = true := by decide
  exact ⟨hrotating, hcounts,
    (hrun _ (.nonMaskable (.step .start hrotating fun _ => 0xFF))).trans htop,
    ⟨_, rfl, hinterrupt 0xFF _ rfl⟩, hloading, hload (fun _ => 0xFF) hloading, hseeded,
    (hscenes seededScene _ (.step .start hseeded)).trans htop⟩

end Spectrum.Loader
