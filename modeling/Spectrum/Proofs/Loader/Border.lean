import Mathlib.Tactic.Common
import Spectrum.Loader.Simulation
import Spectrum.Proofs.Loader.Run

/-! # The border of a load

The border is set by writes to ports with an even address, and by nothing else that happens in a
run: `borderAfter` is what a run of writes makes of it.  `Scene.instructions` lists the instructions
of a run, whose writes decide the border at its end.  A simulated load starts with a white border,
not with that of the snapshot that it starts from.

Main definitions: `borderWrites`, `borderAfter`, `Scene.instructions`.
Main statements: `Scene.border_run`, `Simulation.border_runFrom`. -/

namespace Spectrum.Loader

open Z80 Tape

/-- The values that go to ports with an even address, among bus events. -/
def borderWrites (events : List BusEvent) : List UInt8 :=
  events.filterMap fun
    | .output port value => if port % 2 = 0 then some value else none
    | _ => none

/-- The border after some values have been written in order: the low three bits of the last one. -/
def borderAfter (border : UInt8) (written : List UInt8) : UInt8 :=
  (written.getLast?.map (· &&& 7)).getD border

theorem borderAfter_append (border : UInt8) (written later : List UInt8) :
    borderAfter border (written ++ later) = borderAfter (borderAfter border written) later := by
  unfold borderAfter
  rw [List.getLast?_append]
  cases later.getLast? <;> rfl

theorem borderWrites_append (events later : List BusEvent) :
    borderWrites (events ++ later) = borderWrites events ++ borderWrites later :=
  List.filterMap_append

theorem borderWrites_output (port : UInt16) (value : UInt8) :
    borderWrites [.output port value] = if port % 2 = 0 then [value] else [] := by
  unfold borderWrites
  by_cases h : port % 2 = 0 <;> simp [h]

/-- What is written decides the border, whatever it was; only if nothing is it stays. -/
theorem borderAfter_eq_iff {border border' : UInt8} {written : List UInt8} :
    borderAfter border written = borderAfter border' written ↔ written ≠ [] ∨ border = border' := by
  unfold borderAfter
  cases hlast : written.getLast? with
  | none => simp [List.getLast?_eq_none_iff.mp hlast]
  | some value =>
    refine iff_of_true rfl (.inl ?_)
    rintro rfl
    cases hlast

/-! ### Instructions -/

namespace Session

theorem isUlaPort_iff (port : UInt16) : isUlaPort port = true ↔ port % 2 = 0 := by
  have hlow : (port &&& 1).toNat = port.toNat % 2 := by
    rw [UInt16.toNat_and]
    exact Nat.and_one_is_mod port.toNat
  unfold isUlaPort
  rw [beq_iff_eq, ← UInt16.toNat_inj, ← UInt16.toNat_inj, hlow, UInt16.toNat_mod]
  rfl

theorem border_note (m : Machine) (address : UInt16) (s : Session) (event : BusEvent) :
    (note m address s event).border = borderAfter s.border (borderWrites [event]) := by
  cases event with
  | read | write => rfl
  | input port value =>
    have hnote : note m address s (.input port value) = s.noteInput m address port := rfl
    rw [hnote]
    by_cases h : isUlaPort port
    · obtain ⟨found, examined, lastSample, hn⟩ := s.noteInput_eq m address h
      rw [hn]
      rfl
    · rw [noteInput, if_neg h]
      rfl
  | output port value =>
    have hnote : note m address s (.output port value) = s.noteOutput port value := rfl
    rw [hnote, noteOutput, borderWrites_output]
    simp only [isUlaPort_iff]
    split <;> rfl

theorem border_foldl_note (m : Machine) (address : UInt16) (s : Session) (events : List BusEvent) :
    (events.foldl (note m address) s).border = borderAfter s.border (borderWrites events) := by
  induction events generalizing s with
  | nil => rfl
  | cons event rest ih =>
    have happend : borderWrites (event :: rest) = borderWrites [event] ++ borderWrites rest :=
      borderWrites_append [event] rest
    rw [List.foldl_cons, ih, border_note, happend, borderAfter_append]

end Session

namespace Scene

/-- Of all that happens in a step only the writes of its instruction touch the border. -/
theorem border_step (s : Scene) :
    s.step.1.1.session.border =
      borderAfter s.session.border (borderWrites s.step.2.events) := by
  obtain ⟨_, _, _, _, _, _, _, h⟩ := s.session_step
  rw [h]
  exact Session.border_foldl_note _ _ _ _

/-! ### Runs -/

/-- The instructions that a run executes, in order. -/
def instructions (s : Scene) : (fuel : Nat) → List Executed
  | 0 => []
  | fuel + 1 =>
    match s.step with
    | ((t, .ok false), e) => e :: t.instructions fuel
    | (_, e) => [e]

/-- What a run writes to ports with an even address. -/
def written (s : Scene) (fuel : Nat) : List UInt8 :=
  borderWrites ((s.instructions fuel).flatMap (·.events))

/-- The border at the end of a run is that of the last write in it. -/
theorem border_run (s : Scene) (fuel : Nat) :
    (s.run fuel).1.session.border = borderAfter s.session.border (s.written fuel) := by
  induction fuel generalizing s with
  | zero => rfl
  | succ fuel ih =>
    have hstep := s.border_step
    unfold written run instructions
    generalize s.step = r at hstep ⊢
    match r with
    | ((t, .error error), e) =>
      dsimp only
      rw [List.flatMap_singleton]
      exact hstep
    | ((t, .ok true), e) =>
      dsimp only
      rw [List.flatMap_singleton]
      exact hstep
    | ((t, .ok false), e) =>
      dsimp only at hstep ⊢
      rw [List.flatMap_cons, borderWrites_append, borderAfter_append, ← hstep]
      exact ih t

end Scene

/-! ### Simulated loads -/

namespace Simulation

/-- The scene in which a load from a snapshot starts: the machine at the address with the ROM
protected, and the tape about to play. -/
def startScene (sim : Simulation) (initial : Snapshot) (start : UInt16) : Except LoadError Scene :=
  (playingScene sim.signal sim.config { memory := initial.memory, romProtected := true }
    initial.registers).map fun scene => { scene with machine := scene.machine.startAt start }

theorem runFrom_eq (sim : Simulation) (initial : Snapshot) (start : UInt16) :
    sim.runFrom initial start =
      match sim.startScene initial start with
      | .error e => ([], .error (.load e))
      | .ok s => finish s.runToEnd := by
  unfold runFrom fastLoad startScene
  dsimp only
  cases playingScene sim.signal sim.config { memory := initial.memory, romProtected := true }
    initial.registers <;> rfl

/-- A load starts with a white border, and with the configuration of the simulation. -/
theorem session_of_startScene {sim : Simulation} {initial : Snapshot} {start : UInt16} {s : Scene}
    (h : sim.startScene initial start = .ok s) :
    s.session.border = 7 ∧ s.session.config = sim.config := by
  unfold startScene playingScene at h
  cases hc : Session.create sim.signal sim.config initial.registers.clock with
  | error e =>
    rw [hc] at h
    cases h
  | ok session =>
    rw [hc] at h
    obtain ⟨loops, -, rfl⟩ := Session.create_eq_ok_iff.mp hc
    cases h
    exact ⟨rfl, rfl⟩

/-- A simulated load from a snapshot ends with the low three bits of the last value that it writes
to a port with an even address, and with a white border if it writes none.  So the border of the
snapshot is kept track of exactly if something is written or that border was white. -/
theorem border_runFrom {sim : Simulation} {initial snapshot : Snapshot} {start : UInt16}
    {notices : List Notice} (h : sim.runFrom initial start = (notices, .ok snapshot)) :
    ∃ s, sim.startScene initial start = .ok s ∧
      let written := s.written (Scene.fuelFor sim.config)
      snapshot = (s.run (Scene.fuelFor sim.config)).1.snapshot ∧
        snapshot.border = borderAfter 7 written ∧
        (snapshot.border = borderAfter (initial.border &&& 7) written ↔
          written ≠ [] ∨ 7 = initial.border &&& 7) := by
  rw [runFrom_eq] at h
  cases hs : sim.startScene initial start with
  | error e =>
    rw [hs] at h
    cases h
  | ok s =>
    obtain ⟨hborder, hconfig⟩ := session_of_startScene hs
    have hend : snapshot = (s.run (Scene.fuelFor sim.config)).1.snapshot := by
      rw [hs] at h
      dsimp only at h
      rw [Scene.runToEnd, hconfig] at h
      rcases hrun : s.run (Scene.fuelFor sim.config) with ⟨t, ending⟩
      rw [hrun] at h
      cases ending <;> cases h <;> rfl
    have hafter : snapshot.border = borderAfter 7 (s.written (Scene.fuelFor sim.config)) := by
      rw [hend, ← hborder]
      exact s.border_run _
    refine ⟨s, rfl, hend, hafter, ?_⟩
    rw [hafter]
    exact borderAfter_eq_iff

/-- Loading from an empty tape, until the program comes to an address. -/
def emptyTape (stop : UInt16) : Simulation where
  signal := { blocks := #[], edges := #[], ranges := [] }
  config := { accelerators := [], start := some stop }

/-- A red border, and LD A,$0C and OUT ($FE),A at 0x8000. -/
def paintingSnapshot : Snapshot where
  memory := Memory.blank.writeAll 0x8000 [0x3E, 0x0C, 0xD3, 0xFE]
  border := 2

/-- What that program writes on the way to an address, and the border with which the load ends. -/
def painted (stop : UInt16) : Option (List UInt8 × UInt8) :=
  match (emptyTape stop).startScene paintingSnapshot 0x8000,
    ((emptyTape stop).runFrom paintingSnapshot 0x8000).2 with
  | .ok s, .ok snapshot => some (s.written (Scene.fuelFor (emptyTape stop).config), snapshot.border)
  | _, _ => none

theorem exists_of_painted {stop : UInt16} {written : List UInt8} {border : UInt8}
    (h : painted stop = some (written, border)) :
    ∃ (notices : List Notice) (s : Scene) (snapshot : Snapshot),
      (emptyTape stop).runFrom paintingSnapshot 0x8000 = (notices, .ok snapshot) ∧
        (emptyTape stop).startScene paintingSnapshot 0x8000 = .ok s ∧
        s.written (Scene.fuelFor (emptyTape stop).config) = written ∧
        snapshot.border = border := by
  unfold painted at h
  split at h
  · next s snapshot hs hsnapshot =>
    obtain ⟨rfl, rfl⟩ := Prod.mk.inj (Option.some.inj h)
    exact ⟨_, s, snapshot, Prod.ext rfl hsnapshot, hs, rfl, rfl⟩
  · cases h

/-- Run over the OUT the border becomes green. -/
theorem border_runFrom_painting :
    ∃ (notices : List Notice) (snapshot : Snapshot),
      (emptyTape 0x8004).runFrom paintingSnapshot 0x8000 = (notices, .ok snapshot) ∧
        snapshot.border = borderAfter 7 [0x0C] ∧ borderAfter 7 [0x0C] = 4 := by
  have hpainted : painted 0x8004 = some ([0x0C], 4) := by decide +kernel
  obtain ⟨notices, s, snapshot, hrun, hs, hwritten, -⟩ := exists_of_painted hpainted
  obtain ⟨s', hs', -, hborder, -⟩ := border_runFrom hrun
  obtain rfl : s' = s := Except.ok.inj (hs'.symm.trans hs)
  refine ⟨notices, snapshot, hrun, ?_, rfl⟩
  rw [hborder, hwritten]

/-- The border of the snapshot is not kept track of: stopped before the OUT it has become white. -/
theorem not_forall_border_eq :
    ¬ ∀ (sim : Simulation) (initial snapshot : Snapshot) (start : UInt16) (notices : List Notice)
      (s : Scene), sim.runFrom initial start = (notices, .ok snapshot) →
        sim.startScene initial start = .ok s →
        snapshot.border = borderAfter (initial.border &&& 7)
          (s.written (Scene.fuelFor sim.config)) := by
  intro h
  have hpainted : painted 0x8002 = some ([], 7) := by decide +kernel
  obtain ⟨notices, s, snapshot, hrun, hs, hwritten, hborder⟩ := exists_of_painted hpainted
  have heq := h _ _ _ _ _ _ hrun hs
  rw [hborder, hwritten] at heq
  exact absurd heq (by decide)

end Simulation
end Spectrum.Loader
