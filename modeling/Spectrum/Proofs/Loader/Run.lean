import Mathlib.Tactic.Common
import Spectrum.Proofs.Loader.Scene

/-! # Runs

A run begins with a machine and a session created for it; then instructions are executed, and at
any time the tape may be started or keys be queued.  `Scene.Leads` relates a scene to those that it
turns into, and the scenes of all runs are the `Scene.Reachable` ones.

Main statements: `Scene.sameRun_step`, `Scene.found_step`, `Scene.Reachable.induction`,
`Scene.Reachable.fixed`. -/

namespace Spectrum.Loader

open Z80 Tape

/-- A session, and one with the same tape, the same choices and the same start of the run. -/
structure Session.SameRun (s t : Session) : Prop where
  signal : t.signal = s.signal
  config : t.config = s.config
  loops : t.loops = s.loops
  runStart : t.runStart = s.runStart

namespace Scene

theorem sameRun_step (s : Scene) : s.session.SameRun s.step.1.1.session := by
  obtain ⟨_, _, _, _, _, -, hnotes⟩ := s.notes_execute
  obtain ⟨_, _, _, _, _, _, _, h⟩ := s.session_step
  rw [h, hnotes]
  exact ⟨rfl, rfl, rfl, rfl⟩

/-- Behind the instruction nothing becomes known of polling loops. -/
theorem found_step (s : Scene) : s.step.1.1.session.found = s.execute.1.session.found := by
  obtain ⟨_, _, _, _, _, _, _, h⟩ := s.session_step
  rw [h]

/-! ### Scenes that lead to others -/

/-- A scene and what it turns into. -/
inductive Leads : Scene → Scene → Prop
  | refl (s : Scene) : Leads s s
  | start {s t : Scene} (h : Leads s t) : Leads s (t.mapSession (·.startTape t.clock))
  | type {s t : Scene} (h : Leads s t) (chords : List (List String)) :
      Leads s (t.mapSession (·.typeThenStart chords))
  | step {s t : Scene} (h : Leads s t) (hok : t.step.1.2 = .ok false) : Leads s t.step.1.1

/-- The scene that a number of steps leads to. -/
def after (s : Scene) : Nat → Scene
  | 0 => s
  | n + 1 => (s.after n).step.1.1

theorem leads_after {s : Scene} {n : Nat} (h : ∀ k < n, (s.after k).step.1.2 = .ok false) :
    Leads s (s.after n) := by
  induction n with
  | zero => exact .refl s
  | succ n ih => exact (ih fun k hk => h k (by omega)).step (h n (Nat.lt_succ_self n))

/-- The scenes of the runs with a tape and a configuration. -/
def Reachable (signal : Signal) (config : Config) (s : Scene) : Prop :=
  ∃ machine session, Session.create signal config machine.cpu.clock = .ok session ∧
    Leads { machine, session } s

theorem Leads.trans {s t u : Scene} (h : Leads s t) (h' : Leads t u) : Leads s u := by
  induction h' with
  | refl => exact h
  | start h' ih => exact ih.start
  | type h' chords ih => exact ih.type chords
  | step h' hok ih => exact ih.step hok

section

variable {signal : Signal} {config : Config} {s : Scene}

theorem Reachable.step (h : Reachable signal config s) (hok : s.step.1.2 = .ok false) :
    Reachable signal config s.step.1.1 := by
  obtain ⟨machine, session, hc, hl⟩ := h
  exact ⟨machine, session, hc, hl.step hok⟩

/-- An invariant of runs holds in all reachable scenes. -/
theorem Reachable.induction {P : Scene → Prop} (h : Reachable signal config s)
    (create : ∀ (machine : Machine) (session : Session),
      Session.create signal config machine.cpu.clock = .ok session → P { machine, session })
    (start : ∀ t, Reachable signal config t → P t → P (t.mapSession (·.startTape t.clock)))
    (type : ∀ t chords, Reachable signal config t → P t →
      P (t.mapSession (·.typeThenStart chords)))
    (step : ∀ t, Reachable signal config t → P t → t.step.1.2 = .ok false → P t.step.1.1) :
    P s := by
  obtain ⟨machine, session, hc, hl⟩ := h
  induction hl with
  | refl => exact create machine session hc
  | start hl ih => exact start _ ⟨machine, session, hc, hl⟩ ih
  | type hl chords ih => exact type _ chords ⟨machine, session, hc, hl⟩ ih
  | step hl hok ih => exact step _ ⟨machine, session, hc, hl⟩ ih hok

/-- The tape, the choices and the start of the run stay throughout. -/
theorem Reachable.fixed (h : Reachable signal config s) :
    s.session.signal = signal ∧ s.session.config = config ∧
      config.loops = .ok s.session.loops := by
  refine h.induction (P := fun t => t.session.signal = signal ∧ t.session.config = config ∧
    config.loops = .ok t.session.loops) (fun machine session hc => ?_) (fun t _ ih => ih)
    (fun t _ _ ih => ih) fun t _ ih _ => ?_
  · obtain ⟨loops, hl, rfl⟩ := Session.create_eq_ok_iff.mp hc
    exact ⟨rfl, rfl, hl⟩
  · have hsame := t.sameRun_step
    rw [hsame.signal, hsame.config, hsame.loops]
    exact ih

end

end Scene
end Spectrum.Loader
