import Mathlib.Tactic.Common
import Spectrum.Proofs.Loader.Run

/-! # Loops that were found

A session remembers a polling loop by the address at which it was found, and never forgets it.  So
a loop that is skipped did stand at its address when its port read was executed first, but memory
may have changed since: whether it still stands there is the same as whether the bytes of its
pattern are still what they were.

Main statements: `PollingLoop.isAt_iff`, `Scene.Reachable.exists_found`,
`Scene.isAt_of_skips_iff`. -/

namespace Spectrum.Loader

open Z80 Tape

/-! ### Patterns in memory -/

namespace PollingLoop

/-- A pattern stands at an address if all its bytes do that are not left open. -/
theorem fitsAt_iff (memory : Memory) (address : UInt16) (pattern : List (Option UInt8)) :
    fitsAt memory address pattern = true ↔
      ∀ i b, pattern[i]? = some (some b) → memory.read (address + UInt16.ofNat i) = b := by
  induction pattern generalizing address with
  | nil => simp [fitsAt]
  | cons cell pattern ih =>
    have hshift : ∀ i : Nat, address + UInt16.ofNat (i + 1) = address + 1 + UInt16.ofNat i := by
      intro i
      rw [UInt16.ofNat_add, UInt16.add_comm (UInt16.ofNat i), UInt16.add_assoc]
      rfl
    have hsplit : (∀ i b, (cell :: pattern)[i]? = some (some b) →
          memory.read (address + UInt16.ofNat i) = b) ↔
        (∀ b, cell = some b → memory.read address = b) ∧
          ∀ i b, pattern[i]? = some (some b) → memory.read (address + 1 + UInt16.ofNat i) = b := by
      constructor
      · intro h
        refine ⟨fun b hb => ?_, fun i b hb => ?_⟩
        · simpa using h 0 b (by simpa using hb)
        · rw [← hshift]
          exact h (i + 1) b hb
      · rintro ⟨h0, h⟩ i b hb
        cases i with
        | zero => simpa using h0 b (by simpa using hb)
        | succ i =>
          rw [hshift]
          exact h i b hb
    rw [hsplit, ← ih]
    cases cell with
    | none => simp [fitsAt]
    | some b =>
      rw [fitsAt, Bool.and_eq_true, beq_iff_eq]
      constructor
      · rintro ⟨h, h'⟩
        exact ⟨fun c hc => h.symm.trans (Option.some.inj hc), h'⟩
      · rintro ⟨h, h'⟩
        exact ⟨(h b rfl).symm, h'⟩

theorem isAt_iff (loop : PollingLoop) (memory : Memory) (address : UInt16) :
    loop.isAt memory address = true ↔
      ∀ i b, loop.pattern[i]? = some (some b) → memory.read (address + UInt16.ofNat i) = b :=
  fitsAt_iff memory address loop.pattern

/-- Where a loop stands, it stands in another memory exactly if that has the same bytes for it. -/
theorem isAt_iff_of_isAt {loop : PollingLoop} {memory : Memory} {address : UInt16}
    (h : loop.isAt memory address = true) (memory' : Memory) :
    loop.isAt memory' address = true ↔
      ∀ i b, loop.pattern[i]? = some (some b) →
        memory'.read (address + UInt16.ofNat i) = memory.read (address + UInt16.ofNat i) := by
  rw [isAt_iff] at h ⊢
  constructor
  · intro h' i b hb
    rw [h i b hb, h' i b hb]
  · intro h' i b hb
    rw [h' i b hb, h i b hb]

end PollingLoop

/-! ### The loops of a configuration -/

theorem mem_catalogue_of_addChoice {selected loops : List PollingLoop} {name : String}
    (h : addChoice selected name = .ok loops) (hs : ∀ loop ∈ selected, loop ∈ catalogue) :
    ∀ loop ∈ loops, loop ∈ catalogue := by
  intro loop hl
  unfold addChoice at h
  split at h
  · cases h
    exact hl
  · split at h
    · cases h
      cases hl
    · split at h
      · cases h
      · rename_i named hn
        split at h
        · cases h
          exact hs loop hl
        · cases h
          rcases List.mem_append.mp hl with hl | hl
          · exact hs loop hl
          · obtain rfl := List.mem_singleton.mp hl
            unfold PollingLoop.named? PollingLoop.canonical? at hn
            split at hn <;> exact List.mem_of_find?_eq_some hn

theorem mem_catalogue_of_loops {config : Config} {loops : List PollingLoop}
    (h : config.loops = .ok loops) : ∀ loop ∈ loops, loop ∈ catalogue := by
  have hfold : ∀ (names : List String) (selected loops : List PollingLoop),
      (∀ loop ∈ selected, loop ∈ catalogue) → names.foldlM addChoice selected = .ok loops →
        ∀ loop ∈ loops, loop ∈ catalogue := by
    intro names
    induction names with
    | nil =>
      intro selected loops hs hl
      cases hl
      exact hs
    | cons name rest ih =>
      intro selected loops hs hl
      rw [List.foldlM_cons] at hl
      cases ha : addChoice selected name with
      | error e =>
        rw [ha] at hl
        cases hl
      | ok added =>
        rw [ha] at hl
        exact ih added loops (mem_catalogue_of_addChoice ha hs) hl
  unfold Config.loops at h
  split at h
  · cases h
  · rename_i chosen hc
    cases h
    split
    · exact hfold _ _ _ (fun _ hl => absurd hl List.not_mem_nil) hc
    · exact fun _ hl => absurd hl List.not_mem_nil

/-! ### What an instruction finds -/

/-- Where a loop is found, and by which instruction. -/
structure FoundAt (loops : List PollingLoop) (memory : Memory) (address : UInt16)
    (entry : UInt16 × PollingLoop) : Prop where
  mem : entry.2 ∈ loops
  isAt : entry.2.isAt memory entry.1 = true
  address : address = entry.1 + entry.2.inOffset

namespace Session

theorem mem_found_of_foundAt? {s : Session} {address : UInt16} {loop : PollingLoop}
    (h : s.foundAt? address = some loop) : (address, loop) ∈ s.found := by
  obtain ⟨l₁, l₂, hl, -⟩ := List.lookup_eq_some_iff.mp h
  rw [hl]
  exact List.mem_append_right l₁ List.mem_cons_self

theorem foundAt_of_loopAround? {s : Session} {memory : Memory} {address : UInt16}
    {entry : UInt16 × PollingLoop} (h : s.loopAround? memory address = some entry) :
    FoundAt s.loops memory address entry := by
  unfold loopAround? at h
  obtain ⟨loop, hl, hs⟩ := List.exists_of_findSome?_eq_some h
  dsimp only at hs
  split at hs
  · rename_i hat
    cases hs
    exact ⟨hl, hat, by simp⟩
  · cases hs

theorem found_detectLoop {s : Session} {memory : Memory} {address : UInt16}
    {entry : UInt16 × PollingLoop} (h : entry ∈ (s.detectLoop memory address).found) :
    entry ∈ s.found ∨ FoundAt s.loops memory address entry := by
  unfold detectLoop at h
  dsimp only at h
  split at h
  · exact .inl h
  · split at h
    · exact .inl h
    · rename_i start loop hl
      rcases List.mem_cons.mp h with rfl | h
      · exact .inr (foundAt_of_loopAround? (s := s) hl)
      · exact .inl h

theorem found_note {m : Machine} {address : UInt16} {s : Session} {event : BusEvent}
    {entry : UInt16 × PollingLoop} (h : entry ∈ (note m address s event).found) :
    entry ∈ s.found ∨ FoundAt s.loops m.memory address entry := by
  cases event with
  | input port value =>
    simp only [note, noteInput] at h
    split at h
    · split at h
      · exact found_detectLoop (s := s.advanceTape m.cpu.clock) h
      · exact .inl h
    · exact .inl h
  | output port value =>
    simp only [note, noteOutput] at h
    split at h <;> exact .inl h
  | read address value => exact .inl h
  | write address value => exact .inl h

theorem found_foldl_note {m : Machine} {address : UInt16} {s : Session} {events : List BusEvent}
    {entry : UInt16 × PollingLoop} (h : entry ∈ (events.foldl (note m address) s).found) :
    entry ∈ s.found ∨ FoundAt s.loops m.memory address entry := by
  induction events generalizing s with
  | nil => exact .inl h
  | cons event rest ih =>
    rcases ih h with h | h
    · exact found_note h
    · rw [(notes_note m address s event).later.loops] at h
      exact .inr h

end Session

namespace Scene

/-- A loop that an instruction finds stands in the memory that it is executed in. -/
theorem found_execute {s : Scene} {entry : UInt16 × PollingLoop}
    (h : entry ∈ s.execute.1.session.found) :
    entry ∈ s.session.found ∨
      FoundAt s.session.loops s.machine.memory s.machine.cpu.pc entry :=
  Session.found_foldl_note h

/-! ### What a run has found -/

section

variable {signal : Signal} {config : Config} {s : Scene}

/-- Every loop that is known stood in memory in an earlier scene of the run. -/
theorem Reachable.exists_found (h : Reachable signal config s) {entry : UInt16 × PollingLoop}
    (hf : entry ∈ s.session.found) :
    ∃ u, Reachable signal config u ∧ u.Leads s ∧
      FoundAt s.session.loops u.machine.memory u.machine.cpu.pc entry := by
  revert entry
  refine h.induction (P := fun t => ∀ {entry}, entry ∈ t.session.found →
    ∃ u, Reachable signal config u ∧ u.Leads t ∧
      FoundAt t.session.loops u.machine.memory u.machine.cpu.pc entry)
    (fun machine session hc entry hf => ?_) (fun t _ ih entry hf => ?_)
    (fun t chords _ ih entry hf => ?_) fun t ht ih hok entry hf => ?_
  · obtain ⟨loops, -, rfl⟩ := Session.create_eq_ok_iff.mp hc
    cases hf
  · obtain ⟨u, hu, hl, hfound⟩ := ih hf
    exact ⟨u, hu, hl.start, hfound⟩
  · obtain ⟨u, hu, hl, hfound⟩ := ih hf
    exact ⟨u, hu, hl.type chords, hfound⟩
  · rw [t.found_step] at hf
    rw [t.sameRun_step.loops]
    rcases found_execute hf with hf | hf
    · obtain ⟨u, hu, hl, hfound⟩ := ih hf
      exact ⟨u, hu, hl.step hok, hfound⟩
    · exact ⟨t, ht, (Leads.refl t).step hok, hf⟩

end

theorem Reachable.mem_catalogue {signal : Signal} {config : Config} {s : Scene}
    (h : Reachable signal config s) {address : UInt16} {loop : PollingLoop}
    (hf : s.execute.1.session.foundAt? address = some loop) : loop ∈ catalogue := by
  have hloops := mem_catalogue_of_loops h.fixed.2.2
  rcases found_execute (Session.mem_found_of_foundAt? hf) with hf | hf
  · obtain ⟨u, -, -, hfound⟩ := h.exists_found hf
    exact hloops loop hfound.mem
  · exact hloops loop hf.mem

/-! ### Skips -/

/-- In the step of a scene, `n` iterations of a loop at an address are skipped. -/
structure Skips (s : Scene) (address : UInt16) (loop : PollingLoop) (n : Nat) : Prop where
  pc : s.execute.1.machine.cpu.pc = address
  found : s.execute.1.session.foundAt? address = some loop
  pos : 0 < n
  atTrap : s.atTrap = s.execute.1.mapCpu (afterIterations loop n)

/-- Whenever iterations of a loop are skipped, the loop has stood there in an earlier scene of the
run; and it stands there now exactly if no byte of its pattern has changed since. -/
theorem isAt_of_skips_iff {signal : Signal} {config : Config} {s : Scene}
    (h : Reachable signal config s) {address : UInt16} {loop : PollingLoop} {n : Nat}
    (hs : s.Skips address loop n) :
    ∃ u, Reachable signal config u ∧ u.Leads s ∧ loop ∈ s.session.loops ∧
      loop.isAt u.machine.memory address = true ∧
      u.machine.cpu.pc = address + loop.inOffset ∧
      (loop.isAt s.atTrap.machine.memory address = true ↔
        ∀ i b, loop.pattern[i]? = some (some b) →
          s.atTrap.machine.memory.read (address + UInt16.ofNat i) =
            u.machine.memory.read (address + UInt16.ofNat i)) := by
  have hf := Session.mem_found_of_foundAt? hs.found
  obtain ⟨u, hu, hl, hfound⟩ : ∃ u, Reachable signal config u ∧ u.Leads s ∧
      FoundAt s.session.loops u.machine.memory u.machine.cpu.pc (address, loop) := by
    rcases found_execute hf with hf | hf
    · exact h.exists_found hf
    · exact ⟨s, h, Leads.refl s, hf⟩
  exact ⟨u, hu, hl, hfound.mem, hfound.isAt, hfound.address,
    PollingLoop.isAt_iff_of_isAt hfound.isAt _⟩

/-! ### A loop that is overwritten -/

/-- A machine that samples the tape in a polling loop, leaves it, and puts another jump in the place
of the one that closes the loop. -/
def rewritingMachine : Machine where
  cpu := { Cpu.powerOn with bc := 0x8040, hl := 0x8007, pc := 0x8002 }
  memory := Memory.blank.writeAll 0x8000
    [0x05, 0xC8, 0xDB, 0xFE, 0xA9, 0xE6, 0x40, 0xCA, 0x00, 0x80,
      0x0E, 0x00, 0x36, 0xC3, 0x18, 0xF7]

/-- A tape with two pulses. -/
def twoPulses : Signal where
  blocks := #[{ kind := .pulses, pulses := [30000, 30000] }]
  edges := #[30000, 60000]
  ranges := []

/-- That machine with the tape about to play. -/
def rewritingScene : Scene where
  machine := rewritingMachine
  session :=
    { signal := twoPulses, config := {}, loops := catalogue, runStart := 0, origin := some 0 }

/-- Without other choices all known loops are looked for. -/
theorem create_default (signal : Signal) (clock : UInt64) : Session.create signal {} clock =
    .ok { signal, config := {}, loops := catalogue, runStart := clock } := by
  rfl

theorem reachable_rewritingScene : Reachable twoPulses {} (rewritingScene.after 7) := by
  refine ⟨rewritingMachine, _, create_default twoPulses 0, (Leads.refl _).start.trans ?_⟩
  exact leads_after (s := rewritingScene) (by decide +kernel)

/-- The eighth instruction is the jump that was written, and iterations of the loop of which it has
taken a byte are skipped. -/
theorem skips_rewritingScene :
    (rewritingScene.after 7).Skips 0x8000 (catalogue.getD 18 default) 0x7F where
  pc := by decide +kernel
  found := by decide +kernel
  pos := by decide
  atTrap := by
    have hn : idleIterations (rewritingScene.after 7).execute.1.session 0
        (catalogue.getD 18 default) (rewritingScene.after 7).execute.1.machine.cpu = 0x7F := by
      decide +kernel
    rw [← hn]
    apply skipIterations_eq <;> decide +kernel

/-- The loop was found there before the jump was overwritten. -/
theorem exists_found_rewritingScene :
    Reachable twoPulses {} (rewritingScene.after 7) ∧
      (rewritingScene.after 7).Skips 0x8000 (catalogue.getD 18 default) 0x7F ∧
      ∃ u, Reachable twoPulses {} u ∧ u.Leads (rewritingScene.after 7) ∧
        (catalogue.getD 18 default).isAt u.machine.memory 0x8000 = true := by
  obtain ⟨u, hu, hl, -, hat, -⟩ := isAt_of_skips_iff reachable_rewritingScene skips_rewritingScene
  exact ⟨reachable_rewritingScene, skips_rewritingScene, u, hu, hl, hat⟩

/-- The bytes at the address of the loop are no longer its own. -/
theorem exists_skips_not_isAt :
    ¬ ∀ (signal : Signal) (config : Config) (s : Scene) (address : UInt16) (loop : PollingLoop)
        (n : Nat), Reachable signal config s → s.Skips address loop n →
      loop.isAt s.atTrap.machine.memory address = true := by
  intro h
  have hat := h _ _ _ _ _ _ reachable_rewritingScene skips_rewritingScene
  revert hat
  decide +kernel

end Scene
end Spectrum.Loader
