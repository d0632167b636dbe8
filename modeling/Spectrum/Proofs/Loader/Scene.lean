import Mathlib.Tactic.Common
import Spectrum.Loader.Watch
import Spectrum.Proofs.Tape.Signal

/-! # The parts of a step

A step of a scene is an instruction, which `Scene.execute` carries out, and what happens after it.
`Scene.atTrap` is the scene between the skipped iterations and the loading routine.

For each part there is one account of the session behind it, as the session before it with some
fields replaced: `Scene.notes_execute`, `Scene.session_trapRoutine`, `Scene.session_typeKeys`,
`Scene.session_offerInterrupt` and `Scene.session_ending`.  Whatever else is said of the sessions of
a step is read off these, such as `Session.Later`: the tape and the choices stay, and edges never
come back unless the tape starts anew.

Main definitions: `Session.Later`, `Scene.Outcome`.
Main statements: `Scene.outcome_step`, `Scene.session_step`, `Scene.later_step_of_trap`. -/

namespace Spectrum.Loader

open Z80 Tape

/-! ### Later stages of a session -/

/-- A session, and one that it has turned into without the tape being started. -/
structure Session.Later (s t : Session) : Prop where
  signal : t.signal = s.signal
  config : t.config = s.config
  loops : t.loops = s.loops
  runStart : t.runStart = s.runStart
  origin : t.origin = none ↔ s.origin = none
  typing : t.typing = none ↔ s.typing = none
  index : s.index ≤ t.index

namespace Session

theorem create_eq_ok_iff {signal : Signal} {config : Config} {clock : UInt64} {s : Session} :
    create signal config clock = .ok s ↔
      ∃ loops, config.loops = .ok loops ∧ s = { signal, config, loops, runStart := clock } := by
  unfold create
  cases config.loops with
  | error e => simp
  | ok loops => simp [eq_comm]

theorem Later.trans {s t u : Session} (h : s.Later t) (h' : t.Later u) : s.Later u where
  signal := h'.signal.trans h.signal
  config := h'.config.trans h.config
  loops := h'.loops.trans h.loops
  runStart := h'.runStart.trans h.runStart
  origin := h'.origin.trans h.origin
  typing := h'.typing.trans h.typing
  index := Nat.le_trans h.index h'.index

theorem index_le_indexAt (s : Session) (clock : UInt64) : s.index ≤ s.indexAt clock := by
  unfold indexAt
  split
  · exact Nat.le_refl _
  · split
    · exact Nat.le_refl _
    · exact Nat.le_max_left _ _

/-- The tape that has been moved on to a time is where it has to be at that time. -/
theorem indexAt_advanceTape (s : Session) (clock : UInt64) :
    (s.advanceTape clock).indexAt clock = s.indexAt clock := by
  cases ho : s.origin with
  | none => simp [indexAt, advanceTape, ho]
  | some origin =>
    by_cases h : clock < origin <;> simp [indexAt, advanceTape, ho, h]

theorem detectLoop_eq (s : Session) (memory : Memory) (address : UInt16) :
    ∃ found examined, s.detectLoop memory address = { s with found, examined } := by
  unfold detectLoop
  dsimp only
  split
  · exact ⟨_, _, rfl⟩
  · split <;> exact ⟨_, _, rfl⟩

/-- A sample moves the tape on, and may find a loop. -/
theorem noteInput_eq (s : Session) (m : Machine) (address : UInt16) {port : UInt16}
    (h : isUlaPort port = true) : ∃ found examined lastSample,
      s.noteInput m address port =
        { s.advanceTape m.cpu.clock with found, examined, lastSample } := by
  unfold noteInput
  rw [if_pos h]
  dsimp only
  split
  · obtain ⟨found, examined, hd⟩ := (s.advanceTape m.cpu.clock).detectLoop_eq m.memory address
    exact ⟨found, examined, address, by rw [hd]⟩
  · exact ⟨_, _, _, rfl⟩

/-- A session, and the same with what may have been noted of an instruction at a time. -/
def Notes (s : Session) (clock : UInt64) (t : Session) : Prop :=
  ∃ index border found examined lastSample,
    (index = s.index ∨ index = s.indexAt clock) ∧
      t = { s with index, border, found, examined, lastSample }

theorem notes_note (m : Machine) (address : UInt16) (s : Session) (event : BusEvent) :
    s.Notes m.cpu.clock (note m address s event) := by
  cases event with
  | input port value =>
    by_cases h : isUlaPort port
    · obtain ⟨found, examined, lastSample, hn⟩ := s.noteInput_eq m address h
      exact ⟨_, _, found, examined, lastSample, .inr rfl, hn⟩
    · exact ⟨_, _, _, _, _, .inl rfl, if_neg h⟩
  | output port value =>
    simp only [note, noteOutput]
    split <;> exact ⟨_, _, _, _, _, .inl rfl, rfl⟩
  | read address value => exact ⟨_, _, _, _, _, .inl rfl, rfl⟩
  | write address value => exact ⟨_, _, _, _, _, .inl rfl, rfl⟩

theorem Notes.trans {s t u : Session} {clock : UInt64} (h : s.Notes clock t)
    (h' : t.Notes clock u) : s.Notes clock u := by
  obtain ⟨i, _, _, _, _, hi, rfl⟩ := h
  obtain ⟨j, _, _, _, _, hj, rfl⟩ := h'
  refine ⟨j, _, _, _, _, ?_, rfl⟩
  rcases hi with rfl | rfl
  · exact hj
  · refine .inr (hj.elim id fun hj => ?_)
    rw [hj]
    exact s.indexAt_advanceTape clock

/-- All that is noted of an instruction. -/
theorem notes_foldl_note (m : Machine) (address : UInt16) (s : Session) (events : List BusEvent) :
    s.Notes m.cpu.clock (events.foldl (note m address) s) := by
  induction events generalizing s with
  | nil => exact ⟨_, _, _, _, _, .inl rfl, rfl⟩
  | cons event rest ih => exact (notes_note m address s event).trans (ih _)

theorem Notes.later {s t : Session} {clock : UInt64} (h : s.Notes clock t) : s.Later t := by
  obtain ⟨index, _, _, _, _, hi, rfl⟩ := h
  refine ⟨rfl, rfl, rfl, rfl, Iff.rfl, Iff.rfl, ?_⟩
  rcases hi with rfl | rfl
  · exact Nat.le_refl _
  · exact s.index_le_indexAt clock

end Session

namespace Scene

/-! ### The instruction -/

/-- The instruction of a step, with what the session notes of it. -/
def execute (s : Scene) : Scene × Executed :=
  let (machine, e) := s.machine.step (s.session.answer s.clock)
  ({ s with machine, session := e.events.foldl (Session.note s.machine e.address) s.session }, e)

/-- The scene of a step in which the loading routine may be trapped. -/
def atTrap (s : Scene) : Scene := s.execute.1.skipIterations s.execute.2

theorem step_eq (s : Scene) : s.step = (s.execute.1.afterInstruction s.execute.2, s.execute.2) :=
  rfl

theorem notes_execute (s : Scene) : s.session.Notes s.clock s.execute.1.session :=
  Session.notes_foldl_note _ _ _ _

theorem later_execute (s : Scene) : s.session.Later s.execute.1.session := s.notes_execute.later

theorem origin_execute (s : Scene) : s.execute.1.session.origin = s.session.origin := by
  obtain ⟨_, _, _, _, _, -, h⟩ := s.notes_execute
  rw [h]

theorem keyboard_execute (s : Scene) : s.execute.1.session.keyboard = s.session.keyboard := by
  obtain ⟨_, _, _, _, _, -, h⟩ := s.notes_execute
  rw [h]

/-! ### Polling loops -/

/-- Either nothing is skipped, or the idle iterations of a loop that is known at the program
counter, sampled by the latest port read and left by the instruction. -/
theorem skipIterations_cases (s : Scene) (e : Executed) :
    s.skipIterations e = s ∨
      ∃ origin loop, s.session.origin = some origin ∧ s.machine.cpu.iff1 = false ∧
        s.session.foundAt? s.machine.cpu.pc = some loop ∧
        (e.address - s.machine.cpu.pc).toNat < loop.pattern.length ∧
        s.session.lastSample = s.machine.cpu.pc + loop.inOffset ∧
        0 < idleIterations s.session origin loop s.machine.cpu ∧
        s.skipIterations e =
          s.mapCpu (afterIterations loop (idleIterations s.session origin loop s.machine.cpu)) := by
  unfold skipIterations
  dsimp only
  split
  · exact .inl rfl
  · rename_i origin ho
    split
    · exact .inl rfl
    · rename_i hi
      split
      · exact .inl rfl
      · rename_i loop hl
        split
        · rename_i hc
          split
          · exact .inl rfl
          · rename_i hn
            refine .inr ⟨origin, loop, ho, ?_, hl, hc.1, hc.2, Nat.pos_of_ne_zero hn, rfl⟩
            simp only [Bool.or_eq_true, not_or, Bool.not_eq_true] at hi
            exact hi.2
        · exact .inl rfl

/-- The idle iterations of a loop are skipped when it has been sampled and left. -/
theorem skipIterations_eq {s : Scene} {e : Executed} {origin : UInt64} {loop : PollingLoop}
    (ho : s.session.origin = some origin) (hl : s.session.loops ≠ [])
    (hi : s.machine.cpu.iff1 = false)
    (hf : s.session.foundAt? s.machine.cpu.pc = some loop)
    (he : (e.address - s.machine.cpu.pc).toNat < loop.pattern.length)
    (hs : s.session.lastSample = s.machine.cpu.pc + loop.inOffset)
    (hn : 0 < idleIterations s.session origin loop s.machine.cpu) :
    s.skipIterations e =
      s.mapCpu (afterIterations loop (idleIterations s.session origin loop s.machine.cpu)) := by
  have hl' : s.session.loops.isEmpty = false := by
    simpa using hl
  unfold skipIterations
  simp only [ho, hl', hi, Bool.or_self, Bool.false_eq_true, if_false, hf]
  rw [if_pos ⟨he, hs⟩]
  split
  · omega
  · rfl

@[simp] theorem session_skipIterations (s : Scene) (e : Executed) :
    (s.skipIterations e).session = s.session := by
  rcases s.skipIterations_cases e with h | ⟨origin, loop, -, -, -, -, -, -, h⟩
  · rw [h]
  · rw [h]
    rfl

theorem session_atTrap (s : Scene) : s.atTrap.session = s.execute.1.session :=
  session_skipIterations _ _

theorem later_atTrap (s : Scene) : s.session.Later s.atTrap.session := by
  rw [session_atTrap]
  exact s.later_execute

/-! ### The loading routine -/

@[simp] theorem session_foldl_report (s : Scene) (passed : List Block) :
    (passed.foldl (fun s block => s.report (.skipped block.describe)) s).session = s.session := by
  induction passed generalizing s with
  | nil => rfl
  | cons block rest ih =>
    rw [List.foldl_cons, ih]
    rfl

@[simp] theorem machine_foldl_report (s : Scene) (passed : List Block) :
    (passed.foldl (fun s block => s.report (.skipped block.describe)) s).machine = s.machine := by
  induction passed generalizing s with
  | nil => rfl
  | cons block rest ih =>
    rw [List.foldl_cons, ih]
    rfl

theorem session_moveTapeTo (s : Scene) (index : Nat) :
    ∃ origin, (s.moveTapeTo index).session = { s.session with index, origin } ∧
      (origin = none ↔ s.session.origin = none) := by
  unfold moveTapeTo
  dsimp only [mapSession]
  split
  · rename_i last origin _ h
    split
    · exact ⟨_, rfl, Iff.rfl⟩
    · refine ⟨_, rfl, ?_⟩
      simp only [reduceCtorEq, false_iff]
      rw [h]
      exact Option.some_ne_none _
  · exact ⟨_, rfl, Iff.rfl⟩

/-- Moving the tape goes on to an edge, or if that has passed, back to it. -/
theorem moveTapeTo_cases (s : Scene) (last : Nat) {origin : UInt64}
    (ho : s.session.origin = some origin) :
    let edge := UInt64.ofNat (s.session.signal.edges.getD last 0)
    let moved := s.moveTapeTo (last + 1)
    (s.clock < origin + edge ∧ moved.clock = origin + edge ∧
        moved.session = { s.session with index := last + 1 }) ∨
      ¬ s.clock < origin + edge ∧ moved.clock = s.clock ∧
        moved.session = { s.session with index := last + 1, origin := some (s.clock - edge) } := by
  intro edge moved
  by_cases h : s.clock < origin + edge
  · refine .inl ⟨h, ?_⟩
    have hm : moved = (s.mapSession fun t => { t with index := last + 1 }).mapCpu fun c =>
        { c with
          toRegisterFile := c.toRegisterFile.refresh
            (((origin + edge - s.clock) / UInt64.ofNat PollingLoop.rom.loopTime).toNat *
              PollingLoop.rom.refreshes)
          clock := c.clock + (origin + edge - s.clock) } := by
      unfold moved moveTapeTo
      simp only [mapSession, ho]
      exact if_pos h
    rw [hm]
    refine ⟨?_, rfl⟩
    change s.clock + (origin + edge - s.clock) = origin + edge
    grind
  · refine .inr ⟨h, ?_⟩
    have hm : moved = s.mapSession fun t =>
        { t with index := last + 1, origin := some (s.clock - edge) } := by
      unfold moved moveTapeTo
      simp only [mapSession, ho]
      exact if_neg h
    rw [hm]
    exact ⟨rfl, rfl⟩

/-- The blocks that a list of ranges holds with a wanted flag begin with the one that is found. -/
theorem snd_nextBlock (signal : Signal) (flag : UInt8) (ranges : List DataRange) :
    (nextBlock signal flag ranges).2 =
      (ranges.find? fun range => (signal.blocks.getD range.block {}).flag == flag).map
        fun range => (range, signal.blocks.getD range.block {}) := by
  induction ranges with
  | nil => rfl
  | cons range rest ih =>
    rw [nextBlock]
    by_cases hf : ((signal.blocks.getD range.block {}).flag == flag) = true
    · rw [if_pos hf, List.find?_cons, hf]
      rfl
    · rw [if_neg hf, List.find?_cons, Bool.eq_false_iff.mpr hf, ← ih]

/-- What the loading routine finds ahead on the tape, if anything. -/
def ahead? (s : Scene) : Option DataRange :=
  s.session.signal.nextRange? (s.session.indexAt s.clock) s.machine.cpu.a

/-- The scene with the blocks reported that the loading routine passes over. -/
def passedOver (s : Scene) : Scene :=
  (nextBlock s.session.signal s.machine.cpu.a
    (s.session.signal.ranges.dropWhile fun range =>
      range.data < s.session.indexAt s.clock)).1.foldl
    (fun s block => s.report (.skipped block.describe)) (s.mapSession (·.advanceTape s.clock))

theorem loadBlock_eq (s : Scene) :
    s.loadBlock =
      match s.ahead?.map fun range => (range, s.session.signal.blocks.getD range.block {}) with
      | none => (s.passedOver, some .endOfTape)
      | some (range, block) =>
        let t := s.passedOver.report (blockNotice s.passedOver.machine.cpu block.data)
        let u := { t with machine := placeData t.machine block.data }
        ({ u.moveTapeTo range.stop with
          machine := leaveRoutine (u.moveTapeTo range.stop).machine }, none) := by
  unfold ahead? Signal.nextRange? Signal.flagOf
  rw [← snd_nextBlock]
  rfl

@[simp] theorem machine_passedOver (s : Scene) : s.passedOver.machine = s.machine := by
  unfold passedOver
  rw [machine_foldl_report]
  rfl

@[simp] theorem session_passedOver (s : Scene) :
    s.passedOver.session = s.session.advanceTape s.clock := by
  unfold passedOver
  rw [session_foldl_report]
  rfl

theorem loadBlock_of_none {s : Scene} (h : s.ahead? = none) :
    s.loadBlock = (s.passedOver, some .endOfTape) := by
  rw [loadBlock_eq, h]
  rfl

/-- A block that is found is placed in memory, and the tape moves on behind it. -/
theorem loadBlock_of_some {s : Scene} {range : DataRange} (h : s.ahead? = some range) :
    ∃ t : Scene, t.machine =
        placeData s.machine (s.session.signal.blocks.getD range.block {}).data ∧
      t.session = s.session.advanceTape s.clock ∧
      s.loadBlock = ({ t.moveTapeTo range.stop with
        machine := leaveRoutine (t.moveTapeTo range.stop).machine }, none) := by
  rw [loadBlock_eq, h]
  refine ⟨_, ?_, ?_, rfl⟩
  · simp [report]
  · simp [report]

@[simp] theorem cpu_writeBytes (m : Machine) (address : UInt16) (data : List UInt8) :
    (writeBytes m address data).cpu = m.cpu := by
  induction data generalizing m address with
  | nil => rfl
  | cons b rest ih => rw [writeBytes, ih, Machine.cpu_write]

theorem clock_placeData (m : Machine) (data : List UInt8) :
    (placeData m data).cpu.clock = m.cpu.clock := by
  unfold placeData
  dsimp only
  split <;> simp [Machine.mapCpu]

theorem clock_leaveRoutine (m : Machine) : (leaveRoutine m).cpu.clock = m.cpu.clock := by
  unfold leaveRoutine Machine.writeWord
  simp [Machine.mapCpu]

/-- Whether a step comes to the loading routine while the tape plays. -/
def traps (s : Scene) : Bool :=
  s.session.config.fastLoad && s.session.running && s.machine.cpu.pc == loadRoutine

theorem trapRoutine_of_traps {s : Scene} (h : s.traps = true) : s.trapRoutine = s.loadBlock :=
  if_pos h

theorem trapRoutine_of_untrapped {s : Scene} (h : s.traps = false) : s.trapRoutine = (s, none) :=
  if_neg (Bool.eq_false_iff.mp h)

theorem mem_of_ahead? {s : Scene} {blocks : List Block} (hp : s.session.signal.Plays blocks)
    {range : DataRange} (h : s.ahead? = some range) :
    range ∈ s.session.signal.ranges ∧ s.session.indexAt s.clock ≤ range.data := by
  unfold ahead? at h
  rw [hp.nextRange?_eq] at h
  obtain ⟨k, hk, hr⟩ := Option.bind_eq_some_iff.mp h
  obtain ⟨hlt, hd, -⟩ := Signal.nextPosition?_eq_some_iff.mp hk
  obtain ⟨-, rfl⟩ := List.getElem?_eq_some_iff.mp hr
  exact ⟨List.getElem_mem hlt, hd.1⟩

theorem ahead?_le {s : Scene} {blocks : List Block} (hp : s.session.signal.Plays blocks)
    {range : DataRange} (h : s.ahead? = some range) :
    s.session.indexAt s.clock ≤ range.data ∧ range.data ≤ range.stop := by
  obtain ⟨hmem, hle⟩ := mem_of_ahead? hp h
  exact ⟨hle, hp.data_le_stop hmem⟩

/-- The loading routine moves the tape, which stays where it is or goes on, and does not start
it. -/
theorem session_trapRoutine (s : Scene) : ∃ index origin,
    s.trapRoutine.1.session = { s.session with index, origin } ∧
      (origin = none ↔ s.session.origin = none) ∧
      ∀ blocks, s.session.signal.Plays blocks → s.session.index ≤ index := by
  have hnow := s.session.index_le_indexAt s.clock
  unfold trapRoutine
  split
  · cases h : s.ahead? with
    | none =>
      rw [loadBlock_of_none h, session_passedOver]
      exact ⟨_, _, rfl, Iff.rfl, fun _ _ => hnow⟩
    | some range =>
      obtain ⟨t, -, hs, ht⟩ := loadBlock_of_some h
      obtain ⟨origin, hm, ho⟩ := t.session_moveTapeTo range.stop
      rw [hs] at hm ho
      rw [ht]
      refine ⟨_, _, hm, ho, fun blocks hp => ?_⟩
      obtain ⟨hdata, hstop⟩ := ahead?_le hp h
      exact hnow.trans (hdata.trans hstop)
  · exact ⟨_, _, rfl, Iff.rfl, fun _ _ => Nat.le_refl _⟩

theorem later_trapRoutine {s : Scene} {blocks : List Block}
    (hp : s.session.signal.Plays blocks) : s.session.Later s.trapRoutine.1.session := by
  obtain ⟨index, origin, h, ho, hi⟩ := s.session_trapRoutine
  rw [h]
  exact ⟨rfl, rfl, rfl, rfl, ho, Iff.rfl, hi blocks hp⟩

/-! ### Keys, interrupts and the end -/

/-- Typing either goes on or ends with the tape starting. -/
theorem session_typeKeys (s : Scene) (frame : UInt64) : ∃ keyboard typing origin index,
    (s.typeKeys frame).1.session = { s.session with keyboard, typing, origin, index } ∧
      ((typing = none ↔ s.session.typing = none) ∧ origin = s.session.origin ∧
          index = s.session.index ∨
        s.session.typing ≠ none ∧ typing = none ∧ origin = some s.clock ∧ index = 0) := by
  unfold typeKeys
  split
  · exact ⟨_, _, _, _, rfl, .inl ⟨Iff.rfl, rfl, rfl⟩⟩
  · rename_i ht
    split
    · exact ⟨_, _, _, _, rfl, .inl ⟨by simp [ht], rfl, rfl⟩⟩
    · exact ⟨_, _, _, _, rfl, .inl ⟨Iff.rfl, rfl, rfl⟩⟩
  · rename_i first ht
    split
    · exact ⟨_, _, _, _, rfl, .inl ⟨Iff.rfl, rfl, rfl⟩⟩
    · dsimp only
      split
      · exact ⟨_, _, _, _, rfl, .inl ⟨Iff.rfl, rfl, rfl⟩⟩
      · split
        · exact ⟨_, _, _, _, rfl, .inl ⟨Iff.rfl, rfl, rfl⟩⟩
        · exact ⟨_, _, _, _, rfl, .inr ⟨by simp [ht], rfl, rfl, rfl⟩⟩

@[simp] theorem machine_typeKeys (s : Scene) (frame : UInt64) :
    (s.typeKeys frame).1.machine = s.machine := by
  unfold typeKeys
  split
  · rfl
  · split <;> rfl
  · split
    · rfl
    · dsimp only
      split
      · rfl
      · split <;> rfl

theorem clock_typeKeys (s : Scene) (frame : UInt64) : (s.typeKeys frame).1.clock = s.clock :=
  congrArg (·.cpu.clock) (s.machine_typeKeys frame)

/-- Either nothing happens, or an interrupt is accepted and its frame remembered. -/
theorem offerInterrupt_cases (s : Scene) (frame : UInt64) :
    s.offerInterrupt frame = s ∨
      ∃ a, s.machine.interrupt 0xFF = .ok (some a) ∧
        s.offerInterrupt frame =
          { s with
            machine := a.machine
            session := { s.session with interruptFrame := some frame } } := by
  unfold offerInterrupt
  split
  · split
    · rename_i a ha
      exact .inr ⟨a, ha, rfl⟩
    · exact .inl rfl
  · exact .inl rfl

theorem session_offerInterrupt (s : Scene) (frame : UInt64) : ∃ interruptFrame,
    (s.offerInterrupt frame).session = { s.session with interruptFrame } := by
  rcases s.offerInterrupt_cases frame with h | ⟨_, -, h⟩ <;> rw [h] <;> exact ⟨_, rfl⟩

/-- With interrupts disabled none is accepted. -/
theorem offerInterrupt_of_disabled {s : Scene} (h : s.machine.cpu.iff1 = false) (frame : UInt64) :
    s.offerInterrupt frame = s := by
  have hi : s.machine.interrupt 0xFF = .ok none := by
    unfold Machine.interrupt
    rw [h]
    rfl
  rcases s.offerInterrupt_cases frame with h | ⟨a, ha, -⟩
  · exact h
  · rw [hi] at ha
    cases ha

/-- At its end a step moves the tape on to now. -/
theorem session_ending (s : Scene) : ∃ finished stopReason,
    s.followTape.checkStop.1.session =
      { s.session.advanceTape s.clock with finished, stopReason } := by
  unfold checkStop followTape
  dsimp only
  split <;> split <;> exact ⟨_, _, rfl⟩

/-! ### The step -/

theorem step_of_trap_error {s t : Scene} {e : LoadError}
    (h : s.atTrap.trapRoutine = (t, some e)) : s.step.1 = (t, .error (.load e)) := by
  rw [step_eq]
  unfold afterInstruction
  rw [show s.execute.1.skipIterations s.execute.2 = s.atTrap from rfl, h]

/-- The step after a trap that does not fail. -/
theorem step_of_trap {s t : Scene} (h : s.atTrap.trapRoutine = (t, none)) :
    s.step.1 =
      match t.typeKeys (Clock.frame t.clock) with
      | (u, some error) => (u, .error (.key error))
      | (u, none) =>
        let v := ((u.offerInterrupt (Clock.frame t.clock)).followTape).checkStop
        (v.1, .ok v.2) := by
  have ha : s.execute.1.skipIterations s.execute.2 = s.atTrap := rfl
  rw [step_eq]
  unfold afterInstruction
  split
  · rename_i heq
    rw [ha, h] at heq
    cases heq
  · rename_i heq
    rw [ha, h] at heq
    cases heq
    rfl

theorem machine_followTape (s : Scene) : s.followTape.machine = s.machine := by
  unfold followTape
  dsimp only
  split <;> rfl

theorem machine_checkStop (s : Scene) : s.checkStop.1.machine = s.machine := by
  unfold checkStop
  split <;> rfl

/-- A step in which nothing is skipped, trapped or interrupted changes the machine by its
instruction only. -/
theorem machine_step_of_quiet {s : Scene}
    (hf : s.execute.1.session.foundAt? s.execute.1.machine.cpu.pc = none)
    (ht : s.execute.1.traps = false) (hi : s.execute.1.machine.cpu.iff1 = false) :
    s.step.1.1.machine = s.execute.1.machine := by
  have ha : s.atTrap = s.execute.1 := by
    rcases s.execute.1.skipIterations_cases s.execute.2 with h | ⟨_, _, -, -, hf', -⟩
    · exact h
    · rw [hf] at hf'
      cases hf'
  have hr : s.atTrap.trapRoutine = (s.execute.1, none) := by
    rw [ha]
    exact trapRoutine_of_untrapped ht
  rw [step_of_trap hr]
  have hm := s.execute.1.machine_typeKeys (Clock.frame s.execute.1.clock)
  rcases hk : s.execute.1.typeKeys (Clock.frame s.execute.1.clock) with ⟨u, error⟩
  rw [hk] at hm
  cases error with
  | some error => exact hm
  | none =>
    have hiu : u.machine.cpu.iff1 = false := by
      rw [← hi, ← hm]
    dsimp only
    rw [offerInterrupt_of_disabled hiu, machine_checkStop, machine_followTape]
    exact hm

/-- What a step comes to, with the scenes behind the trap and behind the typing. -/
inductive Outcome (s : Scene) : Scene × Except RunError Bool → Prop
  | untaken {t : Scene} {e : LoadError} (ht : s.atTrap.trapRoutine = (t, some e)) :
      Outcome s (t, .error (.load e))
  | untyped {t u : Scene} {e : UnknownKey} (ht : s.atTrap.trapRoutine = (t, none))
      (hu : t.typeKeys (Clock.frame t.clock) = (u, some e)) : Outcome s (u, .error (.key e))
  | done {t u : Scene} (ht : s.atTrap.trapRoutine = (t, none))
      (hu : t.typeKeys (Clock.frame t.clock) = (u, none)) :
      Outcome s (((u.offerInterrupt (Clock.frame t.clock)).followTape).checkStop.1,
        .ok ((u.offerInterrupt (Clock.frame t.clock)).followTape).checkStop.2)

theorem outcome_step (s : Scene) : s.Outcome s.step.1 := by
  rcases ht : s.atTrap.trapRoutine with ⟨t, error⟩
  cases error with
  | some e =>
    rw [step_of_trap_error ht]
    exact .untaken ht
  | none =>
    rw [step_of_trap ht]
    rcases hu : t.typeKeys (Clock.frame t.clock) with ⟨u, error⟩
    cases error with
    | some e => exact .untyped ht hu
    | none => exact .done ht hu

/-- Behind typing a step has nothing to do with keys and does not start the tape. -/
theorem session_step_of_trap {s t : Scene} (h : s.atTrap.trapRoutine = (t, none)) :
    ∃ interruptFrame index finished stopReason,
      s.step.1.1.session =
        { (t.typeKeys (Clock.frame t.clock)).1.session with
          interruptFrame, index, finished, stopReason } ∧
        (t.typeKeys (Clock.frame t.clock)).1.session.index ≤ index := by
  rw [step_of_trap h]
  rcases t.typeKeys (Clock.frame t.clock) with ⟨u, error⟩
  cases error with
  | some e => exact ⟨_, _, _, _, rfl, Nat.le_refl _⟩
  | none =>
    obtain ⟨interruptFrame, hi⟩ := u.session_offerInterrupt (Clock.frame t.clock)
    obtain ⟨finished, stopReason, he⟩ := (u.offerInterrupt (Clock.frame t.clock)).session_ending
    dsimp only
    rw [he, hi]
    exact ⟨_, _, _, _, rfl, Session.index_le_indexAt _ _⟩

/-- Behind its instruction a step leaves alone the tape, the choices, the border, and what is known
of polling loops. -/
theorem session_step (s : Scene) :
    ∃ keyboard typing interruptFrame origin index finished stopReason,
      s.step.1.1.session =
        { s.execute.1.session with
          keyboard, typing, interruptFrame, origin, index, finished, stopReason } := by
  obtain ⟨index, origin, ht, -⟩ := s.atTrap.session_trapRoutine
  rw [session_atTrap] at ht
  rcases hr : s.atTrap.trapRoutine with ⟨t, error⟩
  rw [hr] at ht
  cases error with
  | some e =>
    rw [step_of_trap_error hr]
    exact ⟨_, _, _, _, _, _, _, ht⟩
  | none =>
    obtain ⟨_, _, _, _, hs, -⟩ := session_step_of_trap hr
    obtain ⟨_, _, _, _, hk, -⟩ := t.session_typeKeys (Clock.frame t.clock)
    rw [hk, ht] at hs
    exact ⟨_, _, _, _, _, _, _, hs⟩

/-- What comes after the trap makes a later session of one that is not typed into, and otherwise a
later one or one whose tape has just started. -/
theorem later_step_of_trap {s t : Scene} (h : s.atTrap.trapRoutine = (t, none)) :
    t.session.Later s.step.1.1.session ∨
      t.session.typing ≠ none ∧ s.step.1.1.session.typing = none ∧
        s.step.1.1.session.signal = t.session.signal := by
  obtain ⟨_, index, _, _, hs, hi⟩ := session_step_of_trap h
  obtain ⟨_, typing, _, _, hk, hcases⟩ := t.session_typeKeys (Clock.frame t.clock)
  rw [hk] at hs hi
  rw [hs]
  rcases hcases with ⟨hty, rfl, rfl⟩ | ⟨hty, rfl, -, -⟩
  · exact .inl ⟨rfl, rfl, rfl, rfl, Iff.rfl, hty, hi⟩
  · exact .inr ⟨hty, rfl, rfl⟩

end Scene
end Spectrum.Loader
