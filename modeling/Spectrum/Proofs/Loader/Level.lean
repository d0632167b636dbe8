import Mathlib.Tactic.Common
import Spectrum.Proofs.Loader.Course
import Spectrum.Proofs.Loader.Delivery
import Spectrum.Proofs.Loader.Skip
import Spectrum.Proofs.Z80.Kept

/-! # The level of the tape

The level that ports return follows from a number of edges that only ever grows; what it should be
follows from the time.  In a run in which the tape starts once and the clock does not run over, the
two agree: `Scene.OnTime` is the invariant, that the number does not run ahead and that the tape
does not start in the future.  Traps keep it although they move the clock or the start of the tape.

Main definition: `Scene.edgesPassed`.
Main statements: `Scene.OnTime.indexAt_eq`, `Scene.OnTime.step`, `Course.level_eq`. -/

namespace Spectrum

open Z80 Tape

namespace Loader

/-! ### Scenes on time -/

namespace Scene

/-- The number of edges of the tape that lie between its start and now. -/
def edgesPassed (s : Scene) : Nat :=
  match s.session.origin with
  | none => 0
  | some origin => s.session.signal.passed (s.clock.toNat - origin.toNat)

/-- The tape does not start in the future, and no more of its edges are in the past than lie between
its start and now. -/
structure OnTime (s : Scene) : Prop where
  idle : s.session.origin = none → s.session.index = 0
  typing : s.session.typing ≠ none → s.session.origin = none
  started : ∀ origin, s.session.origin = some origin → origin ≤ s.clock
  upTo : s.session.UpTo s.clock

variable {s t : Scene}

/-- The tape moved on to now has passed the edges that lie between its start and now. -/
theorem OnTime.indexAt_eq (h : s.OnTime) (hs : s.session.signal.Sorted) :
    s.session.indexAt s.clock = s.edgesPassed := by
  unfold Session.indexAt edgesPassed
  cases ho : s.session.origin with
  | none => exact h.idle ho
  | some origin =>
    have hle := h.started origin ho
    have hup := h.upTo origin ho
    unfold Clock.since at hup
    dsimp only
    rw [if_neg (UInt64.not_lt.mpr hle), Nat.max_eq_right hup, Signal.edgesUntil_eq_passed hs,
      UInt64.toNat_sub_of_le _ _ hle]

/-- Time goes on, and the tape with it or not. -/
theorem OnTime.later (h : s.OnTime) (hs : s.session.signal.Sorted)
    (hsignal : t.session.signal = s.session.signal)
    (horigin : t.session.origin = s.session.origin)
    (htyping : t.session.typing = none ↔ s.session.typing = none)
    (hindex : t.session.index = s.session.index ∨ t.session.index = s.session.indexAt s.clock)
    (hclock : s.clock ≤ t.clock) : t.OnTime where
  idle := fun ho => by
    rw [horigin] at ho
    rcases hindex with hi | hi
    · rw [hi]
      exact h.idle ho
    · rw [hi, h.indexAt_eq hs]
      unfold edgesPassed
      rw [ho]
  typing := fun ht => horigin.trans (h.typing fun h0 => ht (htyping.mpr h0))
  started := fun origin ho => UInt64.le_trans (h.started origin (horigin ▸ ho)) hclock
  upTo := fun origin ho => by
    rw [horigin] at ho
    have hle := h.started origin ho
    have hindex' : t.session.index ≤ s.session.signal.edgesUntil (Clock.since origin s.clock) := by
      rcases hindex with hi | hi
      · rw [hi]
        exact h.upTo origin ho
      · rw [hi]
        exact Session.upTo_advanceTape h.upTo origin ho
    refine Nat.le_trans hindex' ?_
    rw [hsignal]
    refine Signal.edgesUntil_mono hs ?_
    unfold Clock.since
    rw [UInt64.toNat_sub_of_le _ _ hle, UInt64.toNat_sub_of_le _ _ (UInt64.le_trans hle hclock)]
    exact Nat.sub_le_sub_right (UInt64.le_iff_toNat_le.mp hclock) _

/-- Nothing else of a scene matters than its session and the time. -/
theorem OnTime.congr (h : s.OnTime) (hsession : t.session = s.session) (hclock : t.clock = s.clock) :
    t.OnTime := by
  constructor <;> rw [hsession]
  · exact h.idle
  · exact h.typing
  · rw [hclock]
    exact h.started
  · rw [hclock]
    exact h.upTo

theorem onTime_of_origin (origin : UInt64) (ho : s.session.origin = some origin)
    (hty : s.session.typing = none) (hle : origin ≤ s.clock)
    (hup : s.session.index ≤ s.session.signal.edgesUntil (Clock.since origin s.clock)) :
    s.OnTime where
  idle := fun h => nomatch ho.symm.trans h
  typing := fun h => absurd hty h
  started := fun o h => by
    obtain rfl := Option.some.inj (ho.symm.trans h)
    exact hle
  upTo := fun o h => by
    obtain rfl := Option.some.inj (ho.symm.trans h)
    exact hup

/-- Moving the tape leaves it on time, if it does not start in the future then.  The start may have
been moved, and a tape of less than half a turn of the clock does not take it beyond zero. -/
theorem onTime_moveTapeTo (hs : s.session.signal.Sorted) (hlen : s.session.signal.length < 2 ^ 63)
    {origin : UInt64} (ho : s.session.origin = some origin) (hty : s.session.typing = none)
    {index : Nat} (hi : index ≤ s.session.signal.edges.size)
    (hle : origin ≤ (s.moveTapeTo index).clock) : (s.moveTapeTo index).OnTime := by
  cases index with
  | zero =>
    exact onTime_of_origin (s := s.mapSession fun t => { t with index := 0 }) origin ho hty hle
      (Nat.zero_le _)
  | succ last =>
    have hedge : s.session.signal.edges.getD last 0 < 2 ^ 63 :=
      Nat.lt_of_le_of_lt (Signal.getD_le_length hs last) hlen
    have hindex : last + 1 ≤ s.session.signal.edgesUntil (s.session.signal.edges.getD last 0) :=
      (Signal.lt_edgesUntil hs hi).mpr (Nat.le_refl _)
    obtain ⟨start, hsession, hsince, hstart⟩ := since_moveTapeTo last ho (by omega)
    generalize s.moveTapeTo (last + 1) = moved at hle hsession hsince hstart ⊢
    generalize s.session.signal.edges.getD last 0 = edge at hedge hindex hsince hstart
    have hstarted : start ≤ moved.clock := by
      rcases hstart with rfl | ⟨hnlt, hclock, rfl⟩
      · exact hle
      · have htoNat : (UInt64.ofNat edge).toNat = edge := by
          rw [UInt64.toNat_ofNat']
          omega
        rw [hclock] at hle ⊢
        have hback : UInt64.ofNat edge ≤ s.clock := by
          rw [UInt64.lt_iff_toNat_lt, UInt64.toNat_add, htoNat] at hnlt
          rw [UInt64.le_iff_toNat_le] at hle ⊢
          rw [htoNat]
          have := origin.toNat_lt
          omega
        rw [UInt64.le_iff_toNat_le, UInt64.toNat_sub_of_le _ _ hback]
        exact Nat.sub_le _ _
    refine onTime_of_origin start ?_ ?_ hstarted ?_ <;> rw [hsession]
    · exact hty
    · rw [hsince]
      exact hindex

/-- So does a trap. -/
theorem onTime_of_trap {blocks : List Block} (hp : s.session.signal.Plays blocks)
    (hlen : s.session.signal.length < 2 ^ 63) {origin : UInt64}
    (ho : s.session.origin = some origin) (hty : s.session.typing = none)
    (htraps : s.traps = true) (ht : s.trapRoutine = (t, none)) (hle : origin ≤ t.clock) :
    t.OnTime := by
  obtain ⟨range, u, hr, hm, hs, rfl⟩ := exists_ahead_of_trap htraps ht
  have ho' : u.session.origin = some origin := by rw [hs]; exact ho
  have hty' : u.session.typing = none := by rw [hs]; exact hty
  have hsignal : u.session.signal = s.session.signal := by rw [hs]; rfl
  have hstop : range.stop ≤ u.session.signal.edges.size := by
    rw [hsignal, ← Array.length_toList]
    exact hp.wellFormed.within range (mem_of_ahead? hp hr).1
  have hleave : Scene.clock { u.moveTapeTo range.stop with
      machine := leaveRoutine (u.moveTapeTo range.stop).machine } =
        (u.moveTapeTo range.stop).clock := clock_leaveRoutine _
  rw [hleave] at hle
  have hmoved := onTime_moveTapeTo (hsignal ▸ hp.sorted) (hsignal ▸ hlen) ho' hty' hstop hle
  exact hmoved.congr rfl hleave

theorem OnTime.typeKeys (h : s.OnTime) (frame : UInt64) : (s.typeKeys frame).1.OnTime := by
  obtain ⟨_, typing, origin, index, hkeys, hcases⟩ := s.session_typeKeys frame
  have hclock := s.clock_typeKeys frame
  rcases hcases with ⟨hty, rfl, rfl⟩ | ⟨-, rfl, rfl, rfl⟩
  · constructor <;> rw [hkeys]
    · exact h.idle
    · exact fun h0 => h.typing (mt hty.mpr h0)
    · rw [hclock]
      exact h.started
    · rw [hclock]
      exact h.upTo
  · refine onTime_of_origin s.clock ?_ ?_ (UInt64.le_of_eq hclock.symm) ?_ <;> rw [hkeys]
    exact Nat.zero_le _

theorem OnTime.offerInterrupt (h : s.OnTime) (hs : s.session.signal.Sorted) {frame : UInt64}
    (hle : s.clock ≤ (s.offerInterrupt frame).clock) : (s.offerInterrupt frame).OnTime := by
  obtain ⟨interruptFrame, hsession⟩ := s.session_offerInterrupt frame
  exact h.later hs (by rw [hsession]) (by rw [hsession]) (by rw [hsession])
    (.inl (by rw [hsession])) hle

/-- At the end of a step the tape has been moved on to now. -/
theorem OnTime.ending (h : s.OnTime) (hs : s.session.signal.Sorted) :
    s.followTape.checkStop.1.OnTime ∧
      s.followTape.checkStop.1.session.index = s.followTape.checkStop.1.edgesPassed := by
  obtain ⟨finished, stopReason, hsession⟩ := s.session_ending
  have hclock := s.clock_ending
  refine ⟨h.later hs (by rw [hsession]; rfl) (by rw [hsession]; rfl) (by rw [hsession]; rfl)
    (.inr (by rw [hsession]; rfl)) (by rw [hclock]; exact UInt64.le_refl _), ?_⟩
  unfold edgesPassed
  rw [hclock, hsession]
  exact h.indexAt_eq hs

theorem exists_origin_of_traps (h : s.traps = true) : ∃ origin, s.session.origin = some origin := by
  unfold traps Session.running at h
  simp only [Bool.and_eq_true] at h
  exact Option.isSome_iff_exists.mp h.1.2

theorem passedOver_of_trap {e : LoadError} (h : s.trapRoutine = (t, some e)) :
    t.session = s.session.advanceTape s.clock ∧ t.clock = s.clock := by
  unfold Scene.trapRoutine at h
  split at h
  · cases hr : s.ahead? with
    | none =>
      rw [loadBlock_of_none hr] at h
      obtain rfl := (Prod.mk.inj h).1
      exact ⟨session_passedOver s, congrArg (·.cpu.clock) (machine_passedOver s)⟩
    | some range =>
      obtain ⟨u, -, -, hu⟩ := loadBlock_of_some hr
      rw [hu] at h
      cases h
  · cases h

/-- Up to the loading routine the tape is on time if the clock does not run over. -/
theorem OnTime.atTrap (h : s.OnTime) (hs : s.session.signal.Sorted) (hle : s.clock ≤ s.atTrap.clock) :
    s.atTrap.OnTime := by
  obtain ⟨index, _, _, _, _, hindex, hnotes⟩ := s.notes_execute
  have hsession := s.session_atTrap.trans hnotes
  exact h.later hs (by rw [hsession]) (by rw [hsession]) (by rw [hsession])
    (by rw [hsession]; exact hindex) hle

/-- Behind the loading routine the tape is on time, and the clock does not run over any more. -/
theorem OnTime.trapped (h : s.OnTime) {blocks : List Block} (hp : s.session.signal.Plays blocks)
    (hlen : s.session.signal.length < 2 ^ 63)
    (htime : ∀ address loop, s.execute.1.session.foundAt? address = some loop → loop.loopTime ≤ 65)
    (hf : s.Forward) (ht : s.atTrap.trapRoutine = (t, none)) :
    t.OnTime ∧ t.clock ≤ s.step.1.1.clock := by
  have hsignal : s.atTrap.session.signal = s.session.signal := s.later_atTrap.signal
  cases htraps : s.atTrap.traps with
  | true =>
    have hclock := clock_step_of_trap htraps ht
    obtain ⟨origin, ho⟩ := exists_origin_of_traps htraps
    have ho' : s.session.origin = some origin := by
      rw [← s.origin_execute, ← s.session_atTrap]
      exact ho
    have hty : s.atTrap.session.typing = none := by
      rw [s.later_atTrap.typing]
      by_contra hty
      exact nomatch (h.typing hty).symm.trans ho'
    have hle : origin ≤ t.clock := hclock ▸ UInt64.le_trans (h.started origin ho') hf
    exact ⟨onTime_of_trap (hsignal ▸ hp) (hsignal ▸ hlen) ho hty htraps ht hle,
      UInt64.le_of_eq hclock.symm⟩
  | false =>
    obtain ⟨hle, hle'⟩ := hf.clock_le htime htraps
    have hr := trapRoutine_of_untrapped htraps
    obtain rfl := (Prod.mk.inj (hr.symm.trans ht)).1
    exact ⟨h.atTrap hp.sorted hle, hle'⟩

/-- A step keeps the tape on time, and but for one that fails in typing it ends with the tape moved
on to now. -/
theorem OnTime.step (h : s.OnTime) {blocks : List Block} (hp : s.session.signal.Plays blocks)
    (hlen : s.session.signal.length < 2 ^ 63)
    (htime : ∀ address loop, s.execute.1.session.foundAt? address = some loop → loop.loopTime ≤ 65)
    (hf : s.Forward) :
    s.step.1.1.OnTime ∧
      ((∃ e, s.step.1.2 = .error (.key e)) ∨
        s.step.1.1.session.index = s.step.1.1.edgesPassed) := by
  have hs : s.atTrap.session.signal.Sorted := by
    rw [s.later_atTrap.signal]
    exact hp.sorted
  have hforward : s.clock ≤ s.step.1.1.clock := hf
  have htrapped : ∀ t, s.atTrap.trapRoutine = (t, none) → t.OnTime ∧ t.clock ≤ s.step.1.1.clock :=
    fun t ht => h.trapped hp hlen htime hf ht
  have ho := s.outcome_step
  generalize s.step.1 = r at ho hforward htrapped ⊢
  cases ho with
  | @untaken t e ht =>
    obtain ⟨hsession, hclock⟩ := passedOver_of_trap ht
    have ha := h.atTrap hp.sorted (by rw [← hclock]; exact hforward)
    refine ⟨ha.later hs (by rw [hsession]; rfl) (by rw [hsession]; rfl) (by rw [hsession]; rfl)
      (.inr (by rw [hsession]; rfl)) (UInt64.le_of_eq hclock.symm), .inr ?_⟩
    unfold edgesPassed
    rw [hclock, hsession]
    exact ha.indexAt_eq hs
  | @untyped t u e ht hu =>
    have hty := (htrapped t ht).1.typeKeys (Clock.frame t.clock)
    rw [hu] at hty
    exact ⟨hty, .inl ⟨e, rfl⟩⟩
  | @done t u ht hu =>
    obtain ⟨hon, hle⟩ := htrapped t ht
    have hty := hon.typeKeys (Clock.frame t.clock)
    rw [hu] at hty
    obtain ⟨_, _, htrap, -⟩ := s.atTrap.session_trapRoutine
    obtain ⟨_, _, _, _, hkeys, -⟩ := t.session_typeKeys (Clock.frame t.clock)
    obtain ⟨_, hoffer⟩ := u.session_offerInterrupt (Clock.frame t.clock)
    rw [ht] at htrap
    rw [hu, htrap] at hkeys
    have hsu : u.session.signal.Sorted := by
      rw [hkeys]
      exact hs
    have hle' : u.clock ≤ (u.offerInterrupt (Clock.frame t.clock)).clock := by
      rw [clock_ending] at hle
      rw [clock_typed hu]
      exact hle
    obtain ⟨hend, hindex⟩ := (hty.offerInterrupt hsu hle').ending (by rw [hoffer]; exact hsu)
    exact ⟨hend, .inr hindex⟩

/-- Before the tape starts no edge is in the past, and later none comes back. -/
theorem OnTime.index_le_step (h : s.OnTime) {blocks : List Block}
    (hp : s.session.signal.Plays blocks) : s.session.index ≤ s.step.1.1.session.index := by
  rcases later_step hp with hl | ⟨hty, -, -⟩
  · exact hl.index
  · rw [h.idle (h.typing hty)]
    exact Nat.zero_le _

/-- The level that is predicted for the next sample of a loop that is about to start. -/
def predictedLevel (session : Session) (origin : UInt64) (loop : PollingLoop) (c : Cpu) : Bool :=
  Signal.levelAfter
    (session.signal.edgesUntil (c.clock + UInt64.ofNat loop.inTime - origin).toNat)

/-- The level that is predicted is the parity of the edges up to the time of the sample. -/
theorem predictedLevel_eq {session : Session} (hs : session.signal.Sorted) {origin : UInt64}
    {loop : PollingLoop} {c : Cpu} (h : origin ≤ c.clock + UInt64.ofNat loop.inTime) :
    predictedLevel session origin loop c =
      (session.signal.passed
        ((c.clock + UInt64.ofNat loop.inTime).toNat - origin.toNat) % 2 == 1) := by
  rw [predictedLevel, Signal.edgesUntil_eq_passed hs, UInt64.toNat_sub_of_le _ _ h]
  rfl

/-- At the times of the samples of all idle iterations the tape has the level that is waited on. -/
theorem passed_of_lt_idleIterations {session : Session} (hs : session.signal.Sorted)
    {origin : UInt64} {loop : PollingLoop} {c : Cpu} {n : Nat}
    (h : n < idleIterations session origin loop c) :
    (session.signal.passed ((c.clock + UInt64.ofNat loop.inTime).toNat + n * loop.loopTime -
        origin.toNat) % 2 == 1) =
      (c.bc.low &&& loop.earMask != 0) := by
  obtain ⟨hsample, hlevel, -, hedge⟩ := of_lt_idleIterations h
  have hle : origin ≤ c.clock + UInt64.ofNat loop.inTime := UInt64.not_lt.mp hsample
  have hsince : Clock.since origin (c.clock + UInt64.ofNat loop.inTime) =
      (c.clock + UInt64.ofNat loop.inTime).toNat - origin.toNat :=
    UInt64.toNat_sub_of_le _ _ hle
  have htime : (c.clock + UInt64.ofNat loop.inTime).toNat + n * loop.loopTime - origin.toNat =
      Clock.since origin (c.clock + UInt64.ofNat loop.inTime) + n * loop.loopTime := by
    rw [hsince]
    exact Nat.sub_add_comm (UInt64.le_iff_toNat_le.mp hle)
  rw [htime, ← Signal.edgesUntil_eq_passed hs,
    Signal.edgesUntil_eq hs (Nat.le_add_right _ _) hedge, ← hlevel]
  rfl

end Scene

/-! ### Reading the level -/

theorem Session.bit_answer (s : Session) (time : UInt64) {port : UInt16}
    (h : isUlaPort port = true) :
    (s.answer time port).bit 6 = (s.advanceTape time).level := by
  have hbit : ∀ b : UInt8, b.bit 6 = (b &&& 0x40 != 0) :=
    UInt8.of_fin (P := fun b => b.bit 6 = (b &&& 0x40 != 0)) (by decide +kernel)
  rw [hbit, Session.answer_and s time h]
  cases (s.advanceTape time).level <;> rfl

theorem Scene.OnTime.bit_answer {s : Scene} (h : s.OnTime) (hs : s.session.signal.Sorted)
    {port : UInt16} (hport : Session.isUlaPort port = true) :
    (s.session.answer s.clock port).bit 6 = (s.edgesPassed % 2 == 1) := by
  rw [Session.bit_answer s.session s.clock hport]
  have hlevel : (s.session.advanceTape s.clock).level =
      (s.session.running && Signal.levelAfter (s.session.indexAt s.clock)) := rfl
  rw [hlevel, h.indexAt_eq hs]
  unfold Session.running
  cases ho : s.session.origin with
  | none =>
    unfold edgesPassed
    rw [ho]
    rfl
  | some origin => rfl

/-! ### Courses on time -/

section

variable {blocks : List Block} {signal : Signal} {config : Config} {past : List Scene} {s : Scene}

/-- In a run in which the tape starts once, it stays on time as long as the clock does not run
over. -/
theorem Course.onTime (hb : Signal.ofBlocks blocks = .ok signal) (hlen : signal.length < 2 ^ 63)
    (h : Course .Once signal config past s) (hf : ∀ u ∈ past, u.Forward) : s.OnTime := by
  induction h with
  | create machine h =>
    obtain ⟨loops, -, rfl⟩ := Session.create_eq_ok_iff.mp h
    exact ⟨fun _ => rfl, fun _ => rfl, fun _ => nofun, fun _ => nofun⟩
  | @handle past s h machine hc session hs ih =>
    have ih := ih hf
    have hstarted : ∀ origin, s.session.origin = some origin → origin ≤ machine.cpu.clock :=
      hc ▸ ih.started
    have hup : s.session.UpTo machine.cpu.clock := hc ▸ ih.upTo
    cases hs with
    | leave => exact ⟨ih.idle, ih.typing, hstarted, hup⟩
    | border => exact ⟨ih.idle, ih.typing, hstarted, hup⟩
    | start _ ho ht =>
      exact Scene.onTime_of_origin _ rfl ht (UInt64.le_of_eq hc.symm) (Nat.zero_le _)
    | type _ ho => exact ⟨ih.idle, fun _ => ho, hstarted, hup⟩
  | @step past s h ih =>
    have hany := h.mono fun _ _ => Handling.Once.any
    obtain ⟨hsignal, -⟩ := hany.fixed
    have hs := ih fun u hu => hf u (List.mem_append_left _ hu)
    have hp := Signal.plays_of_ofBlocks hb
    exact (hs.step (hsignal ▸ hp) (hsignal ▸ hlen) (fun _ _ => hany.loopTime_le)
      (hf s (List.mem_append_right _ (List.mem_singleton_self s)))).1

theorem Course.index_le (hb : Signal.ofBlocks blocks = .ok signal) (hlen : signal.length < 2 ^ 63)
    (h : Course .Once signal config past s) (hf : ∀ u ∈ past, u.Forward) :
    ∀ u ∈ past, u.session.index ≤ s.session.index := by
  induction h with
  | create machine h => exact fun u hu => absurd hu List.not_mem_nil
  | @handle past s h machine hc session hs ih =>
    have ih := ih hf
    cases hs with
    | leave => exact ih
    | border => exact ih
    | start _ ho ht =>
      intro u hu
      have hle := ih u hu
      rw [(h.onTime hb hlen hf).idle ho] at hle
      exact hle
    | type => exact ih
  | @step past s h ih =>
    have hf' : ∀ u ∈ past, u.Forward := fun u hu => hf u (List.mem_append_left _ hu)
    obtain ⟨hsignal, -⟩ := (h.mono fun _ _ => Handling.Once.any).fixed
    have hstep := (h.onTime hb hlen hf').index_le_step (hsignal ▸ Signal.plays_of_ofBlocks hb)
    intro u hu
    rcases List.mem_append.mp hu with hu | hu
    · exact Nat.le_trans (ih hf' u hu) hstep
    · rw [List.mem_singleton.mp hu]
      exact hstep

/-- In a run in which the tape starts once and the clock does not run over, the number of edges in
the past is that of the edges between the start of the tape and now, wherever the tape has been
moved on and so at the end of each step; it never decreases; and bit 6 of what an even port returns
is its parity, between instructions and in them.  The level that is predicted for a sample of a
polling loop is the parity at its time, and if iterations are skipped, the parity at the times of
all their samples is as they wait for it. -/
theorem Course.level_eq (hb : Signal.ofBlocks blocks = .ok signal) (hlen : signal.length < 2 ^ 63)
    (h : Course .Once signal config past s) (hf : ∀ u ∈ past, u.Forward) :
    (s.session.advanceTape s.clock).index = s.edgesPassed ∧
    (∀ u ∈ past, (∃ e, u.step.1.2 = .error (.key e)) ∨
      u.step.1.1.session.index = u.step.1.1.edgesPassed) ∧
    (∀ u ∈ past, u.session.index ≤ s.session.index) ∧
    (∀ port, Session.isUlaPort port = true →
      (s.session.answer s.clock port).bit 6 = (s.edgesPassed % 2 == 1)) ∧
    (∀ u ∈ past, ∀ port value, .input port value ∈ u.step.2.events →
      Session.isUlaPort port = true → value.bit 6 = (u.edgesPassed % 2 == 1)) ∧
    ∀ u ∈ past, ∀ origin loop, u.execute.1.session.origin = some origin →
      let t := u.execute.1
      let c := t.machine.cpu
      let sample := c.clock + UInt64.ofNat loop.inTime
      (origin ≤ sample →
        Scene.predictedLevel t.session origin loop c =
          (signal.passed (sample.toNat - origin.toNat) % 2 == 1)) ∧
      ∀ i < Scene.idleIterations t.session origin loop c,
        (signal.passed (sample.toNat + i * loop.loopTime - origin.toNat) % 2 == 1) =
          (c.bc.low &&& loop.earMask != 0) := by
  have hp := Signal.plays_of_ofBlocks hb
  have hsignal := (h.mono fun _ _ => Handling.Once.any).fixed.1
  have hs := h.onTime hb hlen hf
  have hsorted : s.session.signal.Sorted := hsignal ▸ hp.sorted
  -- the scenes of the past are reached by courses of their own
  have hpast : ∀ u ∈ past, u.OnTime ∧ u.session.signal = signal ∧
      ∀ address loop, u.execute.1.session.foundAt? address = some loop → loop.loopTime ≤ 65 := by
    intro u hu
    obtain ⟨before, hbefore, hcourse⟩ := h.exists_prefix hu
    have hany := hcourse.mono fun _ _ => Handling.Once.any
    have hforward : ∀ v ∈ before, v.Forward := fun v hv =>
      hf v (hbefore.subset (List.mem_append_left _ hv))
    exact ⟨hcourse.onTime hb hlen hforward, hany.fixed.1, fun _ _ => hany.loopTime_le⟩
  refine ⟨hs.indexAt_eq hsorted, fun u hu => ?_, h.index_le hb hlen hf,
    fun port hport => hs.bit_answer hsorted hport, fun u hu port value hv hport => ?_,
    fun u hu origin loop _ => ?_⟩
  · obtain ⟨hon, hu', htime⟩ := hpast u hu
    exact (hon.step (hu' ▸ hp) (hu' ▸ hlen) htime (hf u hu)).2
  · obtain ⟨hon, hu', -⟩ := hpast u hu
    rw [u.machine.input_of_step _ hv]
    exact hon.bit_answer (hu' ▸ hp.sorted) hport
  · have hu' : u.execute.1.session.signal = signal :=
      u.later_execute.signal.trans (hpast u hu).2.1
    have hsorted' : u.execute.1.session.signal.Sorted := hu' ▸ hp.sorted
    refine ⟨fun hle => ?_, fun i hi => ?_⟩
    · rw [Scene.predictedLevel_eq hsorted' hle, hu']
    · rw [← Scene.passed_of_lt_idleIterations hsorted' hi, hu']

end

/-! ### A loop that waits for an edge -/

/-- A tape that rises after 3000 T-states. -/
def risingTape : List Block :=
  [{ kind := .pulses, pulses := [3000, 30000], timings := { pause := 0 } }]

/-- The signal of that tape. -/
def risingSignal : Signal where
  blocks := risingTape.toArray
  edges := #[3000, 33000]
  ranges := []

theorem ofBlocks_risingTape : Signal.ofBlocks risingTape = .ok risingSignal := by
  rfl

/-- A machine that waits for that tape to rise. -/
def risingScene : Scene where
  machine := Scene.waitingMachine
  session :=
    { signal := risingSignal, config := {}, loops := catalogue, runStart := 0, origin := some 0 }

theorem course_risingScene (n : Nat) :
    Course .Once risingSignal {} ((List.range n).map risingScene.after) (risingScene.after n) := by
  have hcreate : Course .Once risingSignal {} [] _ :=
    .create Scene.waitingMachine (Scene.create_default risingSignal 0)
  exact (hcreate.handle _ rfl (.start _ rfl rfl)).after n

/-- The sixth instruction completes an iteration, and 69 more are skipped, in which the tape is
low.  The next sample is high. -/
theorem level_risingScene :
    Signal.ofBlocks risingTape = .ok risingSignal ∧ risingSignal.length < 2 ^ 63 ∧
      (∀ u ∈ (List.range 9).map risingScene.after, u.Forward) ∧
      Scene.idleIterations (risingScene.after 5).execute.1.session 0 Scene.waitingLoop
        (risingScene.after 5).execute.1.machine.cpu = 69 ∧
      (∀ i < 69, (risingSignal.passed (52 + i * 43) % 2 == 1) = false) ∧
      (∃ value, .input 0xFE value ∈ (risingScene.after 8).step.2.events ∧ value.bit 6 = true) ∧
      ((risingScene.after 9).session.advanceTape (risingScene.after 9).clock).index = 1 := by
  have hlen : risingSignal.length < 2 ^ 63 := by decide +kernel
  have hforward : ∀ u ∈ (List.range 9).map risingScene.after, u.Forward := by decide +kernel
  have hidle : Scene.idleIterations (risingScene.after 5).execute.1.session 0 Scene.waitingLoop
      (risingScene.after 5).execute.1.machine.cpu = 69 := by decide +kernel
  have hmem : ∀ n < 9, risingScene.after n ∈ (List.range 9).map risingScene.after := fun n hn =>
    List.mem_map.mpr ⟨n, List.mem_range.mpr hn, rfl⟩
  obtain ⟨hindex, -, -, -, hinput, hskip⟩ :=
    Course.level_eq ofBlocks_risingTape hlen (course_risingScene 9) hforward
  obtain ⟨-, hsamples⟩ := hskip _ (hmem 5 (by decide)) 0 Scene.waitingLoop (by decide +kernel)
  have hread : BusEvent.input 0xFE 0xFF ∈ (risingScene.after 8).step.2.events := by
    decide +kernel
  have hhigh := hinput _ (hmem 8 (by decide)) 0xFE 0xFF hread rfl
  refine ⟨ofBlocks_risingTape, hlen, hforward, hidle, fun i hi => ?_, ⟨0xFF, hread, ?_⟩, ?_⟩
  · have hwaits : ((risingScene.after 5).execute.1.machine.cpu.bc.low &&&
        Scene.waitingLoop.earMask != 0) = false := by decide +kernel
    have hsample : (risingScene.after 5).execute.1.machine.cpu.clock +
        UInt64.ofNat Scene.waitingLoop.inTime = 52 := by decide +kernel
    have hlow := hsamples i (hidle.symm ▸ hi)
    rw [hwaits, hsample] at hlow
    exact hlow
  · rw [hhigh]
    decide +kernel
  · rw [hindex]
    decide +kernel

/-! ### A tape of three edges -/

/-- A tape with an edge after 20 T-states, another one 24 T-states later, and a long pulse. -/
def edgesTape : List Block :=
  [{ kind := .pulses, pulses := [20, 24, 10000], timings := { pause := 0 } }]

/-- The signal of that tape. -/
def edgesSignal : Signal where
  blocks := edgesTape.toArray
  edges := #[20, 44, 10044]
  ranges := []

theorem ofBlocks_edgesTape : Signal.ofBlocks edgesTape = .ok edgesSignal := by
  rfl

/-- That tape about to play, at a time, in a machine that idles. -/
def idlingScene (clock : UInt64) : Scene where
  machine := { cpu := { Cpu.powerOn with pc := 0x8000, clock } }
  session :=
    { signal := edgesSignal, config := { accelerators := [] }, loops := [], runStart := clock,
      origin := some clock }

/-- Twelve instructions, which take 48 T-states. -/
theorem course_idlingScene (clock : UInt64) :
    Course .Once edgesSignal { accelerators := [] } ((List.range 12).map (idlingScene clock).after)
      ((idlingScene clock).after 12) := by
  have hcreate : Course .Once edgesSignal { accelerators := [] } []
      { machine := (idlingScene clock).machine
        session := { (idlingScene clock).session with origin := none } } := .create _ rfl
  exact (hcreate.handle _ rfl (.start _ rfl rfl)).after 12

/-- If the clock runs over between these edges, the tape stands still behind the first: neither
with the time that has gone by nor with the difference of the two times is that the number of edges
in the past. -/
theorem not_forall_index_eq :
    ¬ ∀ (blocks : List Block) (signal : Signal) (config : Config) (past : List Scene) (s : Scene),
      Signal.ofBlocks blocks = .ok signal → Course .Once signal config past s →
      ∀ origin, s.session.origin = some origin →
        (s.session.advanceTape s.clock).index = signal.passed (Clock.since origin s.clock) ∨
          (s.session.advanceTape s.clock).index = s.edgesPassed := by
  intro h
  have hcourse := course_idlingScene (2 ^ 64 - 40)
  have := h _ _ _ _ _ ofBlocks_edgesTape hcourse (2 ^ 64 - 40) (by decide +kernel)
  revert this
  decide +kernel

end Loader
end Spectrum
