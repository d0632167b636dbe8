import Mathlib.Data.List.Perm.Subperm
import Mathlib.Tactic.Common
import Spectrum.Proofs.Loader.Scene

/-! # Which blocks the loading routine is given

Every trap of the loading routine takes the next block on the tape with the flag that is wanted, and
moves the tape behind it.  A run is followed together with its deliveries: where on the tape each
block lay, how many edges were in the past, and which flag was wanted.

A block is behind the tape once one of its edges of data is in the past.  A block of which no bits
are recorded has no such edges, so that it stays in reach until the next edge of the tape: this is
the only way in which a run comes to the same block, or to an earlier one, again.

Main statements: `Playing.delivered`, `deliveries_of_playing`. -/

namespace Spectrum.Loader

open Z80 Tape

/-- A block that the loading routine was carried out on: its position among the data blocks of the
tape, the number of edges in the past, and the flag that was wanted. -/
structure Delivery where
  position : Nat
  index : Nat
  flag : UInt8
deriving DecidableEq, Repr

/-- The delivery of a step. -/
def Scene.delivery? (s : Scene) : Option Delivery :=
  let t := s.atTrap
  let index := t.session.indexAt t.clock
  if t.traps then
    (t.session.signal.nextPosition? index t.machine.cpu.a).map fun position =>
      { position, index, flag := t.machine.cpu.a }
  else none

/-- The runs of a signal in which the tape starts at most once, with their deliveries in order.
Between instructions anything may happen to the machine. -/
inductive Playing (signal : Signal) : Scene → List Delivery → Prop
  | create (config : Config) (clock : UInt64) (machine : Machine) {session : Session}
      (h : Session.create signal config clock = .ok session) :
      Playing signal { machine, session } []
  | start {s : Scene} {ds : List Delivery} (h : Playing signal s ds)
      (ho : s.session.origin = none) (ht : s.session.typing = none) (clock : UInt64) :
      Playing signal (s.mapSession (·.startTape clock)) ds
  | type {s : Scene} {ds : List Delivery} (h : Playing signal s ds)
      (ho : s.session.origin = none) (ht : s.session.typing = none)
      (chords : List (List String)) :
      Playing signal (s.mapSession (·.typeThenStart chords)) ds
  | intervene {s : Scene} {ds : List Delivery} (h : Playing signal s ds) (machine : Machine) :
      Playing signal { s with machine } ds
  | step {s : Scene} {ds : List Delivery} (h : Playing signal s ds) :
      Playing signal s.step.1.1 (ds ++ s.delivery?.toList)

/-! ### One step -/

namespace Scene

/-- The delivery of a step is of the block whose data the loading routine places in memory. -/
theorem trapRoutine_of_delivery {s : Scene} {blocks : List Block}
    (hp : s.session.signal.Plays blocks) {d : Delivery} (h : s.delivery? = some d) :
    ∃ range, s.session.signal.ranges[d.position]? = some range ∧
      s.session.signal.nextPosition? d.index d.flag = some d.position ∧
      s.session.index ≤ d.index ∧ s.session.origin ≠ none ∧
      ∃ t u : Scene, s.atTrap.trapRoutine = (t, none) ∧
        u.machine = placeData s.atTrap.machine
          (s.session.signal.blocks.getD range.block {}).data ∧
        t.machine = leaveRoutine (u.moveTapeTo range.stop).machine ∧
        s.atTrap.session.Later t.session ∧ range.stop ≤ t.session.index := by
  have hl := s.later_atTrap
  rw [← hl.signal] at hp ⊢
  unfold delivery? at h
  dsimp only at h
  split at h
  · rename_i htraps
    obtain ⟨k, hk, rfl⟩ := Option.map_eq_some_iff.mp h
    obtain ⟨hlt, hd, -⟩ := Signal.nextPosition?_eq_some_iff.mp hk
    have ha : s.atTrap.ahead? = some s.atTrap.session.signal.ranges[k] := by
      unfold ahead?
      rw [hp.nextRange?_eq, hk, Option.bind_some, List.getElem?_eq_getElem hlt]
    refine ⟨_, List.getElem?_eq_getElem hlt, hk, ?_, ?_, ?_⟩
    · exact Nat.le_trans hl.index (Session.index_le_indexAt _ _)
    · unfold traps Session.running at htraps
      intro h0
      rw [← hl.origin] at h0
      simp [h0] at htraps
    · have hlater := later_trapRoutine hp (s := s.atTrap)
      rw [trapRoutine_of_traps htraps] at hlater ⊢
      obtain ⟨u, hu, -, ht⟩ := loadBlock_of_some ha
      obtain ⟨origin, hm, -⟩ := u.session_moveTapeTo s.atTrap.session.signal.ranges[k].stop
      rw [ht] at hlater ⊢
      refine ⟨_, u, rfl, hu, rfl, hlater, ?_⟩
      dsimp only
      rw [hm]
  · cases h

/-- A step leads to a later stage of the session, unless the last key has been typed in it. -/
theorem later_step {s : Scene} {blocks : List Block} (hp : s.session.signal.Plays blocks) :
    s.session.Later s.step.1.1.session ∨
      s.session.typing ≠ none ∧ s.step.1.1.session.typing = none ∧
        s.step.1.1.session.signal = s.session.signal := by
  have ha := s.later_atTrap
  have hp' : s.atTrap.session.signal.Plays blocks := by
    rw [ha.signal]
    exact hp
  have ht := ha.trans (later_trapRoutine hp')
  rcases hr : s.atTrap.trapRoutine with ⟨t, error⟩
  rw [hr] at ht
  cases error with
  | some error =>
    rw [step_of_trap_error hr]
    exact .inl ht
  | none =>
    rcases later_step_of_trap hr with h | ⟨hty, hty', hsignal⟩
    · exact .inl (ht.trans h)
    · exact .inr ⟨mt ht.typing.mpr hty, hty', hsignal.trans ht.signal⟩

theorem step_of_delivery {s : Scene} {blocks : List Block}
    (hp : s.session.signal.Plays blocks) (hty : s.session.typing = none) {d : Delivery}
    (h : s.delivery? = some d) :
    ∃ range, s.session.signal.ranges[d.position]? = some range ∧
      s.session.signal.nextPosition? d.index d.flag = some d.position ∧
      s.session.index ≤ d.index ∧ s.session.origin ≠ none ∧
      range.stop ≤ s.step.1.1.session.index := by
  obtain ⟨range, hr, hpos, hi, ho, t, -, ht, -, -, hlater, hstop⟩ := trapRoutine_of_delivery hp h
  refine ⟨range, hr, hpos, hi, ho, ?_⟩
  rcases later_step_of_trap ht with hs | ⟨hty', -⟩
  · exact Nat.le_trans hstop hs.index
  · exact absurd (hlater.typing.mpr (s.later_atTrap.typing.mpr hty)) hty'

theorem step_of_trap_without_delivery {s : Scene} {blocks : List Block}
    (hp : s.session.signal.Plays blocks) (ht : s.atTrap.traps = true)
    (h : s.delivery? = none) : s.step.1.2 = .error (.load .endOfTape) := by
  have ha : s.atTrap.ahead? = none := by
    unfold delivery? at h
    dsimp only at h
    rw [if_pos ht, Option.map_eq_none_iff] at h
    unfold ahead?
    rw [← s.later_atTrap.signal] at hp
    rw [hp.nextRange?_eq, h]
    rfl
  have htrap : s.atTrap.trapRoutine = (s.atTrap.passedOver, some .endOfTape) :=
    (if_pos ht).trans (loadBlock_of_none ha)
  rw [step_of_trap_error htrap]

end Scene

/-! ### Runs -/

/-- What holds of the deliveries of a run, and where the tape is behind them. -/
structure Delivered (signal : Signal) (s : Scene) (ds : List Delivery) : Prop where
  signal_eq : s.session.signal = signal
  idle : s.session.origin = none → ds = []
  typing : s.session.typing ≠ none → s.session.origin = none
  next : ∀ d ∈ ds, signal.nextPosition? d.index d.flag = some d.position
  ordered : ds.Pairwise fun d e =>
    ∀ range, signal.ranges[d.position]? = some range → range.stop ≤ e.index
  past : ∀ d ∈ ds, ∀ range, signal.ranges[d.position]? = some range →
    range.stop ≤ s.session.index

theorem Delivered.nil {signal : Signal} {s : Scene} (hs : s.session.signal = signal)
    (ht : s.session.typing ≠ none → s.session.origin = none) : Delivered signal s [] where
  signal_eq := hs
  idle := fun _ => rfl
  typing := ht
  next := fun _ hmem => nomatch hmem
  ordered := List.Pairwise.nil
  past := fun _ hmem => nomatch hmem

theorem Delivered.step {signal : Signal} {blocks : List Block} (hp : signal.Plays blocks)
    {s : Scene} {ds : List Delivery} (h : Delivered signal s ds) :
    Delivered signal s.step.1.1 (ds ++ s.delivery?.toList) := by
  obtain rfl := h.signal_eq
  cases hd : s.delivery? with
  | none =>
    rw [Option.toList_none, List.append_nil]
    rcases Scene.later_step hp with hl | ⟨hty, hty', hs⟩
    · exact {
        signal_eq := hl.signal
        idle := fun h0 => h.idle (hl.origin.mp h0)
        typing := fun hty => hl.origin.mpr (h.typing fun h0 => hty (hl.typing.mpr h0))
        next := h.next
        ordered := h.ordered
        past := fun d hmem range hr => Nat.le_trans (h.past d hmem range hr) hl.index }
    · obtain rfl := h.idle (h.typing hty)
      exact Delivered.nil hs fun h0 => absurd hty' h0
  | some e =>
    have hty : s.session.typing = none := by
      obtain ⟨range, -, -, -, ho, -⟩ := Scene.trapRoutine_of_delivery hp hd
      by_contra hty
      exact ho (h.typing hty)
    obtain ⟨range, hr, hpos, hi, ho, hstop⟩ := Scene.step_of_delivery hp hty hd
    rcases Scene.later_step hp with hl | ⟨hty', -⟩
    · rw [Option.toList_some]
      refine {
        signal_eq := hl.signal
        idle := fun h0 => absurd (hl.origin.mp h0) ho
        typing := fun h0 => absurd (hl.typing.mpr hty) h0
        next := ?_
        ordered := ?_
        past := ?_ }
      · intro d hmem
        rcases List.mem_append.mp hmem with hmem | hmem
        · exact h.next d hmem
        · rw [List.mem_singleton.mp hmem]
          exact hpos
      · rw [List.pairwise_append]
        refine ⟨h.ordered, List.pairwise_singleton _ _, ?_⟩
        intro d hmem e' he range' hr'
        rw [List.mem_singleton.mp he]
        exact Nat.le_trans (h.past d hmem range' hr') hi
      · intro d hmem range' hr'
        rcases List.mem_append.mp hmem with hmem | hmem
        · exact Nat.le_trans (h.past d hmem range' hr') hl.index
        · rw [List.mem_singleton.mp hmem, hr] at hr'
          cases hr'
          exact hstop
    · exact absurd hty hty'

theorem Playing.delivered {signal : Signal} {blocks : List Block} (hp : signal.Plays blocks)
    {s : Scene} {ds : List Delivery} (h : Playing signal s ds) : Delivered signal s ds := by
  induction h with
  | create config clock machine h =>
    obtain ⟨loops, -, rfl⟩ := Session.create_eq_ok_iff.mp h
    exact Delivered.nil rfl fun h => absurd rfl h
  | start h ho ht clock ih =>
    obtain rfl := ih.idle ho
    exact Delivered.nil ih.signal_eq fun h => absurd ht h
  | type h ho ht chords ih =>
    obtain rfl := ih.idle ho
    exact Delivered.nil ih.signal_eq fun _ => ho
  | intervene h machine ih =>
    exact ⟨ih.signal_eq, ih.idle, ih.typing, ih.next, ih.ordered, ih.past⟩
  | step h ih => exact ih.step hp

/-! ### No block twice -/

/-- The next block lies at or before an earlier delivery only if it, or one in front of it with the
same flag, is silent. -/
theorem position_le_iff {signal : Signal} {blocks : List Block} (hp : signal.Plays blocks)
    {d e : Delivery} (hd : signal.nextPosition? d.index d.flag = some d.position)
    (he : signal.nextPosition? e.index e.flag = some e.position)
    (hde : ∀ range, signal.ranges[d.position]? = some range → range.stop ≤ e.index) :
    e.position ≤ d.position ↔
      ∃ k range b, k ≤ d.position ∧ signal.ranges[k]? = some range ∧
        blocks[range.block]? = some b ∧ b.flag = e.flag ∧ b.Silent ∧ range.data = e.index := by
  obtain ⟨hdlt, -, -⟩ := Signal.nextPosition?_eq_some_iff.mp hd
  obtain ⟨helt, ⟨hei, hef⟩, hfirst⟩ := Signal.nextPosition?_eq_some_iff.mp he
  have hstop := hde _ (List.getElem?_eq_getElem hdlt)
  constructor
  · intro hle
    obtain ⟨b, hb, hrec⟩ := hp.wellFormed.records _ (List.getElem_mem helt)
    have hdata : signal.ranges[e.position].data = signal.ranges[e.position].stop ∧
        signal.ranges[e.position].data = e.index := by
      have hs := hp.data_le_stop (List.getElem_mem helt)
      rcases Nat.eq_or_lt_of_le hle with heq | hlt
      · simp only [← heq] at hstop
        omega
      · have hs := hp.getElem_le hlt hdlt
        have := hp.data_le_stop (List.getElem_mem hdlt)
        omega
    refine ⟨e.position, _, b, hle, List.getElem?_eq_getElem helt, hb, ?_,
      hrec.data_eq_stop_iff.mp hdata.1, hdata.2⟩
    rw [← hef, hp.flagOf_eq hb]
  · rintro ⟨k, range, b, hk, hr, hb, hf, -, hi⟩
    obtain ⟨hlt, rfl⟩ := List.getElem?_eq_some_iff.mp hr
    by_contra hn
    refine hfirst k (by omega) ⟨by omega, ?_⟩
    rw [hp.flagOf_eq hb, hf]

theorem length_le_of_pairwise_position {ds : List Delivery} {n : Nat}
    (hn : ∀ d ∈ ds, d.position < n) (h : ds.Pairwise fun d e => d.position < e.position) :
    ds.length ≤ n := by
  have hnd : (ds.map Delivery.position).Nodup :=
    (List.pairwise_map.mpr h).imp fun hlt => Nat.ne_of_lt hlt
  have hsub : ds.map Delivery.position ⊆ List.range n := by
    intro k hk
    obtain ⟨d, hd, rfl⟩ := List.mem_map.mp hk
    exact List.mem_range.mpr (hn d hd)
  have := (List.subperm_of_subset hnd hsub).length_le
  rwa [List.length_map, List.length_range] at this

theorem Playing.pairwise_position_le_iff {signal : Signal} {blocks : List Block}
    (hp : signal.Plays blocks) {s : Scene} {ds : List Delivery} (h : Playing signal s ds) :
    ds.Pairwise fun d e => d.index ≤ e.index ∧
      (e.position ≤ d.position ↔
        ∃ k range b, k ≤ d.position ∧ signal.ranges[k]? = some range ∧
          blocks[range.block]? = some b ∧ b.flag = e.flag ∧ b.Silent ∧ range.data = e.index) := by
  have hdel := h.delivered hp
  refine hdel.ordered.imp_of_mem fun {d e} hd he hde => ⟨?_, ?_⟩
  · obtain ⟨hlt, ⟨hi, -⟩, -⟩ := Signal.nextPosition?_eq_some_iff.mp (hdel.next d hd)
    have hs := hp.data_le_stop (List.getElem_mem hlt)
    have := hde _ (List.getElem?_eq_getElem hlt)
    omega
  · exact position_le_iff hp (hdel.next d hd) (hdel.next e he) hde

/-- Without silent blocks the deliveries move forward, and there are no more of them than data
blocks. -/
theorem Playing.pairwise_position_lt {signal : Signal} {blocks : List Block}
    (hp : signal.Plays blocks) (hns : ∀ b ∈ blocks, b.hasData = true → ¬ b.Silent) {s : Scene}
    {ds : List Delivery} (h : Playing signal s ds) :
    (ds.Pairwise fun d e => d.position < e.position) ∧ ds.length ≤ signal.ranges.length := by
  have hinc : ds.Pairwise fun d e => d.position < e.position := by
    refine (h.pairwise_position_le_iff hp).imp fun {d e} hde => ?_
    by_contra hn
    obtain ⟨k, range, b, -, hr, hblock, -, hsil, -⟩ := hde.2.mp (by omega)
    obtain ⟨c, hc, hrec⟩ := hp.wellFormed.records range (List.mem_of_getElem? hr)
    obtain rfl : b = c := Option.some.inj (hblock.symm.trans hc)
    exact hns b (List.mem_of_getElem? hblock) hrec.hasData hsil
  refine ⟨hinc, length_le_of_pairwise_position ?_ hinc⟩
  intro d hd
  obtain ⟨hlt, -, -⟩ := Signal.nextPosition?_eq_some_iff.mp ((h.delivered hp).next d hd)
  exact hlt

/-- In a run in which the tape starts at most once, no block is delivered of which an edge of data
is in the past, and a delivery lies at or before an earlier one exactly if a silent block with the
flag that is wanted lies there, and no edge of the tape has passed since.  Without silent blocks on
the tape the positions increase, and when all blocks have been delivered the next trap fails. -/
theorem deliveries_of_playing {blocks : List Block} {signal : Signal}
    (hb : Signal.ofBlocks blocks = .ok signal) {s : Scene} {ds : List Delivery}
    (h : Playing signal s ds) :
    (∀ d ∈ ds, ∃ range, signal.ranges[d.position]? = some range ∧ d.index ≤ range.data) ∧
    (ds.Pairwise fun d e => d.index ≤ e.index ∧
      (e.position ≤ d.position ↔
        ∃ k range b, k ≤ d.position ∧ signal.ranges[k]? = some range ∧
          blocks[range.block]? = some b ∧ b.flag = e.flag ∧ b.Silent ∧ range.data = e.index)) ∧
    ((∀ b ∈ blocks, b.hasData = true → ¬ b.Silent) →
      (ds.Pairwise fun d e => d.position < e.position) ∧ ds.length ≤ signal.ranges.length ∧
      (ds.length = signal.ranges.length → s.atTrap.traps = true →
        s.step.1.2 = .error (.load .endOfTape))) := by
  have hp := Signal.plays_of_ofBlocks hb
  refine ⟨?_, h.pairwise_position_le_iff hp, fun hns => ?_⟩
  · intro d hd
    obtain ⟨hlt, ⟨hi, -⟩, -⟩ := Signal.nextPosition?_eq_some_iff.mp ((h.delivered hp).next d hd)
    exact ⟨_, List.getElem?_eq_getElem hlt, hi⟩
  · obtain ⟨hinc, hlen⟩ := h.pairwise_position_lt hp hns
    refine ⟨hinc, hlen, fun hall ht => ?_⟩
    have hs : s.session.signal.Plays blocks := by
      rw [(h.delivered hp).signal_eq]
      exact hp
    refine Scene.step_of_trap_without_delivery hs ht ?_
    by_contra hd
    obtain ⟨e, he⟩ := Option.ne_none_iff_exists'.mp hd
    have := (h.step.pairwise_position_lt hp hns).2
    rw [he, Option.toList_some, List.length_append, List.length_singleton] at this
    omega

/-! ### A silent block -/

/-- A tape with a single block of data, of which no bit is recorded. -/
def silentTape : List Block := [{ data := [0], timings := { pilotCount := 2, usedBits := 0 } }]

/-- The signal of that tape: the edges of the pilot tone and of the sync pulses. -/
def silentSignal : Signal where
  blocks := silentTape.toArray
  edges := #[2168, 4336, 5003, 5738]
  ranges := [{ block := 0, start := 0, data := 4, stop := 4 }]

/-- A machine that calls the loading routine again and again, wanting a header. -/
def askingMachine : Machine where
  cpu := { Cpu.powerOn with af := 0, pc := Scene.loadRoutine - 1 }
  memory := Memory.blank.writeAll Scene.loadRoutineExit [0xC3, 0x55, 0x05]

theorem ofBlocks_silentTape : Signal.ofBlocks silentTape = .ok silentSignal := by
  rfl

/-- That machine with the tape about to play. -/
def askingScene : Scene where
  machine := askingMachine
  session :=
    { signal := silentSignal, config := { accelerators := [] }, loops := [], runStart := 0,
      origin := some 0 }

/-- The block is delivered, and two instructions later it is delivered again. -/
theorem playing_askingScene :
    Playing silentSignal askingScene.step.1.1.step.1.1.step.1.1 [⟨0, 0, 0⟩, ⟨0, 4, 0⟩] := by
  have h : Playing silentSignal askingScene [] :=
    (Playing.create { accelerators := [] } 0 askingMachine rfl).start rfl rfl 0
  have h₁ : askingScene.delivery? = some ⟨0, 0, 0⟩ := by decide +kernel
  have h₂ : askingScene.step.1.1.delivery? = none := by decide +kernel
  have h₃ : askingScene.step.1.1.step.1.1.delivery? = some ⟨0, 4, 0⟩ := by decide +kernel
  have hrun := h.step.step.step
  rw [h₁, h₂, h₃] at hrun
  exact hrun

/-- In that run the second delivery is no further than the first, and a silent block lies there. -/
theorem silent_of_playing_askingScene :
    Signal.ofBlocks silentTape = .ok silentSignal ∧
      ∃ k range b, k ≤ 0 ∧ silentSignal.ranges[k]? = some range ∧
        silentTape[range.block]? = some b ∧ b.flag = 0 ∧ b.Silent ∧ range.data = 4 := by
  have h := (deliveries_of_playing ofBlocks_silentTape playing_askingScene).2.1
  exact ⟨ofBlocks_silentTape, (List.pairwise_pair.mp h).2.mp (Nat.le_refl 0)⟩

/-- Deliveries do not always move forward. -/
theorem not_pairwise_position_lt :
    ¬ ∀ (blocks : List Block) (signal : Signal) (s : Scene) (ds : List Delivery),
      Signal.ofBlocks blocks = .ok signal → Playing signal s ds →
        ds.Pairwise fun d e => d.position < e.position := by
  intro h
  have := h silentTape silentSignal _ _ ofBlocks_silentTape playing_askingScene
  simp at this

end Spectrum.Loader
