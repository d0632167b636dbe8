import Mathlib.Tactic.Common
import Spectrum.Proofs.Tape.Timeline

/-! # Bits on a tape

A data block is recorded as a leader and two pulses of the same length for each bit of its data.
Nothing else comes between its start and its last edge, so that its bits can be read back from the
times of the edges, as long as ones and zeros differ in length.

Main definitions: `Signal.Carries`, `Signal.readBits`.
Main statements: `Signal.Carries.readBits_eq`, `Signal.ofBlocks_carries`. -/

namespace Spectrum.Tape

/-! ### The pulses of a leader -/

theorem length_leaderPulses (t : Timings) :
    (leaderPulses t).length = if t.pilotCount = 0 then 0 else t.pilotCount + 2 := by
  unfold leaderPulses
  split <;> simp

theorem getElem?_leaderPulses {t : Timings} {k : Nat} (hk : k < t.pilotCount) :
    (leaderPulses t)[k]? = some t.pilot.toNat := by
  rw [leaderPulses, if_neg (by omega), List.getElem?_append_left (by simpa using hk),
    List.getElem?_replicate_of_lt hk]

theorem getElem?_leaderPulses_sync {t : Timings} (h : t.pilotCount ≠ 0) :
    (leaderPulses t)[t.pilotCount]? = some t.sync1.toNat ∧
      (leaderPulses t)[t.pilotCount + 1]? = some t.sync2.toNat := by
  rw [leaderPulses, if_neg h]
  constructor <;> simp

namespace Signal

variable {blocks : List Block} {s : Signal}

/-- The time in front of an edge of a range: that of the edge before, or that at which the block
starts. -/
def timeBefore (s : Signal) (d : DataRange) (time k : Nat) : Nat :=
  if k = d.start then time else s.edges.getD (k - 1) 0

/-- An edge comes some time after what is in front of it. -/
def Follows (s : Signal) (d : DataRange) (time k length : Nat) : Prop :=
  s.edges[k]? = some (s.timeBefore d time k + length)

/-- A range is the leader of a block and two edges for each of its bits. -/
structure Carries (s : Signal) (blocks : List Block) (i : Nat) (b : Block) (d : DataRange) :
    Prop where
  start_eq : d.start = firstEdge blocks i
  data_eq : d.data = d.start + if b.timings.pilotCount = 0 then 0 else b.timings.pilotCount + 2
  stop_eq : d.stop = d.data + 2 * b.bits.length
  pilot : ∀ k < b.timings.pilotCount,
    s.Follows d (startTime blocks i) (d.start + k) b.timings.pilot.toNat
  sync : b.timings.pilotCount ≠ 0 →
    s.Follows d (startTime blocks i) (d.start + b.timings.pilotCount) b.timings.sync1.toNat ∧
      s.Follows d (startTime blocks i) (d.start + b.timings.pilotCount + 1) b.timings.sync2.toNat
  bits : ∀ j (hj : j < b.bits.length),
    let length := if b.bits[j] then b.timings.one.toNat else b.timings.zero.toNat
    s.Follows d (startTime blocks i) (d.data + 2 * j) length ∧
      s.Follows d (startTime blocks i) (d.data + 2 * j + 1) length

/-- The bits of a range, read from the time between the two edges of each. -/
def readBits (s : Signal) (d : DataRange) (one : Nat) : List Bool :=
  (List.range ((d.stop - d.data) / 2)).map fun j =>
    s.edges.getD (d.data + 2 * j + 1) 0 - s.edges.getD (d.data + 2 * j) 0 == one

theorem follows_of_getElem? (h : ofBlocks blocks = .ok s) {i : Nat} {b : Block} {d : DataRange}
    (hb : blocks[i]? = some b) (hd : d.start = firstEdge blocks i) {k length : Nat}
    (hk : b.pulseLengths[k]? = some length) :
    s.Follows d (startTime blocks i) (d.start + k) length := by
  obtain ⟨hlt, rfl⟩ := List.getElem?_eq_some_iff.mp hk
  have hedge := getElem?_edges h hb hlt
  rw [List.take_succ_eq_append_getElem hlt, List.sum_append, List.sum_singleton,
    ← Nat.add_assoc] at hedge
  have hbefore : s.timeBefore d (startTime blocks i) (d.start + k) =
      startTime blocks i + (b.pulseLengths.take k).sum := by
    unfold timeBefore
    cases k with
    | zero => exact if_pos rfl
    | succ k =>
      have hlast := getElem?_edges h hb (k := k) (by omega)
      rw [if_neg (by omega), hd, ← Nat.add_assoc, Nat.add_sub_cancel, Array.getD_eq_getD_getElem?,
        hlast, Option.getD_some]
  rw [Follows, hbefore, hd]
  exact hedge

section

variable {i : Nat} {b : Block}

theorem carries_rangeAt (h : ofBlocks blocks = .ok s) (hb : blocks[i]? = some b)
    (hdata : b.hasData = true) : s.Carries blocks i b (rangeAt i (firstEdge blocks i) b) := by
  have hlengths : b.pulseLengths = leaderPulses b.timings ++ b.timings.bitLengths b.bits := by
    simp only [Block.hasData, Bool.and_eq_true, beq_iff_eq, Bool.not_eq_true',
      List.isEmpty_eq_false_iff] at hdata
    rw [Block.pulseLengths, hdata.1]
    exact if_neg hdata.2
  have hleader := length_leaderPulses b.timings
  let d := rangeAt i (firstEdge blocks i) b
  have hinLeader {k length : Nat} (hk : (leaderPulses b.timings)[k]? = some length) :
      s.Follows d (startTime blocks i) (d.start + k) length := by
    refine follows_of_getElem? h hb rfl ?_
    rw [hlengths, List.getElem?_append_left (List.getElem?_eq_some_iff.mp hk).1, hk]
  have hinBits {k length : Nat} (hk : (b.timings.bitLengths b.bits)[k]? = some length) :
      s.Follows d (startTime blocks i) (d.data + k) length := by
    have hplace : d.data + k = d.start + ((leaderPulses b.timings).length + k) :=
      Nat.add_assoc _ _ _
    rw [hplace]
    refine follows_of_getElem? h hb rfl ?_
    rw [hlengths, List.getElem?_append_right (Nat.le_add_right _ _), Nat.add_sub_cancel_left, hk]
  refine ⟨rfl, congrArg (firstEdge blocks i + ·) hleader, ?_, ?_, ?_, ?_⟩
  · show firstEdge blocks i + b.pulseLengths.length = _
    rw [hlengths, List.length_append, length_bitLengths, ← Nat.add_assoc]
    rfl
  · exact fun k hk => hinLeader (getElem?_leaderPulses hk)
  · intro hpilot
    obtain ⟨hsync1, hsync2⟩ := getElem?_leaderPulses_sync hpilot
    exact ⟨hinLeader hsync1, hinLeader hsync2⟩
  · intro j hj
    obtain ⟨hfirst, hsecond⟩ := getElem?_bitLengths b.timings hj
    exact ⟨hinBits hfirst, hinBits hsecond⟩

/-- Bits are read back if ones and zeros differ in length. -/
theorem Carries.readBits_eq {d : DataRange} (hc : s.Carries blocks i b d)
    (hne : b.timings.zero ≠ b.timings.one) : s.readBits d b.timings.one.toNat = b.bits := by
  have hcount : (d.stop - d.data) / 2 = b.bits.length := by
    rw [hc.stop_eq]
    omega
  have hne' : b.timings.zero.toNat ≠ b.timings.one.toNat := fun h => hne (UInt16.toNat_inj.mp h)
  apply List.ext_getElem
  · rw [readBits, List.length_map, List.length_range, hcount]
  · intro j _ hj
    have hedge := (hc.bits j hj).2
    have hstart : d.start ≤ d.data := by
      rw [hc.data_eq]
      omega
    have hbefore : s.timeBefore d (startTime blocks i) (d.data + 2 * j + 1) =
        s.edges.getD (d.data + 2 * j) 0 := if_neg (by omega)
    rw [Follows, hbefore] at hedge
    simp only [readBits, List.getElem_map, List.getElem_range]
    rw [Array.getD_eq_getD_getElem? (i := d.data + 2 * j + 1), hedge, Option.getD_some,
      Nat.add_sub_cancel_left]
    cases b.bits[j] <;> simp [hne']

end

/-- Every data block of a tape that can be played has a range, and that carries the bits of its data
behind a leader, with nothing in front but the blocks before it.  Counted in 64 bits the times are
the same if the tape ends before the counter runs over. -/
theorem ofBlocks_carries {blocks : List Block} (h : ∀ b ∈ blocks, b.kind ≠ .unsupported) :
    ∃ s, ofBlocks blocks = .ok s ∧
      (startTime blocks blocks.length < UInt64.size → s.FitsWords blocks) ∧
      ∀ i b, blocks[i]? = some b → b.hasData = true →
        (∃ d ∈ s.ranges, d.block = i) ∧
        ∀ d ∈ s.ranges, d.block = i → s.Carries blocks i b d ∧
          (b.timings.zero ≠ b.timings.one → s.readBits d b.timings.one.toNat = b.bits) := by
  obtain ⟨s, hs⟩ := ofBlocks_of_supported h
  refine ⟨s, hs, fitsWords_of_lt hs, fun i b hb hdata =>
    ⟨exists_range hs hb hdata, fun d hd hi => ?_⟩⟩
  obtain ⟨j, b', hb', -, rfl⟩ := (mem_ranges_iff hs).mp hd
  obtain rfl : j = i := hi
  obtain rfl : b = b' := Option.some.inj (hb.symm.trans hb')
  have hc := carries_rangeAt hs hb hdata
  exact ⟨hc, hc.readBits_eq⟩

/-- Behind a leader of four edges there are two bytes, the second of three bits; and three bits
without a leader, the first edge of which comes nine T-states after all that is in front. -/
theorem ofBlocks_carries_mixedTape :
    (∀ b ∈ mixedTape, b.kind ≠ .unsupported) ∧ ∃ s, ofBlocks mixedTape = .ok s ∧
      (∃ d ∈ s.ranges, d.block = 1 ∧ d.start = 2 ∧ d.data = 6 ∧ d.stop = 28 ∧
        s.readBits d 0 =
          [true, false, true, false, false, true, false, true, true, false, true]) ∧
      ∃ d ∈ s.ranges, d.block = 3 ∧ d.data = 28 ∧ s.readBits d 9 = [true, true, false] ∧
        s.edges[28]? = some (startTime mixedTape 3 + 9) := by
  have hkinds : ∀ b ∈ mixedTape, b.kind ≠ .unsupported := by decide
  obtain ⟨s, hs, -, h⟩ := ofBlocks_carries hkinds
  obtain ⟨⟨d, hd, hi⟩, hall⟩ := h 1 _ rfl rfl
  obtain ⟨⟨d', hd', hi'⟩, hall'⟩ := h 3 _ rfl rfl
  obtain ⟨hc, hbits⟩ := hall d hd hi
  obtain ⟨hc', hbits'⟩ := hall' d' hd' hi'
  have hstart : d.start = 2 := hc.start_eq
  have hdata : d.data = 6 := by rw [hc.data_eq, hstart]; rfl
  have hstart' : d'.start = 28 := hc'.start_eq
  have hdata' : d'.data = 28 := by rw [hc'.data_eq, hstart']; rfl
  refine ⟨hkinds, s, hs, ⟨d, hd, hi, hstart, hdata, ?_, ?_⟩, d', hd', hi', hdata', ?_, ?_⟩
  · rw [hc.stop_eq, hdata]
    rfl
  · exact (hbits (by decide)).trans (by decide)
  · exact (hbits' (by decide)).trans (by decide)
  · have hfirst := (hc'.bits 0 (by decide)).1
    rw [Follows, hdata', timeBefore, if_pos (by rw [hstart'])] at hfirst
    exact hfirst

end Signal

end Spectrum.Tape
