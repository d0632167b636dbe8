import Mathlib.Algebra.BigOperators.Group.List.Basic
import Mathlib.Algebra.GroupWithZero.Nat
import Mathlib.Tactic.Common
import Spectrum.Proofs.Tape.Signal

/-! # The timeline of a tape

A tape is its blocks one behind the other: each is a number of pulses, with an edge at the end of
each, and a silence.  So it is known from the blocks alone when a block starts, which edges are its
own and when they come; the signal is just that.

Main definitions: `Block.pulseLengths`, `startTime`, `firstEdge`, `Signal.Represents`.
Main statements: `Signal.eq_timeline`, `Signal.getElem?_edges`, `Signal.ofBlocks_represents`. -/

namespace Spectrum.Tape

/-! ### Bits and pulses -/

/-- The bits of a byte, the most significant first. -/
def byteBits (byte : UInt8) : List Bool := (List.range 8).map fun k => byte.toNat.testBit (7 - k)

/-- The bits of data, of whose last byte only some are used. -/
def recordedBits (data : List UInt8) (used : Nat) : List Bool :=
  (data.flatMap byteBits).take (8 * (data.length - 1) + min used 8)

/-- The bits that are recorded of a block. -/
def Block.bits (b : Block) : List Bool := recordedBits b.data b.timings.usedBits.toNat

/-- The length of either pulse of a bit. -/
def Timings.bitLength (t : Timings) (bit : Bool) : Nat :=
  if bit then t.one.toNat else t.zero.toNat

/-- The pulses of bits, two of each. -/
def Timings.bitLengths (t : Timings) (bits : List Bool) : List Nat :=
  bits.flatMap fun bit => [t.bitLength bit, t.bitLength bit]

/-- The lengths of all pulses of a block. -/
def Block.pulseLengths (b : Block) : List Nat :=
  match b.kind with
  | .unsupported => []
  | .pulses => b.pulses.map UInt16.toNat
  | .data => if b.data = [] then [] else leaderPulses b.timings ++ b.timings.bitLengths b.bits

/-- The time from the start of a block to the end of the silence behind it. -/
def Block.duration (b : Block) : Nat := b.pulseLengths.sum + b.timings.pause.toNat * 3500

/-- The time at which a block starts. -/
def startTime (blocks : List Block) (i : Nat) : Nat := ((blocks.take i).map Block.duration).sum

/-- The number of edges in front of a block. -/
def firstEdge (blocks : List Block) (i : Nat) : Nat :=
  ((blocks.take i).map fun b => b.pulseLengths.length).sum

section

variable (t : Timings)

theorem length_byteBits (byte : UInt8) : (byteBits byte).length = 8 := rfl

theorem bitPulses_eq (byte : UInt8) {count : Nat} (h : count ≤ 8) :
    bitPulses t byte count = t.bitLengths ((byteBits byte).take count) := by
  have hbits : (byteBits byte).take count =
      (List.range count).map fun k => byte.toNat.testBit (7 - k) := by
    rw [byteBits, ← List.map_take, List.take_range, Nat.min_eq_left h]
  rw [hbits, Timings.bitLengths, List.flatMap_map]
  rfl

theorem dataPulses_eq (data : List UInt8) :
    dataPulses t data = t.bitLengths (recordedBits data t.usedBits.toNat) := by
  match data with
  | [] => simp [dataPulses, recordedBits, Timings.bitLengths]
  | [last] =>
    rw [dataPulses, bitPulses_eq t last (Nat.min_le_right _ _)]
    simp [recordedBits]
  | byte :: next :: rest =>
    have hall : (byte :: next :: rest).flatMap byteBits =
        byteBits byte ++ (next :: rest).flatMap byteBits := rfl
    have hcount : 8 * ((byte :: next :: rest).length - 1) + min t.usedBits.toNat 8 =
        (byteBits byte).length + (8 * ((next :: rest).length - 1) + min t.usedBits.toNat 8) := by
      simp only [List.length_cons, length_byteBits]
      omega
    rw [dataPulses.eq_3 _ _ _ (by simp), dataPulses_eq (next :: rest),
      bitPulses_eq t byte (Nat.le_refl 8), recordedBits, recordedBits, hcount, hall,
      List.take_length_add_append, List.take_of_length_le (length_byteBits byte).le]
    exact List.flatMap_append.symm

theorem length_bitLengths (bits : List Bool) : (t.bitLengths bits).length = 2 * bits.length := by
  simp [Timings.bitLengths, Nat.mul_comm]

theorem getElem?_bitLengths {bits : List Bool} {j : Nat} (hj : j < bits.length) :
    (t.bitLengths bits)[2 * j]? = some (t.bitLength bits[j]) ∧
      (t.bitLengths bits)[2 * j + 1]? = some (t.bitLength bits[j]) := by
  induction bits generalizing j with
  | nil => exact absurd hj (Nat.not_lt_zero j)
  | cons bit rest ih =>
    cases j with
    | zero => exact ⟨rfl, rfl⟩
    | succ j => exact ih (Nat.lt_of_succ_lt_succ hj)

end

/-! ### Edges in a row -/

/-- The times at which pulses end that follow each other from a time on. -/
def endings (time : Nat) : List Nat → List Nat
  | [] => []
  | length :: rest => (time + length) :: endings (time + length) rest

theorem length_endings (time : Nat) (lengths : List Nat) :
    (endings time lengths).length = lengths.length := by
  induction lengths generalizing time with
  | nil => rfl
  | cons length rest ih => exact congrArg (· + 1) (ih (time + length))

theorem getElem?_endings (time : Nat) {lengths : List Nat} {k : Nat} (hk : k < lengths.length) :
    (endings time lengths)[k]? = some (time + (lengths.take (k + 1)).sum) := by
  induction lengths generalizing time k with
  | nil => exact absurd hk (Nat.not_lt_zero k)
  | cons length rest ih =>
    cases k with
    | zero => simp [endings]
    | succ k =>
      rw [endings, List.getElem?_cons_succ, ih _ (Nat.lt_of_succ_lt_succ hk), List.take_succ_cons,
        List.sum_cons, Nat.add_assoc]

theorem endings_append (time : Nat) (lengths more : List Nat) :
    endings time (lengths ++ more) =
      endings time lengths ++ endings (time + lengths.sum) more := by
  induction lengths generalizing time with
  | nil => rfl
  | cons length rest ih =>
    rw [List.cons_append, endings, ih, endings, List.sum_cons, Nat.add_assoc, List.cons_append]

/-- The edges of blocks from a time on. -/
def timeline (time : Nat) : List Block → List Nat
  | [] => []
  | b :: rest => endings time b.pulseLengths ++ timeline (time + b.duration) rest

/-- Where the edges of a data block lie if some edges are in front of it. -/
def rangeAt (index first : Nat) (b : Block) : DataRange where
  block := index
  start := first
  data := first + (leaderPulses b.timings).length
  stop := first + b.pulseLengths.length

/-- The ranges of blocks, with some blocks and some edges in front of them. -/
def rangesFrom (index first : Nat) : List Block → List DataRange
  | [] => []
  | b :: rest =>
    (if b.hasData then [rangeAt index first b] else []) ++
      rangesFrom (index + 1) (first + b.pulseLengths.length) rest

theorem startTime_cons (b : Block) (rest : List Block) (i : Nat) :
    startTime (b :: rest) (i + 1) = b.duration + startTime rest i := rfl

theorem firstEdge_cons (b : Block) (rest : List Block) (i : Nat) :
    firstEdge (b :: rest) (i + 1) = b.pulseLengths.length + firstEdge rest i := rfl

/-- The edges of a block come when the sums of its pulses say. -/
theorem getElem?_timeline (time : Nat) {blocks : List Block} {i : Nat} {b : Block}
    (hb : blocks[i]? = some b) {k : Nat} (hk : k < b.pulseLengths.length) :
    (timeline time blocks)[firstEdge blocks i + k]? =
      some (time + startTime blocks i + (b.pulseLengths.take (k + 1)).sum) := by
  induction blocks generalizing time i with
  | nil => cases hb
  | cons c rest ih =>
    have hlength := length_endings time c.pulseLengths
    cases i with
    | zero =>
      obtain rfl : c = b := Option.some.inj hb
      have hfirst : firstEdge (c :: rest) 0 + k = k := Nat.zero_add k
      rw [hfirst, timeline, List.getElem?_append_left (by omega), getElem?_endings time hk]
      rfl
    | succ i =>
      have hplace : firstEdge (c :: rest) (i + 1) + k =
          (endings time c.pulseLengths).length + (firstEdge rest i + k) := by
        rw [firstEdge_cons]
        omega
      rw [hplace, timeline, List.getElem?_append_right (Nat.le_add_right _ _),
        Nat.add_sub_cancel_left, ih _ hb, startTime_cons, Nat.add_assoc time]

/-- The edges are those of the blocks, and each is the edge of one block. -/
theorem existsUnique_block (time : Nat) {blocks : List Block} {k : Nat}
    (hk : k < (timeline time blocks).length) :
    ∃! i, ∃ b, blocks[i]? = some b ∧ firstEdge blocks i ≤ k ∧
      k < firstEdge blocks i + b.pulseLengths.length := by
  induction blocks generalizing time k with
  | nil => exact absurd hk (Nat.not_lt_zero k)
  | cons c rest ih =>
    rw [timeline, List.length_append, length_endings] at hk
    -- the edge is of the first block or, counted from its last edge, of one of the others
    by_cases hc : k < c.pulseLengths.length
    · refine ⟨0, ⟨c, rfl, Nat.zero_le k, by rwa [show firstEdge (c :: rest) 0 = 0 from rfl,
        Nat.zero_add]⟩, ?_⟩
      rintro (_ | i) ⟨b, -, hle, -⟩
      · rfl
      · rw [firstEdge_cons] at hle
        omega
    · obtain ⟨i, ⟨b, hb, hle, hlt⟩, hunique⟩ :=
        ih (time + c.duration) (k := k - c.pulseLengths.length) (by omega)
      refine ⟨i + 1, ⟨b, hb, ?_, ?_⟩, ?_⟩
      · rw [firstEdge_cons]
        omega
      · rw [firstEdge_cons]
        omega
      · rintro (_ | j) ⟨b', hb', hle', hlt'⟩
        · obtain rfl : c = b' := Option.some.inj hb'
          have hzero : firstEdge (c :: rest) 0 = 0 := rfl
          omega
        · rw [firstEdge_cons] at hle' hlt'
          exact congrArg (· + 1) (hunique j ⟨b', hb', by omega, by omega⟩)

/-- The ranges are those of the data blocks, each at its place. -/
theorem mem_rangesFrom {blocks : List Block} {index first : Nat} {d : DataRange} :
    d ∈ rangesFrom index first blocks ↔ ∃ i b, blocks[i]? = some b ∧ b.hasData = true ∧
      d = rangeAt (index + i) (first + firstEdge blocks i) b := by
  induction blocks generalizing index first with
  | nil => simp [rangesFrom]
  | cons c rest ih =>
    rw [rangesFrom, List.mem_append, ih]
    constructor
    · rintro (hd | ⟨i, b, hb, hdata, rfl⟩)
      · refine ⟨0, c, rfl, ?_⟩
        split at hd
        · next hdata => exact ⟨hdata, List.mem_singleton.mp hd⟩
        · cases hd
      · refine ⟨i + 1, b, hb, hdata, ?_⟩
        rw [firstEdge_cons, Nat.add_assoc, Nat.add_assoc, Nat.add_comm 1 i]
    · rintro ⟨_ | i, b, hb, hdata, rfl⟩
      · obtain rfl : c = b := Option.some.inj hb
        rw [if_pos hdata]
        exact .inl (List.mem_singleton.mpr rfl)
      · refine .inr ⟨i, b, hb, hdata, ?_⟩
        rw [firstEdge_cons, Nat.add_assoc, Nat.add_assoc, Nat.add_comm 1 i]

theorem le_of_mem_endings {time t : Nat} {lengths : List Nat} (h : t ∈ endings time lengths) :
    t ≤ time + lengths.sum := by
  induction lengths generalizing time with
  | nil => cases h
  | cons length rest ih =>
    rw [endings, List.mem_cons] at h
    rw [List.sum_cons, ← Nat.add_assoc]
    rcases h with rfl | h
    · exact Nat.le_add_right _ _
    · exact ih h

theorem le_of_mem_timeline {time t : Nat} {blocks : List Block} (h : t ∈ timeline time blocks) :
    t ≤ time + startTime blocks blocks.length := by
  induction blocks generalizing time with
  | nil => cases h
  | cons b rest ih =>
    rw [timeline, List.mem_append] at h
    rw [List.length_cons, startTime_cons, ← Nat.add_assoc]
    rcases h with h | h
    · have hpulses : b.pulseLengths.sum ≤ b.duration := Nat.le_add_right _ _
      have hle := le_of_mem_endings h
      omega
    · exact ih h

theorem startTime_le (blocks : List Block) (i : Nat) :
    startTime blocks i ≤ startTime blocks blocks.length := by
  have hall : startTime blocks blocks.length =
      startTime blocks i + ((blocks.drop i).map Block.duration).sum := by
    rw [startTime, List.take_length, startTime, ← List.sum_append, ← List.map_append,
      List.take_append_drop]
  rw [hall]
  exact Nat.le_add_right _ _

/-! ### Recording -/

namespace Recording

theorem recorded_pulses (r : Recording) (lengths : List Nat) :
    (r.pulses lengths).time = r.time + lengths.sum ∧
      (r.pulses lengths).edges.toList = r.edges.toList ++ endings r.time lengths := by
  unfold Recording.pulses
  induction lengths generalizing r with
  | nil => exact ⟨rfl, (List.append_nil _).symm⟩
  | cons length rest ih =>
    obtain ⟨htime, hedges⟩ := ih (r.pulse length)
    refine ⟨htime.trans ?_, hedges.trans ?_⟩
    · rw [List.sum_cons, ← Nat.add_assoc]
      rfl
    · rw [pulse, Array.toList_push, List.append_assoc]
      rfl

/-- The pulses of a data block, and its range. -/
theorem recorded_data (r : Recording) (index : Nat) {b : Block} (hk : b.kind = .data)
    (hd : b.data ≠ []) :
    (r.data index b).time = r.time + b.pulseLengths.sum ∧
      (r.data index b).edges.toList = r.edges.toList ++ endings r.time b.pulseLengths ∧
      (r.data index b).ranges.toList = r.ranges.toList ++ [rangeAt index r.edges.size b] := by
  let leader := r.pulses (leaderPulses b.timings)
  have hlengths : b.pulseLengths =
      leaderPulses b.timings ++ dataPulses b.timings b.data := by
    rw [Block.pulseLengths, hk, dataPulses_eq]
    exact if_neg hd
  obtain ⟨htime, hedges⟩ := r.recorded_pulses (leaderPulses b.timings)
  obtain ⟨htime', hedges'⟩ := leader.recorded_pulses (dataPulses b.timings b.data)
  refine ⟨?_, ?_, ?_⟩
  · rw [hlengths, List.sum_append, ← Nat.add_assoc, ← htime]
    exact htime'
  · rw [hlengths, endings_append, ← List.append_assoc, ← hedges, ← htime]
    exact hedges'
  · have hfirst : leader.edges.size = r.edges.size + (leaderPulses b.timings).length :=
      r.size_pulses _
    have hstop : (leader.pulses (dataPulses b.timings b.data)).edges.size =
        r.edges.size + b.pulseLengths.length := by
      rw [size_pulses, hfirst, hlengths, List.length_append, Nat.add_assoc]
    rw [rangeAt, ← hfirst, ← hstop]
    simp [Recording.data, leader]

/-- What a block adds to a recording. -/
theorem recorded_block {r r' : Recording} {index : Nat} {b : Block}
    (h : r.block index b = .ok r') :
    r'.time = r.time + b.duration ∧
      r'.edges.toList = r.edges.toList ++ endings r.time b.pulseLengths ∧
      r'.ranges.toList =
        r.ranges.toList ++ if b.hasData then [rangeAt index r.edges.size b] else [] := by
  unfold Recording.block at h
  split at h
  · cases h
  · next hk =>
    cases h
    obtain ⟨htime, hedges⟩ := r.recorded_pulses (b.pulses.map UInt16.toNat)
    simp [hk, pause, htime, hedges, Block.duration, Block.pulseLengths, Block.hasData,
      tstatesPerMillisecond, Nat.add_assoc]
  · next hk =>
    split at h
    · next he =>
      cases h
      simp [hk, pause, List.isEmpty_iff.mp he, Block.duration, Block.pulseLengths, Block.hasData,
        tstatesPerMillisecond, endings]
    · next he =>
      cases h
      have hd : b.data ≠ [] := fun h0 => he (List.isEmpty_iff.mpr h0)
      obtain ⟨htime, hedges, hranges⟩ := r.recorded_data index hk hd
      simp [hk, he, pause, htime, hedges, hranges, Block.duration, Block.hasData,
        tstatesPerMillisecond, Nat.add_assoc]

theorem recorded_blocks {r r' : Recording} {index : Nat} {rest : List Block}
    (h : r.blocks index rest = .ok r') :
    r'.edges.toList = r.edges.toList ++ timeline r.time rest ∧
      r'.ranges.toList = r.ranges.toList ++ rangesFrom index r.edges.size rest := by
  induction rest generalizing r index with
  | nil =>
    cases h
    exact ⟨(List.append_nil _).symm, (List.append_nil _).symm⟩
  | cons b rest ih =>
    simp only [Recording.blocks] at h
    split at h
    · cases h
    · next r₁ hb =>
      obtain ⟨htime, hedges, hranges⟩ := recorded_block hb
      obtain ⟨hedges', hranges'⟩ := ih h
      have hsize : r₁.edges.size = r.edges.size + b.pulseLengths.length := by
        rw [← Array.length_toList, hedges, List.length_append, length_endings, Array.length_toList]
      rw [hedges, htime, List.append_assoc] at hedges'
      rw [hranges, hsize, List.append_assoc] at hranges'
      exact ⟨hedges', hranges'⟩

theorem block_eq_error_iff {r : Recording} {index : Nat} {b : Block} {e : TapeError} :
    r.block index b = .error e ↔ b.kind = .unsupported ∧ e = .unsupported b.id := by
  unfold Recording.block
  split
  · next hk => simp [hk, eq_comm]
  · next hk => simp [hk]
  · next hk => split <;> simp [hk]

/-- Recording fails at the first block that cannot be played. -/
theorem blocks_eq_error_iff {r : Recording} {index : Nat} {rest : List Block} {e : TapeError} :
    r.blocks index rest = .error e ↔
      ∃ b, rest.find? (·.kind == .unsupported) = some b ∧ e = .unsupported b.id := by
  induction rest generalizing r index with
  | nil => simp [Recording.blocks]
  | cons b rest ih =>
    rw [Recording.blocks]
    by_cases hk : b.kind = .unsupported
    · rw [block_eq_error_iff.mpr ⟨hk, rfl⟩, List.find?_cons_of_pos (by simpa using hk)]
      simp [eq_comm]
    · rw [List.find?_cons_of_neg (by simpa using hk)]
      split
      · next hb => exact absurd (block_eq_error_iff.mp hb).1 hk
      · exact ih

end Recording

namespace Signal

variable {blocks : List Block} {s : Signal}

theorem ofBlocks_eq_error_iff {e : TapeError} :
    ofBlocks blocks = .error e ↔
      ∃ b, blocks.find? (·.kind == .unsupported) = some b ∧ e = .unsupported b.id := by
  have hblocks : ofBlocks blocks = .error e ↔ Recording.blocks {} 0 blocks = .error e := by
    unfold ofBlocks
    split
    · next hr => simp [hr]
    · next hr => simp [hr]
  exact hblocks.trans Recording.blocks_eq_error_iff

theorem ofBlocks_of_supported (h : ∀ b ∈ blocks, b.kind ≠ .unsupported) :
    ∃ s, ofBlocks blocks = .ok s := by
  cases hs : ofBlocks blocks with
  | ok s => exact ⟨s, rfl⟩
  | error e =>
    obtain ⟨b, hb, -⟩ := ofBlocks_eq_error_iff.mp hs
    have hk : b.kind = .unsupported := by simpa using List.find?_some hb
    exact absurd hk (h b (List.mem_of_find?_eq_some hb))

/-- The signal of a tape is its timeline. -/
theorem eq_timeline (h : ofBlocks blocks = .ok s) :
    s.edges.toList = timeline 0 blocks ∧ s.ranges = rangesFrom 0 0 blocks := by
  unfold ofBlocks at h
  split at h
  · cases h
  · next r hr =>
    cases h
    exact Recording.recorded_blocks hr

theorem mem_ranges_iff (h : ofBlocks blocks = .ok s) {d : DataRange} :
    d ∈ s.ranges ↔ ∃ i b, blocks[i]? = some b ∧ b.hasData = true ∧
      d = rangeAt i (firstEdge blocks i) b := by
  rw [(eq_timeline h).2, mem_rangesFrom]
  simp only [Nat.zero_add]

/-- The edges of a block come when its pulses end, one after the other from its start. -/
theorem getElem?_edges (h : ofBlocks blocks = .ok s) {i : Nat} {b : Block}
    (hb : blocks[i]? = some b) {k : Nat} (hk : k < b.pulseLengths.length) :
    s.edges[firstEdge blocks i + k]? =
      some (startTime blocks i + (b.pulseLengths.take (k + 1)).sum) := by
  rw [← Array.getElem?_toList, (eq_timeline h).1, getElem?_timeline 0 hb hk, Nat.zero_add]

/-! ### Edges and blocks -/

/-- An edge belongs to a block: it is in the range of its data, or it ends one of its pulses. -/
def Owns (s : Signal) (blocks : List Block) (i k : Nat) : Prop :=
  (∃ d ∈ s.ranges, d.block = i ∧ d.start ≤ k ∧ k < d.stop) ∨
    ∃ b n, blocks[i]? = some b ∧ b.kind = .pulses ∧ n < b.pulses.length ∧
      k = firstEdge blocks i + n ∧
      s.edges[k]? = some (startTime blocks i + ((b.pulses.take (n + 1)).map UInt16.toNat).sum)

theorem owns_iff (h : ofBlocks blocks = .ok s) {i k : Nat} :
    s.Owns blocks i k ↔ ∃ b, blocks[i]? = some b ∧ firstEdge blocks i ≤ k ∧
      k < firstEdge blocks i + b.pulseLengths.length := by
  constructor
  · rintro (⟨d, hd, rfl, hle, hlt⟩ | ⟨b, n, hb, hk, hn, rfl, -⟩)
    · obtain ⟨i, b, hb, -, rfl⟩ := (mem_ranges_iff h).mp hd
      exact ⟨b, hb, hle, hlt⟩
    · have hlengths : b.pulseLengths = b.pulses.map UInt16.toNat := by rw [Block.pulseLengths, hk]
      rw [← List.length_map UInt16.toNat, ← hlengths] at hn
      exact ⟨b, hb, Nat.le_add_right _ _, Nat.add_lt_add_left hn _⟩
  · rintro ⟨b, hb, hle, hlt⟩
    obtain ⟨n, rfl⟩ := Nat.exists_eq_add_of_le hle
    have hn := Nat.lt_of_add_lt_add_left hlt
    cases hk : b.kind with
    | unsupported => simp [Block.pulseLengths, hk] at hn
    | pulses =>
      have hlengths : b.pulseLengths = b.pulses.map UInt16.toNat := by rw [Block.pulseLengths, hk]
      have hedge := getElem?_edges h hb hn
      rw [hlengths, ← List.map_take] at hedge
      rw [hlengths, List.length_map] at hn
      exact .inr ⟨b, n, hb, hk, hn, rfl, hedge⟩
    | data =>
      have hd : b.data ≠ [] := by
        rintro h0
        simp [Block.pulseLengths, hk, h0] at hn
      refine .inl ⟨rangeAt i (firstEdge blocks i) b, ?_, rfl, hle, hlt⟩
      exact (mem_ranges_iff h).mpr ⟨i, b, hb, by simp [Block.hasData, hk, hd], rfl⟩

/-- The times of a tape, those at which its blocks start and those of its edges, are such as a word
of 64 bits holds. -/
structure FitsWords (s : Signal) (blocks : List Block) : Prop where
  starts : ∀ i, startTime blocks i < UInt64.size
  edges : ∀ t ∈ s.edges.toList, t < UInt64.size

/-- So they are as long as the tape ends in time. -/
theorem fitsWords_of_lt (h : ofBlocks blocks = .ok s)
    (hlen : startTime blocks blocks.length < UInt64.size) : s.FitsWords blocks where
  starts i := Nat.lt_of_le_of_lt (startTime_le blocks i) hlen
  edges t ht := by
    rw [(eq_timeline h).1] at ht
    have hle := le_of_mem_timeline ht
    rw [Nat.zero_add] at hle
    exact Nat.lt_of_le_of_lt hle hlen

/-- What the signal of a tape is like: its edges in order and counted by the search, its ranges one
behind the other, and all of it that of the blocks; and if the tape ends before a counter of 64 bits
runs over, that shows the same times. -/
structure Represents (s : Signal) (blocks : List Block) : Prop where
  sorted : s.edges.toList.Pairwise (· ≤ ·)
  edgesUntil_eq : ∀ t, s.edgesUntil t = s.edges.toList.countP (· ≤ t)
  edgesUntil_mono : ∀ t u, t ≤ u → s.edgesUntil t ≤ s.edgesUntil u
  within : ∀ d ∈ s.ranges, d.start ≤ d.data ∧ d.data ≤ d.stop ∧ d.stop ≤ s.edges.size
  ordered : s.ranges.Pairwise fun d e => d.stop ≤ e.start ∧ d.block < e.block
  mem_blocks : ∀ i, (∃ d ∈ s.ranges, d.block = i) ↔
    ∃ b, blocks[i]? = some b ∧ b.kind = .data ∧ b.data ≠ []
  owned : ∀ k < s.edges.size, ∃! i, s.Owns blocks i k
  words : startTime blocks blocks.length < UInt64.size → s.FitsWords blocks

theorem represents_of_eq_ok (h : ofBlocks blocks = .ok s) : s.Represents blocks := by
  have hplays := plays_of_ofBlocks h
  have hw := hplays.wellFormed
  refine ⟨hw.sorted, edgesUntil_eq_passed hplays.sorted,
    fun _ _ => edgesUntil_mono hplays.sorted, ?_, hw.ordered.and (pairwise_block h), ?_, ?_,
    fitsWords_of_lt h⟩
  · intro d hd
    obtain ⟨b, -, hb⟩ := hw.records d hd
    refine ⟨hb.start_le, hb.data_le, ?_⟩
    rw [← Array.length_toList]
    exact hw.within d hd
  · intro i
    have hmem : (∃ d ∈ s.ranges, d.block = i) ↔ i ∈ s.ranges.map (·.block) := List.mem_map.symm
    rw [hmem, map_block_ranges h, mem_dataNumbers]
    simp [Block.hasData]
  · intro k hk
    simp only [owns_iff h]
    rw [← Array.length_toList, (eq_timeline h).1] at hk
    exact existsUnique_block 0 hk

/-- A tape has a signal unless it has a block that cannot be played, the first of which is named
then; and the signal represents the tape. -/
theorem ofBlocks_represents (blocks : List Block) :
    (∀ e, ofBlocks blocks = .error e ↔
      ∃ b, blocks.find? (·.kind == .unsupported) = some b ∧ e = .unsupported b.id) ∧
    ((∀ b ∈ blocks, b.kind ≠ .unsupported) →
      ∃ s, ofBlocks blocks = .ok s ∧ s.Represents blocks) := by
  refine ⟨fun _ => ofBlocks_eq_error_iff, fun h => ?_⟩
  obtain ⟨s, hs⟩ := ofBlocks_of_supported h
  exact ⟨s, hs, represents_of_eq_ok hs⟩

/-- A tape of pulses, of two data blocks of which the second has no leader, and of a data block
without data. -/
def mixedTape : List Block :=
  [{ kind := .pulses, pulses := [0, 20], timings := { pause := 1 } },
    { data := [0xA5, 0xA0],
      timings := { pilot := 5, pilotCount := 2, sync1 := 3, sync2 := 4, zero := 6, one := 0,
                   usedBits := 3, pause := 0 } },
    { data := [] },
    { data := [0xC0], timings := { pilotCount := 0, zero := 7, one := 9, usedBits := 3 } }]

/-- Its first two edges are there at time 20, and the next one only after the silence; with a block
behind it that cannot be played it has no signal. -/
theorem ofBlocks_represents_mixedTape :
    (∀ b ∈ mixedTape, b.kind ≠ .unsupported) ∧
      (∃ s, ofBlocks mixedTape = .ok s ∧ s.edgesUntil 20 = 2 ∧ s.edgesUntil 3524 = 2 ∧
        s.edgesUntil 3525 = 3 ∧ (∃ d ∈ s.ranges, d.block = 3) ∧ ¬ ∃ d ∈ s.ranges, d.block = 2) ∧
      ofBlocks (mixedTape ++ [{ kind := .unsupported, id := 0x18 }]) =
        .error (.unsupported 0x18) := by
  have hkinds : ∀ b ∈ mixedTape, b.kind ≠ .unsupported := by decide
  obtain ⟨s, hs, hr⟩ := (ofBlocks_represents mixedTape).2 hkinds
  have hedges := (eq_timeline hs).1
  refine ⟨hkinds, ⟨s, hs, ?_, ?_, ?_, ?_, ?_⟩, ?_⟩
  · rw [hr.edgesUntil_eq, hedges]
    decide
  · rw [hr.edgesUntil_eq, hedges]
    decide
  · rw [hr.edgesUntil_eq, hedges]
    decide
  · exact (hr.mem_blocks 3).mpr ⟨_, rfl, rfl, by decide⟩
  · rw [hr.mem_blocks]
    rintro ⟨b, hb, -, hd⟩
    obtain rfl := Option.some.inj hb
    exact hd rfl
  · exact ((ofBlocks_represents _).1 _).mpr ⟨_, rfl, rfl⟩

end Signal

end Spectrum.Tape
