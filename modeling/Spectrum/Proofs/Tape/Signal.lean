import Mathlib.Data.List.Find
import Mathlib.Tactic.Common
import Spectrum.Tape.Signal

/-! # The shape of a signal

The edges of a recorded tape never go back in time, and the edges of its data blocks lie one block
behind the other.  `Signal.edgesUntil` counts the edges up to a time, which `lt_edgesUntil` states
for one edge.

Main statements: `Signal.lt_edgesUntil`, `Signal.plays_of_ofBlocks`,
`DataRange.Records.data_eq_stop_iff`. -/

namespace Spectrum.Tape

/-- A block of data of which no bit is recorded: one byte, with none of its bits in use. -/
def Block.Silent (b : Block) : Prop := b.data.length = 1 ∧ b.timings.usedBits = 0

/-- The edges of a range are those of a block of the tape. -/
structure DataRange.Records (d : DataRange) (b : Block) : Prop where
  hasData : b.hasData = true
  data : d.data = d.start + (leaderPulses b.timings).length
  stop : d.stop = d.data + (dataPulses b.timings b.data).length

/-- What edges and ranges of the blocks of a tape are like. -/
structure WellFormed (blocks : List Block) (edges : List Nat) (ranges : List DataRange) :
    Prop where
  sorted : edges.Pairwise (· ≤ ·)
  records : ∀ d ∈ ranges, ∃ b, blocks[d.block]? = some b ∧ d.Records b
  within : ∀ d ∈ ranges, d.stop ≤ edges.length
  ordered : ranges.Pairwise fun d e => d.stop ≤ e.start

/-! ### Data blocks -/

/-- The numbers of the data blocks among some blocks, the first of which has a given number. -/
def dataNumbers (first : Nat) (blocks : List Block) : List Nat :=
  ((blocks.zipIdx first).filter fun p => p.1.hasData).map Prod.snd

theorem dataNumbers_cons (first : Nat) (b : Block) (rest : List Block) :
    dataNumbers first (b :: rest) =
      (if b.hasData then [first] else []) ++ dataNumbers (first + 1) rest := by
  unfold dataNumbers
  rw [List.zipIdx_cons, List.filter_cons]
  cases b.hasData <;> rfl

theorem mem_dataNumbers {blocks : List Block} {i : Nat} :
    i ∈ dataNumbers 0 blocks ↔ ∃ b, blocks[i]? = some b ∧ b.hasData = true := by
  simp only [dataNumbers, List.mem_map, List.mem_filter, Prod.exists, exists_eq_right,
    List.mk_mem_zipIdx_iff_getElem?]

theorem pairwise_dataNumbers (first : Nat) (blocks : List Block) :
    (dataNumbers first blocks).Pairwise (· < ·) := by
  have hsub : List.Sublist (dataNumbers first blocks) (List.range' first blocks.length) := by
    rw [← List.zipIdx_map_snd]
    exact List.filter_sublist.map _
  exact List.Pairwise.sublist hsub List.pairwise_lt_range'

/-! ### Blocks without recorded bits -/

theorem length_bitPulses (t : Timings) (byte : UInt8) (count : Nat) :
    (bitPulses t byte count).length = 2 * count := by
  unfold bitPulses
  induction count with
  | zero => rfl
  | succ count ih =>
    rw [List.range_succ, List.flatMap_append, List.length_append, ih]
    rfl

/-- Nothing is recorded of a block only if it is a single byte of which no bits are used. -/
theorem dataPulses_eq_nil_iff (t : Timings) {data : List UInt8} (hd : data ≠ []) :
    dataPulses t data = [] ↔ data.length = 1 ∧ t.usedBits = 0 := by
  match data with
  | [] => exact absurd rfl hd
  | [last] =>
    rw [← List.length_eq_zero_iff, dataPulses, length_bitPulses]
    constructor
    · intro h
      refine ⟨rfl, UInt8.toNat_inj.mp ?_⟩
      have h0 : (0 : UInt8).toNat = 0 := rfl
      omega
    · rintro ⟨-, h⟩
      rw [h]
      rfl
  | byte :: next :: rest =>
    rw [← List.length_eq_zero_iff, dataPulses.eq_3 _ _ _ (by simp),
      List.length_append, length_bitPulses]
    simp only [List.length_cons]
    omega

theorem DataRange.Records.start_le {d : DataRange} {b : Block} (h : d.Records b) :
    d.start ≤ d.data := by
  rw [h.data]
  omega

theorem DataRange.Records.data_le {d : DataRange} {b : Block} (h : d.Records b) :
    d.data ≤ d.stop := by
  rw [h.stop]
  omega

/-- A range without data edges is that of a silent block. -/
theorem DataRange.Records.data_eq_stop_iff {d : DataRange} {b : Block} (h : d.Records b) :
    d.data = d.stop ↔ b.Silent := by
  have hd : b.data ≠ [] := by
    have := h.hasData
    unfold Block.hasData at this
    intro h0
    simp [h0] at this
  unfold Block.Silent
  rw [← dataPulses_eq_nil_iff b.timings hd, ← List.length_eq_zero_iff, h.stop]
  omega

/-! ### Recording -/

namespace Recording

/-- The invariant of a recording of some of the blocks of a tape. -/
structure Valid (blocks : List Block) (r : Recording) : Prop where
  wellFormed : WellFormed blocks r.edges.toList r.ranges.toList
  past : ∀ e ∈ r.edges.toList, e ≤ r.time

theorem valid_empty (blocks : List Block) : Valid blocks {} where
  wellFormed := {
    sorted := List.Pairwise.nil
    records := fun _ h => nomatch h
    within := fun _ h => nomatch h
    ordered := List.Pairwise.nil }
  past := fun _ h => nomatch h

theorem Valid.pulse {blocks : List Block} {r : Recording} (h : r.Valid blocks) (length : Nat) :
    (r.pulse length).Valid blocks := by
  have hw := h.wellFormed
  refine ⟨⟨?_, hw.records, ?_, hw.ordered⟩, ?_⟩
  · simp only [Recording.pulse, Array.toList_push]
    rw [List.pairwise_append]
    refine ⟨hw.sorted, List.pairwise_singleton _ _, ?_⟩
    intro e he e' he'
    rw [List.mem_singleton.mp he']
    have := h.past e he
    omega
  · intro d hd
    have := hw.within d hd
    simp only [Recording.pulse, Array.toList_push, List.length_append]
    omega
  · intro e he
    simp only [Recording.pulse, Array.toList_push, List.mem_append, List.mem_singleton] at he ⊢
    rcases he with he | rfl
    · have := h.past e he
      omega
    · exact Nat.le_refl _

theorem Valid.pulses {blocks : List Block} {r : Recording} (h : r.Valid blocks)
    (lengths : List Nat) : (r.pulses lengths).Valid blocks := by
  unfold Recording.pulses
  induction lengths generalizing r with
  | nil => exact h
  | cons length rest ih => exact ih (h.pulse length)

theorem Valid.pause {blocks : List Block} {r : Recording} (h : r.Valid blocks)
    (milliseconds : UInt16) : (r.pause milliseconds).Valid blocks := by
  refine ⟨h.wellFormed, fun e he => ?_⟩
  have := h.past e he
  unfold Recording.pause
  dsimp only
  omega

theorem size_pulses (r : Recording) (lengths : List Nat) :
    (r.pulses lengths).edges.size = r.edges.size + lengths.length := by
  unfold Recording.pulses
  induction lengths generalizing r with
  | nil => rfl
  | cons length rest ih =>
    rw [List.foldl_cons, ih, List.length_cons]
    unfold Recording.pulse
    simp only [Array.size_push]
    omega

@[simp] theorem ranges_pulses (r : Recording) (lengths : List Nat) :
    (r.pulses lengths).ranges = r.ranges := by
  unfold Recording.pulses
  induction lengths generalizing r with
  | nil => rfl
  | cons length rest ih => exact ih (r.pulse length)

theorem Valid.data {blocks : List Block} {r : Recording} (h : r.Valid blocks) {index : Nat}
    {b : Block} (hb : blocks[index]? = some b) (hd : b.hasData = true) :
    (r.data index b).Valid blocks := by
  have h2 := (h.pulses (leaderPulses b.timings)).pulses (dataPulses b.timings b.data)
  have hw := h2.wellFormed
  simp only [ranges_pulses] at hw
  refine ⟨⟨hw.sorted, ?_, ?_, ?_⟩, h2.past⟩
  · intro d hmem
    simp only [Recording.data, ranges_pulses, Array.toList_push, List.mem_append,
      List.mem_singleton] at hmem
    rcases hmem with hmem | rfl
    · exact hw.records d hmem
    · refine ⟨b, hb, hd, ?_, ?_⟩ <;> exact size_pulses _ _
  · intro d hmem
    simp only [Recording.data, ranges_pulses, Array.toList_push, List.mem_append,
      List.mem_singleton] at hmem
    rcases hmem with hmem | rfl
    · exact hw.within d hmem
    · exact Nat.le_refl _
  · simp only [Recording.data, ranges_pulses, Array.toList_push]
    rw [List.pairwise_append]
    refine ⟨hw.ordered, List.pairwise_singleton _ _, ?_⟩
    intro d hmem e he
    rw [List.mem_singleton.mp he]
    exact h.wellFormed.within d hmem

theorem Valid.block {blocks : List Block} {r r' : Recording} (h : r.Valid blocks) {index : Nat}
    {b : Block} (hb : blocks[index]? = some b) (hr : r.block index b = .ok r') :
    r'.Valid blocks := by
  unfold Recording.block at hr
  split at hr
  · cases hr
  · cases hr
    exact (h.pulses _).pause _
  · rename_i hk
    split at hr
    · cases hr
      exact h.pause _
    · rename_i hne
      cases hr
      refine (h.data hb ?_).pause _
      unfold Block.hasData
      simpa [hk] using hne

theorem Valid.blocks {all : List Block} {r r' : Recording} (h : r.Valid all) {index : Nat}
    {rest : List Block} (hi : all.drop index = rest) (hr : r.blocks index rest = .ok r') :
    r'.Valid all := by
  induction rest generalizing r index with
  | nil =>
    cases hr
    exact h
  | cons b rest ih =>
    simp only [Recording.blocks] at hr
    split at hr
    · cases hr
    · rename_i r₁ h₁
      have hb : all[index]? = some b := by
        rw [← List.head?_drop, hi]
        rfl
      refine ih (h.block hb h₁) ?_ hr
      rw [← List.drop_drop, hi]
      rfl

theorem map_block_block {r r' : Recording} {index : Nat} {b : Block}
    (hr : r.block index b = .ok r') :
    r'.ranges.toList.map (·.block) =
      r.ranges.toList.map (·.block) ++ if b.hasData then [index] else [] := by
  unfold Recording.block at hr
  unfold Block.hasData
  split at hr
  · cases hr
  · rename_i hk
    cases hr
    simp [hk, pause]
  · rename_i hk
    split at hr
    · rename_i he
      cases hr
      simp [hk, he, pause]
    · rename_i he
      cases hr
      simp [hk, he, pause, data]

/-- The ranges of a recording tell which blocks have data. -/
theorem map_block_blocks {r r' : Recording} {index : Nat} {rest : List Block}
    (hr : r.blocks index rest = .ok r') :
    r'.ranges.toList.map (·.block) = r.ranges.toList.map (·.block) ++ dataNumbers index rest := by
  induction rest generalizing r index with
  | nil =>
    cases hr
    exact (List.append_nil _).symm
  | cons b rest ih =>
    simp only [Recording.blocks] at hr
    split at hr
    · cases hr
    · rename_i r₁ h₁
      rw [ih hr, map_block_block h₁, dataNumbers_cons, List.append_assoc]

end Recording

namespace Signal

/-- The signal of a tape. -/
structure Plays (s : Signal) (blocks : List Block) : Prop where
  wellFormed : WellFormed blocks s.edges.toList s.ranges
  blocks_eq : s.blocks = blocks.toArray

theorem plays_of_ofBlocks {blocks : List Block} {s : Signal} (h : ofBlocks blocks = .ok s) :
    s.Plays blocks := by
  unfold ofBlocks at h
  split at h
  · cases h
  · rename_i r hr
    cases h
    exact ⟨((Recording.valid_empty blocks).blocks rfl hr).wellFormed, rfl⟩

/-- Every data block of a tape has a range, and the ranges lie in the order of the blocks. -/
theorem map_block_ranges {blocks : List Block} {s : Signal} (h : ofBlocks blocks = .ok s) :
    s.ranges.map (·.block) = dataNumbers 0 blocks := by
  unfold ofBlocks at h
  split at h
  · cases h
  · rename_i r hr
    cases h
    simpa using Recording.map_block_blocks hr

theorem pairwise_block {blocks : List Block} {s : Signal} (h : ofBlocks blocks = .ok s) :
    s.ranges.Pairwise fun d e => d.block < e.block :=
  List.pairwise_map.mp (map_block_ranges h ▸ pairwise_dataNumbers 0 blocks)

theorem exists_range {blocks : List Block} {s : Signal} (h : ofBlocks blocks = .ok s) {i : Nat}
    {b : Block} (hb : blocks[i]? = some b) (hd : b.hasData = true) :
    ∃ range ∈ s.ranges, range.block = i := by
  have hi : i ∈ s.ranges.map (·.block) := by
    rw [map_block_ranges h, mem_dataNumbers]
    exact ⟨b, hb, hd⟩
  exact List.mem_map.mp hi

/-- The edges of a signal in order of time. -/
def Sorted (s : Signal) : Prop := s.edges.toList.Pairwise (· ≤ ·)

theorem Plays.sorted {s : Signal} {blocks : List Block} (h : s.Plays blocks) : s.Sorted :=
  h.wellFormed.sorted

theorem Sorted.getD_le {s : Signal} (h : s.Sorted) {i j : Nat} (hij : i ≤ j)
    (hj : j < s.edges.size) : s.edges.getD i 0 ≤ s.edges.getD j 0 := by
  rw [Array.getD_eq_getD_getElem?, Array.getD_eq_getD_getElem?, Array.getElem?_eq_getElem hj,
    Array.getElem?_eq_getElem (Nat.lt_of_le_of_lt hij hj)]
  rcases Nat.eq_or_lt_of_le hij with rfl | hij
  · exact Nat.le_refl _
  · exact List.pairwise_iff_getElem.mp h i j (by simpa using Nat.lt_trans hij hj) (by simpa) hij

/-! ### Counting edges -/

theorem search_bounds (edges : Array Nat) (t : Nat) {low high : Nat} (h : low ≤ high) :
    low ≤ search edges t low high ∧ search edges t low high ≤ high := by
  fun_induction search edges t low high with
  | case1 low high hlt middle hm ih =>
    have := ih (by omega)
    omega
  | case2 low high hlt middle hm ih =>
    have := ih (by omega)
    omega
  | case3 low high hlt => exact ⟨Nat.le_refl _, h⟩

/-- Searching separates the edges up to a time from the later ones. -/
theorem lt_search {s : Signal} (h : s.Sorted) (t low high : Nat) {i : Nat}
    (hh : high ≤ s.edges.size) (hl : low ≤ i) (hi : i < high) :
    i < search s.edges t low high ↔ s.edges.getD i 0 ≤ t := by
  fun_induction search s.edges t low high with
  | case1 low high hlt middle hm ih =>
    by_cases him : middle + 1 ≤ i
    · exact ih hh him hi
    · have hb := search_bounds s.edges t (show middle + 1 ≤ high by omega)
      have he := h.getD_le (i := i) (j := middle) (by omega) (by omega)
      constructor <;> intro <;> omega
  | case2 low high hlt middle hm ih =>
    by_cases him : i < middle
    · exact ih (by omega) hl him
    · have hb := search_bounds s.edges t (show low ≤ middle by omega)
      have he := h.getD_le (i := middle) (j := i) (by omega) (by omega)
      constructor <;> intro <;> omega
  | case3 low high hlt => omega

theorem edgesUntil_le_size (s : Signal) (t : Nat) : s.edgesUntil t ≤ s.edges.size :=
  (search_bounds s.edges t (Nat.zero_le _)).2

/-- An edge is counted at and after its time. -/
theorem lt_edgesUntil {s : Signal} (h : s.Sorted) {t i : Nat} (hi : i < s.edges.size) :
    i < s.edgesUntil t ↔ s.edges.getD i 0 ≤ t :=
  lt_search h t 0 s.edges.size (Nat.le_refl _) (Nat.zero_le i) hi

theorem edgesUntil_mono {s : Signal} (h : s.Sorted) {t u : Nat} (htu : t ≤ u) :
    s.edgesUntil t ≤ s.edgesUntil u := by
  by_contra hn
  have hs := s.edgesUntil_le_size t
  have ht := (lt_edgesUntil h (t := t) (i := s.edgesUntil u) (by omega)).mp (by omega)
  have hu := (lt_edgesUntil h (t := u) (i := s.edgesUntil u) (by omega)).mpr (by omega)
  omega

/-- The number of edges at or before a time. -/
def passed (s : Signal) (t : Nat) : Nat := s.edges.toList.countP (· ≤ t)

/-- The search counts the edges. -/
theorem edgesUntil_eq_passed {s : Signal} (h : s.Sorted) (t : Nat) :
    s.edgesUntil t = s.passed t := by
  have hle : s.edgesUntil t ≤ s.edges.toList.length := by
    rw [Array.length_toList]
    exact s.edgesUntil_le_size t
  have hget : ∀ i (hi : i < s.edges.toList.length),
      (i < s.edgesUntil t ↔ s.edges.toList[i] ≤ t) := by
    intro i hi
    have hi' : i < s.edges.size := by rwa [Array.length_toList] at hi
    rw [lt_edgesUntil h hi', Array.getD_eq_getD_getElem?, Array.getElem?_eq_getElem hi',
      Option.getD_some, Array.getElem_toList]
  have hbefore : (s.edges.toList.take (s.edgesUntil t)).countP (· ≤ t) = s.edgesUntil t := by
    rw [List.countP_eq_length.mpr, List.length_take, Nat.min_eq_left hle]
    intro edge hedge
    obtain ⟨i, hi, rfl⟩ := List.mem_take_iff_getElem.mp hedge
    exact decide_eq_true ((hget i (by omega)).mp (by omega))
  have hbehind : (s.edges.toList.drop (s.edgesUntil t)).countP (· ≤ t) = 0 := by
    rw [List.countP_eq_zero]
    intro edge hedge
    obtain ⟨i, hi, rfl⟩ := List.mem_drop_iff_getElem.mp hedge
    rw [decide_eq_true_eq, ← hget _ (by omega)]
    omega
  unfold passed
  rw [← List.take_append_drop (s.edgesUntil t) s.edges.toList, List.countP_append, hbefore, hbehind,
    Nat.add_zero]

/-- Until the next edge the count stays. -/
theorem edgesUntil_eq {s : Signal} (h : s.Sorted) {t u : Nat} (htu : t ≤ u)
    (hu : s.edgesUntil t < s.edges.size → u < s.edges.getD (s.edgesUntil t) 0) :
    s.edgesUntil u = s.edgesUntil t := by
  have hle := edgesUntil_mono h htu
  have hs := s.edgesUntil_le_size u
  by_contra hn
  have ht : s.edgesUntil t < s.edges.size := by omega
  have := (lt_edgesUntil h (t := u) ht).mp (by omega)
  have := hu ht
  omega

theorem getD_le_length {s : Signal} (h : s.Sorted) (i : Nat) : s.edges.getD i 0 ≤ s.length := by
  by_cases hi : i < s.edges.size
  · have hl : s.length = s.edges.getD (s.edges.size - 1) 0 := by
      unfold length
      rw [Array.back?_eq_getElem?, Array.getD_eq_getD_getElem?]
    rw [hl]
    exact h.getD_le (by omega) (by omega)
  · rw [Array.getD_eq_getD_getElem?, Array.getElem?_eq_none (by omega)]
    exact Nat.zero_le _

/-! ### What lies ahead -/

/-- The first byte of the block of a range. -/
def flagOf (s : Signal) (range : DataRange) : UInt8 := (s.blocks.getD range.block {}).flag

/-- The next block with a flag whose data has not begun when `index` edges are in the past. -/
def nextRange? (s : Signal) (index : Nat) (flag : UInt8) : Option DataRange :=
  (s.ranges.dropWhile fun range => range.data < index).find? fun range => s.flagOf range == flag

/-- The position of that block among the data blocks of the tape. -/
def nextPosition? (s : Signal) (index : Nat) (flag : UInt8) : Option Nat :=
  s.ranges.findIdx? fun range => index ≤ range.data && s.flagOf range == flag

/-- The blocks of a signal are those of the tape that it plays. -/
theorem Plays.getD_blocks {s : Signal} {blocks : List Block} (h : s.Plays blocks) {i : Nat}
    {b : Block} (hb : blocks[i]? = some b) : s.blocks.getD i {} = b := by
  rw [h.blocks_eq, Array.getD_eq_getD_getElem?, List.getElem?_toArray, hb]
  rfl

theorem Plays.flagOf_eq {s : Signal} {blocks : List Block} (h : s.Plays blocks)
    {range : DataRange} {b : Block} (hb : blocks[range.block]? = some b) :
    s.flagOf range = b.flag :=
  congrArg Block.flag (h.getD_blocks hb)

/-- Data blocks begin in the order in which they lie on the tape. -/
theorem Plays.pairwise_data {s : Signal} {blocks : List Block} (h : s.Plays blocks) :
    s.ranges.Pairwise fun d e => d.data ≤ d.stop ∧ d.stop ≤ e.start ∧ e.start ≤ e.data := by
  refine h.wellFormed.ordered.imp_of_mem fun {d e} hd he hde => ?_
  obtain ⟨b, -, hb⟩ := h.wellFormed.records d hd
  obtain ⟨c, -, hc⟩ := h.wellFormed.records e he
  exact ⟨hb.data_le, hde, hc.start_le⟩

theorem find?_dropWhile_of_sorted {ranges : List DataRange} (p : DataRange → Bool) (index : Nat)
    (h : ranges.Pairwise fun d e => d.data ≤ e.data) :
    (ranges.dropWhile fun range => range.data < index).find? p =
      ranges.find? fun range => index ≤ range.data && p range := by
  induction ranges with
  | nil => rfl
  | cons range rest ih =>
    rw [List.pairwise_cons] at h
    by_cases hr : range.data < index
    · rw [List.dropWhile_cons_of_pos (by simpa using hr), ih h.2, List.find?_cons]
      simp [Nat.not_le.mpr hr]
    · rw [List.dropWhile_cons_of_neg (by simpa using hr)]
      refine List.find?_congr fun d hd => ?_
      have : index ≤ d.data := by
        rcases List.mem_cons.mp hd with rfl | hd
        · omega
        · have := h.1 d hd
          omega
      simp [this]

theorem Plays.nextRange?_eq {s : Signal} {blocks : List Block} (h : s.Plays blocks) (index : Nat)
    (flag : UInt8) :
    s.nextRange? index flag = (s.nextPosition? index flag).bind (s.ranges[·]?) := by
  unfold nextRange? nextPosition?
  rw [find?_dropWhile_of_sorted _ _ (h.pairwise_data.imp fun hde => by omega),
    List.find?_eq_bind_findIdx?_getElem?]

theorem nextPosition?_eq_some_iff {s : Signal} {index : Nat} {flag : UInt8} {k : Nat} :
    s.nextPosition? index flag = some k ↔
      ∃ h : k < s.ranges.length, (index ≤ s.ranges[k].data ∧ s.flagOf s.ranges[k] = flag) ∧
        ∀ j (hj : j < k), ¬ (index ≤ s.ranges[j].data ∧ s.flagOf s.ranges[j] = flag) := by
  unfold nextPosition?
  rw [List.findIdx?_eq_some_iff_getElem]
  simp

theorem Plays.getElem_le {s : Signal} {blocks : List Block} (h : s.Plays blocks) {j k : Nat}
    (hjk : j < k) (hk : k < s.ranges.length) :
    s.ranges[j].data ≤ s.ranges[j].stop ∧ s.ranges[j].stop ≤ s.ranges[k].data := by
  have := List.pairwise_iff_getElem.mp h.pairwise_data j k (by omega) hk hjk
  omega

theorem Plays.data_le_stop {s : Signal} {blocks : List Block} (h : s.Plays blocks)
    {range : DataRange} (hr : range ∈ s.ranges) : range.data ≤ range.stop := by
  obtain ⟨b, -, hb⟩ := h.wellFormed.records range hr
  exact hb.data_le

end Signal
end Spectrum.Tape
