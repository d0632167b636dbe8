import Mathlib.Tactic.Common
import Spectrum.Loader.Direct
import Spectrum.Proofs.Memory

/-! # The blocks that are placed without running

Loading a tape without running anything goes through its blocks with a destination that headers
name and data uses up.  In the end it is seen from the tape alone which blocks are placed and where:
those behind a header, if nothing that carries data lies in between.  What is read at an address is
of the last of these blocks that reaches it.

Main definitions: `namedAfter?`, `placement?`, `byteFrom?`.
Main statements: `placeBlocks_eq_error_iff`, `read_placeBlocks`, `standardLoad_places`. -/

namespace Spectrum.Loader

open Tape

/-! ### Headers -/

/-- A block that is taken for the header of a file: flag zero, and all fields there. -/
def isFileHeader (b : Block) : Bool := b.hasData && b.flag == 0 && decide (18 ≤ b.data.length)

/-- The destination that the type of a header stands for. -/
def namedAddress? (header : Block) : Option UInt16 :=
  let type := header.data.getD 1 0
  if type = 0 then some 23755
  else if type = 3 then some (UInt16.join (header.data.getD 15 0) (header.data.getD 14 0))
  else none

/-- A header of a type that is neither a program nor bytes. -/
def isRefused (b : Block) : Bool :=
  isFileHeader b && b.data.getD 1 0 != 0 && b.data.getD 1 0 != 3

/-- The destination that stands behind some blocks: the last of them that carries data is a header
and names it. -/
def namedAfter? (before : List Block) : Option UInt16 :=
  (before.reverse.find? Block.hasData).bind fun b =>
    if isFileHeader b then namedAddress? b else none

/-- Where a block of a tape is placed, and which bytes of it: all but the flag and the parity. -/
def placement? (blocks : List Block) (i : Nat) : Option (UInt16 × List UInt8) :=
  (blocks[i]?).bind fun b =>
    if b.hasData && b.flag != 0 then
      (namedAfter? (blocks.take i)).map fun address => (address, b.data.tail.dropLast)
    else none

/-- The byte that a block of a tape puts at an address. -/
def byteFrom? (blocks : List Block) (a : UInt16) (i : Nat) : Option UInt8 :=
  (placement? blocks i).bind fun p => if p.1 ≤ a then p.2[a.toNat - p.1.toNat]? else none

/-- What the first `n` blocks of a tape leave at an address: the byte of the last one that reaches
it. -/
def byteOfLast (blocks : List Block) (a : UInt16) (n : Nat) : UInt8 :=
  ((List.range n).reverse.findSome? (byteFrom? blocks a)).getD 0

variable {before rest : List Block} {b : Block}

theorem namedAfter?_concat (before : List Block) (b : Block) :
    namedAfter? (before ++ [b]) =
      if b.hasData then if isFileHeader b then namedAddress? b else none
      else namedAfter? before := by
  unfold namedAfter?
  rw [List.reverse_append, List.reverse_singleton, List.singleton_append, List.find?_cons]
  cases b.hasData <;> rfl

theorem byteOfLast_succ (blocks : List Block) (a : UInt16) (n : Nat) :
    byteOfLast blocks a (n + 1) = (byteFrom? blocks a n).getD (byteOfLast blocks a n) := by
  unfold byteOfLast
  rw [List.range_succ, List.reverse_append, List.reverse_singleton, List.singleton_append,
    List.findSome?_cons]
  cases byteFrom? blocks a n <;> rfl

/-- The block behind some others is placed where these say. -/
theorem placement?_length (before rest : List Block) (b : Block) :
    placement? (before ++ b :: rest) before.length =
      if b.hasData && b.flag != 0 then
        (namedAfter? before).map fun address => (address, b.data.tail.dropLast)
      else none := by
  simp [placement?]

/-! ### Going through the blocks -/

/-- What the destination and the memory are when some blocks of a tape are done. -/
structure Done (blocks before : List Block) (memory : Memory) (pending : Option UInt16) : Prop where
  pending_eq : pending = namedAfter? before
  read_eq : ∀ a, memory.read a = byteOfLast blocks a before.length

theorem Done.of_unplaced {memory : Memory} {pending pending' : Option UInt16}
    (h : Done (before ++ b :: rest) before memory pending)
    (hplace : placement? (before ++ b :: rest) before.length = none)
    (hpending : pending' = namedAfter? (before ++ [b])) :
    Done (before ++ b :: rest) (before ++ [b]) memory pending' where
  pending_eq := hpending
  read_eq a := by
    have hlength : (before ++ [b]).length = before.length + 1 := by simp
    rw [hlength, byteOfLast_succ, byteFrom?, hplace]
    exact h.read_eq a

theorem Done.of_placed {memory : Memory} {address : UInt16}
    (h : Done (before ++ b :: rest) before memory (some address)) (hdata : b.hasData = true)
    (hflag : b.flag ≠ 0) :
    Done (before ++ b :: rest) (before ++ [b]) (memory.load address b.data.tail.dropLast) none where
  pending_eq := by
    rw [namedAfter?_concat, if_pos hdata, if_neg (by simp [isFileHeader, hflag])]
  read_eq a := by
    have hlength : (before ++ [b]).length = before.length + 1 := by simp
    have hplace : placement? (before ++ b :: rest) before.length =
        some (address, b.data.tail.dropLast) := by
      rw [placement?_length, if_pos (by simp [hdata, hflag]), ← h.pending_eq]
      rfl
    rw [hlength, byteOfLast_succ, byteFrom?, hplace, Memory.read_load, ← h.read_eq a]
    simp only [Option.bind_some]
    split <;> rfl

/-- One block: the memory and the destination behind it. -/
def placeBlock (memory : Memory) (pending : Option UInt16) (b : Block) :
    Except LoadError (Memory × Option UInt16) :=
  if !b.hasData then .ok (memory, pending)
  else if b.flag == 0 then
    if isFileHeader b then (destination b).map fun address => (memory, some address)
    else .ok (memory, none)
  else
    match pending with
    | none => .ok (memory, none)
    | some address => .ok (memory.load address b.data.tail.dropLast, none)

theorem body_eq (data : List UInt8) :
    (data.drop 1).take (data.length - 2) = data.tail.dropLast := by
  rw [List.drop_one, List.dropLast_eq_take, List.length_tail, Nat.sub_sub]

theorem snd_placeBlocks_cons (memory : Memory) (pending : Option UInt16) (b : Block)
    (rest : List Block) :
    (placeBlocks memory pending (b :: rest)).2 =
      (placeBlock memory pending b).bind fun next => (placeBlocks next.1 next.2 rest).2 := by
  unfold placeBlock isFileHeader
  simp only [placeBlocks, headerFields, body_eq]
  cases hdata : b.hasData with
  | false => rfl
  | true =>
    cases hflag : b.flag == 0 with
    | false => cases pending <;> rfl
    | true =>
      by_cases hshort : b.data.length < 18
      · simp [hshort, Nat.not_le.mpr hshort, Except.bind]
      · simp only [hshort, Nat.not_lt.mp hshort]
        cases destination b <;> rfl

theorem destination_eq (b : Block) :
    destination b =
      match namedAddress? b with
      | some address => .ok address
      | none => .error (.headerType (b.data.getD 1 0) b.number) := by
  unfold destination namedAddress?
  simp only [beq_iff_eq, programStart]
  split
  · rfl
  · split <;> rfl

/-- Each block leaves the memory and the destination that the tape up to it makes. -/
theorem Done.step {memory memory' : Memory} {pending pending' : Option UInt16}
    (h : Done (before ++ b :: rest) before memory pending)
    (hb : placeBlock memory pending b = .ok (memory', pending')) :
    Done (before ++ b :: rest) (before ++ [b]) memory' pending' := by
  have hplace := placement?_length before rest b
  have hnamed := namedAfter?_concat before b
  unfold placeBlock at hb
  cases hdata : b.hasData with
  | false =>
    rw [hdata] at hb hplace hnamed
    obtain ⟨rfl, rfl⟩ := Prod.mk.inj (Except.ok.inj hb)
    exact h.of_unplaced hplace (h.pending_eq.trans hnamed.symm)
  | true =>
    rw [hdata] at hb hplace hnamed
    cases hflag : b.flag == 0 with
    | true =>
      simp only [hflag, bne, Bool.not_true, Bool.false_eq_true, if_false, if_true, Bool.and_false]
        at hb hplace hnamed
      split at hb
      · next hheader =>
        rw [if_pos hheader] at hnamed
        rw [destination_eq, ← hnamed] at hb
        cases hnext : namedAfter? (before ++ [b]) with
        | none =>
          rw [hnext] at hb
          cases hb
        | some address =>
          rw [hnext] at hb
          obtain ⟨rfl, rfl⟩ := Prod.mk.inj (Except.ok.inj hb)
          exact h.of_unplaced hplace hnext.symm
      · next hheader =>
        rw [if_neg hheader] at hnamed
        obtain ⟨rfl, rfl⟩ := Prod.mk.inj (Except.ok.inj hb)
        exact h.of_unplaced hplace hnamed.symm
    | false =>
      simp only [hflag, Bool.not_true, Bool.false_eq_true, if_false] at hb
      cases pending with
      | some address =>
        obtain ⟨rfl, rfl⟩ := Prod.mk.inj (Except.ok.inj hb)
        exact h.of_placed hdata (by simpa using hflag)
      | none =>
        obtain ⟨rfl, rfl⟩ := Prod.mk.inj (Except.ok.inj hb)
        -- without a destination the data is passed over, but it ends the search for a header
        rw [← h.pending_eq] at hplace
        refine h.of_unplaced (hplace.trans (ite_self _)) (hnamed.trans ?_).symm
        simp [isFileHeader, hflag]

/-- So at the end an address has the byte of the last block that reaches it. -/
theorem read_placeBlocks {memory result : Memory} {pending : Option UInt16}
    (h : Done (before ++ rest) before memory pending)
    (hresult : (placeBlocks memory pending rest).2 = .ok result) (a : UInt16) :
    result.read a = byteOfLast (before ++ rest) a (before ++ rest).length := by
  induction rest generalizing before memory pending with
  | nil =>
    obtain rfl : memory = result := Except.ok.inj hresult
    rw [List.append_nil] at h ⊢
    exact h.read_eq a
  | cons b rest ih =>
    rw [snd_placeBlocks_cons] at hresult
    cases hb : placeBlock memory pending b with
    | error e =>
      rw [hb] at hresult
      cases hresult
    | ok next =>
      rw [hb] at hresult
      have hdone := h.step hb
      rw [List.append_cons before b rest] at hdone ⊢
      exact ih hdone hresult

/-! ### Headers that are refused -/

theorem namedAddress?_eq_none_iff {header : Block} :
    namedAddress? header = none ↔ header.data.getD 1 0 ≠ 0 ∧ header.data.getD 1 0 ≠ 3 := by
  unfold namedAddress?
  dsimp only
  split
  · next h => exact iff_of_false nofun fun hne => hne.1 h
  · next h =>
    split
    · next h' => exact iff_of_false nofun fun hne => hne.2 h'
    · next h' => exact iff_of_true rfl ⟨h, h'⟩

/-- A block that is refused is named, and no other fails. -/
theorem placeBlock_eq_error_iff {memory : Memory} {pending : Option UInt16} {e : LoadError} :
    placeBlock memory pending b = .error e ↔
      isRefused b = true ∧ e = .headerType (b.data.getD 1 0) b.number := by
  have hrefused : isRefused b = true ↔ isFileHeader b = true ∧ namedAddress? b = none := by
    rw [namedAddress?_eq_none_iff]
    simp [isRefused, and_assoc]
  rw [hrefused]
  unfold placeBlock
  cases hheader : isFileHeader b with
  | true =>
    have hfile : b.hasData = true ∧ (b.flag == 0) = true := by
      simp only [isFileHeader, Bool.and_eq_true] at hheader
      exact hheader.1
    rw [hfile.1, hfile.2, destination_eq]
    cases namedAddress? b <;> simp [Except.map, eq_comm]
  | false => cases b.hasData <;> cases b.flag == 0 <;> cases pending <;> simp

/-- Placing fails at the first header that is refused. -/
theorem placeBlocks_eq_error_iff {memory : Memory} {pending : Option UInt16}
    {blocks : List Block} {e : LoadError} :
    (placeBlocks memory pending blocks).2 = .error e ↔
      ∃ b, blocks.find? isRefused = some b ∧ e = .headerType (b.data.getD 1 0) b.number := by
  induction blocks generalizing memory pending with
  | nil => simp [placeBlocks]
  | cons b rest ih =>
    rw [snd_placeBlocks_cons]
    cases hb : placeBlock memory pending b with
    | error e' =>
      obtain ⟨hrefused, rfl⟩ := placeBlock_eq_error_iff.mp hb
      simp [List.find?_cons_of_pos hrefused, Except.bind, eq_comm]
    | ok next =>
      have hkept : ¬ isRefused b = true := fun hrefused => by
        rw [placeBlock_eq_error_iff.mpr ⟨hrefused, rfl⟩] at hb
        cases hb
      rw [List.find?_cons_of_neg hkept]
      exact ih

/-! ### Tapes -/

/-- A block of a tape is placed at an address: it is data and no header, and the nearest block with
data in front of it is the header of a program or of bytes. -/
def Places (blocks : List Block) (i : Nat) (address : UInt16) (body : List UInt8) : Prop :=
  ∃ b header, blocks[i]? = some b ∧ b.hasData = true ∧ b.flag ≠ 0 ∧
    (blocks.take i).reverse.find? Block.hasData = some header ∧
    header.flag = 0 ∧ 18 ≤ header.data.length ∧
    (header.data.getD 1 0 = 0 ∧ address = 23755 ∨
      header.data.getD 1 0 = 3 ∧
        address = UInt16.join (header.data.getD 15 0) (header.data.getD 14 0)) ∧
    body = b.data.tail.dropLast

theorem namedAddress?_eq_some_iff {header : Block} {address : UInt16} :
    namedAddress? header = some address ↔
      header.data.getD 1 0 = 0 ∧ address = 23755 ∨
        header.data.getD 1 0 = 3 ∧
          address = UInt16.join (header.data.getD 15 0) (header.data.getD 14 0) := by
  unfold namedAddress?
  dsimp only
  have hdiffer : (0 : UInt8) ≠ 3 := by decide
  split
  · next h => simp only [h, hdiffer, Option.some_inj, true_and, false_and, or_false, eq_comm]
  · next h =>
    split
    · next h' =>
      simp only [h', hdiffer.symm, Option.some_inj, true_and, false_and, false_or, eq_comm]
    · next h' => simp only [h, h', reduceCtorEq, false_and, or_false]

theorem namedAfter?_eq_some_iff {before : List Block} {address : UInt16} :
    namedAfter? before = some address ↔
      ∃ header, before.reverse.find? Block.hasData = some header ∧
        isFileHeader header = true ∧ namedAddress? header = some address := by
  rw [namedAfter?, Option.bind_eq_some_iff]
  refine exists_congr fun header => and_congr_right fun _ => ?_
  split
  · next h => exact (and_iff_right h).symm
  · next h => exact iff_of_false nofun fun hfile => h hfile.1

theorem placement?_eq_some_iff {blocks : List Block} {i : Nat} {address : UInt16}
    {body : List UInt8} :
    placement? blocks i = some (address, body) ↔ Places blocks i address body := by
  unfold placement?
  constructor
  · intro h
    obtain ⟨b, hb, hplaced⟩ := Option.bind_eq_some_iff.mp h
    split at hplaced
    · next hdata =>
      rw [Bool.and_eq_true, bne_iff_ne] at hdata
      obtain ⟨_, hnamed, heq⟩ := Option.map_eq_some_iff.mp hplaced
      obtain ⟨rfl, rfl⟩ := Prod.mk.inj heq
      obtain ⟨header, hheader, hfile, haddress⟩ := namedAfter?_eq_some_iff.mp hnamed
      simp only [isFileHeader, Bool.and_eq_true, beq_iff_eq, decide_eq_true_eq] at hfile
      exact ⟨b, header, hb, hdata.1, hdata.2, hheader, hfile.1.2, hfile.2,
        namedAddress?_eq_some_iff.mp haddress, rfl⟩
    · cases hplaced
  · rintro ⟨b, header, hb, hdata, hflag, hheader, hzero, hlength, haddress, rfl⟩
    have hfile : isFileHeader header = true := by
      simp [isFileHeader, List.find?_some hheader, hzero, hlength]
    have hnamed : namedAfter? (blocks.take i) = some address :=
      namedAfter?_eq_some_iff.mpr ⟨header, hheader, hfile, namedAddress?_eq_some_iff.mpr haddress⟩
    simp [hb, hdata, hflag, hnamed]

/-- A tape loads unless it has a header of an unknown type, the first of which is named then.  What
an address holds is of the last block that has been placed there. -/
theorem standardLoad_places (blocks : List Block) (config : Config) :
    (∀ e, (standardLoad blocks config).2 = .error e ↔
      ∃ b, blocks.find? isRefused = some b ∧ e = .headerType (b.data.getD 1 0) b.number) ∧
    (∀ i address body, placement? blocks i = some (address, body) ↔ Places blocks i address body) ∧
    ∀ s, (standardLoad blocks config).2 = .ok s →
      ∀ a, s.memory.read a = byteOfLast blocks a blocks.length := by
  have hload : (standardLoad blocks config).2 =
      (placeBlocks Memory.blank none blocks).2.map fun memory =>
        { memory, registers := basicRegisters config.start } := rfl
  refine ⟨fun e => ?_, fun _ _ _ => placement?_eq_some_iff, fun s hs a => ?_⟩
  · have hplaces : (placeBlocks Memory.blank none blocks).2 = .error e ↔ _ :=
      placeBlocks_eq_error_iff
    rw [← hplaces, hload]
    cases (placeBlocks Memory.blank none blocks).2 <;> simp [Except.map]
  · have hstart : Done ([] ++ blocks) [] Memory.blank none :=
      ⟨rfl, fun _ => Memory.read_blank _⟩
    rw [hload] at hs
    cases hplaced : (placeBlocks Memory.blank none blocks).2 with
    | error e =>
      rw [hplaced] at hs
      cases hs
    | ok memory =>
      rw [hplaced] at hs
      obtain rfl := Except.ok.inj hs
      exact read_placeBlocks hstart hplaced a

/-- The header of a file without a name, up to the parity byte. -/
def namelessHeader (type : UInt8) (address : UInt16) : List UInt8 :=
  0 :: type :: List.replicate 12 0 ++ [address.low, address.high, 0, 0]

/-- A program with pulses behind its header, a block without a header, and two blocks of bytes: one
goes over the program, and one reaches past the top of memory. -/
def overlappingTape : List Block :=
  [{ data := namelessHeader 0 0 }, { kind := .pulses }, { data := [0xFF, 1, 2, 0] },
    { data := [0xFF, 5, 5, 0] },
    { data := namelessHeader 3 23756 }, { data := [0xFF, 9, 0] },
    { data := namelessHeader 3 0xFFFF }, { data := [0xFF, 7, 8, 0] }]

/-- The second byte of the program is that of the later block, and what does not fit is not at the
bottom of memory; with the header of an array behind it the tape does not load. -/
theorem standardLoad_places_overlappingTape :
    (∃ s, (standardLoad overlappingTape {}).2 = .ok s ∧ s.memory.read 23755 = 1 ∧
      s.memory.read 23756 = 9 ∧ s.memory.read 0xFFFF = 7 ∧ s.memory.read 0 = 0) ∧
    Places overlappingTape 2 23755 [1, 2] ∧
    (standardLoad (overlappingTape ++ [{ data := namelessHeader 1 0, number := 9 }]) {}).2 =
      .error (.headerType 1 9) := by
  obtain ⟨herror, hplaces, hread⟩ := standardLoad_places overlappingTape {}
  refine ⟨?_, (hplaces 2 23755 [1, 2]).mp rfl, ?_⟩
  · cases hs : (standardLoad overlappingTape {}).2 with
    | error e =>
      obtain ⟨b, hb, -⟩ := (herror e).mp hs
      have hnone : overlappingTape.find? isRefused = none := by decide
      exact nomatch hnone.symm.trans hb
    | ok s =>
      refine ⟨s, rfl, ?_, ?_, ?_, ?_⟩
      all_goals rw [hread s hs]; decide +kernel
  · exact ((standardLoad_places _ {}).1 _).mpr ⟨_, rfl, rfl⟩

end Spectrum.Loader
