import Mathlib.Data.List.GetD
import Mathlib.Data.List.Induction
import Mathlib.Tactic.Common
import Spectrum.Proofs.Snapshot.Offsets
import Spectrum.Proofs.Snapshot.RoundTrip

/-! # Snapshot files of all layouts

What is read from files that others have written.  `WholeHeader.file` is a file of the first layout:
all of RAM behind the header, as it is or coded in front of an end mark.  `ExtendedHeader.file` is
one of the later layouts: pages of RAM in any order and number, each as it is or coded, behind an
extension.  Both are read exactly, whatever else their headers say.

Main statements: `WholeHeader.exists_decode_file`, `ExtendedHeader.exists_decode_file`,
`exists_decode_wellFormed`. -/

namespace Spectrum.Snapshot

open Z80

/-! ### Fields of a file in parts -/

section

variable {front : List UInt8} {offset : Nat}

theorem fieldAt_append_left (h : offset + 1 < front.length) (rest : List UInt8) :
    fieldAt (front ++ rest) offset = fieldAt front offset := by
  unfold fieldAt
  rw [List.getD_append _ _ _ _ h, List.getD_append _ _ _ _ (Nat.lt_of_succ_lt h)]

theorem fieldAt_append_right (h : front.length ≤ offset) (rest : List UInt8) :
    fieldAt (front ++ rest) offset = fieldAt rest (offset - front.length) := by
  unfold fieldAt
  rw [List.getD_append_right _ _ _ _ h, List.getD_append_right _ _ _ _ (by omega),
    Nat.sub_add_comm h]

end

theorem fieldAt_wordBytes (w : UInt16) (rest : List UInt8) : fieldAt (wordBytes w ++ rest) 0 = w :=
  UInt16.join_high_low w

/-- A header says nothing of memory, nor of the clock. -/
theorem blank_of_decodeHeader {beyond : Beyond} {bytes : List UInt8} {s : Snapshot}
    (h : headerLength ≤ bytes.length) (hs : decodeHeader beyond bytes = .ok s) :
    s.memory = Memory.blank ∧ s.registers.clock = 0 := by
  have h' : 30 ≤ bytes.length := h
  unfold decodeHeader headerFlags at hs
  simp (disch := omega) only [byteAt_of_lt, wordAt_of_lt] at hs
  obtain rfl := Except.ok.inj hs
  exact ⟨rfl, rfl⟩

/-! ### The first layout -/

/-- The end of coded memory. -/
def endMark : List UInt8 := [0x00, 0xED, 0xED, 0x00]

/-- The contents of RAM. -/
abbrev RamImage := {ram : List UInt8 // ram.length = 3 * pageSize}

/-- The header of a file of the first layout. -/
structure WholeHeader where
  bytes : List UInt8
  length_bytes : bytes.length = headerLength
  pc_ne_zero : fieldAt bytes 6 ≠ 0

namespace WholeHeader

variable (h : WholeHeader)

/-- The program counter. -/
def pc : UInt16 := fieldAt h.bytes 6

/-- Whether bit 5 of the flags says that memory is coded; the flags 255, of which no bit counts but
the lowest, do not. -/
def isCoded : Bool := h.bytes.getD 12 0 != 0xFF && h.bytes.getD 12 0 &&& 0x20 != 0

/-- The file with a header and the contents of RAM, and anything behind them. -/
def file (ram : RamImage) (trailing : List UInt8) : List UInt8 :=
  if h.isCoded then h.bytes ++ (RunLength.encode ram.1 ++ (endMark ++ trailing))
  else h.bytes ++ (ram.1 ++ trailing)

end WholeHeader

section

variable (s : Snapshot) {ram : List UInt8} (hram : ram.length = 3 * pageSize)
  (trailing : List UInt8)

include hram

theorem decodeWhole_stored :
    decodeWhole s false (ram ++ trailing) = .ok { s with memory := s.memory.load 0x4000 ram } := by
  unfold decodeWhole
  simp only [Bool.false_eq_true, if_false]
  rw [if_neg (by rw [List.length_append]; omega), List.take_left' hram]

/-- The end mark looks like a run without a count, but it is not decoded. -/
theorem decodeWhole_coded :
    decodeWhole s true (RunLength.encode ram ++ (endMark ++ trailing)) =
      .ok { s with memory := s.memory.load 0x4000 ram } := by
  have hend : (endMark ++ trailing).head? ≠ some RunLength.mark := by
    simp [endMark, RunLength.mark]
  unfold decodeWhole
  simp only [if_true]
  rw [← hram, RunLength.decode_encode_append_stop ram _ hend]
  dsimp only
  rw [if_neg (Nat.lt_irrefl _), List.take_length]

end

/-- What the flags of a header say of coding, whatever follows it. -/
theorem WholeHeader.exists_headerFlags (h : WholeHeader) (body : List UInt8) :
    ∃ flags, (∀ beyond, headerFlags beyond (h.bytes ++ body) = .ok flags) ∧
      (flags &&& 0x20 != 0) = h.isCoded := by
  have hlen : h.bytes.length = 30 := h.length_bytes
  refine ⟨if h.bytes.getD 12 0 == 0xFF then 1 else h.bytes.getD 12 0, fun beyond => ?_, ?_⟩
  · unfold headerFlags
    rw [byteAt_of_lt beyond (by rw [List.length_append]; omega),
      List.getElem_append_left (by omega), List.getD_eq_getElem _ _ (by omega)]
    rfl
  · unfold isCoded
    generalize h.bytes.getD 12 0 = flags
    by_cases hf : flags = 0xFF
    · rw [hf]
      rfl
    · simp [hf]

/-- A file of the first layout holds all of RAM and the program counter. -/
theorem WholeHeader.exists_decode_file (h : WholeHeader) (ram : RamImage)
    (trailing : List UInt8) :
    ∃ s, (∀ beyond, decode (h.file ram trailing) beyond = .ok s) ∧ s.registers.pc = h.pc ∧
      s.memory.toList = List.replicate 0x4000 0 ++ ram.1 := by
  obtain ⟨body, hfile, hbody⟩ : ∃ body, h.file ram trailing = h.bytes ++ body ∧
      ∀ s, decodeWhole s h.isCoded body =
        .ok { s with memory := s.memory.load 0x4000 ram.1 } := by
    unfold file
    cases h.isCoded with
    | true => exact ⟨_, rfl, fun s => decodeWhole_coded s ram.2 trailing⟩
    | false => exact ⟨_, rfl, fun s => decodeWhole_stored s ram.2 trailing⟩
  have hle : headerLength ≤ (h.bytes ++ body).length := by
    rw [List.length_append, h.length_bytes]
    omega
  obtain ⟨s, hs⟩ := exists_decodeHeader hle
  obtain ⟨flags, hflags, hcoded⟩ := h.exists_headerFlags body
  have hpc : fieldAt (h.bytes ++ body) 6 = h.pc :=
    fieldAt_append_left (by rw [h.length_bytes]; decide) body
  have hne : (h.pc != 0) = true := bne_iff_ne.mpr h.pc_ne_zero
  have hdecode : ∀ beyond, decode (h.bytes ++ body) beyond =
      .ok { withPc s h.pc with memory := (withPc s h.pc).memory.load 0x4000 ram.1 } := by
    intro beyond
    rw [decode_of_le beyond hle (hs _), hpc, if_pos hne, hflags,
      List.drop_left' h.length_bytes, ← hbody, ← hcoded]
    rfl
  refine ⟨_, hfile ▸ hdecode, rfl, ?_⟩
  have hblank : s.memory.toList = List.replicate 0x4000 0 ++ (List.replicate 0xC000 0 ++ []) := by
    rw [(blank_of_decodeHeader hle (hs .zeros)).1, Memory.toList_blank, List.append_nil,
      List.replicate_append_replicate]
    rfl
  have hload := Memory.toList_load_of_eq 0x4000 ram.1 hblank List.length_replicate
    (ram.2.trans List.length_replicate.symm)
  rwa [List.append_nil] at hload

/-! ### Page records -/

/-- The pages of RAM from the lowest up. -/
inductive RamPage where
  | lower | middle | upper
deriving DecidableEq, Repr

/-- The number of a page in a file. -/
def RamPage.number : RamPage → UInt8
  | .lower => 8
  | .middle => 4
  | .upper => 5

/-- Where a page lies. -/
def RamPage.base : RamPage → UInt16
  | .lower => 0x4000
  | .middle => 0x8000
  | .upper => 0xC000

theorem pageBase?_number (page : RamPage) : pageBase? page.number = some page.base := by
  cases page <;> rfl

/-- The contents of a page. -/
abbrev PageImage := {bytes : List UInt8 // bytes.length = pageSize}

/-- The record of a page, which stores it in its coding or as it is. -/
structure StoredPage where
  page : RamPage
  image : PageImage
  isCoded : Bool

/-- The bytes of a record: their number, 0xFFFF for a page that is not coded, and the page. -/
def StoredPage.encode (r : StoredPage) : List UInt8 :=
  if r.isCoded then
    let code := RunLength.encode r.image.1
    wordBytes (UInt16.ofNat code.length) ++ r.page.number :: code
  else wordBytes 0xFFFF ++ r.page.number :: r.image.1

/-- What the last record of a page holds; zeros without one. -/
def lastImage (records : List StoredPage) (page : RamPage) : PageImage :=
  match (records.filter (·.page = page)).getLast? with
  | none => ⟨List.replicate pageSize 0, List.length_replicate⟩
  | some r => r.image

theorem lastImage_append (records : List StoredPage) (r : StoredPage) (page : RamPage) :
    lastImage (records ++ [r]) page =
      if r.page = page then r.image else lastImage records page := by
  unfold lastImage
  rw [List.filter_append]
  by_cases hp : r.page = page <;> simp [hp]

/-- Memory with the page of a record placed in it. -/
def StoredPage.place (memory : Memory) (r : StoredPage) : Memory :=
  memory.load r.page.base r.image.1

theorem decodePages_encode (memory : Memory) (records : List StoredPage) :
    decodePages memory (records.flatMap StoredPage.encode) =
      .ok (records.foldl StoredPage.place memory) := by
  induction records generalizing memory with
  | nil => rw [List.flatMap_nil, decodePages, List.foldl_nil]
  | cons r rest ih =>
    rw [List.flatMap_cons, List.foldl_cons, ← ih, StoredPage.encode]
    split
    · exact decodePages_coded memory _ (pageBase?_number r.page) r.image.2
    · exact decodePages_stored memory _ (pageBase?_number r.page) r.image.2

/-- Records leave memory with what the last of each page holds. -/
theorem toList_foldl_place (records : List StoredPage) :
    (records.foldl StoredPage.place Memory.blank).toList =
      List.replicate 0x4000 0 ++ ((lastImage records .lower).1 ++
        ((lastImage records .middle).1 ++ (lastImage records .upper).1)) := by
  induction records using List.reverseRecOn with
  | nil =>
    rw [List.foldl_nil, Memory.toList_blank]
    simp only [lastImage, List.filter_nil, List.getLast?_nil, List.replicate_append_replicate]
    rfl
  | append_singleton records r ih =>
    obtain ⟨page, ⟨bytes, hbytes⟩, isCoded⟩ := r
    rcases hl : lastImage records .lower with ⟨lower, hlower⟩
    rcases hm : lastImage records .middle with ⟨middle, hmiddle⟩
    rcases hu : lastImage records .upper with ⟨upper, hupper⟩
    rw [hl, hm, hu] at ih
    rw [List.foldl_append, List.foldl_cons, List.foldl_nil, StoredPage.place]
    simp only [lastImage_append, hl, hm, hu]
    -- The pages below and above are left, so the page is the part between them.
    cases page with
    | lower =>
      exact Memory.toList_load_of_eq 0x4000 bytes ih List.length_replicate
        (hbytes.trans hlower.symm)
    | middle =>
      have hsplit : (records.foldl StoredPage.place Memory.blank).toList =
          (List.replicate 0x4000 0 ++ lower) ++ (middle ++ upper) := by
        rw [ih, List.append_assoc]
      have hbelow : (List.replicate 0x4000 0 ++ lower).length = (0x8000 : UInt16).toNat := by
        rw [List.length_append, List.length_replicate, hlower]
        rfl
      rw [← List.append_assoc]
      exact Memory.toList_load_of_eq 0x8000 bytes hsplit hbelow (hbytes.trans hmiddle.symm)
    | upper =>
      have hsplit : (records.foldl StoredPage.place Memory.blank).toList =
          (List.replicate 0x4000 0 ++ (lower ++ middle)) ++ (upper ++ []) := by
        rw [ih, List.append_nil, List.append_assoc, List.append_assoc]
      have hbelow : (List.replicate 0x4000 0 ++ (lower ++ middle)).length =
          (0xC000 : UInt16).toNat := by
        rw [List.length_append, List.length_append, List.length_replicate, hlower, hmiddle]
        rfl
      have hload := Memory.toList_load_of_eq 0xC000 bytes hsplit hbelow
        (hbytes.trans hupper.symm)
      rwa [List.append_nil, List.append_assoc, List.append_assoc] at hload

/-! ### The later layouts -/

/-- The header and the extension of a file of the later layouts.  The extension, whose length stands
in front of it, begins with the program counter and the hardware mode. -/
structure ExtendedHeader where
  bytes : List UInt8
  length_bytes : bytes.length = headerLength
  pc_eq_zero : fieldAt bytes 6 = 0
  extension : List UInt8
  known_length : extension.length ∈ [23, 54, 55]
  mode_is_48K : extension.getD 2 0 = 0 ∨ extension.getD 2 0 = 1 ∨
    extension.length ≠ 23 ∧ extension.getD 2 0 = 3

namespace ExtendedHeader

variable (x : ExtendedHeader)

/-- The program counter. -/
def pc : UInt16 := fieldAt x.extension 0

/-- The file with an extended header and some records of pages. -/
def file (records : List StoredPage) : List UInt8 :=
  x.bytes ++ (wordBytes (UInt16.ofNat x.extension.length) ++
    (x.extension ++ records.flatMap StoredPage.encode))

theorem length_extension_cases :
    x.extension.length = 23 ∨ x.extension.length = 54 ∨ x.extension.length = 55 := by
  simpa using x.known_length

variable (records : List StoredPage)

theorem length_le_file : headerLength + 2 + x.extension.length ≤ (x.file records).length := by
  simp only [file, wordBytes, List.length_append, x.length_bytes, List.length_cons,
    List.length_nil]
  omega

theorem fieldAt_file {offset : Nat} (h : offset + 1 < headerLength) :
    fieldAt (x.file records) offset = fieldAt x.bytes offset :=
  fieldAt_append_left (by rwa [x.length_bytes]) _

/-- The bytes of the extension follow the header and their number. -/
theorem getD_file (offset : Nat) (h : offset < x.extension.length) :
    (x.file records).getD (headerLength + 2 + offset) 0 = x.extension.getD offset 0 := by
  have hlength : x.bytes.length = headerLength := x.length_bytes
  have hrest : headerLength + 2 + offset - x.bytes.length = offset + 2 := by omega
  rw [file, List.getD_append_right _ _ _ _ (by omega), hrest]
  exact List.getD_append _ _ _ _ h

theorem fieldAt_extension (offset : Nat) (h : offset + 1 < x.extension.length) :
    fieldAt (x.file records) (headerLength + 2 + offset) = fieldAt x.extension offset := by
  unfold fieldAt
  rw [x.getD_file records offset (Nat.lt_of_succ_lt h), Nat.add_assoc _ offset 1,
    x.getD_file records (offset + 1) h]

theorem declaredLength_file : declaredLength (x.file records) = x.extension.length := by
  have hlength : (UInt16.ofNat x.extension.length).toNat = x.extension.length := by
    rw [UInt16.toNat_ofNat']
    have := x.length_extension_cases
    omega
  unfold declaredLength file
  rw [fieldAt_append_right (Nat.le_of_eq x.length_bytes), x.length_bytes, Nat.sub_self,
    fieldAt_wordBytes, hlength]

theorem drop_file : (x.file records).drop (headerLength + 2 + x.extension.length) =
    records.flatMap StoredPage.encode := by
  have hfront : (x.bytes ++ wordBytes (UInt16.ofNat x.extension.length) ++ x.extension).length =
      headerLength + 2 + x.extension.length := by
    rw [List.length_append, List.length_append, x.length_bytes]
    rfl
  have hfile : x.file records =
      (x.bytes ++ wordBytes (UInt16.ofNat x.extension.length) ++ x.extension) ++
        records.flatMap StoredPage.encode := by
    simp only [file, List.append_assoc]
  rw [hfile, List.drop_left' hfront]

/-- The clock, which the short extension does not have. -/
def clock : UInt64 :=
  if x.extension.length = 23 then 0
  else clockOfFields (fieldAt x.extension 23) (x.extension.getD 25 0)

theorem is48K_mode :
    is48K (if x.extension.length = shortExtensionLength then 2 else 3) (x.extension.getD 2 0) =
      true := by
  have hshort : shortExtensionLength = 23 := rfl
  have hmode := x.mode_is_48K
  rw [hshort]
  generalize x.extension.getD 2 0 = mode at hmode ⊢
  unfold is48K
  rcases hmode with rfl | rfl | ⟨hl, rfl⟩
  · rfl
  · simp
  · simp [hl]

theorem decodeExtension_file (beyond : Beyond) (s : Snapshot) :
    decodeExtension beyond s (x.file records) =
      .ok ({ s with registers := { s.registers with pc := x.pc, clock := x.clock } },
        headerLength + 2 + x.extension.length) := by
  have hhead : headerLength = 30 := rfl
  have hle := x.length_le_file records
  have hcases := x.length_extension_cases
  have hmode : (x.file records).getD 34 0 = x.extension.getD 2 0 :=
    x.getD_file records 2 (by omega)
  have hpc : fieldAt (x.file records) 32 = x.pc := x.fieldAt_extension records 0 (by omega)
  rw [decodeExtension_of_le beyond s (by omega), x.declaredLength_file, require_of_le hle,
    decodeFields_of_lt beyond _ s (by omega), hmode, x.is48K_mode, hpc]
  by_cases hshort : x.extension.length = 23
  · simp [hshort, shortExtensionLength, clock, withPc, bind, Except.bind, pure, Except.pure]
  · have hlow : fieldAt (x.file records) 55 = fieldAt x.extension 23 :=
      x.fieldAt_extension records 23 (by omega)
    have hhigh : (x.file records).getD 57 0 = x.extension.getD 25 0 :=
      x.getD_file records 25 (by omega)
    rw [wordAt_eq_fieldAt beyond (by omega), byteAt_eq_getD beyond (by omega), hlow, hhigh]
    simp [hshort, shortExtensionLength, clock, withPc, bind, Except.bind, pure, Except.pure]

/-- A file of the later layouts holds the program counter, and of each page what its last record
holds. -/
theorem exists_decode_file :
    ∃ s, (∀ beyond, decode (x.file records) beyond = .ok s) ∧
      s.registers.pc = x.pc ∧ s.registers.clock = x.clock ∧
      s.memory.toList = List.replicate 0x4000 0 ++ ((lastImage records .lower).1 ++
        ((lastImage records .middle).1 ++ (lastImage records .upper).1)) := by
  have hle : headerLength ≤ (x.file records).length :=
    Nat.le_trans (by omega) (x.length_le_file records)
  obtain ⟨s, hs⟩ := exists_decodeHeader hle
  have hpc : (fieldAt (x.file records) 6 != 0) = false := by
    rw [x.fieldAt_file records (by decide), x.pc_eq_zero]
    rfl
  have hdecode : ∀ beyond, decode (x.file records) beyond =
      .ok { s with
        registers := { s.registers with pc := x.pc, clock := x.clock }
        memory := records.foldl StoredPage.place s.memory } := by
    intro beyond
    rw [decode_of_le beyond hle (hs _), hpc, if_neg Bool.false_ne_true,
      x.decodeExtension_file]
    simp only [bind, Except.bind, x.drop_file, decodePages_encode]
    rfl
  refine ⟨_, hdecode, rfl, rfl, ?_⟩
  rw [(blank_of_decodeHeader hle (hs .zeros)).1]
  exact toList_foldl_place records

end ExtendedHeader

/-- Well-formed files of a 48K machine are read exactly, whatever lies behind their end.  One of the first layout gives all of RAM,
whether coded or not, and the program counter; one of the later layouts the program counter, and of
each page what its last record holds, whether coded or not, or zeros. -/
theorem exists_decode_wellFormed :
    (∀ (h : WholeHeader) (ram : RamImage) (trailing : List UInt8),
      ∃ s, (∀ beyond, decode (h.file ram trailing) beyond = .ok s) ∧ s.registers.pc = h.pc ∧
        s.memory.toList = List.replicate 0x4000 0 ++ ram.1) ∧
    ∀ (x : ExtendedHeader) (records : List StoredPage),
      ∃ s, (∀ beyond, decode (x.file records) beyond = .ok s) ∧ s.registers.pc = x.pc ∧
        s.memory.toList = List.replicate 0x4000 0 ++ ((lastImage records .lower).1 ++
          ((lastImage records .middle).1 ++ (lastImage records .upper).1)) := by
  refine ⟨fun h ram trailing => h.exists_decode_file ram trailing, fun x records => ?_⟩
  obtain ⟨s, hs, hpc, -, hmemory⟩ := x.exists_decode_file records
  exact ⟨s, hs, hpc, hmemory⟩

end Spectrum.Snapshot
