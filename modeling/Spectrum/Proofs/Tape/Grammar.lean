import Spectrum.Proofs.Tape.Layout

/-! # The grammar of TZX files

`TzxBlock` has a constructor for every kind of block that a TZX file can hold.  The fields of a
constructor are those of the block's body, and their types admit what the body can store: a count of
`width` bytes stands in front of fewer than `256 ^ width` items.  So each value is a well-formed
block, and a file is the header with the codings of any list of them.

The decoder knows a body by its layout, in both directions: the body of a block fits the layout of
its ID, and what fits the layout of an ID is the body of some block.  An induction over the blocks
takes the first to files, an induction over the bytes the second.

Main definitions: `TzxBlock`, `tzxFile`, `tapeBlocks`.
Main statements: `TzxBlock.exists_layout`, `TzxBlock.exists_of_fits`, `decodeTzx_grammar`. -/

namespace Spectrum.Tape

/-! ### Blocks -/

/-- The blocks of a TZX file. -/
inductive TzxBlock where
  | standardData (pause : UInt16) (data : Counted UInt8 2)
  | turboData (pilot sync1 sync2 zero one pilotCount : UInt16) (usedBits : UInt8) (pause : UInt16)
      (data : Counted UInt8 3)
  | pureTone (pulse count : UInt16)
  | pulseSequence (pulses : Counted UInt16 1)
  | pureData (zero one : UInt16) (usedBits : UInt8) (pause : UInt16) (data : Counted UInt8 3)
  | directRecording (head : Fixed 5) (samples : Counted UInt8 3)
  | cswRecording (body : Counted UInt8 4)
  | generalizedData (body : Counted UInt8 4)
  | silence (duration : UInt16)
  | groupStart (name : Counted UInt8 1)
  | groupEnd
  | jump (distance : UInt16)
  | loopStart (count : UInt16)
  | loopEnd
  | callSequence (targets : Counted UInt16 2)
  | returnFromSequence
  | select (body : Counted UInt8 2)
  | stop48K (body : Counted UInt8 4)
  | signalLevel (body : Counted UInt8 4)
  | text (line : Counted UInt8 1)
  | message (seconds : UInt8) (line : Counted UInt8 1)
  | archiveInfo (body : Counted UInt8 2)
  | hardware (entries : Counted (UInt8 × UInt8 × UInt8) 1)
  | emulationInfo (body : Fixed 8)
  | customInfo (name : Fixed 16) (body : Counted UInt8 4)
  | glue (body : Fixed 9)

namespace TzxBlock

/-- The byte that tells the kind of a block. -/
def id : TzxBlock → UInt8
  | standardData .. => 0x10
  | turboData .. => 0x11
  | pureTone .. => 0x12
  | pulseSequence .. => 0x13
  | pureData .. => 0x14
  | directRecording .. => 0x15
  | cswRecording .. => 0x18
  | generalizedData .. => 0x19
  | silence .. => 0x20
  | groupStart .. => 0x21
  | groupEnd => 0x22
  | jump .. => 0x23
  | loopStart .. => 0x24
  | loopEnd => 0x25
  | callSequence .. => 0x26
  | returnFromSequence => 0x27
  | select .. => 0x28
  | stop48K .. => 0x2A
  | signalLevel .. => 0x2B
  | text .. => 0x30
  | message .. => 0x31
  | archiveInfo .. => 0x32
  | hardware .. => 0x33
  | emulationInfo .. => 0x34
  | customInfo .. => 0x35
  | glue .. => 0x5A

/-- What stands behind the ID. -/
def body : TzxBlock → List UInt8
  | standardData pause data => wordBytes pause ++ countedBytes data
  | turboData pilot sync1 sync2 zero one pilotCount usedBits pause data =>
    (wordBytes pilot ++ wordBytes sync1 ++ wordBytes sync2 ++ wordBytes zero ++ wordBytes one ++
      wordBytes pilotCount ++ [usedBits] ++ wordBytes pause) ++ countedBytes data
  | pureTone pulse count => wordBytes pulse ++ wordBytes count
  | pulseSequence pulses => counted wordBytes pulses
  | pureData zero one usedBits pause data =>
    (wordBytes zero ++ wordBytes one ++ [usedBits] ++ wordBytes pause) ++ countedBytes data
  | directRecording head samples => head.1 ++ countedBytes samples
  | cswRecording body | generalizedData body => countedBytes body
  | silence n | jump n | loopStart n => wordBytes n
  | groupStart name => countedBytes name
  | groupEnd | loopEnd | returnFromSequence => []
  | callSequence targets => counted wordBytes targets
  | select body => countedBytes body
  | stop48K body | signalLevel body => countedBytes body
  | text line => countedBytes line
  | message seconds line => [seconds] ++ countedBytes line
  | archiveInfo body => countedBytes body
  | hardware entries => counted (fun entry => [entry.1, entry.2.1, entry.2.2]) entries
  | emulationInfo body => body.1
  | customInfo name body => name.1 ++ countedBytes body
  | glue body => body.1

/-- A block in a file. -/
def encode (b : TzxBlock) : List UInt8 := b.id :: b.body

/-- The tape block with a number that a block stands for; none if it only controls playing or
informs. -/
def tapeBlock? (number : Nat) : TzxBlock → Option Block
  | standardData pause data =>
    some
      { number, id := 0x10, data := data.1
        timings := Timings.standard (data.1.headD 0) pause }
  | turboData pilot sync1 sync2 zero one pilotCount usedBits pause data =>
    some
      { number, id := 0x11, data := data.1
        timings :=
          { pilot, sync1, sync2, zero, one, pilotCount := pilotCount.toNat, usedBits, pause } }
  | pureTone pulse count =>
    some
      { kind := .pulses, number, id := 0x12, timings := { pause := 0 }
        pulses := List.replicate count.toNat pulse }
  | pulseSequence pulses =>
    some { kind := .pulses, number, id := 0x13, timings := { pause := 0 }, pulses := pulses.1 }
  | pureData zero one usedBits pause data =>
    some
      { number, id := 0x14, data := data.1
        timings := { pilotCount := 0, zero, one, usedBits, pause } }
  | directRecording .. => some { kind := .unsupported, number, id := 0x15 }
  | cswRecording .. => some { kind := .unsupported, number, id := 0x18 }
  | generalizedData .. => some { kind := .unsupported, number, id := 0x19 }
  | _ => none

end TzxBlock

/-- The blocks behind the header of a file. -/
def encodeBlocks (blocks : List TzxBlock) : List UInt8 := blocks.flatMap TzxBlock.encode

/-- The TZX file with a version and blocks. -/
def tzxFile (major minor : UInt8) (blocks : List TzxBlock) : List UInt8 :=
  tzxSignature ++ [major, minor] ++ encodeBlocks blocks

/-- The tape blocks that blocks stand for, each with its position among all of them, from `number`
on. -/
def tapeBlocks (number : Nat) (blocks : List TzxBlock) : List Block :=
  (blocks.zipIdx number).filterMap fun (b, n) => b.tapeBlock? n

/-! ### Bodies and blocks -/

namespace TzxBlock

/-- The body of a block fits the layout of its ID. -/
theorem exists_layout (b : TzxBlock) : ∃ l, Layout.ofId? b.id = some l ∧ l.Fits b.body := by
  cases b with
  | standardData pause data => exact ⟨_, rfl, Layout.fits_counted _ data rfl rfl rfl fun _ => rfl⟩
  | turboData pilot sync1 sync2 zero one pilotCount usedBits pause data =>
    exact ⟨_, rfl, Layout.fits_counted _ data rfl rfl rfl fun _ => rfl⟩
  | pureTone pulse count => exact ⟨_, rfl, Layout.fits_fixed (by decide) rfl rfl⟩
  | pulseSequence pulses => exact ⟨_, rfl, Layout.fits_counted [] pulses rfl rfl rfl fun _ => rfl⟩
  | pureData zero one usedBits pause data =>
    exact ⟨_, rfl, Layout.fits_counted _ data rfl rfl rfl fun _ => rfl⟩
  | directRecording head samples =>
    exact ⟨_, rfl, Layout.fits_counted _ samples head.2 rfl rfl fun _ => rfl⟩
  | cswRecording body | generalizedData body | stop48K body | signalLevel body =>
    exact ⟨_, rfl, Layout.fits_counted [] body rfl rfl rfl fun _ => rfl⟩
  | silence n | jump n | loopStart n => exact ⟨_, rfl, Layout.fits_fixed (by decide) rfl rfl⟩
  | groupStart name | text name =>
    exact ⟨_, rfl, Layout.fits_counted [] name rfl rfl rfl fun _ => rfl⟩
  | groupEnd | loopEnd | returnFromSequence => exact ⟨_, rfl, Layout.fits_fixed (by decide) rfl rfl⟩
  | callSequence targets => exact ⟨_, rfl, Layout.fits_counted [] targets rfl rfl rfl fun _ => rfl⟩
  | select body | archiveInfo body =>
    exact ⟨_, rfl, Layout.fits_counted [] body rfl rfl rfl fun _ => rfl⟩
  | message seconds line => exact ⟨_, rfl, Layout.fits_counted _ line rfl rfl rfl fun _ => rfl⟩
  | hardware entries => exact ⟨_, rfl, Layout.fits_counted [] entries rfl rfl rfl fun _ => rfl⟩
  | emulationInfo body | glue body => exact ⟨_, rfl, Layout.fits_fixed (by decide) rfl body.2⟩
  | customInfo name body => exact ⟨_, rfl, Layout.fits_counted _ body name.2 rfl rfl fun _ => rfl⟩

theorem ofBody?_body (number : Nat) (b : TzxBlock) :
    Block.ofBody? number b.id b.body = b.tapeBlock? number := by
  cases b with
  | standardData pause data =>
    simp [Block.ofBody?, id, body, tapeBlock?, wordBytes, countedBytes, counted, numberBytes]
  | turboData pilot sync1 sync2 zero one pilotCount usedBits pause data =>
    simp [Block.ofBody?, id, body, tapeBlock?, wordBytes, countedBytes, counted, numberBytes]
  | pureTone pulse count =>
    simp [Block.ofBody?, id, body, tapeBlock?, wordBytes]
  | pulseSequence pulses =>
    simp [Block.ofBody?, id, body, tapeBlock?, counted, numberBytes, words_flatMap]
  | pureData zero one usedBits pause data =>
    simp [Block.ofBody?, id, body, tapeBlock?, wordBytes, countedBytes, counted, numberBytes]
  | _ => rfl

theorem within_of_ofId? {byte : UInt8} {l : Layout} (h : Layout.ofId? byte = some l) :
    l.countOffset + l.countWidth ≤ l.head := by
  unfold Layout.ofId? at h
  split at h <;> cases h <;> decide

/-- What fits the layout of an ID is the body of a block. -/
theorem exists_of_fits {byte : UInt8} {l : Layout} {bytes : List UInt8}
    (hid : Layout.ofId? byte = some l) (h : l.Fits bytes) :
    ∃ b : TzxBlock, b.id = byte ∧ b.body = bytes := by
  have same : ∀ {b : TzxBlock}, byte.toNat = b.id.toNat → b.id = byte := fun h =>
    UInt8.toNat_inj.mp h.symm
  -- One case for each line of the table of layouts, in its order.
  unfold Layout.ofId? at hid
  split at hid <;> rename_i hbyte <;> cases hid
  · obtain ⟨pre, data, rfl⟩ := h.exists_counted rfl exists_byte
    obtain ⟨pause, hp⟩ := exists_word pre.1 pre.2
    exact ⟨.standardData pause data, same hbyte, congrArg (· ++ _) hp⟩
  · obtain ⟨pre, data, rfl⟩ := h.exists_counted rfl exists_byte
    obtain ⟨pilot, pre₁, hpre, h₁⟩ := exists_word_append pre.1 pre.2
    obtain ⟨sync1, pre₂, rfl, h₂⟩ := exists_word_append pre₁ h₁
    obtain ⟨sync2, pre₃, rfl, h₃⟩ := exists_word_append pre₂ h₂
    obtain ⟨zero, pre₄, rfl, h₄⟩ := exists_word_append pre₃ h₃
    obtain ⟨one, pre₅, rfl, h₅⟩ := exists_word_append pre₄ h₄
    obtain ⟨pilotCount, pre₆, rfl, h₆⟩ := exists_word_append pre₅ h₅
    obtain ⟨usedBits, low, high, rfl⟩ := List.length_eq_three.mp h₆
    obtain ⟨pause, hpause⟩ := exists_word [low, high] rfl
    refine ⟨.turboData pilot sync1 sync2 zero one pilotCount usedBits pause data, same hbyte, ?_⟩
    rw [← hpre, body, hpause]
    rfl
  · obtain ⟨pulse, rest, rfl, hlength⟩ := exists_word_append bytes (h.length_eq_head rfl)
    obtain ⟨count, rfl⟩ := exists_word rest hlength
    exact ⟨.pureTone pulse count, same hbyte, rfl⟩
  · obtain ⟨pulses, rfl⟩ := h.exists_counted_only rfl rfl exists_word
    exact ⟨.pulseSequence pulses, same hbyte, rfl⟩
  · obtain ⟨pre, data, rfl⟩ := h.exists_counted rfl exists_byte
    obtain ⟨zero, pre₁, hpre, h₁⟩ := exists_word_append pre.1 pre.2
    obtain ⟨one, pre₂, rfl, h₂⟩ := exists_word_append pre₁ h₁
    obtain ⟨usedBits, low, high, rfl⟩ := List.length_eq_three.mp h₂
    obtain ⟨pause, hpause⟩ := exists_word [low, high] rfl
    refine ⟨.pureData zero one usedBits pause data, same hbyte, ?_⟩
    rw [← hpre, body, hpause]
    rfl
  · obtain ⟨head, samples, rfl⟩ := h.exists_counted rfl exists_byte
    exact ⟨.directRecording head samples, same hbyte, rfl⟩
  · obtain ⟨body, rfl⟩ := h.exists_counted_only rfl rfl exists_byte
    exact ⟨.cswRecording body, same hbyte, rfl⟩
  · obtain ⟨body, rfl⟩ := h.exists_counted_only rfl rfl exists_byte
    exact ⟨.generalizedData body, same hbyte, rfl⟩
  · obtain ⟨body, rfl⟩ := h.exists_counted_only rfl rfl exists_byte
    exact ⟨.stop48K body, same hbyte, rfl⟩
  · obtain ⟨body, rfl⟩ := h.exists_counted_only rfl rfl exists_byte
    exact ⟨.signalLevel body, same hbyte, rfl⟩
  · obtain ⟨duration, rfl⟩ := exists_word bytes (h.length_eq_head rfl)
    exact ⟨.silence duration, same hbyte, rfl⟩
  · obtain ⟨distance, rfl⟩ := exists_word bytes (h.length_eq_head rfl)
    exact ⟨.jump distance, same hbyte, rfl⟩
  · obtain ⟨count, rfl⟩ := exists_word bytes (h.length_eq_head rfl)
    exact ⟨.loopStart count, same hbyte, rfl⟩
  · obtain ⟨name, rfl⟩ := h.exists_counted_only rfl rfl exists_byte
    exact ⟨.groupStart name, same hbyte, rfl⟩
  · obtain ⟨line, rfl⟩ := h.exists_counted_only rfl rfl exists_byte
    exact ⟨.text line, same hbyte, rfl⟩
  · rw [List.eq_nil_of_length_eq_zero (h.length_eq_head rfl)]
    exact ⟨.groupEnd, same hbyte, rfl⟩
  · rw [List.eq_nil_of_length_eq_zero (h.length_eq_head rfl)]
    exact ⟨.loopEnd, same hbyte, rfl⟩
  · rw [List.eq_nil_of_length_eq_zero (h.length_eq_head rfl)]
    exact ⟨.returnFromSequence, same hbyte, rfl⟩
  · obtain ⟨targets, rfl⟩ := h.exists_counted_only rfl rfl exists_word
    exact ⟨.callSequence targets, same hbyte, rfl⟩
  · obtain ⟨body, rfl⟩ := h.exists_counted_only rfl rfl exists_byte
    exact ⟨.select body, same hbyte, rfl⟩
  · obtain ⟨body, rfl⟩ := h.exists_counted_only rfl rfl exists_byte
    exact ⟨.archiveInfo body, same hbyte, rfl⟩
  · obtain ⟨pre, line, rfl⟩ := h.exists_counted rfl exists_byte
    obtain ⟨seconds, hp⟩ := exists_byte pre.1 pre.2
    exact ⟨.message seconds line, same hbyte, congrArg (· ++ _) hp⟩
  · obtain ⟨entries, rfl⟩ := h.exists_counted_only rfl rfl exists_triple
    exact ⟨.hardware entries, same hbyte, rfl⟩
  · exact ⟨.emulationInfo ⟨bytes, h.length_eq_head rfl⟩, same hbyte, rfl⟩
  · obtain ⟨name, body, rfl⟩ := h.exists_counted rfl exists_byte
    exact ⟨.customInfo name body, same hbyte, rfl⟩
  · exact ⟨.glue ⟨bytes, h.length_eq_head rfl⟩, same hbyte, rfl⟩

end TzxBlock

/-! ### Files -/

theorem tapeBlocks_cons (number : Nat) (b : TzxBlock) (rest : List TzxBlock) :
    tapeBlocks number (b :: rest) =
      (b.tapeBlock? number).toList ++ tapeBlocks (number + 1) rest := by
  unfold tapeBlocks
  rw [List.zipIdx_cons, List.filterMap_cons]
  dsimp only
  cases b.tapeBlock? number <;> rfl

theorem decodeTzxFrom_cons (number : Nat) (b : TzxBlock) (rest : List UInt8) :
    decodeTzxFrom number (b.encode ++ rest) =
      (decodeTzxFrom (number + 1) rest).map ((b.tapeBlock? number).toList ++ ·) := by
  obtain ⟨l, hl, hfits⟩ := b.exists_layout
  rw [TzxBlock.encode, List.cons_append, decodeTzxFrom, hl]
  dsimp only
  rw [hfits.body?_append]
  dsimp only
  rw [List.drop_left, TzxBlock.ofBody?_body]
  cases decodeTzxFrom (number + 1) rest <;> cases b.tapeBlock? number <;> rfl

theorem decodeTzxFrom_take (number : Nat) (b : TzxBlock) {k : Nat} (hk : k < b.body.length)
    (rest : List UInt8) :
    decodeTzxFrom number (b.id :: (b.body ++ rest).take k) =
      .error (.truncatedTzx number b.id) := by
  obtain ⟨l, hl, hfits⟩ := b.exists_layout
  rw [decodeTzxFrom, hl]
  dsimp only
  rw [hfits.body?_take hk]

theorem decodeTzxFrom_encodeBlocks (number : Nat) (blocks : List TzxBlock) :
    decodeTzxFrom number (encodeBlocks blocks) = .ok (tapeBlocks number blocks) := by
  induction blocks generalizing number with
  | nil => rw [encodeBlocks, List.flatMap_nil, decodeTzxFrom, tapeBlocks]; rfl
  | cons b rest ih =>
    rw [encodeBlocks, List.flatMap_cons, decodeTzxFrom_cons, ← encodeBlocks, ih, tapeBlocks_cons]
    rfl

/-- Only blocks are read. -/
theorem exists_encodeBlocks (number : Nat) (bytes : List UInt8) {blocks : List Block}
    (h : decodeTzxFrom number bytes = .ok blocks) : ∃ tzx, encodeBlocks tzx = bytes := by
  fun_induction decodeTzxFrom number bytes generalizing blocks with
  | case1 => exact ⟨[], rfl⟩
  | case2 | case3 => exact nomatch h
  | case4 number byte rest l hl body hbody ih =>
    obtain ⟨hfits, hrest⟩ := Layout.fits_of_body? (TzxBlock.within_of_ofId? hl) hbody
    obtain ⟨b, rfl, rfl⟩ := TzxBlock.exists_of_fits hl hfits
    cases hnext : decodeTzxFrom (number + 1) (rest.drop b.body.length) with
    | error e =>
      rw [hnext] at h
      exact nomatch h
    | ok next =>
      obtain ⟨tzx, htzx⟩ := ih hnext
      refine ⟨b :: tzx, ?_⟩
      rw [encodeBlocks, List.flatMap_cons, ← encodeBlocks, htzx, TzxBlock.encode, List.cons_append,
        ← hrest]

/-- A cut leaves whole blocks, or is an error. -/
theorem decodeTzxFrom_encodeBlocks_take (number : Nat) (blocks : List TzxBlock) (k : Nat) :
    (∃ n, (encodeBlocks blocks).take k = encodeBlocks (blocks.take n)) ∨
      ∃ e, decodeTzxFrom number ((encodeBlocks blocks).take k) = .error e := by
  induction blocks generalizing number k with
  | nil => exact .inl ⟨0, List.take_nil⟩
  | cons b rest ih =>
    cases k with
    | zero => exact .inl ⟨0, rfl⟩
    | succ k =>
      have hcons : (encodeBlocks (b :: rest)).take (k + 1) =
          b.id :: (b.body ++ encodeBlocks rest).take k := rfl
      rw [hcons]
      by_cases hk : k < b.body.length
      · exact .inr ⟨_, decodeTzxFrom_take number b hk _⟩
      · have hwhole : b.id :: (b.body ++ encodeBlocks rest).take k =
            b.encode ++ (encodeBlocks rest).take (k - b.body.length) := by
          rw [List.take_append, List.take_of_length_le (Nat.not_lt.mp hk)]
          rfl
        rw [hwhole]
        rcases ih (number + 1) (k - b.body.length) with ⟨n, hn⟩ | ⟨e, he⟩
        · refine .inl ⟨n + 1, ?_⟩
          rw [hn]
          rfl
        · refine .inr ⟨e, ?_⟩
          rw [decodeTzxFrom_cons, he]
          rfl

theorem decodeTzx_header (major minor : UInt8) (bytes : List UInt8) :
    decodeTzx (tzxSignature ++ [major, minor] ++ bytes) = decodeTzxFrom 1 bytes := rfl

theorem exists_header {bytes : List UInt8} {blocks : List Block}
    (h : decodeTzx bytes = .ok blocks) :
    ∃ major minor rest, bytes = tzxSignature ++ [major, minor] ++ rest := by
  unfold decodeTzx at h
  dsimp only at h
  split at h
  · exact nomatch h
  · rename_i hstart
    rw [not_or, Nat.not_lt, Bool.not_eq_true', Bool.not_eq_false, List.isPrefixOf_iff_prefix]
      at hstart
    obtain ⟨hlength, rest, rfl⟩ := hstart
    rw [List.length_append, Nat.add_le_add_iff_left] at hlength
    match rest, hlength with
    | major :: minor :: rest, _ => exact ⟨major, minor, rest, by rw [List.append_assoc]; rfl⟩

theorem decodeTzx_of_short {bytes : List UInt8} (h : bytes.length < tzxSignature.length + 2) :
    decodeTzx bytes = .error .notTzx := if_pos (.inl h)

/-- The decoder accepts the files of the grammar, and reads from each its tape blocks.  A cut file
is read only if the cut is between two blocks. -/
theorem decodeTzx_grammar :
    (∀ bytes blocks, decodeTzx bytes = .ok blocks ↔
      ∃ major minor tzx, bytes = tzxFile major minor tzx ∧ blocks = tapeBlocks 1 tzx) ∧
    ∀ major minor tzx k,
      (∃ n, (tzxFile major minor tzx).take k = tzxFile major minor (tzx.take n)) ∨
        ∃ e, decodeTzx ((tzxFile major minor tzx).take k) = .error e := by
  refine ⟨fun bytes blocks => ⟨fun h => ?_, ?_⟩, fun major minor tzx k => ?_⟩
  · obtain ⟨major, minor, rest, rfl⟩ := exists_header h
    rw [decodeTzx_header] at h
    obtain ⟨tzx, rfl⟩ := exists_encodeBlocks 1 rest h
    rw [decodeTzxFrom_encodeBlocks] at h
    exact ⟨major, minor, tzx, rfl, (Except.ok.inj h).symm⟩
  · rintro ⟨major, minor, tzx, rfl, rfl⟩
    rw [tzxFile, decodeTzx_header, decodeTzxFrom_encodeBlocks]
  · by_cases hk : k < tzxSignature.length + 2
    · refine .inr ⟨_, decodeTzx_of_short ?_⟩
      rw [List.length_take]
      omega
    · have hheader : (tzxFile major minor tzx).take k =
          tzxSignature ++ [major, minor] ++
            (encodeBlocks tzx).take (k - (tzxSignature.length + 2)) := by
        rw [tzxFile, List.take_append, List.take_of_length_le (Nat.not_lt.mp hk)]
        rfl
      rw [hheader, decodeTzx_header]
      rcases decodeTzxFrom_encodeBlocks_take 1 tzx (k - (tzxSignature.length + 2)) with
        ⟨n, hn⟩ | he
      · refine .inl ⟨n, ?_⟩
        rw [hn]
        rfl
      · exact .inr he

end Spectrum.Tape
