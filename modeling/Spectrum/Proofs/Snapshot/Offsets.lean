import Mathlib.Data.List.GetD
import Mathlib.Tactic.Common
import Spectrum.Proofs.Snapshot.RunLength
import Spectrum.Snapshot.File

/-! # Where a snapshot file is read

A file is a list, of which nothing can be taken that is not there; a reader of an array of bytes has
to keep to its bounds.  `decodeByOffset` is such a reader: it takes every byte by its offset, those
of the pages too, and finds `beyond` behind the end.  It is the same function as `decode`, so only
fields of the extension are ever looked for behind the end, and `LacksField` says when.

Main statements: `expandFrom_eq`, `pagesFrom_eq`, `decodeByOffset_eq`,
`decode_inBounds_or_lacksField`. -/

namespace Spectrum.Snapshot

open Z80

section

variable (beyond : Beyond)

/-! ### Readers by offset -/

/-- The `n` bytes from an offset on. -/
def bytesFrom (bytes : List UInt8) (offset : Nat) : (n : Nat) → Except FileError (List UInt8)
  | 0 => .ok []
  | n + 1 => do
    let b ← byteAt beyond bytes offset
    let rest ← bytesFrom bytes (offset + 1) n
    return b :: rest

/-- Whether a mark begins at an offset; the second of its bytes is read only if there is one. -/
def isMarkAt (code : List UInt8) (offset : Nat) : Except FileError Bool := do
  let b ← byteAt beyond code offset
  if b == RunLength.mark && offset + 1 < code.length then
    return (← byteAt beyond code (offset + 1)) == RunLength.mark
  else return false

/-- The bytes that a coding stands for from an offset on. -/
def expandFrom (limit : Option Nat) (code : List UInt8) (offset : Nat) :
    Except FileError (List UInt8) :=
  if _ : offset < code.length ∧ limit ≠ some 0 then do
    if ← isMarkAt beyond code offset then
      if code.length ≤ offset + 3 then .error .truncated
      else
        let count ← byteAt beyond code (offset + 2)
        let b ← byteAt beyond code (offset + 3)
        let rest ← expandFrom (limit.map (· - count.toNat)) code (offset + 4)
        return List.replicate count.toNat b ++ rest
    else
      let b ← byteAt beyond code offset
      let rest ← expandFrom (limit.map (· - 1)) code (offset + 1)
      return b :: rest
  else .ok []
termination_by code.length - offset

/-- The bytes of a page as a record stores them. -/
def pageFrom (page : UInt8) (length : UInt16) (stored : List UInt8) :
    Except FileError (List UInt8) := do
  let bytes ← if length == 0xFFFF then pure stored
    else expandFrom beyond (some pageSize) stored 0
  if bytes.length = pageSize then return bytes
  else .error (.wrongPageSize page bytes.length)

/-- The page records from an offset on. -/
def pagesFrom (memory : Memory) (bytes : List UInt8) (offset : Nat) : Except FileError Memory :=
  if _ : offset < bytes.length then do
    require bytes (offset + 3)
    let length ← wordAt beyond bytes offset
    let page ← byteAt beyond bytes (offset + 2)
    let size := if length == 0xFFFF then pageSize else length.toNat
    require bytes (offset + 3 + size)
    let stored ← bytesFrom beyond bytes (offset + 3) size
    let ram ← pageFrom beyond page length stored
    match pageBase? page with
    | none => .error (.unexpectedPage page)
    | some base => pagesFrom (memory.load base ram) bytes (offset + 3 + size)
  else .ok memory
termination_by bytes.length - offset

/-! ### Within the bounds -/

theorem byteAt_of_lt {bytes : List UInt8} {offset : Nat} (h : offset < bytes.length) :
    byteAt beyond bytes offset = .ok bytes[offset] := by
  unfold byteAt
  rw [List.getElem?_eq_getElem h]

theorem wordAt_of_lt {bytes : List UInt8} {offset : Nat} (h : offset + 1 < bytes.length) :
    wordAt beyond bytes offset = .ok (UInt16.join bytes[offset + 1] bytes[offset]) := by
  unfold wordAt
  rw [byteAt_of_lt beyond (Nat.lt_of_succ_lt h), byteAt_of_lt beyond h]
  rfl

theorem bytesFrom_eq {bytes : List UInt8} {offset n : Nat} (h : offset + n ≤ bytes.length) :
    bytesFrom beyond bytes offset n = .ok ((bytes.drop offset).take n) := by
  induction n generalizing offset with
  | zero => rfl
  | succ n ih =>
    have hlt : offset < bytes.length := by omega
    unfold bytesFrom
    rw [byteAt_of_lt beyond hlt, ih (by omega), List.drop_eq_getElem_cons hlt]
    rfl

theorem isMarkAt_eq {code : List UInt8} {offset : Nat} (h : offset < code.length) :
    isMarkAt beyond code offset =
      .ok (decide (code[offset] = RunLength.mark ∧ code[offset + 1]? = some RunLength.mark)) := by
  unfold isMarkAt
  rw [byteAt_of_lt beyond h]
  simp only [bind, Except.bind, pure, Except.pure]
  by_cases hn : offset + 1 < code.length
  · rw [byteAt_of_lt beyond hn, List.getElem?_eq_getElem hn]
    by_cases hm : code[offset] = RunLength.mark <;> simp [hm, hn, beq_eq_decide]
  · rw [List.getElem?_eq_none (by omega)]
    simp [hn]

/-- Run-length decoding keeps to the bounds of the coding. -/
theorem expandFrom_eq (limit : Option Nat) (code : List UInt8) (offset : Nat) :
    expandFrom beyond limit code offset =
      match RunLength.decode limit (code.drop offset) with
      | none => .error .truncated
      | some bytes => .ok bytes := by
  fun_induction expandFrom beyond limit code offset with
  | case1 limit offset h ih₁ ih₂ =>
    obtain ⟨hlt, hl⟩ := h
    rw [isMarkAt_eq beyond hlt, List.drop_eq_getElem_cons hlt]
    simp only [bind, Except.bind, decide_eq_true_eq]
    by_cases hm : code[offset] = RunLength.mark ∧ code[offset + 1]? = some RunLength.mark
    · obtain ⟨hlt', hm'⟩ := List.getElem?_eq_some_iff.mp hm.2
      rw [if_pos hm, List.drop_eq_getElem_cons hlt', hm.1, hm']
      by_cases hend : code.length ≤ offset + 3
      · rw [if_pos hend, RunLength.decode_truncated hl (by rw [List.length_drop]; omega)]
      · have hcount : offset + 2 < code.length := by omega
        have hbyte : offset + 3 < code.length := by omega
        rw [if_neg hend, byteAt_of_lt beyond hcount, byteAt_of_lt beyond hbyte,
          List.drop_eq_getElem_cons hcount, List.drop_eq_getElem_cons hbyte,
          RunLength.decode_run hl]
        dsimp only
        rw [ih₁ hend]
        cases RunLength.decode (limit.map (· - code[offset + 2].toNat)) (code.drop (offset + 4)) <;>
          rfl
    · have hnext : code[offset] = RunLength.mark →
          (code.drop (offset + 1)).head? ≠ some RunLength.mark := fun h h' =>
        hm ⟨h, by rwa [List.head?_drop] at h'⟩
      rw [if_neg hm, byteAt_of_lt beyond hlt, RunLength.decode_literal hl hnext]
      dsimp only
      rw [ih₂]
      cases RunLength.decode (limit.map (· - 1)) (code.drop (offset + 1)) <;> rfl
  | case2 limit offset h =>
    rw [not_and_or, Decidable.not_not] at h
    rcases h with h | rfl
    · rw [List.drop_eq_nil_of_le (by omega)]
      cases limit <;> simp [RunLength.decode]
    · rw [RunLength.decode_stop]

theorem require_of_le {bytes : List UInt8} {length : Nat} (h : length ≤ bytes.length) :
    require bytes length = .ok () := if_neg (Nat.not_lt.mpr h)

theorem require_of_lt {bytes : List UInt8} {length : Nat} (h : bytes.length < length) :
    require bytes length = .error .truncated := if_pos h

theorem pageFrom_eq (page : UInt8) (length : UInt16) (stored : List UInt8) :
    pageFrom beyond page length stored = decodePage page length stored := by
  unfold pageFrom decodePage
  by_cases hl : (length == 0xFFFF) = true
  · rw [if_pos hl, if_pos hl]
    rfl
  · rw [if_neg hl, if_neg hl, expandFrom_eq, List.drop_zero]
    cases RunLength.decode (some pageSize) stored <;> rfl

/-- Less than the head of a record is no record. -/
theorem decodePages_of_short (memory : Memory) {bytes : List UInt8} (h : bytes ≠ [])
    (hl : bytes.length < 3) : decodePages memory bytes = .error .truncated := by
  rw [decodePages.eq_def]
  split
  · exact absurd rfl h
  · simp only [List.length_cons] at hl
    omega
  · rfl

/-- The page records keep to the bounds of the file. -/
theorem pagesFrom_eq (memory : Memory) (bytes : List UInt8) (offset : Nat) :
    pagesFrom beyond memory bytes offset = decodePages memory (bytes.drop offset) := by
  fun_induction pagesFrom beyond memory bytes offset with
  | case1 memory offset hlt ih =>
    by_cases hhead : offset + 3 ≤ bytes.length
    · have hhigh : offset + 1 < bytes.length := by omega
      have hpage : offset + 2 < bytes.length := by omega
      rw [require_of_le hhead, wordAt_of_lt beyond hhigh, byteAt_of_lt beyond hpage,
        List.drop_eq_getElem_cons hlt, List.drop_eq_getElem_cons hhigh,
        List.drop_eq_getElem_cons hpage, decodePages]
      generalize UInt16.join bytes[offset + 1] bytes[offset] = length
      specialize ih length
      simp only [bind, Except.bind, List.length_drop, dite_eq_ite] at ih ⊢
      generalize (if (length == 0xFFFF) = true then pageSize else length.toNat) = size at ih ⊢
      by_cases hsize : offset + 3 + size ≤ bytes.length
      · rw [require_of_le hsize, if_neg (by omega), bytesFrom_eq beyond hsize]
        dsimp only
        rw [pageFrom_eq]
        cases decodePage bytes[offset + 2] length ((bytes.drop (offset + 2 + 1)).take size) with
        | error e => rfl
        | ok ram =>
          cases pageBase? bytes[offset + 2] with
          | none => rfl
          | some base =>
            dsimp only
            rw [ih ram base, List.drop_drop]
      · rw [require_of_lt (by omega), if_pos (by omega)]
    · rw [require_of_lt (by omega), decodePages_of_short]
      · rfl
      · rwa [ne_eq, List.drop_eq_nil_iff, Nat.not_le]
      · rw [List.length_drop]
        omega
  | case2 memory offset hlt =>
    rw [List.drop_eq_nil_of_le (by omega), decodePages]

/-! ### Files -/

/-- All of RAM behind the header. -/
def wholeFrom (s : Snapshot) (coded : Bool) (bytes : List UInt8) : Except FileError Snapshot := do
  let body ← bytesFrom beyond bytes headerLength (bytes.length - headerLength)
  let ram ← if coded then expandFrom beyond (some (3 * pageSize)) body 0 else pure body
  if ram.length < 3 * pageSize then .error .truncated
  else return { s with memory := s.memory.load 0x4000 (ram.take (3 * pageSize)) }

/-- The snapshot in a file, every byte of which is read by its offset. -/
def decodeByOffset (bytes : List UInt8) : Except FileError Snapshot := do
  require bytes headerLength
  let s ← decodeHeader beyond bytes
  let pc ← wordAt beyond bytes 6
  if pc != 0 then
    let flags ← headerFlags beyond bytes
    wholeFrom beyond (withPc s pc) (flags &&& 0x20 != 0) bytes
  else
    let (s, offset) ← decodeExtension beyond s bytes
    let memory ← pagesFrom beyond s.memory bytes offset
    return { s with memory := memory }

theorem wholeFrom_eq (s : Snapshot) (coded : Bool) {bytes : List UInt8}
    (h : headerLength ≤ bytes.length) :
    wholeFrom beyond s coded bytes = decodeWhole s coded (bytes.drop headerLength) := by
  have hbody : (bytes.drop headerLength).take (bytes.length - headerLength) =
      bytes.drop headerLength :=
    List.take_of_length_le (Nat.le_of_eq List.length_drop)
  unfold wholeFrom decodeWhole
  rw [bytesFrom_eq beyond (by omega), hbody]
  cases coded with
  | false => rfl
  | true =>
    simp only [bind, Except.bind, if_true]
    rw [expandFrom_eq, List.drop_zero]
    cases RunLength.decode (some (3 * pageSize)) (bytes.drop headerLength) <;> rfl

/-- Reading by offset is reading. -/
theorem decodeByOffset_eq (bytes : List UInt8) :
    decodeByOffset beyond bytes = decode bytes beyond := by
  unfold decodeByOffset decode
  by_cases h : headerLength ≤ bytes.length
  · simp only [wholeFrom_eq beyond _ _ h, pagesFrom_eq]
  · rw [require_of_lt (by omega)]
    rfl

end

/-! ### Fields behind the end -/

theorem byteAt_refused_of_le {bytes : List UInt8} {offset : Nat} (h : bytes.length ≤ offset) :
    byteAt .refused bytes offset = .error (.outside offset) := by
  unfold byteAt
  rw [List.getElem?_eq_none h]
  rfl

/-- The header is within its bounds. -/
theorem exists_decodeHeader {bytes : List UInt8} (h : headerLength ≤ bytes.length) :
    ∃ s, ∀ beyond, decodeHeader beyond bytes = .ok s := by
  have h' : 30 ≤ bytes.length := h
  have hsame : ∀ beyond, decodeHeader beyond bytes = decodeHeader .zeros bytes := by
    intro beyond
    unfold decodeHeader headerFlags
    simp (disch := omega) only [byteAt_of_lt, wordAt_of_lt]
  have hok : ∃ s, decodeHeader .zeros bytes = .ok s := by
    unfold decodeHeader headerFlags
    simp (disch := omega) only [byteAt_of_lt, wordAt_of_lt]
    exact ⟨_, rfl⟩
  obtain ⟨s, hs⟩ := hok
  exact ⟨s, fun beyond => (hsame beyond).trans hs⟩

/-- The word at an offset, where there is one. -/
def fieldAt (bytes : List UInt8) (offset : Nat) : UInt16 :=
  UInt16.join (bytes.getD (offset + 1) 0) (bytes.getD offset 0)

theorem wordAt_eq_fieldAt (beyond : Beyond) {bytes : List UInt8} {offset : Nat}
    (h : offset + 1 < bytes.length) : wordAt beyond bytes offset = .ok (fieldAt bytes offset) := by
  unfold fieldAt
  rw [wordAt_of_lt beyond h, List.getD_eq_getElem _ _ h,
    List.getD_eq_getElem _ _ (Nat.lt_of_succ_lt h)]

theorem byteAt_eq_getD (beyond : Beyond) {bytes : List UInt8} {offset : Nat}
    (h : offset < bytes.length) : byteAt beyond bytes offset = .ok (bytes.getD offset 0) := by
  rw [byteAt_of_lt beyond h, List.getD_eq_getElem _ _ h]

/-- The length that a file declares for its extension. -/
def declaredLength (bytes : List UInt8) : Nat := (fieldAt bytes headerLength).toNat

/-- A file has all of the extension that it declares, but not all of the fields that are read: the
program counter and the hardware mode end at 35, the clock, which the short extension does not
have, at 58. -/
structure LacksField (bytes : List UInt8) : Prop where
  extended : fieldAt bytes 6 = 0
  header : headerLength + 2 ≤ bytes.length
  declared : headerLength + 2 + declaredLength bytes ≤ bytes.length
  field : bytes.length < 35 ∨
    bytes.length < 58 ∧ declaredLength bytes ≠ shortExtensionLength ∧
      is48K 3 (bytes.getD 34 0) = true

/-- A result that does not tell of a byte behind the end of a file. -/
def Inside {α : Type} (r : Except FileError α) : Prop :=
  ∀ offset, r ≠ .error (.outside offset)

/-- A reading in which nothing is looked for behind the end of the file. -/
def InBounds {α : Type} (f : Beyond → Except FileError α) : Prop :=
  ∃ r, (∀ beyond, f beyond = r) ∧ Inside r

/-- A reading in which some byte is looked for behind the end of the file. -/
def OutOfBounds {α : Type} (bytes : List UInt8) (f : Beyond → Except FileError α) : Prop :=
  ∃ offset, bytes.length ≤ offset ∧ offset < 58 ∧ f .refused = .error (.outside offset)

section

variable {α β : Type} {bytes : List UInt8} {f : Beyond → Except FileError α}

theorem Inside.bind {r : Except FileError α} (h : Inside r) {g : α → Except FileError β}
    (hg : ∀ a, Inside (g a)) : Inside (r >>= g) := fun offset => by
  cases r with
  | error e => exact fun he => h offset (congrArg Except.error (Except.error.inj he))
  | ok a => exact hg a offset

theorem InBounds.bind (h : InBounds f) {g : α → Except FileError β} (hg : ∀ a, Inside (g a)) :
    InBounds fun beyond => f beyond >>= g := by
  obtain ⟨r, hr, hi⟩ := h
  exact ⟨r >>= g, fun beyond => congrArg (· >>= g) (hr beyond), hi.bind hg⟩

theorem OutOfBounds.bind (h : OutOfBounds bytes f) (g : α → Except FileError β) :
    OutOfBounds bytes fun beyond => f beyond >>= g := by
  obtain ⟨offset, hle, hlt, he⟩ := h
  exact ⟨offset, hle, hlt, congrArg (· >>= g) he⟩

end

theorem outOfBounds_byteAt {bytes : List UInt8} {offset : Nat} (h : bytes.length ≤ offset)
    (hlt : offset < 58) : OutOfBounds bytes (byteAt · bytes offset) :=
  ⟨offset, h, hlt, byteAt_refused_of_le h⟩

theorem outOfBounds_wordAt {bytes : List UInt8} {offset : Nat} (h : bytes.length ≤ offset + 1)
    (hlt : offset + 1 < 58) : OutOfBounds bytes (wordAt · bytes offset) := by
  by_cases hlow : bytes.length ≤ offset
  · exact (outOfBounds_byteAt hlow (by omega)).bind _
  · refine ⟨offset + 1, h, hlt, ?_⟩
    change wordAt .refused bytes offset = _
    unfold wordAt
    rw [byteAt_of_lt _ (Nat.not_le.mp hlow), byteAt_refused_of_le h]
    rfl

theorem decodeFields_of_lt (beyond : Beyond) (version : Nat) (s : Snapshot) {bytes : List UInt8}
    (h : 34 < bytes.length) :
    decodeFields beyond version s bytes =
      if !is48K version (bytes.getD 34 0) then
        .error (.unsupportedMode version (bytes.getD 34 0))
      else if version = 3 then do
        let low ← wordAt beyond bytes 55
        let high ← byteAt beyond bytes 57
        return { withPc s (fieldAt bytes 32) with
          registers := { (withPc s (fieldAt bytes 32)).registers with
            clock := clockOfFields low high } }
      else
        .ok { withPc s (fieldAt bytes 32) with
          registers := { (withPc s (fieldAt bytes 32)).registers with clock := 0 } } := by
  unfold decodeFields
  rw [wordAt_eq_fieldAt beyond (by omega), byteAt_eq_getD beyond h]
  rfl

theorem decodeFields_cases (s : Snapshot) {bytes : List UInt8} (hpc : fieldAt bytes 6 = 0)
    (hhead : headerLength + 2 ≤ bytes.length)
    (hdecl : headerLength + 2 + declaredLength bytes ≤ bytes.length) :
    let version := if declaredLength bytes = shortExtensionLength then 2 else 3
    LacksField bytes ∧ OutOfBounds bytes (decodeFields · version s bytes) ∨
      ¬ LacksField bytes ∧ InBounds (decodeFields · version s bytes) := by
  intro version
  by_cases hmode : 35 ≤ bytes.length
  · simp only [decodeFields_of_lt _ version s hmode]
    by_cases h48 : is48K version (bytes.getD 34 0) = true
    · simp only [h48, Bool.not_true, Bool.false_eq_true, if_false]
      by_cases hshort : declaredLength bytes = shortExtensionLength
      · have hv : version ≠ 3 := by simp [version, hshort]
        simp only [if_neg hv]
        refine .inr ⟨fun h => ?_, _, fun _ => rfl, fun _ => nofun⟩
        rcases h.field with h | ⟨-, h, -⟩
        · omega
        · exact h hshort
      · have hv : version = 3 := if_neg hshort
        rw [hv] at h48
        simp only [if_pos hv]
        by_cases hclock : 58 ≤ bytes.length
        · have hlow : 55 + 1 < bytes.length := by omega
          have hhigh : 57 < bytes.length := by omega
          simp only [wordAt_eq_fieldAt _ hlow, byteAt_of_lt _ hhigh]
          refine .inr ⟨fun h => ?_, _, fun _ => rfl, fun _ => nofun⟩
          rcases h.field with h | ⟨h, -⟩ <;> omega
        · refine .inl ⟨⟨hpc, hhead, hdecl, .inr ⟨by omega, hshort, h48⟩⟩, ?_⟩
          by_cases hlow : bytes.length ≤ 56
          · exact (outOfBounds_wordAt hlow (by omega)).bind _
          · simp only [wordAt_eq_fieldAt _ (Nat.not_le.mp hlow)]
            exact (outOfBounds_byteAt (by omega) (by omega)).bind _
    · simp only [h48, Bool.not_false, if_true]
      refine .inr ⟨fun h => ?_, _, fun _ => rfl, fun _ => nofun⟩
      rcases h.field with h | ⟨-, hshort, h⟩
      · omega
      · have hv : version = 3 := if_neg hshort
        exact h48 (hv ▸ h)
  · refine .inl ⟨⟨hpc, hhead, hdecl, .inl (by omega)⟩, ?_⟩
    by_cases hword : bytes.length ≤ 33
    · exact (outOfBounds_wordAt hword (by omega)).bind _
    · unfold decodeFields
      simp only [wordAt_eq_fieldAt _ (Nat.not_le.mp hword)]
      exact (outOfBounds_byteAt (by omega) (by omega)).bind _

/-- A file with the length of its extension has to have that extension. -/
theorem decodeExtension_of_le (beyond : Beyond) (s : Snapshot) {bytes : List UInt8}
    (h : headerLength + 2 ≤ bytes.length) :
    decodeExtension beyond s bytes = (do
      require bytes (headerLength + 2 + declaredLength bytes)
      let t ← decodeFields beyond
        (if declaredLength bytes = shortExtensionLength then 2 else 3) s bytes
      return (t, headerLength + 2 + declaredLength bytes)) := by
  unfold decodeExtension
  rw [require_of_le h, wordAt_eq_fieldAt beyond (by omega)]
  rfl

theorem decodeExtension_cases (s : Snapshot) {bytes : List UInt8} (hpc : fieldAt bytes 6 = 0) :
    LacksField bytes ∧ OutOfBounds bytes (decodeExtension · s bytes) ∨
      ¬ LacksField bytes ∧ InBounds (decodeExtension · s bytes) := by
  by_cases hhead : headerLength + 2 ≤ bytes.length
  · by_cases hdecl : headerLength + 2 + declaredLength bytes ≤ bytes.length
    · simp only [decodeExtension_of_le _ s hhead]
      rw [require_of_le hdecl]
      rcases decodeFields_cases s hpc hhead hdecl with ⟨hl, hout⟩ | ⟨hl, hin⟩
      · exact .inl ⟨hl, hout.bind _⟩
      · exact .inr ⟨hl, hin.bind fun _ _ => nofun⟩
    · refine .inr ⟨fun h => hdecl h.declared, .error .truncated, fun beyond => ?_, fun _ => nofun⟩
      dsimp only
      rw [decodeExtension_of_le beyond s hhead, require_of_lt (Nat.not_le.mp hdecl)]
      rfl
  · refine .inr ⟨fun h => hhead h.header, .error .truncated, fun beyond => ?_, fun _ => nofun⟩
    unfold decodeExtension
    rw [require_of_lt (by omega)]
    rfl

theorem inside_decodeWhole (s : Snapshot) (coded : Bool) (body : List UInt8) :
    Inside (decodeWhole s coded body) := by
  intro offset h
  unfold decodeWhole at h
  dsimp only at h
  split at h
  · cases h
  · split at h <;> cases h

theorem inside_decodePage (page : UInt8) (length : UInt16) (stored : List UInt8) :
    Inside (decodePage page length stored) := by
  intro offset h
  unfold decodePage at h
  split at h
  · cases h
  · split at h <;> cases h

theorem inside_decodePages (memory : Memory) (bytes : List UInt8) :
    Inside (decodePages memory bytes) := by
  fun_induction decodePages memory bytes with
  | case1 => exact fun _ => nofun
  | case2 => exact fun _ => nofun
  | case3 memory low high page rest length size _ _ ih =>
    refine (inside_decodePage page length _).bind fun ram => ?_
    cases pageBase? page with
    | none => exact fun _ => nofun
    | some base => exact ih ram base
  | case4 => exact fun _ => nofun

/-- A file with a header is read by its layout. -/
theorem decode_of_le (beyond : Beyond) {bytes : List UInt8} {s : Snapshot}
    (h : headerLength ≤ bytes.length) (hs : decodeHeader beyond bytes = .ok s) :
    decode bytes beyond =
      if fieldAt bytes 6 != 0 then do
        let flags ← headerFlags beyond bytes
        decodeWhole (withPc s (fieldAt bytes 6)) (flags &&& 0x20 != 0) (bytes.drop headerLength)
      else do
        let (s, offset) ← decodeExtension beyond s bytes
        let memory ← decodePages s.memory (bytes.drop offset)
        return { s with memory := memory } := by
  have hpc : 6 + 1 < bytes.length := Nat.lt_of_lt_of_le (by decide) h
  unfold decode
  rw [require_of_le h, hs, wordAt_eq_fieldAt beyond hpc]
  rfl

theorem decode_cases (bytes : List UInt8) :
    LacksField bytes ∧ OutOfBounds bytes (decode bytes ·) ∨
      ¬ LacksField bytes ∧ InBounds (decode bytes ·) := by
  by_cases hhead : headerLength ≤ bytes.length
  · obtain ⟨s, hs⟩ := exists_decodeHeader hhead
    have hflags : 12 < bytes.length := Nat.lt_of_lt_of_le (by decide) hhead
    simp only [decode_of_le _ hhead (hs _)]
    by_cases hextended : fieldAt bytes 6 = 0
    · simp only [hextended, bne_self_eq_false, Bool.false_eq_true, if_false]
      rcases decodeExtension_cases s hextended with ⟨hl, hout⟩ | ⟨hl, hin⟩
      · exact .inl ⟨hl, hout.bind _⟩
      · exact .inr ⟨hl, hin.bind fun a =>
          (inside_decodePages a.1.memory (bytes.drop a.2)).bind fun _ _ => nofun⟩
    · simp only [bne_iff_ne, ne_eq, hextended, not_false_eq_true, if_true, headerFlags,
        byteAt_of_lt _ hflags]
      exact .inr ⟨fun h => hextended h.extended, _, fun _ => rfl,
        inside_decodeWhole _ _ _⟩
  · refine .inr ⟨fun h => hhead (Nat.le_trans (Nat.le_add_right _ _) h.header), .error .truncated,
      fun beyond => ?_, fun _ => nofun⟩
    dsimp only
    unfold decode
    rw [require_of_lt (Nat.not_le.mp hhead)]
    rfl

/-- A file is read within its bounds, with one result whatever lies behind its end, unless it lacks
a field; then a byte of a field is looked for behind the end. -/
theorem decode_inBounds_or_lacksField (bytes : List UInt8) :
    (¬ LacksField bytes ∧
        (∀ beyond beyond', decodeByOffset beyond bytes = decode bytes beyond') ∧
        ∀ beyond offset, decode bytes beyond ≠ .error (.outside offset)) ∨
      LacksField bytes ∧ ∃ offset, bytes.length ≤ offset ∧ offset < 58 ∧
        decodeByOffset .refused bytes = .error (.outside offset) := by
  simp only [decodeByOffset_eq]
  rcases decode_cases bytes with ⟨hl, hout⟩ | ⟨hl, r, hr, hi⟩
  · exact .inr ⟨hl, hout⟩
  · exact .inl ⟨hl, fun beyond beyond' => (hr beyond).trans (hr beyond').symm,
      fun beyond offset he => hi offset ((hr beyond).symm.trans he)⟩

/-- A file with the whole of the extension that it declares, which ends before the last byte of the
clock. -/
def fileWithoutClock : List UInt8 := List.replicate headerLength 0 ++ 25 :: List.replicate 26 0

/-- A file that is too short is not always refused. -/
theorem not_forall_decode_inBounds :
    ¬ ∀ bytes offset, decodeByOffset .refused bytes ≠ .error (.outside offset) := fun h => by
  refine h fileWithoutClock 57 ?_
  rw [decodeByOffset_eq]
  rfl

end Spectrum.Snapshot
