import Mathlib.Data.List.GetD
import Mathlib.Tactic.Common
import Spectrum.Proofs.Snapshot.Layouts

/-! # The position within the frame

The clock of a snapshot that is read comes from two fields of the long extension: the number of a
quarter of the frame, of which two bits count, and what is left of that quarter, which is taken as
it stands.  More than there is up to the end of the quarter leads to a time before the frame, and
the clock, which knows no such time, stands near its end then.  With an extension that is too short
the fields lie behind the end of the file, and what counts is what is read there.

Main definitions: `ClockFields`, `Overruns`.
Main statements: `clockOfFields_lt_iff`, `clockFrom_of_decode`,
`clock_lt_frameLength_or_overruns`. -/

namespace Spectrum.Snapshot

open Z80

/-! ### The two fields -/

/-- The T-states of a frame up to the end of a quarter, which are counted from the second. -/
def quarterEnd (high : UInt8) : Nat := ((high.toNat + 1) % 4 + 1) * 17472

theorem quarterEnd_le (high : UInt8) : 17472 ≤ quarterEnd high ∧ quarterEnd high ≤ 69888 := by
  unfold quarterEnd
  omega

/-- What is left of a quarter is taken from its end. -/
theorem toNat_clockOfFields (low : UInt16) (high : UInt8) :
    (clockOfFields low high).toNat =
      (2 ^ 64 + quarterEnd high - (low.toNat + 1)) % 2 ^ 64 := by
  have hlow := low.toNat_lt
  have hhigh := high.toNat_lt
  have hrest : (low.toUInt64 + 1).toNat = low.toNat + 1 := by
    rw [UInt64.toNat_add, UInt16.toNat_toUInt64, UInt64.toNat_one]
    omega
  have hquarter : ((high.toUInt64 + 1) % 4 + 1).toNat = (high.toNat + 1) % 4 + 1 := by
    simp only [UInt64.toNat_add, UInt64.toNat_mod, UInt8.toNat_toUInt64, UInt64.reduceToNat]
    omega
  have hend : (((high.toUInt64 + 1) % 4 + 1) * quarterFrame).toNat = quarterEnd high := by
    have hq : quarterFrame.toNat = 17472 := rfl
    rw [UInt64.toNat_mul, hquarter, hq, quarterEnd]
    omega
  rw [clockOfFields, UInt64.toNat_sub, hrest, hend]
  congr 1
  omega

/-- The fields name a time within the frame if no more is left of the quarter than has gone by up
to its end. -/
theorem clockOfFields_lt_iff (low : UInt16) (high : UInt8) :
    clockOfFields low high < Clock.frameLength ↔ low.toNat < quarterEnd high := by
  have hlow := low.toNat_lt
  have hquarter := quarterEnd_le high
  have hframe : Clock.frameLength.toNat = 69888 := rfl
  rw [UInt64.lt_iff_toNat_lt, toNat_clockOfFields, hframe]
  omega

theorem le_clockOfFields {low : UInt16} {high : UInt8} (h : quarterEnd high ≤ low.toNat) :
    2 ^ 64 - 48064 ≤ (clockOfFields low high).toNat := by
  have hlow := low.toNat_lt
  have hquarter := quarterEnd_le high
  rw [toNat_clockOfFields]
  omega

/-! ### Files -/

/-- The fields of the clock as they are read, in the file or behind its end.  A file has them if it
has an extension, and not the short one. -/
structure ClockFields (beyond : Beyond) (bytes : List UInt8) (low : UInt16) (high : UInt8) :
    Prop where
  extended : fieldAt bytes 6 = 0
  long : declaredLength bytes ≠ shortExtensionLength
  low : wordAt beyond bytes 55 = .ok low
  high : byteAt beyond bytes 57 = .ok high

/-- A file in which more is left of a quarter than has gone by up to its end. -/
def Overruns (beyond : Beyond) (bytes : List UInt8) : Prop :=
  ∃ low high, ClockFields beyond bytes low high ∧ quarterEnd high ≤ low.toNat

section

variable {beyond : Beyond} {bytes : List UInt8} {s t : Snapshot}

/-- The clock of a snapshot is that of the fields of its file, or zero without them. -/
inductive ClockFrom (beyond : Beyond) (bytes : List UInt8) (clock : UInt64) : Prop
  | fields {low : UInt16} {high : UInt8} (h : ClockFields beyond bytes low high)
      (hclock : clock = clockOfFields low high)
  | none (h : ∀ low high, ¬ ClockFields beyond bytes low high) (hclock : clock = 0)

theorem bind_eq_ok_iff {ε α β : Type} {r : Except ε α} {f : α → Except ε β} {b : β} :
    r >>= f = .ok b ↔ ∃ a, r = .ok a ∧ f a = .ok b := by
  cases r <;> simp [bind, Except.bind]

theorem registers_of_decodeWhole {coded : Bool} {body : List UInt8}
    (h : decodeWhole s coded body = .ok t) : t.registers = s.registers := by
  unfold decodeWhole at h
  dsimp only at h
  split at h
  · cases h
  · split at h
    · cases h
    · obtain rfl := Except.ok.inj h
      rfl

theorem clockFrom_of_decodeFields {version : Nat} (hpc : fieldAt bytes 6 = 0)
    (hversion : version = if declaredLength bytes = shortExtensionLength then 2 else 3)
    (h : decodeFields beyond version s bytes = .ok t) :
    ClockFrom beyond bytes t.registers.clock := by
  unfold decodeFields at h
  obtain ⟨pc, -, h⟩ := bind_eq_ok_iff.mp h
  obtain ⟨mode, -, h⟩ := bind_eq_ok_iff.mp h
  split at h
  · cases h
  · by_cases hshort : declaredLength bytes = shortExtensionLength
    · rw [if_pos hshort] at hversion
      rw [if_neg (by omega)] at h
      obtain rfl := Except.ok.inj h
      exact .none (fun _ _ hf => hf.long hshort) rfl
    · rw [if_neg hshort] at hversion
      rw [if_pos hversion] at h
      obtain ⟨low, hlow, h⟩ := bind_eq_ok_iff.mp h
      obtain ⟨high, hhigh, h⟩ := bind_eq_ok_iff.mp h
      obtain rfl := Except.ok.inj h
      exact .fields ⟨hpc, hshort, hlow, hhigh⟩ rfl

theorem clockFrom_of_decodeExtension {offset : Nat} (hpc : fieldAt bytes 6 = 0)
    (h : decodeExtension beyond s bytes = .ok (t, offset)) :
    ClockFrom beyond bytes t.registers.clock := by
  by_cases hhead : headerLength + 2 ≤ bytes.length
  · rw [decodeExtension_of_le beyond s hhead] at h
    obtain ⟨-, -, h⟩ := bind_eq_ok_iff.mp h
    obtain ⟨u, hu, h⟩ := bind_eq_ok_iff.mp h
    obtain ⟨rfl, -⟩ := Prod.mk.inj (Except.ok.inj h)
    exact clockFrom_of_decodeFields hpc rfl hu
  · unfold decodeExtension at h
    rw [require_of_lt (by omega)] at h
    cases h

theorem clockFrom_of_decode (h : decode bytes beyond = .ok s) :
    ClockFrom beyond bytes s.registers.clock := by
  by_cases hhead : headerLength ≤ bytes.length
  · obtain ⟨r, hr⟩ := exists_decodeHeader hhead
    have hclock := (blank_of_decodeHeader hhead (hr beyond)).2
    rw [decode_of_le beyond hhead (hr beyond)] at h
    by_cases hextended : fieldAt bytes 6 = 0
    · simp only [hextended, bne_self_eq_false, Bool.false_eq_true, if_false] at h
      obtain ⟨⟨t, offset⟩, ht, h⟩ := bind_eq_ok_iff.mp h
      obtain ⟨memory, -, h⟩ := bind_eq_ok_iff.mp h
      obtain rfl := Except.ok.inj h
      have hclock := clockFrom_of_decodeExtension hextended ht
      exact hclock
    · rw [if_pos (bne_iff_ne.mpr hextended)] at h
      obtain ⟨flags, -, h⟩ := bind_eq_ok_iff.mp h
      refine .none (fun _ _ hf => hextended hf.extended) ?_
      rw [registers_of_decodeWhole h]
      exact hclock
  · unfold decode at h
    rw [require_of_lt (Nat.not_le.mp hhead)] at h
    cases h

/-- The clock of a snapshot that is read is a position within a frame, unless more is left of the
quarter than has gone by up to the end of it; then the clock stands near its end. -/
theorem clock_lt_frameLength_or_overruns (h : decode bytes beyond = .ok s) :
    ¬ Overruns beyond bytes ∧ s.registers.clock < Clock.frameLength ∨
      Overruns beyond bytes ∧ 2 ^ 64 - 48064 ≤ s.registers.clock.toNat := by
  cases clockFrom_of_decode h with
  | @fields low high hf hclock =>
    rw [hclock, clockOfFields_lt_iff]
    by_cases hlow : quarterEnd high ≤ low.toNat
    · exact .inr ⟨⟨low, high, hf, hlow⟩, le_clockOfFields hlow⟩
    · refine .inl ⟨fun ⟨low', high', hf', hlow'⟩ => hlow ?_, Nat.not_le.mp hlow⟩
      obtain rfl := Except.ok.inj (hf.low.symm.trans hf'.low)
      obtain rfl := Except.ok.inj (hf.high.symm.trans hf'.high)
      exact hlow'
  | none hf hclock =>
    rw [hclock]
    exact .inl ⟨fun ⟨low, high, hf', _⟩ => hf low high hf', by decide⟩

end

/-! ### A file that overruns -/

/-- An empty machine of which only the fields of the clock are given. -/
def clockHeader (low : UInt16) (high : UInt8) : ExtendedHeader where
  bytes := List.replicate headerLength 0
  length_bytes := List.length_replicate
  pc_eq_zero := rfl
  extension := List.replicate 23 0 ++ (wordBytes low ++ high :: List.replicate 28 0)
  known_length := by simp [wordBytes]
  mode_is_48K := .inl rfl

/-- More is left of the first quarter than there is of it: the clock stands at the last T-state
before it runs over. -/
theorem not_forall_clock_lt :
    ¬ ∀ bytes s, (∀ beyond, decode bytes beyond = .ok s) →
      s.registers.clock < Clock.frameLength := by
  intro h
  obtain ⟨s, hs, -, hclock, -⟩ := (clockHeader 17472 3).exists_decode_file []
  have hlt := h _ s hs
  rw [hclock] at hlt
  exact absurd hlt (by decide)

/-- A file that ends before the last byte of its clock. -/
def cutFile (low : UInt16) : List UInt8 :=
  List.replicate headerLength 0 ++ 25 :: List.replicate 24 0 ++ wordBytes low

theorem exists_decode_cutFile (low : UInt16) (high : UInt8) :
    ∃ s, decode (cutFile low) (fun _ => .ok high) = .ok s := by
  have hle : headerLength ≤ (cutFile low).length := Nat.le_add_right 30 27
  obtain ⟨s, hs⟩ := exists_decodeHeader hle
  have hpc : fieldAt (cutFile low) 6 = 0 := (fieldAt_append_left (by decide) _).trans (by decide)
  obtain ⟨t, ht⟩ : ∃ t, decodeExtension (fun _ => .ok high) s (cutFile low) = .ok (t, 57) :=
    ⟨_, rfl⟩
  have hrest : (cutFile low).drop 57 = [] := rfl
  rw [decode_of_le _ hle (hs _), hpc, bne_self_eq_false, if_neg Bool.false_ne_true, ht]
  simp only [bind, Except.bind, hrest]
  rw [decodePages]
  exact ⟨_, rfl⟩

/-- As much as there is of the first quarter is left at the start of the frame.  Behind the end of a
file anything may be read. -/
theorem clock_of_clockHeader :
    (∃ s, (∀ beyond, decode ((clockHeader 17471 3).file []) beyond = .ok s) ∧
      s.registers.clock < Clock.frameLength) ∧
    (∃ s, (∀ beyond, decode ((clockHeader 17472 3).file []) beyond = .ok s) ∧
      2 ^ 64 - 48064 ≤ s.registers.clock.toNat) ∧
    (∃ s, decode (cutFile 17472) (fun _ => .ok 0) = .ok s ∧
      s.registers.clock < Clock.frameLength) ∧
    ∃ s, decode (cutFile 17472) (fun _ => .ok 3) = .ok s ∧
      2 ^ 64 - 48064 ≤ s.registers.clock.toNat := by
  obtain ⟨s, hs, -⟩ := (clockHeader 17471 3).exists_decode_file []
  obtain ⟨t, ht, -⟩ := (clockHeader 17472 3).exists_decode_file []
  obtain ⟨u, hu⟩ := exists_decode_cutFile 17472 0
  obtain ⟨v, hv⟩ := exists_decode_cutFile 17472 3
  have hfits : ¬ Overruns .zeros ((clockHeader 17471 3).file []) := fun ⟨low, high, hf, h⟩ => by
    obtain rfl : 17471 = low := Except.ok.inj hf.low
    obtain rfl : 3 = high := Except.ok.inj hf.high
    exact absurd h (by decide)
  have hoverruns : Overruns .zeros ((clockHeader 17472 3).file []) :=
    ⟨_, _, ⟨by decide, by decide, rfl, rfl⟩, by decide⟩
  have hfits' : ¬ Overruns (fun _ => .ok 0) (cutFile 17472) := fun ⟨low, high, hf, h⟩ => by
    obtain rfl : 17472 = low := Except.ok.inj hf.low
    obtain rfl : 0 = high := Except.ok.inj hf.high
    exact absurd h (by decide)
  have hoverruns' : Overruns (fun _ => .ok 3) (cutFile 17472) :=
    ⟨17472, 3, ⟨by decide, by decide, rfl, rfl⟩, by decide⟩
  refine ⟨⟨s, hs, ?_⟩, ⟨t, ht, ?_⟩, ⟨u, hu, ?_⟩, v, hv, ?_⟩
  · exact ((clock_lt_frameLength_or_overruns (hs .zeros)).resolve_right fun h => hfits h.1).2
  · exact ((clock_lt_frameLength_or_overruns (ht .zeros)).resolve_left fun h => h.1 hoverruns).2
  · exact ((clock_lt_frameLength_or_overruns hu).resolve_right fun h => hfits' h.1).2
  · exact ((clock_lt_frameLength_or_overruns hv).resolve_left fun h => h.1 hoverruns').2

end Spectrum.Snapshot
