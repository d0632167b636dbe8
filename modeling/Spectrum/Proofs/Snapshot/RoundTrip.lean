import Mathlib.Tactic.Common
import Mathlib.Tactic.IntervalCases
import Spectrum.Proofs.Memory
import Spectrum.Proofs.Snapshot.RunLength
import Spectrum.Snapshot.File

/-! # Snapshot files keep snapshots

What is read back from a written snapshot file.  The header is taken apart byte by byte, the clock
through its two fields, and each page of memory through its record.

Main statements: `decodeHeader_header`, `clockOfFields_clockFields`, `decodePages_pageRecord`, and
from them `exists_decode_encode`. -/

namespace Spectrum.Snapshot

open Z80

/-! ### The flags byte -/

/-- The flags byte of a written header: bit 7 of R and the border. -/
def flagsByte (r border : UInt8) : UInt8 := (r >>> 7) ||| ((border &&& 7) <<< 1)

theorem flagsByte_ne (r border : UInt8) : flagsByte r border ≠ 0xFF := by
  intro h
  have := congrArg (fun b : UInt8 => b.toBitVec[7]) h
  simp [flagsByte] at this

theorem refresh_flagsByte (r border : UInt8) :
    (r &&& (0x7F : UInt8)) ||| (flagsByte r border <<< 7) = r := by
  apply UInt8.toBitVec_inj.mp
  ext i hi
  unfold flagsByte
  interval_cases i <;> simp

theorem border_flagsByte (r border : UInt8) :
    (flagsByte r border >>> 1) &&& 7 = border &&& 7 := by
  apply UInt8.toBitVec_inj.mp
  ext i hi
  unfold flagsByte
  interval_cases i <;> simp

theorem boolByte_ne (b : Bool) : (boolByte b != 0) = b := by
  cases b <;> rfl

/-! ### The clock -/

theorem toNat_withinFrame (t : UInt64) : (Clock.withinFrame t).toNat = t.toNat % 69888 := by
  unfold Clock.withinFrame
  rw [UInt64.toNat_mod]
  rfl

theorem clockOfFields_clockFields (t : UInt64) :
    clockOfFields (clockFields t).1 (clockFields t).2 = Clock.withinFrame t := by
  have hq : quarterFrame.toNat = 17472 := rfl
  have ht := toNat_withinFrame t
  unfold clockOfFields clockFields
  generalize Clock.withinFrame t = u at ht ⊢
  have hu : u.toNat < 69888 := by omega
  have hlow : ((quarterFrame - 1 - u % quarterFrame).toUInt16.toUInt64).toNat =
      17471 - u.toNat % 17472 := by
    simp only [UInt16.toNat_toUInt64, UInt64.toNat_toUInt16, UInt64.toNat_sub, UInt64.toNat_mod,
      hq, UInt64.toNat_one]
    omega
  have hhigh : ((u / quarterFrame + 3) % 4).toUInt8.toUInt64.toNat =
      (u.toNat / 17472 + 3) % 4 := by
    simp only [UInt8.toNat_toUInt64, UInt64.toNat_toUInt8, UInt64.toNat_mod, UInt64.toNat_add,
      UInt64.toNat_div, hq, UInt64.reduceToNat]
    omega
  have hquarter : (((u / quarterFrame + 3) % 4).toUInt8.toUInt64 + 1) % 4 + 1 =
      u / quarterFrame + 1 := by
    apply UInt64.toNat_inj.mp
    simp only [UInt64.toNat_add, UInt64.toNat_mod, UInt64.toNat_div, hhigh, hq, UInt64.reduceToNat]
    omega
  rw [hquarter]
  apply UInt64.toNat_inj.mp
  simp only [UInt64.toNat_sub, UInt64.toNat_mul, UInt64.toNat_add, UInt64.toNat_div, hlow, hq,
    UInt64.reduceToNat]
  omega

/-! ### The header -/

section

variable (beyond : Beyond)

theorem header_eq (s : Snapshot) :
    header s =
      let r := s.registers
      [r.af.high, r.af.low, r.bc.low, r.bc.high, r.hl.low, r.hl.high, 0, 0, r.sp.low, r.sp.high,
        r.i, r.r &&& 0x7F, flagsByte r.r s.border, r.de.low, r.de.high, r.bc'.low, r.bc'.high,
        r.de'.low, r.de'.high, r.hl'.low, r.hl'.high, r.af'.high, r.af'.low, r.iy.low, r.iy.high,
        r.ix.low, r.ix.high, boolByte r.iff1, boolByte r.iff2, r.im &&& 3, 54, 0, r.pc.low,
        r.pc.high] ++ List.replicate 21 0 ++
        [(clockFields r.clock).1.low, (clockFields r.clock).1.high, (clockFields r.clock).2] ++
        List.replicate 28 0 := by
  have hz : wordBytes 0 = [0, 0] := by decide
  have he : wordBytes (UInt16.ofNat extensionLength) = [54, 0] := by decide
  unfold header flagsByte
  simp only [hz, he]
  simp only [wordBytes, List.cons_append, List.nil_append, List.append_assoc]

theorem length_header (s : Snapshot) : (header s).length = 86 := by
  rw [header_eq]
  rfl

/-- The header field by field. -/
theorem decodeHeader_cons
    (a f c b l h p p' s s' i r g e d c' b' e' d' l' h' a' f' y y' x x' i₁ i₂ m : UInt8)
    (rest : List UInt8) :
    decodeHeader beyond (a :: f :: c :: b :: l :: h :: p :: p' :: s :: s' :: i :: r :: g :: e ::
      d :: c' :: b' :: e' :: d' :: l' :: h' :: a' :: f' :: y :: y' :: x :: x' :: i₁ :: i₂ :: m ::
      rest) =
      let flags := if g == 0xFF then 1 else g
      .ok {
        registers := {
          af := .join a f, bc := .join b c, hl := .join h l, sp := .join s' s, i := i
          r := (r &&& (0x7F : UInt8)) ||| (flags <<< 7)
          de := .join d e, bc' := .join b' c', de' := .join d' e', hl' := .join h' l'
          af' := .join a' f', iy := .join y' y, ix := .join x' x, iff1 := i₁ != 0, iff2 := i₂ != 0
          im := m &&& (3 : UInt8) }
        border := (flags >>> 1) &&& 7 } := by
  unfold decodeHeader
  rfl

/-- The header holds all but the program counter, the clock and memory. -/
theorem decodeHeader_header (s : Snapshot) (rest : List UInt8) :
    decodeHeader beyond (header s ++ rest) =
      .ok { registers := { s.registers with pc := 0, im := s.registers.im &&& 3, clock := 0 }
            border := s.border &&& 7 } := by
  have hn : (flagsByte s.registers.r s.border == 0xFF) = false := by
    simpa using flagsByte_ne s.registers.r s.border
  rw [header_eq]
  simp only [List.cons_append]
  rw [decodeHeader_cons]
  simp [hn, refresh_flagsByte, border_flagsByte, boolByte_ne, UInt8.and_assoc]

/-! ### Pages -/

/-- What a record leads to when the bytes that it stores are those of a page. -/
theorem decodePages_record (memory : Memory) {page : UInt8} {base : UInt16} {length : UInt16}
    {stored bytes : List UInt8} (more : List UInt8) (hp : pageBase? page = some base)
    (hs : stored.length = if length = 0xFFFF then pageSize else length.toNat)
    (hd : decodePage page length stored = .ok bytes) :
    decodePages memory (wordBytes length ++ page :: stored ++ more) =
      decodePages (memory.load base bytes) more := by
  have hsize : (if length == 0xFFFF then pageSize else length.toNat) = stored.length := by
    rw [hs]
    simp only [beq_iff_eq]
  simp only [wordBytes, List.cons_append, List.nil_append]
  rw [decodePages, UInt16.join_high_low, hsize, List.take_left, List.drop_left, hd, hp,
    if_neg (by rw [List.length_append]; omega)]
  rfl

section

variable (memory : Memory) {page : UInt8} {base : UInt16} {bytes : List UInt8}
  (more : List UInt8)

/-- A page that is stored as it is. -/
theorem decodePages_stored (hp : pageBase? page = some base) (hl : bytes.length = pageSize) :
    decodePages memory (wordBytes 0xFFFF ++ page :: bytes ++ more) =
      decodePages (memory.load base bytes) more := by
  refine decodePages_record memory more hp (by rw [if_pos rfl, hl]) ?_
  unfold decodePage
  simp only [beq_self_eq_true, if_true, hl]

/-- A page that is stored in its coding, however long that is. -/
theorem decodePages_coded (hp : pageBase? page = some base) (hl : bytes.length = pageSize) :
    decodePages memory (wordBytes (UInt16.ofNat (RunLength.encode bytes).length) ++
        page :: RunLength.encode bytes ++ more) =
      decodePages (memory.load base bytes) more := by
  have hps : pageSize = 16384 := rfl
  have hc := RunLength.length_encode_le bytes
  have ht : (UInt16.ofNat (RunLength.encode bytes).length).toNat =
      (RunLength.encode bytes).length := by
    rw [UInt16.toNat_ofNat']
    omega
  have hne : UInt16.ofNat (RunLength.encode bytes).length ≠ 0xFFFF := by
    intro h
    rw [h] at ht
    have : (0xFFFF : UInt16).toNat = 65535 := rfl
    omega
  have hd : RunLength.decode (some pageSize) (RunLength.encode bytes) = some bytes := by
    rw [← hl]
    exact RunLength.decode_encode bytes _ (by rintro k ⟨⟩; exact Nat.le_refl _)
  refine decodePages_record memory more hp (by rw [if_neg hne, ht]) ?_
  unfold decodePage
  rw [if_neg (by simpa using hne), hd]
  simp only [hl, if_true]

/-- The record of a page gives back the page. -/
theorem decodePages_pageRecord (hp : pageBase? page = some base) (hl : bytes.length = pageSize) :
    decodePages memory (pageRecord page bytes ++ more) =
      decodePages (memory.load base bytes) more := by
  unfold pageRecord
  dsimp only
  split
  · exact decodePages_coded memory more hp hl
  · exact decodePages_stored memory more hp hl

end

/-- Memory as it is read back: what was in ROM is gone. -/
theorem decodePages_pages (m : Memory) :
    ∃ n, decodePages Memory.blank (pages.flatMap fun (page, base) =>
        pageRecord page (m.slice base.toNat pageSize)) = .ok n ∧
      ∀ a, n.read a = if a < 0x4000 then 0 else m.read a := by
  have hlen : ∀ base : UInt16, base.toNat + pageSize ≤ Memory.size →
      (m.slice base.toNat pageSize).length = pageSize := fun base h => Memory.length_slice m h
  have h4 : pageBase? 8 = some 0x4000 := rfl
  have h8 : pageBase? 4 = some 0x8000 := rfl
  have hc : pageBase? 5 = some 0xC000 := rfl
  simp only [pages, List.flatMap_cons, List.flatMap_nil]
  rw [decodePages_pageRecord _ _ h4 (hlen _ (by decide)),
    decodePages_pageRecord _ _ h8 (hlen _ (by decide)),
    decodePages_pageRecord _ _ hc (hlen _ (by decide)), decodePages]
  refine ⟨_, rfl, fun a => ?_⟩
  rw [Memory.read_load_slice _ _ 0xC000 _ (by decide),
    Memory.read_load_slice _ _ 0x8000 _ (by decide),
    Memory.read_load_slice _ _ 0x4000 _ (by decide), Memory.read_blank]
  have ha := a.toNat_lt
  have h4 : (0x4000 : UInt16).toNat = 0x4000 := rfl
  have h8 : (0x8000 : UInt16).toNat = 0x8000 := rfl
  have hc : (0xC000 : UInt16).toNat = 0xC000 := rfl
  simp only [UInt16.le_iff_toNat_le, UInt16.lt_iff_toNat_lt, h4, h8, hc, pageSize]
  split_ifs <;> first | rfl | omega

/-! ### Files -/

theorem wordAt_eq {bytes : List UInt8} {offset : Nat} {w : UInt16}
    (hl : byteAt beyond bytes offset = .ok w.low)
    (hh : byteAt beyond bytes (offset + 1) = .ok w.high) : wordAt beyond bytes offset = .ok w := by
  unfold wordAt
  rw [hl, hh]
  simp [bind, Except.bind, pure, Except.pure]

/-- A file that is written has the layout with a long extension. -/
theorem decode_header_append (s : Snapshot) (body : List UInt8) :
    decode (header s ++ body) beyond = (decodePages Memory.blank body).map fun memory =>
      { memory := memory
        registers := { s.registers with
          im := s.registers.im &&& 3, clock := Clock.withinFrame s.registers.clock }
        border := s.border &&& 7 } := by
  have hr : ∀ n, n ≤ 86 → require (header s ++ body) n = .ok () := by
    intro n hn
    unfold require
    rw [if_neg (by rw [List.length_append, length_header]; omega)]
  have hpc : wordAt beyond (header s ++ body) 6 = .ok 0 := by
    rw [header_eq]
    rfl
  have hx : wordAt beyond (header s ++ body) 30 = .ok 54 := by
    rw [header_eq]
    rfl
  have hmode : byteAt beyond (header s ++ body) 34 = .ok 0 := by
    rw [header_eq]
    rfl
  have hpc' : wordAt beyond (header s ++ body) 32 = .ok s.registers.pc := by
    apply wordAt_eq <;> (rw [header_eq]; rfl)
  have hlow : wordAt beyond (header s ++ body) 55 = .ok (clockFields s.registers.clock).1 := by
    apply wordAt_eq <;> (rw [header_eq]; rfl)
  have hhigh : byteAt beyond (header s ++ body) 57 = .ok (clockFields s.registers.clock).2 := by
    rw [header_eq]
    rfl
  have hdrop : (header s ++ body).drop 86 = body := by
    rw [← length_header s, List.drop_left]
  have hsize : (54 : UInt16).toNat = 54 := rfl
  unfold decode
  simp only [bind, Except.bind, headerLength, hr 30 (by decide), decodeHeader_header, hpc,
    bne_self_eq_false]
  unfold decodeExtension decodeFields
  simp only [bind, Except.bind, headerLength, hr 32 (by decide), hx, hsize, shortExtensionLength,
    hr 86 (by decide), hpc', hmode, hlow, hhigh, clockOfFields_clockFields]
  simp only [Bool.false_eq_true, if_false, Nat.reduceEqDiff, is48K, withPc, pure, Except.pure,
    beq_self_eq_true, Bool.true_or, Bool.not_true, if_true, Nat.reduceAdd, hdrop]
  cases decodePages Memory.blank body <;> rfl

end

/-- What a header leaves out of a snapshot makes no difference to it. -/
theorem header_reduced (s : Snapshot) (memory : Memory) :
    header {
      memory := memory
      registers := { s.registers with
        im := s.registers.im &&& 3, clock := Clock.withinFrame s.registers.clock }
      border := s.border &&& 7 } = header s := by
  have hclock : clockFields (Clock.withinFrame s.registers.clock) =
      clockFields s.registers.clock := by
    have hw : Clock.withinFrame (Clock.withinFrame s.registers.clock) =
        Clock.withinFrame s.registers.clock := by
      apply UInt64.toNat_inj.mp
      simp only [toNat_withinFrame, Nat.mod_mod]
    unfold clockFields
    rw [hw]
  have hflags : flagsByte s.registers.r (s.border &&& 7) = flagsByte s.registers.r s.border := by
    unfold flagsByte
    rw [UInt8.and_assoc, UInt8.and_self]
  have him : s.registers.im &&& 3 &&& 3 = s.registers.im &&& 3 := by
    rw [UInt8.and_assoc, UInt8.and_self]
  rw [header_eq, header_eq]
  dsimp only
  rw [hclock, hflags, him]

/-- Reading a written file gives the snapshot back, but for ROM, for the frames that the clock has
counted, and for the bits of interrupt mode and border that a machine does not have.  It makes no
difference what lies behind the end of the file. -/
theorem exists_decode_encode (s : Snapshot) :
    ∃ t, (∀ beyond, decode (encode s) beyond = .ok t) ∧
      t.registers = { s.registers with
        im := s.registers.im &&& 3, clock := s.registers.clock % Clock.frameLength } ∧
      t.border = s.border &&& 7 ∧
      (∀ a, t.memory.read a = if a < 0x4000 then 0 else s.memory.read a) ∧
      encode t = encode s := by
  obtain ⟨n, hn, hread⟩ := decodePages_pages s.memory
  have hd := fun beyond => decode_header_append beyond s (pages.flatMap fun (page, base) =>
    pageRecord page (s.memory.slice base.toNat pageSize))
  simp only [hn] at hd
  refine ⟨_, hd, rfl, rfl, hread, ?_⟩
  have hslice : ∀ base : UInt16, 0x4000 ≤ base.toNat → base.toNat + pageSize ≤ Memory.size →
      n.slice base.toNat pageSize = s.memory.slice base.toNat pageSize := by
    intro base hb hs
    refine Memory.slice_congr hs fun i hi => ?_
    rw [hread, if_neg]
    have hlt : base.toNat + i < UInt16.size := by
      have : Memory.size = UInt16.size := rfl
      omega
    have h4 : (0x4000 : UInt16).toNat = 0x4000 := rfl
    rw [UInt16.lt_iff_toNat_lt, UInt16.toNat_ofNat_of_lt' hlt, h4]
    omega
  unfold encode
  simp only [pages, List.flatMap_cons, List.flatMap_nil]
  rw [hslice 0x4000 (by decide) (by decide), hslice 0x8000 (by decide) (by decide),
    hslice 0xC000 (by decide) (by decide)]
  rw [header_reduced]

end Spectrum.Snapshot
