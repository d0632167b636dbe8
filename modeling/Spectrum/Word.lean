/-! # Bytes, words and their halves

The machine works on bytes (`UInt8`) and on sixteen-bit words (`UInt16`): addresses, register
pairs, operands.  A word is two bytes, and this module holds the passage between the two views.

Main statements: `UInt16.high_join`, `UInt16.low_join` and `UInt16.join_high_low` say that a word
and its pair of halves determine each other. -/

@[inline] def UInt16.high (w : UInt16) : UInt8 := (w / 256).toUInt8

@[inline] def UInt16.low (w : UInt16) : UInt8 := w.toUInt8

/-- The word with the given high and low bytes. -/
@[inline] def UInt16.join (high low : UInt8) : UInt16 := high.toUInt16 * 256 + low.toUInt16

@[inline] def UInt16.withHigh (w : UInt16) (high : UInt8) : UInt16 := UInt16.join high w.low

@[inline] def UInt16.withLow (w : UInt16) (low : UInt8) : UInt16 := UInt16.join w.high low

/-- A byte read as a signed displacement and widened to a word. -/
@[inline] def UInt8.displacement (d : UInt8) : UInt16 :=
  if d < 0x80 then d.toUInt16 else d.toUInt16 + 0xFF00

/-- Bit `n` of a byte, counted from the least significant. -/
@[inline] def UInt8.bit (b : UInt8) (n : UInt8) : Bool := (b >>> n) &&& 1 != 0

theorem UInt16.toNat_join (h l : UInt8) : (UInt16.join h l).toNat = h.toNat * 256 + l.toNat := by
  have hh := h.toNat_lt
  have hl := l.toNat_lt
  have hc : (256 : UInt16).toNat = 256 := rfl
  simp only [UInt16.join, UInt16.toNat_add, UInt16.toNat_mul, UInt8.toNat_toUInt16, hc]
  omega

theorem UInt16.toNat_high (w : UInt16) : w.high.toNat = w.toNat / 256 := by
  have hw := w.toNat_lt
  have hc : (256 : UInt16).toNat = 256 := rfl
  simp only [UInt16.high, UInt16.toNat_toUInt8, UInt16.toNat_div, hc]
  omega

theorem UInt16.toNat_low (w : UInt16) : w.low.toNat = w.toNat % 256 := by
  simp [UInt16.low]

@[simp] theorem UInt16.high_join (h l : UInt8) : (UInt16.join h l).high = h := by
  apply UInt8.toNat_inj.mp
  have hh := h.toNat_lt
  have hl := l.toNat_lt
  rw [UInt16.toNat_high, UInt16.toNat_join]
  omega

@[simp] theorem UInt16.low_join (h l : UInt8) : (UInt16.join h l).low = l := by
  apply UInt8.toNat_inj.mp
  have hh := h.toNat_lt
  have hl := l.toNat_lt
  rw [UInt16.toNat_low, UInt16.toNat_join]
  omega

@[simp] theorem UInt16.join_high_low (w : UInt16) : UInt16.join w.high w.low = w := by
  apply UInt16.toNat_inj.mp
  rw [UInt16.toNat_join, UInt16.toNat_high, UInt16.toNat_low]
  omega
