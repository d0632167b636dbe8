import Mathlib.Tactic.Common
import Spectrum.Z80.Step

/-! # Registers under the operations of a loop

What is read back from a register file after an accumulator, flags or a counter have been put into
it, and how refreshes of R add up.

Main statements: `refreshed_refreshed`, `Alu.inc_eq`, `Alu.dec_eq`. -/

@[simp] theorem UInt16.high_withHigh (w : UInt16) (v : UInt8) : (w.withHigh v).high = v :=
  UInt16.high_join v w.low

@[simp] theorem UInt16.low_withHigh (w : UInt16) (v : UInt8) : (w.withHigh v).low = w.low :=
  UInt16.low_join v w.low

@[simp] theorem UInt16.high_withLow (w : UInt16) (v : UInt8) : (w.withLow v).high = w.high :=
  UInt16.high_join w.high v

@[simp] theorem UInt16.low_withLow (w : UInt16) (v : UInt8) : (w.withLow v).low = v :=
  UInt16.low_join w.high v

theorem UInt16.withHigh_withHigh (w : UInt16) (u v : UInt8) :
    (w.withHigh u).withHigh v = w.withHigh v := by
  unfold UInt16.withHigh
  rw [UInt16.low_join]

theorem UInt16.withLow_withLow (w : UInt16) (u v : UInt8) :
    (w.withLow u).withLow v = w.withLow v := by
  unfold UInt16.withLow
  rw [UInt16.high_join]

theorem UInt16.withHigh_high (w : UInt16) : w.withHigh w.high = w := UInt16.join_high_low w

/-- A word is known from its halves. -/
theorem UInt16.ext_halves {v w : UInt16} (hh : v.high = w.high) (hl : v.low = w.low) : v = w := by
  rw [← UInt16.join_high_low v, ← UInt16.join_high_low w, hh, hl]

/-- What holds of all numbers below 256 as bytes holds of all bytes. -/
theorem UInt8.of_fin {P : UInt8 → Prop} (h : ∀ i : Fin 256, P (UInt8.ofNat i)) (x : UInt8) :
    P x := by
  simpa using h ⟨x.toNat, x.toNat_lt⟩

theorem UInt8.or_and_of_and_eq_zero {x y m : UInt8} (h : y &&& m = 0) :
    (x ||| y) &&& m = x &&& m := by
  have hdistrib : (x ||| y) &&& m = x &&& m ||| y &&& m :=
    UInt8.toBitVec_inj.mp BitVec.and_or_distrib_right
  rw [hdistrib, h, UInt8.or_zero]

namespace Spectrum.Z80

/-! ### R -/

/-- R after some refreshes. -/
def refreshed (r : UInt8) (n : Nat) : UInt8 := (r &&& 0x80) ||| ((r + UInt8.ofNat n) &&& 0x7F)

theorem toNat_refreshed (r : UInt8) (n : Nat) :
    (refreshed r n).toNat = 128 * (r.toNat / 128) + (r.toNat + n) % 128 := by
  have hr := r.toNat_lt
  have hhigh : (r &&& 0x80).toNat = 2 ^ 7 * (r.toNat / 128) :=
    UInt8.of_fin (P := fun r => (r &&& 0x80).toNat = 2 ^ 7 * (r.toNat / 128)) (by decide +kernel) r
  have hlow : ((r + UInt8.ofNat n) &&& 0x7F).toNat = (r.toNat + n) % 128 := by
    rw [UInt8.toNat_and, show (0x7F : UInt8).toNat = 2 ^ 7 - 1 from rfl,
      Nat.and_two_pow_sub_one_eq_mod, UInt8.toNat_add, UInt8.toNat_ofNat']
    omega
  rw [refreshed, UInt8.toNat_or, hhigh, hlow,
    ← Nat.two_pow_add_eq_or_of_lt (Nat.mod_lt _ (by omega))]

@[simp] theorem refreshed_zero (r : UInt8) : refreshed r 0 = r := by
  apply UInt8.toNat_inj.mp
  rw [toNat_refreshed]
  omega

/-- Refreshes add up. -/
theorem refreshed_refreshed (r : UInt8) (m n : Nat) :
    refreshed (refreshed r m) n = refreshed r (m + n) := by
  apply UInt8.toNat_inj.mp
  have hr := r.toNat_lt
  rw [toNat_refreshed, toNat_refreshed, toNat_refreshed]
  omega

/-! ### The accumulator and the flags -/

namespace RegisterFile

variable (f : RegisterFile)

@[simp] theorem a_setResult (p : UInt8 × Flags) : (f.setResult p).a = p.1 := UInt16.high_join _ _

@[simp] theorem flags_setResult (p : UInt8 × Flags) : (f.setResult p).flags = p.2 := by
  unfold flags setResult
  rw [UInt16.low_join, Flags.ofByte_toByte]

@[simp] theorem a_setFlags (g : Flags) : (f.setFlags g).a = f.a := UInt16.high_withLow _ _

@[simp] theorem flags_setFlags (g : Flags) : (f.setFlags g).flags = g := by
  unfold flags setFlags
  rw [UInt16.low_withLow, Flags.ofByte_toByte]

@[simp] theorem a_set8_a (v : UInt8) : (f.set8 .a v).a = v := UInt16.high_withHigh _ _

@[simp] theorem flags_set8_a (v : UInt8) : (f.set8 .a v).flags = f.flags := by
  unfold flags set8
  rw [UInt16.low_withHigh]

theorem set8_a_self : f.set8 .a f.a = f := by
  unfold set8 a
  rw [UInt16.withHigh_high]

end RegisterFile

/-! ### Counting -/

namespace Alu

/-- Counting up leaves the carry and tells zero. -/
theorem inc_eq (x : UInt8) (f : Flags) :
    (inc x f).1 = x + 1 ∧ (inc x f).2.z = ((inc x f).1 == 0) ∧ (inc x f).2.c = f.c := by
  have h : (x.toUInt16 + (1 : UInt8).toUInt16 + Bool.toUInt16 false).toUInt8 = x + 1 := by
    simp [show false.toUInt16 = 0 from rfl]
  exact ⟨h, rfl, rfl⟩

/-- Counting down leaves the carry and tells zero. -/
theorem dec_eq (x : UInt8) (f : Flags) :
    (dec x f).1 = x - 1 ∧ (dec x f).2.z = ((dec x f).1 == 0) ∧ (dec x f).2.c = f.c := by
  have h : (x.toUInt16 - (1 : UInt8).toUInt16 - Bool.toUInt16 false).toUInt8 = x - 1 := by
    simp [show false.toUInt16 = 0 from rfl]
  exact ⟨h, rfl, rfl⟩

end Alu
end Spectrum.Z80
