import Mathlib.Algebra.Order.Ring.Int
import Mathlib.Tactic.Common
import Spectrum.Proofs.Z80.Registers

/-! # Carries and flags

The arithmetic unit reads its flags off the carry vector, the exclusive or of the operands and the
result in a word wider than they are.  By definition the flags are about numbers: a carry says that
the low bits of the operands add up to more than those bits hold, a borrow that there are too few to
take from, and an overflow that the result with its sign is out of range.  For operands of any width
the bits of the carry vector say just this.

Main definitions: `sumFlags`, `differenceFlags`, `logicFlags`, `Arithmetic.defined`.
Main statements: `getLsbD_carries`, `getLsbD_borrows`, `carry_xor_carry`, `borrow_xor_borrow`,
`Arithmetic.apply_eq`, `Alu.addWord_eq`, `Alu.adcWord_eq`, `Alu.sbcWord_eq`. -/

namespace Spectrum.Z80

/-! ### Definitions -/

section

variable {w : Nat}

/-- The sum of two numbers and a carry, round the width. -/
def wrappedSum (x y : BitVec w) (carry : Bool) : BitVec w :=
  BitVec.ofNat w (x.toNat + y.toNat + carry.toNat)

/-- The difference of two numbers less a borrow, round the width. -/
def wrappedDifference (x y : BitVec w) (borrow : Bool) : BitVec w :=
  BitVec.ofInt w (x.toNat - y.toNat - borrow.toNat)

/-- Whether the low `i` bits of a sum give a carry. -/
def carriesOut (i : Nat) (x y : BitVec w) (carry : Bool) : Bool :=
  decide (2 ^ i ≤ x.toNat % 2 ^ i + y.toNat % 2 ^ i + carry.toNat)

/-- Whether the low `i` bits of a difference need a borrow. -/
def borrowsFrom (i : Nat) (x y : BitVec w) (borrow : Bool) : Bool :=
  decide (x.toNat % 2 ^ i < y.toNat % 2 ^ i + borrow.toNat)

/-- Whether a number is none of those that `w` bits stand for if they have a sign. -/
def overflows (w : Nat) (v : Int) : Bool := decide (v < -2 ^ (w - 1) ∨ 2 ^ (w - 1) ≤ v)

/-- The sign and zero of a result and the copies of bits 5 and 3 of its top byte; the rest clear. -/
def resultFlags (v : BitVec w) : Flags :=
  { s := v.msb, z := v == 0, y := v.getLsbD (w - 3), h := false,
    x := v.getLsbD (w - 5), pv := false, n := false, c := false }

/-- The flags of a sum.  The half carry goes into the top four bits. -/
def sumFlags (x y : BitVec w) (carry : Bool) : Flags :=
  { resultFlags (wrappedSum x y carry) with
    h := carriesOut (w - 4) x y carry
    pv := overflows w (x.toInt + y.toInt + carry.toInt)
    c := carriesOut w x y carry }

/-- The flags of a difference. -/
def differenceFlags (x y : BitVec w) (borrow : Bool) : Flags :=
  { resultFlags (wrappedDifference x y borrow) with
    h := borrowsFrom (w - 4) x y borrow
    pv := overflows w (x.toInt - y.toInt - borrow.toInt)
    n := true
    c := borrowsFrom w x y borrow }

end

/-- The flags of a logical operation: parity is even if as many bits are set. -/
def logicFlags (v : UInt8) : Flags :=
  { resultFlags v.toBitVec with pv := v.toBitVec.cpop.toNat % 2 == 0 }

/-- The accumulator and the flags that an operation gives by its definition. -/
def Arithmetic.defined (op : Arithmetic) (a x : UInt8) (carry : Bool) : UInt8 × Flags :=
  let sum (c : Bool) : UInt8 × Flags :=
    (.ofBitVec (wrappedSum a.toBitVec x.toBitVec c), sumFlags a.toBitVec x.toBitVec c)
  let difference (c : Bool) : UInt8 × Flags :=
    (.ofBitVec (wrappedDifference a.toBitVec x.toBitVec c),
      differenceFlags a.toBitVec x.toBitVec c)
  match op with
  | .add => sum false
  | .adc => sum carry
  | .sub => difference false
  | .sbc => difference carry
  | .and => (a &&& x, { logicFlags (a &&& x) with h := true })
  | .xor => (a ^^^ x, logicFlags (a ^^^ x))
  | .or => (a ||| x, logicFlags (a ||| x))
  | .cp => (a, { (difference false).2 with y := x.toBitVec.getLsbD 5, x := x.toBitVec.getLsbD 3 })

/-! ### The carry vector -/

section

variable {w : Nat}

theorem wrappedSum_eq (x y : BitVec w) (c : Bool) :
    wrappedSum x y c = x + y + BitVec.setWidth w (BitVec.ofBool c) := by
  apply BitVec.eq_of_toNat_eq
  simp [wrappedSum]

theorem wrappedDifference_eq (x y : BitVec w) (b : Bool) :
    wrappedDifference x y b = x - y - BitVec.setWidth w (BitVec.ofBool b) := by
  have hb : BitVec.ofNat w b.toNat = BitVec.setWidth w (BitVec.ofBool b) := by
    apply BitVec.eq_of_toNat_eq
    simp
  rw [wrappedDifference, Int.sub_eq_add_neg, Int.sub_eq_add_neg, BitVec.ofInt_add,
    BitVec.ofInt_add, BitVec.ofInt_neg, BitVec.ofInt_neg, BitVec.ofInt_natCast,
    BitVec.ofInt_natCast, BitVec.ofInt_natCast, BitVec.ofNat_toNat, BitVec.ofNat_toNat, hb,
    BitVec.setWidth_eq, BitVec.setWidth_eq, BitVec.sub_eq_add_neg, BitVec.sub_eq_add_neg]

/-- A difference is what the subtrahend has to be added to. -/
theorem wrappedSum_wrappedDifference (x y : BitVec w) (b : Bool) :
    wrappedSum (wrappedDifference x y b) y b = x := by
  rw [wrappedSum_eq, wrappedDifference_eq]
  grind

/-- Each bit of the carry vector of a sum is the carry out of the bits below. -/
theorem getLsbD_carries (x y : BitVec w) (c : Bool) {i : Nat} (hi : i < w) :
    (x ^^^ y ^^^ wrappedSum x y c).getLsbD i = carriesOut i x y c := by
  have hcarry : carriesOut i x y c = BitVec.carry i x y c := rfl
  rw [wrappedSum_eq, BitVec.getLsbD_xor, BitVec.getLsbD_xor, BitVec.getLsbD_add_add_bool hi, hcarry]
  cases x.getLsbD i <;> cases y.getLsbD i <;> simp

theorem borrowsFrom_wrappedSum (z y : BitVec w) (b : Bool) {i : Nat} (hi : i < w) :
    borrowsFrom i (wrappedSum z y b) y b = carriesOut i z y b := by
  have hmod : (wrappedSum z y b).toNat % 2 ^ i =
      (z.toNat % 2 ^ i + y.toNat % 2 ^ i + b.toNat) % 2 ^ i := by
    rw [wrappedSum, BitVec.toNat_ofNat, Nat.mod_mod_of_dvd _ (Nat.pow_dvd_pow 2 (Nat.le_of_lt hi))]
    simp [Nat.add_mod]
  have hz := Nat.mod_lt z.toNat (Nat.two_pow_pos i)
  have hy := Nat.mod_lt y.toNat (Nat.two_pow_pos i)
  have hb := b.toNat_le
  unfold borrowsFrom carriesOut
  rw [hmod, decide_eq_decide]
  generalize z.toNat % 2 ^ i = p at *
  generalize y.toNat % 2 ^ i = q at *
  generalize 2 ^ i = n at *
  by_cases h : n ≤ p + q + b.toNat
  · rw [Nat.mod_eq_sub_mod h, Nat.mod_eq_of_lt (by omega)]
    omega
  · rw [Nat.mod_eq_of_lt (by omega)]
    omega

/-- Each bit of the carry vector of a difference is the borrow that the bits below need. -/
theorem getLsbD_borrows (x y : BitVec w) (b : Bool) {i : Nat} (hi : i < w) :
    (x ^^^ y ^^^ wrappedDifference x y b).getLsbD i = borrowsFrom i x y b := by
  have hx := wrappedSum_wrappedDifference x y b
  generalize wrappedDifference x y b = z at hx
  subst hx
  have hz : wrappedSum z y b ^^^ y ^^^ z = z ^^^ y ^^^ wrappedSum z y b := by
    rw [BitVec.xor_comm, BitVec.xor_comm _ y, ← BitVec.xor_assoc]
  rw [hz, getLsbD_carries z y b hi, borrowsFrom_wrappedSum z y b hi]

/-! ### Overflow -/

theorem toInt_eq_toNat (c : Bool) : c.toInt = c.toNat := by
  cases c <;> rfl

/-- The bits below the top one count the same with a sign and without; the top one does not. -/
theorem exists_halves {n : Nat} (x : BitVec (n + 1)) :
    ∃ low top : Nat, low < 2 ^ n ∧ top ≤ 1 ∧ x.toNat % 2 ^ n = low ∧
      x.toNat % 2 ^ (n + 1) = low + 2 ^ n * top ∧ x.toInt = low - (2 ^ n : Nat) * top := by
  have hx := x.isLt
  rw [BitVec.toInt_eq_toNat_cond, Nat.mod_eq_of_lt hx]
  rw [Nat.pow_succ] at *
  generalize x.toNat = p at *
  generalize 2 ^ n = m at *
  by_cases h : p < m
  · refine ⟨p, 0, h, by omega, Nat.mod_eq_of_lt h, by omega, ?_⟩
    rw [if_pos (by omega)]
    omega
  · refine ⟨p - m, 1, by omega, by omega, ?_, by omega, ?_⟩
    · rw [Nat.mod_eq_sub_mod (by omega), Nat.mod_eq_of_lt (by omega)]
    · rw [if_neg (by omega)]
      omega

/-- A sum overflows if the carries into and out of its top bit differ. -/
theorem carry_xor_carry (x y : BitVec w) (c : Bool) (hw : 0 < w) :
    (carriesOut (w - 1) x y c ^^ carriesOut w x y c) =
      overflows w (x.toInt + y.toInt + c.toInt) := by
  obtain ⟨n, rfl⟩ : ∃ n, w = n + 1 := ⟨w - 1, by omega⟩
  obtain ⟨p, s, hp, hs, hxlow, hx, hxi⟩ := exists_halves x
  obtain ⟨q, t, hq, ht, hylow, hy, hyi⟩ := exists_halves y
  have hpow : (2 : Int) ^ n = (2 ^ n : Nat) := by norm_cast
  have hc := c.toNat_le
  unfold carriesOut overflows
  rw [Nat.add_sub_cancel, hxlow, hylow, hx, hy, hxi, hyi, hpow, toInt_eq_toNat, Nat.pow_succ,
    Bool.eq_iff_iff]
  generalize 2 ^ n = m at *
  simp only [bne_iff_ne, ne_eq, decide_eq_decide, decide_eq_true_eq]
  rcases Nat.le_one_iff_eq_zero_or_eq_one.mp hs with rfl | rfl <;>
    rcases Nat.le_one_iff_eq_zero_or_eq_one.mp ht with rfl | rfl <;> omega

/-- A difference overflows if the borrows from and for its top bit differ. -/
theorem borrow_xor_borrow (x y : BitVec w) (b : Bool) (hw : 0 < w) :
    (borrowsFrom (w - 1) x y b ^^ borrowsFrom w x y b) =
      overflows w (x.toInt - y.toInt - b.toInt) := by
  obtain ⟨n, rfl⟩ : ∃ n, w = n + 1 := ⟨w - 1, by omega⟩
  obtain ⟨p, s, hp, hs, hxlow, hx, hxi⟩ := exists_halves x
  obtain ⟨q, t, hq, ht, hylow, hy, hyi⟩ := exists_halves y
  have hpow : (2 : Int) ^ n = (2 ^ n : Nat) := by norm_cast
  have hb := b.toNat_le
  unfold borrowsFrom overflows
  rw [Nat.add_sub_cancel, hxlow, hylow, hx, hy, hxi, hyi, hpow, toInt_eq_toNat, Bool.eq_iff_iff]
  generalize 2 ^ n = m at *
  simp only [bne_iff_ne, ne_eq, decide_eq_decide, decide_eq_true_eq]
  rcases Nat.le_one_iff_eq_zero_or_eq_one.mp hs with rfl | rfl <;>
    rcases Nat.le_one_iff_eq_zero_or_eq_one.mp ht with rfl | rfl <;> omega

/-! ### Wider words -/

variable {W : Nat}

theorem setWidth_wrappedSum (x y : BitVec w) (c : Bool) (h : w ≤ W) :
    (wrappedSum (x.setWidth W) (y.setWidth W) c).setWidth w = wrappedSum x y c := by
  apply BitVec.eq_of_toNat_eq
  simp only [wrappedSum, BitVec.toNat_setWidth, BitVec.toNat_ofNat, BitVec.toNat_setWidth_of_le h]
  exact Nat.mod_mod_of_dvd _ (Nat.pow_dvd_pow 2 h)

theorem setWidth_ofInt (v : Int) (h : w ≤ W) :
    (BitVec.ofInt W v).setWidth w = BitVec.ofInt w v := by
  have hdvd : ((2 ^ w : Nat) : Int) ∣ (2 ^ W : Nat) :=
    Int.natCast_dvd_natCast.mpr (Nat.pow_dvd_pow 2 h)
  have hne (n : Nat) : ((2 ^ n : Nat) : Int) ≠ 0 := Int.natCast_ne_zero.mpr (Nat.two_pow_pos n).ne'
  apply BitVec.eq_of_toNat_eq
  rw [BitVec.toNat_setWidth, BitVec.toNat_ofInt, BitVec.toNat_ofInt, ← Int.natCast_inj,
    Int.natCast_emod, Int.toNat_of_nonneg (Int.emod_nonneg _ (hne W)),
    Int.toNat_of_nonneg (Int.emod_nonneg _ (hne w))]
  exact Int.emod_emod_of_dvd v hdvd

theorem setWidth_wrappedDifference (x y : BitVec w) (c : Bool) (h : w ≤ W) :
    (wrappedDifference (x.setWidth W) (y.setWidth W) c).setWidth w = wrappedDifference x y c := by
  rw [wrappedDifference, setWidth_ofInt _ h, BitVec.toNat_setWidth_of_le h,
    BitVec.toNat_setWidth_of_le h]
  rfl

theorem carriesOut_setWidth (x y : BitVec w) (c : Bool) (i : Nat) (h : w ≤ W) :
    carriesOut i (x.setWidth W) (y.setWidth W) c = carriesOut i x y c := by
  rw [carriesOut, BitVec.toNat_setWidth_of_le h, BitVec.toNat_setWidth_of_le h]
  rfl

theorem borrowsFrom_setWidth (x y : BitVec w) (c : Bool) (i : Nat) (h : w ≤ W) :
    borrowsFrom i (x.setWidth W) (y.setWidth W) c = borrowsFrom i x y c := by
  rw [borrowsFrom, BitVec.toNat_setWidth_of_le h, BitVec.toNat_setWidth_of_le h]
  rfl

/-- The flags that are read off a result in a wider word and its carry vector. -/
def carryFlags (w : Nat) (wide carries : BitVec W) (subtracted : Bool) : Flags :=
  { resultFlags (wide.setWidth w) with
    h := carries.getLsbD (w - 4)
    pv := carries.getLsbD (w - 1) ^^ carries.getLsbD w
    n := subtracted
    c := carries.getLsbD w }

variable {x y : BitVec w} {wide : BitVec W}

/-- For a sum they are what its definition says. -/
theorem carryFlags_sum {c : Bool} (hwide : wide = wrappedSum (x.setWidth W) (y.setWidth W) c)
    (hw : 0 < w) (h : w < W) :
    wide.setWidth w = wrappedSum x y c ∧
      carryFlags w wide (x.setWidth W ^^^ y.setWidth W ^^^ wide) false = sumFlags x y c := by
  have hvalue : wide.setWidth w = wrappedSum x y c := by
    rw [hwide, setWidth_wrappedSum x y c (by omega)]
  have hbit {i : Nat} (hi : i ≤ w) :
      (x.setWidth W ^^^ y.setWidth W ^^^ wide).getLsbD i = carriesOut i x y c := by
    rw [hwide, getLsbD_carries _ _ c (by omega), carriesOut_setWidth x y c i (by omega)]
  refine ⟨hvalue, ?_⟩
  rw [carryFlags, hbit (by omega), hbit (by omega), hbit (Nat.le_refl w), carry_xor_carry x y c hw,
    hvalue]
  rfl

/-- And so for a difference. -/
theorem carryFlags_difference {b : Bool}
    (hwide : wide = wrappedDifference (x.setWidth W) (y.setWidth W) b) (hw : 0 < w) (h : w < W) :
    wide.setWidth w = wrappedDifference x y b ∧
      carryFlags w wide (x.setWidth W ^^^ y.setWidth W ^^^ wide) true = differenceFlags x y b := by
  have hvalue : wide.setWidth w = wrappedDifference x y b := by
    rw [hwide, setWidth_wrappedDifference x y b (by omega)]
  have hbit {i : Nat} (hi : i ≤ w) :
      (x.setWidth W ^^^ y.setWidth W ^^^ wide).getLsbD i = borrowsFrom i x y b := by
    rw [hwide, getLsbD_borrows _ _ b (by omega), borrowsFrom_setWidth x y b i (by omega)]
  refine ⟨hvalue, ?_⟩
  rw [carryFlags, hbit (by omega), hbit (by omega), hbit (Nat.le_refl w),
    borrow_xor_borrow x y b hw, hvalue]
  rfl

/-- A bit that is tested on its own. -/
theorem bne_and_one (v : BitVec w) (h : 0 < w) : (v &&& 1#w != 0#w) = v.getLsbD 0 := by
  have hone : BitVec.setWidth w 1#1 ≠ 0#w := fun he => by
    have hbit := congrArg (·.getLsbD 0) he
    simp [h] at hbit
  rw [BitVec.and_one_eq_setWidth_ofBool_getLsbD]
  cases v.getLsbD 0 with
  | false => simp
  | true => simpa using hone

end
end Spectrum.Z80

theorem UInt16.bne_zero (v : UInt16) : (v != 0) = (v.toBitVec != 0#16) := by
  rw [Bool.eq_iff_iff, bne_iff_ne, bne_iff_ne, ne_eq, ne_eq, ← UInt16.toBitVec_inj]
  rfl

theorem UInt32.bne_zero (v : UInt32) : (v != 0) = (v.toBitVec != 0#32) := by
  rw [Bool.eq_iff_iff, bne_iff_ne, bne_iff_ne, ne_eq, ne_eq, ← UInt32.toBitVec_inj]
  rfl

theorem UInt16.getLsbD_high (v : UInt16) (i : Nat) :
    v.high.toBitVec.getLsbD i = v.toBitVec.getLsbD (i + 8) := by
  have hhigh : v.high.toNat = v.toNat / 2 ^ 8 := v.toNat_high
  rw [BitVec.getLsbD, BitVec.getLsbD, UInt8.toNat_toBitVec, UInt16.toNat_toBitVec, hhigh,
    Nat.testBit_div_two_pow]

namespace Spectrum.Z80

/-! ### The arithmetic unit -/

theorem Flags.ofResult_eq (v : UInt8) : Flags.ofResult v = resultFlags v.toBitVec := by
  induction v using UInt8.of_fin with
  | h i =>
    revert i
    decide +kernel

theorem Flags.ofResultParity_eq (v : UInt8) : Flags.ofResultParity v = logicFlags v := by
  induction v using UInt8.of_fin with
  | h i =>
    revert i
    decide +kernel

namespace Alu

theorem byteFlags_eq (wide carries : UInt16) (subtracted : Bool) :
    byteFlags wide carries subtracted =
      carryFlags 8 wide.toBitVec carries.toBitVec subtracted := by
  have hbit (v : UInt16) : (v &&& 1 != 0) = v.toBitVec.getLsbD 0 :=
    (UInt16.bne_zero _).trans (bne_and_one v.toBitVec (by decide))
  rw [byteFlags, hbit, hbit, hbit, Flags.ofResult_eq, UInt16.toBitVec_xor, BitVec.getLsbD_xor]
  simp [carryFlags, UInt16.toBitVec_shiftRight]

/-- The top byte of a word shows its sign and the copies of two of its bits. -/
theorem bit_high (v : UInt16) :
    v.high.bit 7 = v.toBitVec.msb ∧ v.high.bit 5 = v.toBitVec.getLsbD 13 ∧
      v.high.bit 3 = v.toBitVec.getLsbD 11 := by
  have hresult := Flags.ofResult_eq v.high
  refine ⟨(congrArg Flags.s hresult).trans ?_, (congrArg Flags.y hresult).trans ?_,
    (congrArg Flags.x hresult).trans ?_⟩
  · exact (BitVec.msb_eq_getLsbD_last _).trans
      ((v.getLsbD_high 7).trans (BitVec.msb_eq_getLsbD_last _).symm)
  · exact v.getLsbD_high 5
  · exact v.getLsbD_high 3

theorem wordFlags_eq (wide carries : UInt32) (subtracted : Bool) :
    wordFlags wide carries subtracted =
      carryFlags 16 wide.toBitVec carries.toBitVec subtracted := by
  have hbit (v : UInt32) : (v &&& 1 != 0) = v.toBitVec.getLsbD 0 :=
    (UInt32.bne_zero _).trans (bne_and_one v.toBitVec (by decide))
  have hzero (v : UInt16) : (v == 0) = (v.toBitVec == 0#16) := by
    rw [Bool.eq_iff_iff, beq_iff_eq, beq_iff_eq, ← UInt16.toBitVec_inj]
    rfl
  obtain ⟨hs, hy, hx⟩ := bit_high wide.toUInt16
  rw [wordFlags, hs, hy, hx, hzero, hbit, hbit, hbit, UInt32.toBitVec_xor, BitVec.getLsbD_xor]
  simp [carryFlags, resultFlags, UInt32.toBitVec_shiftRight]

variable (a x : UInt8) (v y : UInt16) (c : Bool)

theorem add_eq : add a x c =
    (.ofBitVec (wrappedSum a.toBitVec x.toBitVec c), sumFlags a.toBitVec x.toBitVec c) := by
  have hwide : (a.toUInt16 + x.toUInt16 + c.toUInt16).toBitVec =
      wrappedSum (a.toBitVec.setWidth 16) (x.toBitVec.setWidth 16) c := by
    rw [wrappedSum_eq]
    cases c <;> rfl
  obtain ⟨hvalue, hflags⟩ := carryFlags_sum hwide (by decide) (by decide)
  exact Prod.ext (UInt8.toBitVec_inj.mp hvalue) ((byteFlags_eq _ _ false).trans hflags)

theorem sub_eq : sub a x c =
    (.ofBitVec (wrappedDifference a.toBitVec x.toBitVec c),
      differenceFlags a.toBitVec x.toBitVec c) := by
  have hwide : (a.toUInt16 - x.toUInt16 - c.toUInt16).toBitVec =
      wrappedDifference (a.toBitVec.setWidth 16) (x.toBitVec.setWidth 16) c := by
    rw [wrappedDifference_eq]
    cases c <;> rfl
  obtain ⟨hvalue, hflags⟩ := carryFlags_difference hwide (by decide) (by decide)
  exact Prod.ext (UInt8.toBitVec_inj.mp hvalue) ((byteFlags_eq _ _ true).trans hflags)

theorem adcWord_eq : adcWord v y c =
    (.ofBitVec (wrappedSum v.toBitVec y.toBitVec c), sumFlags v.toBitVec y.toBitVec c) := by
  have hwide : (v.toUInt32 + y.toUInt32 + c.toUInt32).toBitVec =
      wrappedSum (v.toBitVec.setWidth 32) (y.toBitVec.setWidth 32) c := by
    rw [wrappedSum_eq]
    cases c <;> rfl
  obtain ⟨hvalue, hflags⟩ := carryFlags_sum hwide (by decide) (by decide)
  exact Prod.ext (UInt16.toBitVec_inj.mp hvalue) ((wordFlags_eq _ _ false).trans hflags)

theorem sbcWord_eq : sbcWord v y c =
    (.ofBitVec (wrappedDifference v.toBitVec y.toBitVec c),
      differenceFlags v.toBitVec y.toBitVec c) := by
  have hwide : (v.toUInt32 - y.toUInt32 - c.toUInt32).toBitVec =
      wrappedDifference (v.toBitVec.setWidth 32) (y.toBitVec.setWidth 32) c := by
    rw [wrappedDifference_eq]
    cases c <;> rfl
  obtain ⟨hvalue, hflags⟩ := carryFlags_difference hwide (by decide) (by decide)
  exact Prod.ext (UInt16.toBitVec_inj.mp hvalue) ((wordFlags_eq _ _ true).trans hflags)

/-- The sum without a carry is the one with none, but for the flags that it keeps. -/
theorem addWord_eq_adcWord (f : Flags) :
    addWord v y f =
      ((adcWord v y false).1, { (adcWord v y false).2 with s := f.s, z := f.z, pv := f.pv }) := by
  have hwide : v.toUInt32 + y.toUInt32 + Bool.toUInt32 false = v.toUInt32 + y.toUInt32 :=
    UInt32.add_zero _
  unfold adcWord
  rw [hwide]
  rfl

theorem addWord_eq (f : Flags) : addWord v y f =
    (.ofBitVec (wrappedSum v.toBitVec y.toBitVec false),
      { sumFlags v.toBitVec y.toBitVec false with s := f.s, z := f.z, pv := f.pv }) := by
  rw [addWord_eq_adcWord, adcWord_eq]

end Alu

/-- An operation of the accumulator gives what its definition says. -/
theorem Arithmetic.apply_eq (op : Arithmetic) (a x : UInt8) (f : Flags) :
    op.apply a x f = op.defined a x f.c := by
  have hcompare : Alu.compare a x =
      { (Alu.sub a x false).2 with y := x.bit 5, x := x.bit 3 } := rfl
  have hy : x.bit 5 = x.toBitVec.getLsbD 5 := congrArg Flags.y (Flags.ofResult_eq x)
  have hx : x.bit 3 = x.toBitVec.getLsbD 3 := congrArg Flags.x (Flags.ofResult_eq x)
  cases op with
  | add => exact Alu.add_eq a x false
  | adc => exact Alu.add_eq a x f.c
  | sub => exact Alu.sub_eq a x false
  | sbc => exact Alu.sub_eq a x f.c
  | and | xor | or =>
    dsimp only [apply, defined, Alu.and, Alu.xor, Alu.or]
    rw [Flags.ofResultParity_eq]
  | cp =>
    dsimp only [apply, defined]
    rw [hcompare, Alu.sub_eq, hy, hx]

end Spectrum.Z80
