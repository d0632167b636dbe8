import Mathlib.Algebra.Group.Nat.Defs
import Mathlib.Tactic.Common
import Spectrum.Memory

/-! # Blocks of memory

What is read from memory after bytes have been placed in it, and which bytes a slice of memory
holds.  Both are stated through `Memory.read`, so that nothing outside this module opens the tree.

Main statements: `Memory.read_writeAll`, `Memory.read_load`, `Memory.toList_load`,
`Memory.getElem?_slice`. -/

theorem UInt16.toNat_sub_succ (a : UInt16) : (a - (a + 1)).toNat = 65535 := by
  rw [show a - (a + 1) = 65535 by grind]
  rfl

namespace Spectrum

namespace Cells

theorem length_leaves {depth : Nat} (cells : Cells depth) (rest : List UInt8) :
    (cells.leaves rest).length = 2 ^ depth + rest.length := by
  induction cells generalizing rest with
  | byte value => simp [leaves]; omega
  | split lower upper ihl ihu => rw [leaves, ihl, ihu, Nat.pow_succ]; omega

/-- Only the bits below its depth lead through a tree. -/
theorem read_add_two_pow {depth : Nat} (cells : Cells depth) (i : Nat) :
    cells.read (2 ^ depth + i) = cells.read i := by
  refine read_congr cells fun k hk => ?_
  rw [Nat.testBit_two_pow_add_gt hk]

theorem getElem?_leaves {depth : Nat} (cells : Cells depth) (rest : List UInt8) (i : Nat) :
    (cells.leaves rest)[i]? =
      if i < 2 ^ depth then some (cells.read i) else rest[i - 2 ^ depth]? := by
  induction cells generalizing rest i with
  | byte value =>
    cases i with
    | zero => simp [leaves, read]
    | succ i => simp [leaves]
  | @split depth lower upper ihl ihu =>
    have hp : 2 ^ (depth + 1) = 2 ^ depth + 2 ^ depth := by rw [Nat.pow_succ]; omega
    rw [leaves, ihl, hp]
    by_cases hl : i < 2 ^ depth
    · have hb : i.testBit depth = false := Nat.testBit_lt_two_pow hl
      rw [if_pos hl, if_pos (by omega), read]
      simp [hb]
    · rw [if_neg hl, ihu]
      by_cases hu : i - 2 ^ depth < 2 ^ depth
      · obtain ⟨j, rfl⟩ : ∃ j, i = 2 ^ depth + j := ⟨i - 2 ^ depth, by omega⟩
        have hj : j < 2 ^ depth := by omega
        have hb : (2 ^ depth + j).testBit depth = true := by
          rw [Nat.testBit_two_pow_add_eq, Nat.testBit_lt_two_pow hj]
          rfl
        rw [if_pos (by omega), if_pos (by omega), Nat.add_sub_cancel_left, read]
        simp [hb, read_add_two_pow]
      · rw [if_neg hu, if_neg (by omega), Nat.sub_sub]

end Cells

namespace Memory

@[simp] theorem length_toList (m : Memory) : m.toList.length = size := by
  rw [toList, Cells.length_leaves]
  rfl

/-- The bytes in order are what is read at their addresses. -/
theorem getElem?_toList (m : Memory) {i : Nat} (h : i < size) :
    m.toList[i]? = some (m.read (UInt16.ofNat i)) := by
  have ht : (UInt16.ofNat i).toNat = i := UInt16.toNat_ofNat_of_lt' h
  rw [toList, Cells.getElem?_leaves, if_pos (show i < 2 ^ 16 from h), read, ht]

theorem getElem?_slice (m : Memory) {base count i : Nat} (hi : i < count)
    (h : base + i < size) : (m.slice base count)[i]? = some (m.read (UInt16.ofNat (base + i))) := by
  rw [slice, List.getElem?_take_of_lt hi, List.getElem?_drop, getElem?_toList m h]

theorem length_slice (m : Memory) {base count : Nat} (h : base + count ≤ size) :
    (m.slice base count).length = count := by
  rw [slice, List.length_take, List.length_drop, length_toList]
  omega

theorem slice_congr {m n : Memory} {base count : Nat} (h : base + count ≤ size)
    (hr : ∀ i, i < count → m.read (UInt16.ofNat (base + i)) = n.read (UInt16.ofNat (base + i))) :
    m.slice base count = n.slice base count := by
  apply List.ext_getElem?
  intro i
  by_cases hi : i < count
  · rw [getElem?_slice m hi (by omega), getElem?_slice n hi (by omega), hr i hi]
  · rw [List.getElem?_eq_none (by rw [length_slice m h]; omega),
      List.getElem?_eq_none (by rw [length_slice n h]; omega)]

/-- Bytes written upwards from `base` are read at their distance from it. -/
theorem read_writeAll (m : Memory) (base a : UInt16) (image : List UInt8)
    (h : image.length ≤ size) :
    (m.writeAll base image).read a = image[(a - base).toNat]?.getD (m.read a) := by
  induction image generalizing m base with
  | nil => simp [writeAll]
  | cons value rest ih =>
    simp only [List.length_cons] at h
    rw [writeAll, ih _ _ (by omega)]
    by_cases ha : a = base
    · subst ha
      rw [UInt16.toNat_sub_succ, UInt16.sub_self,
        List.getElem?_eq_none (by unfold size at h; omega)]
      simp
    · obtain ⟨k, hk⟩ : ∃ k, (a - base).toNat = k + 1 := by
        refine ⟨(a - base).toNat - 1, ?_⟩
        have : (a - base).toNat ≠ 0 := by
          intro h0
          have hb : a - base = 0 := UInt16.toNat_inj.mp h0
          exact ha (by grind)
        omega
      have hd : (a - (base + 1)).toNat = k := by
        have e : a - (base + 1) = (a - base) - 1 := by grind
        have h1 : (1 : UInt16) ≤ a - base := by
          rw [UInt16.le_iff_toNat_le, hk]
          simp
        rw [e, UInt16.toNat_sub_of_le _ _ h1, hk]
        simp
      rw [hd, hk, List.getElem?_cons_succ, read_write_ne m (Ne.symm ha)]

/-- An image is read from `base` on, as far as the top of memory. -/
theorem read_load (m : Memory) (base a : UInt16) (image : List UInt8) :
    (m.load base image).read a =
      if base ≤ a then image[a.toNat - base.toNat]?.getD (m.read a) else m.read a := by
  have ha := a.toNat_lt
  have hcut : (image.take (size - base.toNat)).length ≤ size - base.toNat :=
    List.length_take_le _ _
  rw [load, read_writeAll _ _ _ _ (by omega)]
  by_cases hb : base ≤ a
  · have hin : a.toNat - base.toNat < size - base.toNat := by
      have := UInt16.le_iff_toNat_le.mp hb
      unfold size
      omega
    rw [if_pos hb, UInt16.toNat_sub_of_le _ _ hb, List.getElem?_take_of_lt hin]
  · rw [UInt16.le_iff_toNat_le] at hb
    rw [if_neg (by rwa [UInt16.le_iff_toNat_le]), UInt16.toNat_sub, List.getElem?_eq_none]
    · rfl
    · unfold size at hcut ⊢
      omega

/-- A slice placed where it was taken from. -/
theorem read_load_slice (m n : Memory) (base a : UInt16) {count : Nat}
    (h : base.toNat + count ≤ size) :
    (m.load base (n.slice base.toNat count)).read a =
      if base ≤ a ∧ a.toNat < base.toNat + count then n.read a else m.read a := by
  have hlen := length_slice n h
  rw [read_load m base a _]
  by_cases hb : base ≤ a
  · have hb' := UInt16.le_iff_toNat_le.mp hb
    rw [if_pos hb]
    by_cases ha : a.toNat < base.toNat + count
    · rw [if_pos ⟨hb, ha⟩, getElem?_slice n (by omega) (by omega), Nat.add_sub_cancel' hb',
        UInt16.ofNat_toNat, Option.getD_some]
    · rw [if_neg fun hc => ha hc.2, List.getElem?_eq_none (by rw [hlen]; omega), Option.getD_none]
  · rw [if_neg hb, if_neg fun hc => hb hc.1]

/-- An image that fits below the top of memory takes the place of as many bytes. -/
theorem toList_load (m : Memory) (base : UInt16) (image : List UInt8)
    (h : base.toNat + image.length ≤ size) :
    (m.load base image).toList =
      m.toList.take base.toNat ++ image ++ m.toList.drop (base.toNat + image.length) := by
  have hm := length_toList m
  have htake : (m.toList.take base.toNat).length = base.toNat := by
    rw [List.length_take]
    omega
  apply List.ext_getElem?
  intro i
  by_cases hi : i < size
  · have hn : (UInt16.ofNat i).toNat = i := UInt16.toNat_ofNat_of_lt' hi
    have hle : base ≤ UInt16.ofNat i ↔ base.toNat ≤ i := by rw [UInt16.le_iff_toNat_le, hn]
    rw [getElem?_toList _ hi, read_load m base _ image, hn, List.append_assoc]
    by_cases hb : base.toNat ≤ i
    · rw [if_pos (hle.mpr hb), List.getElem?_append_right (by omega), htake]
      by_cases hl : i - base.toNat < image.length
      · rw [List.getElem?_append_left hl, List.getElem?_eq_getElem hl, Option.getD_some]
      · rw [List.getElem?_eq_none (by omega), Option.getD_none,
          List.getElem?_append_right (by omega), List.getElem?_drop,
          show base.toNat + image.length + (i - base.toNat - image.length) = i by omega,
          getElem?_toList m hi]
    · rw [if_neg (mt hle.mp hb), List.getElem?_append_left (by omega),
        List.getElem?_take_of_lt (by omega), getElem?_toList m hi]
  · rw [List.getElem?_eq_none (by rw [length_toList]; omega), List.getElem?_eq_none]
    simp only [List.length_append, List.length_take, List.length_drop, hm]
    omega

theorem toList_load_of_eq {m : Memory} (base : UInt16) {before old behind : List UInt8}
    (image : List UInt8) (h : m.toList = before ++ (old ++ behind))
    (hb : before.length = base.toNat) (hi : image.length = old.length) :
    (m.load base image).toList = before ++ (image ++ behind) := by
  have hsize := congrArg List.length h
  simp only [length_toList, List.length_append] at hsize
  rw [toList_load m base image (by omega), h, List.take_left' hb, ← List.append_assoc before old,
    List.drop_left' (by rw [List.length_append]; omega), List.append_assoc]

theorem toList_blank : blank.toList = List.replicate size 0 := by
  apply List.ext_getElem?
  intro i
  by_cases hi : i < size
  · rw [getElem?_toList _ hi, read_blank, List.getElem?_replicate_of_lt hi]
  · rw [List.getElem?_eq_none (by rw [length_toList]; omega),
      List.getElem?_eq_none (by rw [List.length_replicate]; omega)]

end Memory
end Spectrum
