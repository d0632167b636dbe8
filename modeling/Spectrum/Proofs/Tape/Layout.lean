import Mathlib.Algebra.Group.Nat.Defs
import Mathlib.Data.List.Basic
import Mathlib.Tactic.Common
import Spectrum.Tape.Container

/-! # Bodies and their layouts

The body of a block in a TZX file is a head of fixed length, which may end in a count, and as many
items as the count says.  `counted` writes items behind their count, and `Layout.Fits` says that a
body has the length that a layout reads from it.  Fitting is what the decoder looks for: a body that
fits is found whatever follows it, is not found if it is cut, and everything found fits.

Main statements: `Layout.Fits.body?_append`, `Layout.Fits.body?_take`, `Layout.fits_of_body?`,
`Layout.fits_counted`, `Layout.Fits.exists_counted`. -/

namespace Spectrum.Tape

/-! ### Numbers and sequences -/

/-- A number in `width` bytes, lowest first. -/
def numberBytes : (width : Nat) → Nat → List UInt8
  | 0, _ => []
  | width + 1, n => UInt8.ofNat n :: numberBytes width (n / 256)

/-- A word in two bytes. -/
def wordBytes (w : UInt16) : List UInt8 := [w.low, w.high]

/-- A number of bytes. -/
abbrev Fixed (n : Nat) := {bytes : List UInt8 // bytes.length = n}

/-- Items that can stand behind a count of `width` bytes. -/
abbrev Counted (α : Type) (width : Nat) := {items : List α // items.length < 256 ^ width}

/-- Items behind their count. -/
def counted {α : Type} {width : Nat} (f : α → List UInt8) (items : Counted α width) : List UInt8 :=
  numberBytes width items.1.length ++ items.1.flatMap f

/-- Bytes behind their count. -/
def countedBytes {width : Nat} (bytes : Counted UInt8 width) : List UInt8 :=
  counted (fun b => [b]) bytes

/-! ### Reading numbers back -/

@[simp] theorem length_numberBytes (width n : Nat) : (numberBytes width n).length = width := by
  induction width generalizing n with
  | zero => rfl
  | succ width ih => rw [numberBytes, List.length_cons, ih]

theorem littleEndian_numberBytes {width n : Nat} (h : n < 256 ^ width) :
    littleEndian (numberBytes width n) = n := by
  induction width generalizing n with
  | zero => exact (Nat.lt_one_iff.mp h).symm
  | succ width ih =>
    have hrest : n / 256 < 256 ^ width := by
      rw [Nat.div_lt_iff_lt_mul (by decide), ← Nat.pow_succ]
      exact h
    rw [numberBytes, littleEndian, ih hrest, UInt8.toNat_ofNat']
    omega

theorem numberBytes_littleEndian (bytes : List UInt8) :
    numberBytes bytes.length (littleEndian bytes) = bytes := by
  induction bytes with
  | nil => rfl
  | cons b rest ih =>
    have hb := b.toNat_lt
    have hlow : UInt8.ofNat (littleEndian (b :: rest)) = b := by
      rw [← UInt8.toNat_inj, UInt8.toNat_ofNat', littleEndian]
      omega
    have hhigh : littleEndian (b :: rest) / 256 = littleEndian rest := by
      rw [littleEndian]
      omega
    rw [List.length_cons, numberBytes, hlow, hhigh, ih]

theorem littleEndian_lt (bytes : List UInt8) : littleEndian bytes < 256 ^ bytes.length := by
  induction bytes with
  | nil => exact Nat.one_pos
  | cons b rest ih =>
    have hb := b.toNat_lt
    rw [littleEndian, List.length_cons, Nat.pow_succ]
    omega

/-- A number is the same with more bytes behind it. -/
theorem numberAt_append {bytes : List UInt8} {offset width : Nat}
    (h : offset + width ≤ bytes.length) (rest : List UInt8) :
    numberAt (bytes ++ rest) offset width = numberAt bytes offset width := by
  unfold numberAt
  rw [List.drop_append_of_le_length (by omega),
    List.take_append_of_le_length (by rw [List.length_drop]; omega)]

@[simp] theorem numberAt_cons (b : UInt8) (bytes : List UInt8) (offset width : Nat) :
    numberAt (b :: bytes) (offset + 1) width = numberAt bytes offset width := by
  rw [numberAt, List.drop_succ_cons, numberAt]

@[simp] theorem numberAt_word (w : UInt16) (rest : List UInt8) :
    numberAt (w.low :: w.high :: rest) 0 2 = w.toNat := by
  have hw : numberAt (w.low :: w.high :: rest) 0 2 =
      w.low.toNat + 256 * (w.high.toNat + 256 * 0) := rfl
  rw [hw, UInt16.toNat_low, UInt16.toNat_high]
  omega

@[simp] theorem wordAt_cons (b : UInt8) (bytes : List UInt8) (offset : Nat) :
    wordAt (b :: bytes) (offset + 1) = wordAt bytes offset := by
  rw [wordAt, numberAt_cons, wordAt]

@[simp] theorem wordAt_word (w : UInt16) (rest : List UInt8) :
    wordAt (w.low :: w.high :: rest) 0 = w := by
  rw [wordAt, numberAt_word, UInt16.ofNat_toNat]

theorem words_flatMap (ws : List UInt16) : words (ws.flatMap wordBytes) = ws := by
  induction ws with
  | nil => rfl
  | cons w rest ih =>
    have hw : words ((w :: rest).flatMap wordBytes) =
        UInt16.join w.high w.low :: words (rest.flatMap wordBytes) := rfl
    rw [hw, ih, UInt16.join_high_low]

theorem exists_byte (bytes : List UInt8) (h : bytes.length = 1) : ∃ b : UInt8, [b] = bytes := by
  obtain ⟨b, rfl⟩ := List.length_eq_one_iff.mp h
  exact ⟨b, rfl⟩

theorem exists_word (bytes : List UInt8) (h : bytes.length = 2) : ∃ w, wordBytes w = bytes := by
  obtain ⟨low, high, rfl⟩ := List.length_eq_two.mp h
  exact ⟨UInt16.join high low, by simp [wordBytes]⟩

theorem exists_triple (bytes : List UInt8) (h : bytes.length = 3) :
    ∃ entry : UInt8 × UInt8 × UInt8, [entry.1, entry.2.1, entry.2.2] = bytes := by
  obtain ⟨type, model, use, rfl⟩ := List.length_eq_three.mp h
  exact ⟨(type, model, use), rfl⟩

theorem exists_word_append {n : Nat} (bytes : List UInt8) (h : bytes.length = n + 2) :
    ∃ w rest, wordBytes w ++ rest = bytes ∧ rest.length = n := by
  obtain ⟨w, hw⟩ := exists_word (bytes.take 2) (by rw [List.length_take]; omega)
  exact ⟨w, bytes.drop 2, by rw [hw, List.take_append_drop], by rw [List.length_drop]; omega⟩

/-! ### Layouts -/

namespace Layout

variable {l : Layout} {body : List UInt8}

/-- A body has the length that its layout reads from it, in its head. -/
structure Fits (l : Layout) (body : List UInt8) : Prop where
  within : l.countOffset + l.countWidth ≤ l.head
  length : l.bodyLength body = body.length

theorem body?_eq_none {bytes : List UInt8} (h : bytes.length < l.bodyLength bytes) :
    l.body? bytes = none := by
  unfold body?
  dsimp only
  rw [List.take_of_length_le (Nat.le_of_lt h), if_pos h]

theorem body?_eq_some {bytes : List UInt8} (h : l.bodyLength bytes ≤ bytes.length) :
    l.body? bytes = some (bytes.take (l.bodyLength bytes)) := by
  have hlength : (bytes.take (l.bodyLength bytes)).length = l.bodyLength bytes := by
    rw [List.length_take, Nat.min_eq_left h]
  unfold body?
  dsimp only
  rw [hlength, if_neg (Nat.lt_irrefl _)]

theorem head_le_bodyLength (l : Layout) (bytes : List UInt8) : l.head ≤ l.bodyLength bytes :=
  Nat.le_add_right _ _

theorem bodyLength_append (hw : l.countOffset + l.countWidth ≤ l.head)
    (h : l.head ≤ body.length) (rest : List UInt8) :
    l.bodyLength (body ++ rest) = l.bodyLength body := by
  unfold bodyLength
  rw [numberAt_append (by omega)]

namespace Fits

theorem head_le (h : l.Fits body) : l.head ≤ body.length :=
  h.length ▸ l.head_le_bodyLength body

/-- A body is found whatever follows it. -/
theorem body?_append (h : l.Fits body) (rest : List UInt8) :
    l.body? (body ++ rest) = some body := by
  have hlength : l.bodyLength (body ++ rest) = body.length :=
    (bodyLength_append h.within h.head_le rest).trans h.length
  rw [body?_eq_some (by rw [hlength, List.length_append]; omega), hlength, List.take_left]

/-- A body is not found if it is cut. -/
theorem body?_take (h : l.Fits body) {k : Nat} (hk : k < body.length) (rest : List UInt8) :
    l.body? ((body ++ rest).take k) = none := by
  rw [List.take_append_of_le_length (Nat.le_of_lt hk)]
  have hlength : (body.take k).length = k := by rw [List.length_take]; omega
  apply body?_eq_none
  rw [hlength]
  by_cases hhead : l.head ≤ k
  · -- The count is still there, so the length is that of the whole body.
    rw [← bodyLength_append h.within (by rw [hlength]; exact hhead) (body.drop k),
      List.take_append_drop, h.length]
    exact hk
  · exact Nat.lt_of_lt_of_le (Nat.not_le.mp hhead) (l.head_le_bodyLength _)

end Fits

/-- What is found as a body fits, and stands at the front. -/
theorem fits_of_body? (hw : l.countOffset + l.countWidth ≤ l.head) {bytes : List UInt8}
    (h : l.body? bytes = some body) : l.Fits body ∧ bytes = body ++ bytes.drop body.length := by
  by_cases hle : l.bodyLength bytes ≤ bytes.length
  · rw [body?_eq_some hle, Option.some_inj] at h
    have hlength : body.length = l.bodyLength bytes := by
      rw [← h, List.length_take]
      omega
    have hsplit : bytes = body ++ bytes.drop body.length := by
      conv_lhs => rw [← List.take_append_drop (l.bodyLength bytes) bytes, h, ← hlength]
    have hhead : l.head ≤ body.length := hlength ▸ l.head_le_bodyLength bytes
    refine ⟨⟨hw, ?_⟩, hsplit⟩
    rw [hlength, ← bodyLength_append hw hhead (bytes.drop body.length), ← hsplit]
  · rw [body?_eq_none (Nat.not_le.mp hle)] at h
    exact nomatch h

/-- A body of fixed length. -/
theorem fits_fixed (hw : l.countOffset + l.countWidth ≤ l.head) (hi : l.itemLength = 0)
    (h : body.length = l.head) : l.Fits body := by
  refine ⟨hw, ?_⟩
  rw [bodyLength, hi, Nat.zero_mul, h, Nat.add_zero]

section

variable {α : Type} {f : α → List UInt8}

theorem length_flatMap {m : Nat} (hf : ∀ a, (f a).length = m) (items : List α) :
    (items.flatMap f).length = m * items.length := by
  induction items with
  | nil => rfl
  | cons a rest ih =>
    rw [List.flatMap_cons, List.length_append, hf, ih, List.length_cons, Nat.mul_succ, Nat.add_comm]

/-- A body of some fixed bytes and counted items. -/
theorem fits_counted (pre : List UInt8) {width : Nat} (items : Counted α width)
    (hp : pre.length = l.countOffset) (hw : width = l.countWidth)
    (hh : l.head = l.countOffset + l.countWidth) (hf : ∀ a, (f a).length = l.itemLength) :
    l.Fits (pre ++ counted f items) := by
  subst hw
  have hcount : numberAt (pre ++ counted f items) l.countOffset l.countWidth = items.1.length := by
    unfold numberAt counted
    rw [← hp, List.drop_left, List.take_left' (length_numberBytes _ _),
      littleEndian_numberBytes items.2]
  refine ⟨Nat.le_of_eq hh.symm, ?_⟩
  rw [bodyLength, hcount, List.length_append, counted, List.length_append, length_numberBytes,
    length_flatMap hf, hp, hh, Nat.add_assoc]

/-- Bytes whose number is a multiple of the length of an item are items. -/
theorem exists_flatMap {m : Nat} (hf : ∀ bytes : List UInt8, bytes.length = m → ∃ a, f a = bytes)
    (n : Nat) (bytes : List UInt8) (h : bytes.length = m * n) :
    ∃ items : List α, items.length = n ∧ items.flatMap f = bytes := by
  induction n generalizing bytes with
  | zero => exact ⟨[], rfl, (List.eq_nil_of_length_eq_zero h).symm⟩
  | succ n ih =>
    rw [Nat.mul_succ] at h
    obtain ⟨a, ha⟩ := hf (bytes.take m) (by rw [List.length_take]; omega)
    obtain ⟨rest, hn, hr⟩ := ih (bytes.drop m) (by rw [List.length_drop]; omega)
    refine ⟨a :: rest, by rw [List.length_cons, hn], ?_⟩
    rw [List.flatMap_cons, ha, hr, List.take_append_drop]

/-- What fits a layout with a count at the end of the head is some fixed bytes and counted items. -/
theorem Fits.exists_counted (h : l.Fits body) (hh : l.head = l.countOffset + l.countWidth)
    (hf : ∀ bytes : List UInt8, bytes.length = l.itemLength → ∃ a, f a = bytes) :
    ∃ (pre : Fixed l.countOffset) (items : Counted α l.countWidth),
      pre.1 ++ counted f items = body := by
  have hhead := h.head_le
  obtain ⟨pre, behind, hp, hbody⟩ :
      ∃ pre behind, pre.length = l.countOffset ∧ pre ++ behind = body :=
    ⟨body.take l.countOffset, body.drop l.countOffset, by rw [List.length_take]; omega,
      List.take_append_drop _ _⟩
  obtain ⟨count, stored, hc, hbehind⟩ :
      ∃ count stored, count.length = l.countWidth ∧ count ++ stored = behind := by
    have hlength := congrArg List.length hbody
    rw [List.length_append] at hlength
    exact ⟨behind.take l.countWidth, behind.drop l.countWidth, by rw [List.length_take]; omega,
      List.take_append_drop _ _⟩
  have hn : numberAt body l.countOffset l.countWidth = littleEndian count := by
    unfold numberAt
    rw [← hbody, ← hp, List.drop_left, ← hbehind, List.take_left' hc]
  have hstored : stored.length = l.itemLength * littleEndian count := by
    have hlength := h.length
    rw [bodyLength, hn, ← hbody, ← hbehind, List.length_append, List.length_append, hp, hc,
      hh] at hlength
    omega
  obtain ⟨items, hi, hitems⟩ := exists_flatMap hf _ stored hstored
  have hlt : items.length < 256 ^ l.countWidth := by
    rw [hi, ← hc]
    exact littleEndian_lt count
  have hcount : numberBytes l.countWidth items.length = count := by
    rw [hi, ← hc, numberBytes_littleEndian]
  refine ⟨⟨pre, hp⟩, ⟨items, hlt⟩, ?_⟩
  rw [counted, hcount, hitems, hbehind, hbody]

/-- What fits a layout whose head is only a count is counted items. -/
theorem Fits.exists_counted_only (h : l.Fits body) (h0 : l.countOffset = 0)
    (hh : l.head = l.countOffset + l.countWidth)
    (hf : ∀ bytes : List UInt8, bytes.length = l.itemLength → ∃ a, f a = bytes) :
    ∃ items : Counted α l.countWidth, counted f items = body := by
  obtain ⟨pre, items, rfl⟩ := h.exists_counted hh hf
  refine ⟨items, ?_⟩
  rw [List.eq_nil_of_length_eq_zero (pre.2.trans h0), List.nil_append]

end

/-- What fits a layout without items is as long as the head. -/
theorem Fits.length_eq_head (h : l.Fits body) (hi : l.itemLength = 0) : body.length = l.head := by
  rw [← h.length, bodyLength, hi, Nat.zero_mul, Nat.add_zero]

end Layout

end Spectrum.Tape
