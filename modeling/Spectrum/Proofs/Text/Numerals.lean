import Mathlib.Data.List.Forall2
import Mathlib.Data.Nat.Digits.Defs
import Mathlib.Tactic.Common
import Spectrum.Text.Integer

/-! # Numerals

The texts that spell a number, described without reading them: one or more decimal digits, or one
or more hexadecimal digits behind `$`, `0x` or `0X`.  Zeros in front of a number do not change it,
and there is no bound on their number; nothing but digits may follow the prefix.

`integer?` reads just these texts, and of them those whose number fits into 32 bits.  A text that is
only a prefix has no hexadecimal digit, and neither has its prefix a decimal value, so it spells
nothing.

Main definitions: `Numeral`, `Spells`.
Main statements: `Spells.unique`, `integer?_reads`. -/

namespace Spectrum.Text

/-! ### Digits -/

/-- A character is a digit of a base: from `0` to `9`, and on from `a`, small or capital. -/
structure IsDigit (base : Nat) (c : Char) (d : Nat) : Prop where
  lt : d < base
  spelled : c = Nat.digitChar d ∨ c = (Nat.digitChar d).toUpper

/-- One or more digits of a base denote a number, the most significant first. -/
def Numeral (base : Nat) (cs : List Char) (n : Nat) : Prop :=
  cs ≠ [] ∧ ∃ ds, List.Forall₂ (IsDigit base) cs ds ∧ Nat.ofDigits base ds.reverse = n

/-- A text spells a number, in decimal or behind a prefix in hexadecimal. -/
inductive Spells : List Char → Nat → Prop
  | decimal {cs : List Char} {n : Nat} (h : Numeral 10 cs n) : Spells cs n
  | dollar {cs : List Char} {n : Nat} (h : Numeral 16 cs n) : Spells ('$' :: cs) n
  | zeroX {cs : List Char} {n : Nat} {x : Char} (hx : x = 'x' ∨ x = 'X') (h : Numeral 16 cs n) :
      Spells ('0' :: x :: cs) n

theorem digitValue?_eq_some_iff {c : Char} {d : Nat} :
    digitValue? c = some d ↔ IsDigit 16 c d := by
  constructor
  · intro h
    have hc : c.toNat < 103 := by
      have hle {a : Char} (ha : c ≤ a) : c.toNat ≤ a.toNat := UInt32.le_iff_toNat_le.mp ha
      unfold digitValue? at h
      split at h
      next hin => exact Nat.lt_of_le_of_lt (hle hin.2) (by decide)
      next =>
        split at h
        next hin => exact Nat.lt_of_le_of_lt (hle hin.2) (by decide)
        next =>
          split at h
          next hin => exact Nat.lt_of_le_of_lt (hle hin.2) (by decide)
          next => cases h
    have hall : ∀ k : Fin 103, (digitValue? (Char.ofNat k)).all fun d =>
        d < 16 ∧ (Char.ofNat k = Nat.digitChar d ∨ Char.ofNat k = (Nat.digitChar d).toUpper) := by
      decide
    have hd := hall ⟨c.toNat, hc⟩
    rw [Char.ofNat_toNat, h, Option.all_some, decide_eq_true_iff] at hd
    exact ⟨hd.1, hd.2⟩
  · rintro ⟨hlt, hspelled⟩
    have hall : ∀ d : Fin 16, digitValue? (Nat.digitChar d) = some d.val ∧
        digitValue? (Nat.digitChar d).toUpper = some d.val := by
      decide
    rcases hspelled with rfl | rfl
    · exact (hall ⟨d, hlt⟩).1
    · exact (hall ⟨d, hlt⟩).2

theorem isDigit_iff {base : Nat} (hbase : base ≤ 16) {c : Char} {d : Nat} :
    IsDigit base c d ↔ digitValue? c = some d ∧ d < base := by
  rw [digitValue?_eq_some_iff]
  constructor
  · exact fun h => ⟨⟨Nat.lt_of_lt_of_le h.lt hbase, h.spelled⟩, h.lt⟩
  · exact fun h => ⟨h.2, h.1.spelled⟩

theorem not_isDigit_of_digitValue? {base : Nat} (hbase : base ≤ 16) {c : Char} {d : Nat}
    (hc : digitValue? c = none) : ¬ IsDigit base c d := by
  rw [isDigit_iff hbase, hc]
  exact fun h => nomatch h.1

/-! ### Reading digits -/

variable {base bound value n : Nat} {c : Char} {cs : List Char}

theorem digitsFrom?_cons_eq_some_iff (hbase : base ≤ 16) :
    digitsFrom? base bound value (c :: cs) = some n ↔
      ∃ d, IsDigit base c d ∧ value * base + d < bound ∧
        digitsFrom? base bound (value * base + d) cs = some n := by
  simp only [isDigit_iff hbase]
  rw [digitsFrom?]
  cases digitValue? c with
  | none => simp
  | some d =>
    simp only [Option.some.injEq]
    constructor
    · intro h
      split at h
      next hd => exact ⟨d, ⟨rfl, hd.1⟩, hd.2, h⟩
      next => cases h
    · rintro ⟨_, ⟨rfl, hd⟩, hb, h⟩
      rw [if_pos ⟨hd, hb⟩]
      exact h

/-- Digits behind a value: it is moved on by their number of places, and theirs is added.  No value
on the way is larger than the last. -/
theorem digitsFrom?_eq_some_iff (hbase : base ≤ 16) (hvalue : value < bound) :
    digitsFrom? base bound value cs = some n ↔
      n < bound ∧ ∃ ds, List.Forall₂ (IsDigit base) cs ds ∧
        value * base ^ ds.length + Nat.ofDigits base ds.reverse = n := by
  induction cs generalizing value with
  | nil =>
    constructor
    · intro h
      obtain rfl := Option.some.inj h
      exact ⟨hvalue, [], .nil, by simp⟩
    · rintro ⟨-, ds, hds, rfl⟩
      cases hds
      simp [digitsFrom?]
  | cons c rest ih =>
    have hplaces (d : Nat) (ds : List Nat) :
        value * base ^ (d :: ds).length + Nat.ofDigits base (d :: ds).reverse =
          (value * base + d) * base ^ ds.length + Nat.ofDigits base ds.reverse := by
      rw [Nat.ofDigits_reverse_cons, List.length_cons, Nat.pow_succ', Nat.add_mul, ← Nat.mul_assoc,
        Nat.mul_comm d]
      omega
    rw [digitsFrom?_cons_eq_some_iff hbase]
    constructor
    · rintro ⟨d, hd, hb, h⟩
      obtain ⟨hn, ds, hds, hvalue'⟩ := (ih hb).mp h
      exact ⟨hn, d :: ds, .cons hd hds, (hplaces d ds).trans hvalue'⟩
    · rintro ⟨hn, _, hds, hvalue'⟩
      cases hds with
      | @cons _ d _ ds hd hds =>
        rw [hplaces] at hvalue'
        have hpow : 1 ≤ base ^ ds.length := Nat.one_le_pow _ _ (Nat.zero_lt_of_lt hd.lt)
        have hb : value * base + d < bound := by
          have := Nat.le_mul_of_pos_right (value * base + d) hpow
          omega
        exact ⟨d, hd, hb, (ih hb).mpr ⟨hn, ds, hds, hvalue'⟩⟩

theorem digits?_eq_some_iff (hbase : base ≤ 16) (hbound : 0 < bound) :
    digits? base bound cs = some n ↔ Numeral base cs n ∧ n < bound := by
  cases cs with
  | nil => simp [digits?, Numeral]
  | cons c rest =>
    rw [digits?, digitsFrom?_eq_some_iff hbase hbound, Numeral, and_comm]
    · simp
    · exact List.cons_ne_nil c rest

/-! ### Prefixes -/

theorem Numeral.ne_nil (h : Numeral base cs n) : cs ≠ [] := h.1

theorem Numeral.unique {m : Nat} (hbase : base ≤ 16) (h : Numeral base cs n)
    (h' : Numeral base cs m) : n = m := by
  obtain ⟨-, ds, hds, rfl⟩ := h
  obtain ⟨-, ds', hds', rfl⟩ := h'
  have hunique : Relator.RightUnique (IsDigit base) := fun _ _ _ hd hd' =>
    Option.some.inj (((isDigit_iff hbase).mp hd).1.symm.trans ((isDigit_iff hbase).mp hd').1)
  rw [List.right_unique_forall₂' hunique hds hds']

/-- Nothing but digits stands in a numeral. -/
theorem Numeral.exists_isDigit (h : Numeral base cs n) (hc : c ∈ cs) : ∃ d, IsDigit base c d := by
  obtain ⟨-, ds, hds, -⟩ := h
  induction hds with
  | nil => cases hc
  | cons hd _ ih =>
    rcases List.mem_cons.mp hc with rfl | hc
    · exact ⟨_, hd⟩
    · exact ih hc

theorem Numeral.not_mem (hbase : base ≤ 16) (h : Numeral base cs n) (hc : digitValue? c = none) :
    c ∉ cs := by
  intro hmem
  obtain ⟨d, hd⟩ := h.exists_isDigit hmem
  exact not_isDigit_of_digitValue? hbase hc hd

theorem spells_dollar_iff : Spells ('$' :: cs) n ↔ Numeral 16 cs n := by
  constructor
  · intro h
    cases h with
    | decimal h => exact absurd List.mem_cons_self (h.not_mem (by decide) rfl)
    | dollar h => exact h
  · exact .dollar

theorem spells_zeroX_iff {x : Char} (hx : x = 'x' ∨ x = 'X') :
    Spells ('0' :: x :: cs) n ↔ Numeral 16 cs n := by
  constructor
  · intro h
    cases h with
    | decimal h =>
      have hnone : digitValue? x = none := by rcases hx with rfl | rfl <;> rfl
      exact absurd (List.mem_cons_of_mem _ List.mem_cons_self) (h.not_mem (by decide) hnone)
    | zeroX _ h => exact h
  · exact .zeroX hx

/-- A text spells one number at most. -/
theorem Spells.unique {m : Nat} (h : Spells cs n) (h' : Spells cs m) : n = m := by
  cases h with
  | dollar h => exact h.unique (by decide) (spells_dollar_iff.mp h')
  | zeroX hx h => exact h.unique (by decide) ((spells_zeroX_iff hx).mp h')
  | decimal h =>
    cases h' with
    | decimal h' => exact h.unique (by decide) h'
    | dollar h' => exact (spells_dollar_iff.mp (.decimal h)).unique (by decide) h'
    | zeroX hx h' => exact ((spells_zeroX_iff hx).mp (.decimal h)).unique (by decide) h'

/-- Apart from digits only the prefixes stand in the text of a number. -/
theorem Spells.not_mem (h : Spells cs n) (hc : digitValue? c = none)
    (hmark : c ∉ ['$', 'x', 'X']) : c ∉ cs := by
  simp only [List.mem_cons, List.not_mem_nil, or_false, not_or] at hmark
  cases h with
  | decimal h => exact h.not_mem (by decide) hc
  | dollar h =>
    rw [List.mem_cons, not_or]
    exact ⟨hmark.1, h.not_mem (by decide) hc⟩
  | zeroX hx h =>
    rw [List.mem_cons, List.mem_cons, not_or, not_or]
    refine ⟨?_, ?_, h.not_mem (by decide) hc⟩
    · rintro rfl
      cases hc
    · rcases hx with rfl | rfl
      · exact hmark.2.1
      · exact hmark.2.2

theorem integer?_eq_some_iff {text : String} :
    integer? text = some n ↔ Spells text.toList n ∧ n < 2 ^ 32 := by
  have hdigits {base : Nat} (hbase : base ≤ 16) (cs : List Char) :
      digits? base integerBound cs = some n ↔ Numeral base cs n ∧ n < 2 ^ 32 :=
    digits?_eq_some_iff hbase (by decide)
  unfold integer?
  split
  next c rest htext => rw [hdigits (by decide), htext, spells_dollar_iff]
  next c rest htext => rw [hdigits (by decide), htext, spells_zeroX_iff (.inl rfl)]
  next c rest htext => rw [hdigits (by decide), htext, spells_zeroX_iff (.inr rfl)]
  next hdollar hsmall hcapital =>
    -- Behind a prefix without digits nothing is left to be a numeral.
    have hplain : Spells text.toList n ↔ Numeral 10 text.toList n := by
      constructor
      · intro h
        generalize hcs : text.toList = cs at h
        cases h with
        | decimal h => exact h
        | dollar h =>
          obtain ⟨c, rest, rfl⟩ := List.exists_cons_of_ne_nil h.ne_nil
          exact absurd hcs (hdollar c rest)
        | zeroX hx h =>
          obtain ⟨c, rest, rfl⟩ := List.exists_cons_of_ne_nil h.ne_nil
          rcases hx with rfl | rfl
          · exact absurd hcs (hsmall c rest)
          · exact absurd hcs (hcapital c rest)
      · exact .decimal
    rw [hdigits (by decide), hplain]

theorem not_mem_of_integer? {text : String} (h : integer? text = some n)
    (hc : digitValue? c = none) (hmark : c ∉ ['$', 'x', 'X']) : c ∉ text.toList :=
  (integer?_eq_some_iff.mp h).1.not_mem hc hmark

/-- A text is read as the number that it spells, if that fits into 32 bits; there is one at most.
All other texts give none. -/
theorem integer?_reads (text : String) :
    (∀ n, integer? text = some n ↔ Spells text.toList n ∧ n < 2 ^ 32) ∧
      (integer? text = none ↔ ∀ n, Spells text.toList n → 2 ^ 32 ≤ n) ∧
      ∀ m n, Spells text.toList m → Spells text.toList n → m = n := by
  refine ⟨fun n => integer?_eq_some_iff, ?_, fun m n => Spells.unique⟩
  rw [Option.eq_none_iff_forall_ne_some]
  simp only [ne_eq, integer?_eq_some_iff, not_and, Nat.not_lt]

/-- More zeros than 32 bits could hold do not matter, and the prefix alone is no number. -/
example : integer? "0x00000000000000000000FFfF" = some 65535 ∧ integer? "0x" = none ∧
    integer? "4294967296" = none := by decide

end Spectrum.Text
