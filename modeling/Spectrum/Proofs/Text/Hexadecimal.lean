import Mathlib.Algebra.Group.Nat.Defs
import Mathlib.Tactic.Common
import Spectrum.Text.Digits
import Spectrum.Text.Integer
import Spectrum.Text.Split

/-! # Hexadecimal read back

Numbers that are written in hexadecimal of a fixed width are read back as integers of
specifications, behind a dollar sign; and the field behind the last separator of a text is what was
put there.

Main statements: `integer?_hexDigits`, `integer?_hex8`, `integer?_hex16`, `getLast?_splitOn`. -/

namespace Spectrum.Text

/-! ### Digits -/

theorem digitValue?_hexDigit {d : Nat} (h : d < 16) : digitValue? (hexDigit d) = some d := by
  have hall : ∀ i : Fin 16, digitValue? (hexDigit i) = some i.val := by decide
  exact hall ⟨d, h⟩

theorem hexDigit_ne_comma {d : Nat} (h : d < 16) : hexDigit d ≠ ',' := by
  have hall : ∀ i : Fin 16, hexDigit i ≠ ',' := by decide
  exact hall ⟨d, h⟩

theorem digitsFrom?_hexDigit {bound value d : Nat} (hd : d < 16) (hb : value * 16 + d < bound)
    (rest : List Char) :
    digitsFrom? 16 bound value (hexDigit d :: rest) =
      digitsFrom? 16 bound (value * 16 + d) rest := by
  rw [digitsFrom?, digitValue?_hexDigit hd]
  exact if_pos ⟨hd, hb⟩

/-- The digits of a number come first last: to read them is to read those of a sixteenth of it, and
then the last one. -/
theorem digitsFrom?_hexDigits {bound : Nat} (n width value : Nat) (rest : List Char)
    (hb : value * 16 ^ width + n % 16 ^ width < bound) :
    digitsFrom? 16 bound value (hexDigits n width rest) =
      digitsFrom? 16 bound (value * 16 ^ width + n % 16 ^ width) rest := by
  induction width generalizing n rest with
  | zero => simp [hexDigits, Nat.mod_one]
  | succ width ih =>
    have hvalue : value * 16 ^ (width + 1) + n % 16 ^ (width + 1) =
        (value * 16 ^ width + n / 16 % 16 ^ width) * 16 + n % 16 := by
      have hscale : value * 16 ^ (width + 1) = value * 16 ^ width * 16 := by
        rw [Nat.pow_succ, Nat.mul_assoc]
      rw [hscale, Nat.pow_succ', Nat.mod_mul]
      omega
    rw [hvalue] at hb ⊢
    rw [hexDigits, ih _ _ (by omega)]
    exact digitsFrom?_hexDigit (Nat.mod_lt _ (by decide)) hb rest

theorem comma_not_mem_hexDigits (n width : Nat) {rest : List Char} (h : ',' ∉ rest) :
    ',' ∉ hexDigits n width rest := by
  induction width generalizing n rest with
  | zero => exact h
  | succ width ih =>
    refine ih _ fun hmem => ?_
    rcases List.mem_cons.mp hmem with hdigit | hrest
    · exact hexDigit_ne_comma (Nat.mod_lt _ (by decide)) hdigit.symm
    · exact h hrest

theorem hexDigits_ne_nil {n width : Nat} {rest : List Char} (h : rest ≠ []) :
    hexDigits n width rest ≠ [] := by
  induction width generalizing n rest with
  | zero => exact h
  | succ width ih => exact ih (List.cons_ne_nil _ _)

/-! ### Numbers behind a dollar sign -/

/-- As many digits as a number has tell it. -/
theorem integer?_hexDigits {n width : Nat} (hn : n < 16 ^ (width + 1)) (hw : width < 8) :
    integer? ("$" ++ String.ofList (hexDigits n (width + 1) [])) = some n := by
  have hbound : 16 ^ (width + 1) ≤ integerBound := Nat.pow_le_pow_right (by decide) hw
  have hchars : ("$" ++ String.ofList (hexDigits n (width + 1) [])).toList =
      '$' :: hexDigits n (width + 1) [] := by simp
  rw [integer?, hchars]
  cases hdigits : hexDigits n (width + 1) [] with
  | nil =>
    rw [hexDigits] at hdigits
    exact absurd hdigits (hexDigits_ne_nil (List.cons_ne_nil _ _))
  | cons c rest =>
    have hvalue : 0 * 16 ^ (width + 1) + n % 16 ^ (width + 1) = n := by
      rw [Nat.zero_mul, Nat.zero_add, Nat.mod_eq_of_lt hn]
    have hread := digitsFrom?_hexDigits n (width + 1) 0 []
      (hvalue ▸ Nat.lt_of_lt_of_le hn hbound)
    rw [hvalue, hdigits] at hread
    exact hread

theorem integer?_hex8 (b : UInt8) : integer? ("$" ++ hex8 b) = some b.toNat :=
  integer?_hexDigits b.toNat_lt (by decide)

theorem integer?_hex16 (w : UInt16) : integer? ("$" ++ hex16 w) = some w.toNat :=
  integer?_hexDigits w.toNat_lt (by decide)

/-! ### Fields -/

theorem splitOn_of_not_mem {sep : Char} {s : List Char} (h : sep ∉ s) : splitOn sep s = [s] := by
  induction s with
  | nil => rfl
  | cons c rest ih =>
    simp only [List.mem_cons, not_or] at h
    simp [splitOn, ih h.2, Ne.symm h.1]

theorem splitOn_append (sep : Char) (s t : List Char) :
    splitOn sep (s ++ sep :: t) = splitOn sep s ++ splitOn sep t := by
  induction s with
  | nil => simp [splitOn]
  | cons c rest ih =>
    by_cases hc : c = sep
    · simp [splitOn, hc, ih]
    · cases hrest : splitOn sep rest with
      | nil => exact absurd hrest (splitOn_ne_nil sep rest)
      | cons field fields => simp [splitOn, hc, ih, hrest]

theorem getLast?_splitOn {sep : Char} (s : List Char) {t : List Char} (h : sep ∉ t) :
    (splitOn sep (s ++ sep :: t)).getLast? = some t := by
  rw [splitOn_append, splitOn_of_not_mem h, List.getLast?_concat]

end Spectrum.Text
