/-! # Cutting text

Specifications are texts with separators.  `splitOn` gives all fields, of which there is always at
least one; `cut` divides at the first separator only.  A message that repeats a specification is
shown up to its first NUL character, by `beforeNul`.

Main statements: `joinWith_splitOn`, no character but the separators is lost; `cut_append` and
`eq_append_of_cut`, a text is cut at its first separator. -/

namespace Spectrum.Text

/-- The fields between separators, empty ones included. -/
def splitOn (sep : Char) : List Char → List (List Char)
  | [] => [[]]
  | c :: rest =>
    if c == sep then [] :: splitOn sep rest
    else
      match splitOn sep rest with
      | [] => [[c]]
      | field :: fields => (c :: field) :: fields

def joinWith (sep : Char) : List (List Char) → List Char
  | [] => []
  | [field] => field
  | field :: fields => field ++ sep :: joinWith sep fields

/-- The text before the first separator and, if there is one, the text behind it. -/
def cut (sep : Char) : List Char → List Char × Option (List Char)
  | [] => ([], none)
  | c :: rest =>
    if c == sep then ([], some rest)
    else
      let (before, behind) := cut sep rest
      (c :: before, behind)

/-- The part of a text that a message shows: NUL ends it. -/
def beforeNul (s : String) : String := String.ofList (cut '\x00' s.toList).1

def fields (sep : Char) (s : String) : List String := (splitOn sep s.toList).map String.ofList

def endsWithIgnoringCase (s ending : String) : Bool :=
  ending.toUpper.toList.isSuffixOf s.toUpper.toList

theorem splitOn_ne_nil (sep : Char) (s : List Char) : splitOn sep s ≠ [] := by
  cases s with
  | nil => simp [splitOn]
  | cons c rest =>
    simp only [splitOn]
    split
    · simp
    · split <;> simp

theorem joinWith_splitOn (sep : Char) (s : List Char) : joinWith sep (splitOn sep s) = s := by
  induction s with
  | nil => rfl
  | cons c rest ih =>
    have hne := splitOn_ne_nil sep rest
    cases hs : splitOn sep rest with
    | nil => exact absurd hs hne
    | cons field fields =>
      rw [hs] at ih
      by_cases hc : c = sep
      · simp [splitOn, hc, hs, joinWith, ih]
      · cases fields with
        | nil => simpa [splitOn, hc, hs, joinWith] using ih
        | cons g gs => simpa [splitOn, hc, hs, joinWith] using ih

theorem cut_append {sep : Char} {s : List Char} (h : sep ∉ s) (t : List Char) :
    cut sep (s ++ sep :: t) = (s, some t) := by
  induction s with
  | nil => simp [cut]
  | cons c rest ih =>
    simp only [List.mem_cons, not_or] at h
    simp [cut, ih h.2, Ne.symm h.1]

/-- What is cut apart is a text with the separator between its parts. -/
theorem eq_append_of_cut {sep : Char} {s before behind : List Char}
    (h : cut sep s = (before, some behind)) : s = before ++ sep :: behind ∧ sep ∉ before := by
  induction s generalizing before with
  | nil => simp [cut] at h
  | cons c rest ih =>
    by_cases hc : c = sep
    · simp only [cut, hc, BEq.rfl, if_true, Prod.mk.injEq, Option.some.injEq] at h
      obtain ⟨rfl, rfl⟩ := h
      exact ⟨by rw [hc]; rfl, List.not_mem_nil⟩
    · simp only [cut, beq_iff_eq, hc, if_false, Prod.mk.injEq] at h
      obtain ⟨rfl, hrest⟩ := h
      obtain ⟨heq, hmem⟩ := ih (Prod.ext rfl hrest)
      refine ⟨congrArg (c :: ·) heq, ?_⟩
      rw [List.mem_cons, not_or]
      exact ⟨Ne.symm hc, hmem⟩

end Spectrum.Text
