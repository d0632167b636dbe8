import Mathlib.Algebra.Group.Nat.Defs
import Mathlib.Data.List.Basic
import Mathlib.Tactic.Common
import Spectrum.Snapshot.RamEdit

/-! # Reading a load operation

The operation `load=block,start,length,step,offset,inc` names bytes of a block and the addresses
that they go to.  A specification is accepted just if it reads as a `LoadRequest`: its first two
fields are there, each field that is there is an integer or an empty option, and the tape has the
block.  The number of the block stands between two marks, either of which may be missing.

Main definitions: `LoadRequest`, `LoadRequest.Marked`, `LoadRequest.Reads`.
Main statements: `LoadRequest.Reads.unique`, `parse_load_iff`, `LoadRequest.Reads.fits`. -/

namespace Spectrum

open Text Tape

/-! ### Requests -/

/-- What the fields of a load operation come to. -/
@[ext] structure LoadRequest where
  block : Block
  keepFlag : Bool
  keepParity : Bool
  start : Nat
  length : Option Nat
  step : Nat
  offset : Nat
  inc : Nat

namespace LoadRequest

/-- The bytes that are copied. -/
def copied (r : LoadRequest) : List UInt8 :=
  RamOperation.selectBytes r.block.data r.keepFlag r.keepParity r.length

/-- The operation that is carried out. -/
def operation (r : LoadRequest) : RamOperation :=
  .load r.copied (UInt32.ofNat r.start) (UInt32.ofNat r.step) (UInt32.ofNat r.offset)
    (UInt32.ofNat r.inc)

/-- A mark that is given or not. -/
def mark (given : Bool) : List Char := if given then ['+'] else []

/-- A field is digits between two marks, which are those that it begins and ends with. -/
structure Marked (field digits : List Char) (keepFlag keepParity : Bool) : Prop where
  eq : field = mark keepFlag ++ (digits ++ mark keepParity)
  flag_iff : keepFlag = true ↔ field.head? = some '+'
  parity_iff : keepParity = true ↔ field.getLast? = some '+'

/-- How a specification reads, on a tape of some blocks. -/
structure Reads (blocks : List Block) (spec : String) (r : LoadRequest) : Prop where
  block : ∃ field digits number, (fields ',' spec)[0]? = some field ∧
    Marked field.toList digits r.keepFlag r.keepParity ∧
    integer? (String.ofList digits) = some number ∧
    (blocks.find? fun b => b.number == number) = some r.block
  start : ∃ field, (fields ',' spec)[1]? = some field ∧ integer? field = some r.start
  length : RamOperation.optionalField (fields ',' spec) 2 = some r.length
  step : ∃ n, RamOperation.optionalField (fields ',' spec) 3 = some n ∧ r.step = n.getD 1
  offset : ∃ n, RamOperation.optionalField (fields ',' spec) 4 = some n ∧ r.offset = n.getD 0
  inc : ∃ n, RamOperation.optionalField (fields ',' spec) 5 = some n ∧ r.inc = n.getD 0

/-- A field is marked in one way. -/
theorem Marked.unique {field digits digits' : List Char} {keepFlag keepFlag' : Bool}
    {keepParity keepParity' : Bool} (h : Marked field digits keepFlag keepParity)
    (h' : Marked field digits' keepFlag' keepParity') :
    keepFlag = keepFlag' ∧ keepParity = keepParity' ∧ digits = digits' := by
  have hflag : keepFlag = keepFlag' := Bool.eq_iff_iff.mpr (h.flag_iff.trans h'.flag_iff.symm)
  have hparity : keepParity = keepParity' :=
    Bool.eq_iff_iff.mpr (h.parity_iff.trans h'.parity_iff.symm)
  subst hflag hparity
  have heq := h.eq.symm.trans h'.eq
  exact ⟨rfl, rfl, List.append_cancel_right (List.append_cancel_left heq)⟩

/-- A specification reads in one way. -/
theorem Reads.unique {blocks : List Block} {spec : String} {r r' : LoadRequest}
    (h : r.Reads blocks spec) (h' : r'.Reads blocks spec) : r = r' := by
  obtain ⟨field, digits, number, hfield, hmarked, hnumber, hblock⟩ := h.block
  obtain ⟨field', digits', number', hfield', hmarked', hnumber', hblock'⟩ := h'.block
  obtain rfl := Option.some.inj (hfield.symm.trans hfield')
  obtain ⟨hflag, hparity, rfl⟩ := hmarked.unique hmarked'
  obtain rfl := Option.some.inj (hnumber.symm.trans hnumber')
  obtain ⟨start, hstart, hread⟩ := h.start
  obtain ⟨start', hstart', hread'⟩ := h'.start
  obtain rfl := Option.some.inj (hstart.symm.trans hstart')
  obtain ⟨step, hstep, hstepD⟩ := h.step
  obtain ⟨step', hstep', hstepD'⟩ := h'.step
  obtain rfl := Option.some.inj (hstep.symm.trans hstep')
  obtain ⟨offset, hoffset, hoffsetD⟩ := h.offset
  obtain ⟨offset', hoffset', hoffsetD'⟩ := h'.offset
  obtain rfl := Option.some.inj (hoffset.symm.trans hoffset')
  obtain ⟨inc, hinc, hincD⟩ := h.inc
  obtain ⟨inc', hinc', hincD'⟩ := h'.inc
  obtain rfl := Option.some.inj (hinc.symm.trans hinc')
  ext1
  · exact Option.some.inj (hblock.symm.trans hblock')
  · exact hflag
  · exact hparity
  · exact Option.some.inj (hread.symm.trans hread')
  · exact Option.some.inj (h.length.symm.trans h'.length)
  · exact hstepD.trans hstepD'.symm
  · exact hoffsetD.trans hoffsetD'.symm
  · exact hincD.trans hincD'.symm

end LoadRequest

/-! ### Reading a specification -/

namespace RamOperation

theorem afterPrefix?_append (start rest : String) :
    afterPrefix? start (start ++ rest) = some rest := by
  have hprefix : start.toList.isPrefixOf (start ++ rest).toList = true := by
    rw [String.toList_append, List.isPrefixOf_iff_prefix]
    exact List.prefix_append _ _
  rw [afterPrefix?, if_pos hprefix, String.toList_append, ← String.length_toList, List.drop_left,
    String.ofList_toList]

theorem parse_load (blocks : List Block) (spec : String) :
    parse blocks ("load=" ++ spec) = parseLoad blocks spec := by
  rw [parse, afterPrefix?_append]

theorem blockMarks_sign (rest : List Char) :
    blockMarks ('+' :: rest) =
      if rest.getLast? == some '+' then (true, true, rest.dropLast) else (true, false, rest) := rfl

theorem blockMarks_of_no_sign {text : List Char} (h : text.head? ≠ some '+') :
    blockMarks text =
      if text.getLast? == some '+' then (false, true, text.dropLast) else (false, false, text) := by
  unfold blockMarks
  split
  next keepFlag text' hsplit =>
    split at hsplit
    · exact absurd rfl h
    · obtain ⟨rfl, rfl⟩ := Prod.mk.inj hsplit
      rfl

/-- The marks are taken off a field as it is marked, unless it has nothing but marks: a sign that
stands alone counts as one mark and not as both. -/
theorem marked_blockMarks {field : List Char} (h : (blockMarks field).2.2 ≠ []) :
    LoadRequest.Marked field (blockMarks field).2.2 (blockMarks field).1
      (blockMarks field).2.1 := by
  have hconcat {text : List Char} (hlast : text.getLast? = some '+') :
      text.dropLast ++ ['+'] = text := by
    obtain ⟨before, rfl⟩ := List.getLast?_eq_some_iff.mp hlast
    rw [List.dropLast_concat]
  by_cases hhead : field.head? = some '+'
  · obtain ⟨rest, rfl⟩ := List.head?_eq_some_iff.mp hhead
    have hrest : rest ≠ [] := by
      rintro rfl
      exact h rfl
    have hlast : ('+' :: rest).getLast? = rest.getLast? := by
      rw [List.getLast?_cons_of_ne_nil hrest]
    rw [blockMarks_sign]
    split
    · next hsign =>
      rw [beq_iff_eq] at hsign
      exact ⟨congrArg ('+' :: ·) (hconcat hsign).symm, by simp, by simpa [hlast] using hsign⟩
    · next hsign =>
      rw [beq_iff_eq] at hsign
      exact ⟨by simp [LoadRequest.mark], by simp, by simpa [hlast] using hsign⟩
  · rw [blockMarks_of_no_sign hhead]
    split
    · next hsign =>
      rw [beq_iff_eq] at hsign
      exact ⟨(hconcat hsign).symm, by simpa using hhead, by simpa using hsign⟩
    · next hsign =>
      rw [beq_iff_eq] at hsign
      exact ⟨by simp [LoadRequest.mark], by simpa using hhead, by simpa using hsign⟩

theorem blockMarks_of_marked {field digits : List Char} {keepFlag keepParity : Bool}
    (h : LoadRequest.Marked field digits keepFlag keepParity) (hdigits : digits ≠ []) :
    blockMarks field = (keepFlag, keepParity, digits) := by
  -- with digits the last character is not the flag mark
  have hend : keepParity = true ↔ (digits ++ LoadRequest.mark keepParity).getLast? = some '+' := by
    have hrest : digits ++ LoadRequest.mark keepParity ≠ [] := by simp [hdigits]
    have hiff := h.parity_iff
    rw [h.eq] at hiff
    rwa [List.getLast?_append_of_ne_nil _ hrest] at hiff
  have hinner : (if (digits ++ LoadRequest.mark keepParity).getLast? == some '+' then
      (keepFlag, true, (digits ++ LoadRequest.mark keepParity).dropLast)
      else (keepFlag, false, digits ++ LoadRequest.mark keepParity)) =
        (keepFlag, keepParity, digits) := by
    simp only [beq_iff_eq, ← hend]
    cases keepParity <;> simp [LoadRequest.mark]
  cases keepFlag with
  | true =>
    rw [h.eq]
    exact (blockMarks_sign _).trans hinner
  | false =>
    rw [blockMarks_of_no_sign (mt h.flag_iff.mpr Bool.false_ne_true), h.eq]
    exact hinner

/-- An integer has a digit. -/
theorem ne_nil_of_integer? {text : List Char} {n : Nat}
    (h : integer? (String.ofList text) = some n) : text ≠ [] := by
  rintro rfl
  cases h

theorem lt_of_optionalField {params : List String} {index default : Nat} {n : Option Nat}
    (h : optionalField params index = some n) (hdefault : default < integerBound) :
    n.getD default < integerBound := by
  unfold optionalField at h
  split at h
  · obtain rfl := Option.some.inj h
    exact hdefault
  · split at h
    · obtain rfl := Option.some.inj h
      exact hdefault
    · obtain ⟨k, hk, rfl⟩ := Option.map_eq_some_iff.mp h
      exact lt_of_integer? hk

end RamOperation

open RamOperation in
/-- A load operation is accepted just if its specification reads as a request. -/
theorem parse_load_iff {blocks : List Block} {spec : String} {op : RamOperation} :
    parse blocks ("load=" ++ spec) = .ok op ↔
      ∃ r : LoadRequest, r.Reads blocks spec ∧ op = r.operation := by
  rw [parse_load]
  constructor
  · intro h
    unfold parseLoad at h
    dsimp only at h
    split at h
    · next field start rest hfields =>
      split at h
      · next number start' length step offset inc hnumber hstart hlength hstep hoffset hinc =>
        split at h
        · cases h
        · next b hb =>
          refine ⟨⟨b, (blockMarks field.toList).1, (blockMarks field.toList).2.1, start', length,
            step.getD 1, offset.getD 0, inc.getD 0⟩, ?_, (Except.ok.inj h).symm⟩
          exact {
            block := ⟨field, _, number, by rw [hfields]; rfl,
              marked_blockMarks (ne_nil_of_integer? hnumber), hnumber, hb⟩
            start := ⟨start, by rw [hfields]; rfl, hstart⟩
            length := hlength
            step := ⟨step, hstep, rfl⟩
            offset := ⟨offset, hoffset, rfl⟩
            inc := ⟨inc, hinc, rfl⟩ }
      · cases h
    · cases h
  · rintro ⟨r, hr, rfl⟩
    obtain ⟨field, digits, number, hfield, hmarked, hnumber, hb⟩ := hr.block
    obtain ⟨start, hstart, hstart'⟩ := hr.start
    obtain ⟨step, hstep, hstep'⟩ := hr.step
    obtain ⟨offset, hoffset, hoffset'⟩ := hr.offset
    obtain ⟨inc, hinc, hinc'⟩ := hr.inc
    obtain ⟨rest, hfields⟩ : ∃ rest, fields ',' spec = field :: start :: rest := by
      cases hfields : fields ',' spec with
      | nil => simp [hfields] at hfield
      | cons first others =>
        rw [hfields] at hfield hstart
        obtain rfl := Option.some.inj hfield
        cases others with
        | nil => cases hstart
        | cons second rest =>
          obtain rfl := Option.some.inj hstart
          exact ⟨rest, rfl⟩
    have hmarks := blockMarks_of_marked hmarked (ne_nil_of_integer? hnumber)
    have hlength := hr.length
    rw [hfields] at hlength hstep hoffset hinc
    simp only [parseLoad, hfields, hmarks, hnumber, hstart', hlength, hstep, hoffset, hinc, hb,
      ← hstep', ← hoffset', ← hinc', LoadRequest.operation, LoadRequest.copied]

namespace LoadRequest

/-- All numbers of a request fit into 32 bits. -/
structure Fits (r : LoadRequest) : Prop where
  start : r.start < 2 ^ 32
  step : r.step < 2 ^ 32
  offset : r.offset < 2 ^ 32
  inc : r.inc < 2 ^ 32

theorem Reads.fits {blocks : List Block} {spec : String} {r : LoadRequest}
    (h : r.Reads blocks spec) : r.Fits where
  start := by
    obtain ⟨field, -, hstart⟩ := h.start
    exact lt_of_integer? hstart
  step := by
    obtain ⟨n, hn, hstep⟩ := h.step
    rw [hstep]
    exact RamOperation.lt_of_optionalField hn (by decide)
  offset := by
    obtain ⟨n, hn, hoffset⟩ := h.offset
    rw [hoffset]
    exact RamOperation.lt_of_optionalField hn (by decide)
  inc := by
    obtain ⟨n, hn, hinc⟩ := h.inc
    rw [hinc]
    exact RamOperation.lt_of_optionalField hn (by decide)

end LoadRequest

end Spectrum
