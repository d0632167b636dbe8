import Mathlib.Tactic.Common
import Spectrum.Snapshot.RamEdit

/-! # Edits that fail

An edit reads all of its specification before it changes anything.  So one that fails has changed
nothing, whichever part of its specification is at fault, and a list of edits that fails leaves
what the items in front of the failing one have made.

Main definitions: `Decided`, `FailsWhole`.
Main statements: `Decided.editAll_eq_error_iff`, `edits_fail_whole`. -/

namespace Spectrum

open Z80 Text Tape

variable {σ ε : Type} {edit : String → σ → σ × Option ε}

/-- Every specification is refused, whatever it is to be applied to, or makes a change. -/
def Decided (edit : String → σ → σ × Option ε) : Prop :=
  ∀ spec, (∃ e, ∀ s, edit spec s = (s, some e)) ∨
    ∃ change : σ → σ, ∀ s, edit spec s = (change s, none)

/-- Edits that are made wholly or not at all, in the order of their list. -/
structure FailsWhole (edit : String → σ → σ × Option ε) : Prop where
  decided : Decided edit
  /-- A list in two parts is applied one part after the other; if the first fails, the second is
  left out. -/
  append : ∀ s xs ys, editAll edit s (xs ++ ys) =
    match editAll edit s xs with
    | (t, none) => editAll edit t ys
    | (t, some e) => (t, some e)
  /-- A list fails at an item, and leaves what the items in front of it have made. -/
  fails_iff : ∀ s specs t e, editAll edit s specs = (t, some e) ↔
    ∃ k, ∃ h : k < specs.length,
      editAll edit s (specs.take k) = (t, none) ∧ (edit specs[k] t).2 = some e

theorem editAll_cons_of_ok {spec : String} {s t : σ} (h : edit spec s = (t, none))
    (specs : List String) : editAll edit s (spec :: specs) = editAll edit t specs := by
  rw [editAll, h]

theorem editAll_cons_of_error {spec : String} {s t : σ} {e : ε} (h : edit spec s = (t, some e))
    (specs : List String) : editAll edit s (spec :: specs) = (t, some e) := by
  rw [editAll, h]

theorem Decided.unchanged (hedit : Decided edit) {spec : String} {s t : σ} {e : ε}
    (h : edit spec s = (t, some e)) : t = s := by
  rcases hedit spec with ⟨e', hrefused⟩ | ⟨change, hchanged⟩
  · exact (congrArg Prod.fst (h.symm.trans (hrefused s)))
  · cases h.symm.trans (hchanged s)

/-- A list fails at the first item that does. -/
theorem Decided.editAll_eq_error_iff (hedit : Decided edit) {s t : σ} {specs : List String}
    {e : ε} :
    editAll edit s specs = (t, some e) ↔
      ∃ k, ∃ h : k < specs.length,
        editAll edit s (specs.take k) = (t, none) ∧ (edit specs[k] t).2 = some e := by
  induction specs generalizing s with
  | nil => simp [editAll]
  | cons spec specs ih =>
    rcases hfirst : edit spec s with ⟨s', result⟩
    cases result with
    | none =>
      rw [editAll_cons_of_ok hfirst, ih]
      constructor
      · rintro ⟨k, hk, hbefore, hfails⟩
        exact ⟨k + 1, Nat.succ_lt_succ hk, (editAll_cons_of_ok hfirst _).trans hbefore, hfails⟩
      · rintro ⟨k, hk, hbefore, hfails⟩
        cases k with
        | zero =>
          obtain rfl : s = t := congrArg Prod.fst hbefore
          rw [List.getElem_cons_zero, hfirst] at hfails
          cases hfails
        | succ k =>
          rw [List.take_succ_cons, editAll_cons_of_ok hfirst] at hbefore
          exact ⟨k, Nat.lt_of_succ_lt_succ hk, hbefore, hfails⟩
    | some e' =>
      -- the list stops here, with nothing in front of it to be kept
      obtain rfl := hedit.unchanged hfirst
      rw [editAll_cons_of_error hfirst]
      constructor
      · intro h
        obtain ⟨rfl, he⟩ := Prod.mk.inj h
        exact ⟨0, Nat.succ_pos _, rfl, (congrArg Prod.snd hfirst).trans he⟩
      · rintro ⟨k, hk, hbefore, hfails⟩
        cases k with
        | zero =>
          obtain rfl : s' = t := congrArg Prod.fst hbefore
          rw [List.getElem_cons_zero, hfirst] at hfails
          exact Prod.ext rfl hfails
        | succ k =>
          rw [List.take_succ_cons, editAll_cons_of_error hfirst] at hbefore
          cases hbefore

theorem Decided.failsWhole (hedit : Decided edit) : FailsWhole edit where
  decided := hedit
  append := editAll_append edit
  fails_iff _ _ _ _ := hedit.editAll_eq_error_iff

/-! ### The three kinds of edits -/

theorem editRam_decided (blocks : List Block) : Decided (editRam blocks) := by
  intro spec
  cases hparse : RamOperation.parse blocks spec with
  | error e => exact .inl ⟨e, fun s => by simp only [editRam, hparse]⟩
  | ok op => exact .inr ⟨_, fun s => by simp only [editRam, hparse]; rfl⟩

theorem editRegister_decided : Decided editRegister := by
  intro spec
  cases hname : RegisterName.parse? (nameAndValue spec).1 with
  | none => exact .inl ⟨.unknownRegister spec, fun r => by simp only [editRegister, hname]⟩
  | some register =>
    cases hvalue : integer? (nameAndValue spec).2 with
    | none => exact .inl ⟨.registerValue spec, fun r => by simp only [editRegister, hname, hvalue]⟩
    | some n => exact .inr ⟨_, fun r => by simp only [editRegister, hname, hvalue]; rfl⟩

theorem editState_decided : Decided editState := by
  intro spec
  cases hname : Parameter.parse? (nameAndValue spec).1 with
  | none => exact .inl ⟨.unknownParameter spec, fun s => by simp only [editState, hname]⟩
  | some p =>
    cases hvalue : integer? (nameAndValue spec).2 with
    | none => exact .inl ⟨.parameterValue spec, fun s => by simp only [editState, hname, hvalue]⟩
    | some n => exact .inr ⟨_, fun s => by simp only [editState, hname, hvalue]; rfl⟩

/-- Memory operations, registers and hardware state are edited wholly or not at all. -/
theorem edits_fail_whole (blocks : List Block) :
    FailsWhole (editRam blocks) ∧ FailsWhole editRegister ∧ FailsWhole editState :=
  ⟨(editRam_decided blocks).failsWhole, editRegister_decided.failsWhole,
    editState_decided.failsWhole⟩

/-- The step of the second poke is zero: the first has been made, and the third is left out. -/
theorem edits_fail_whole_zeroStep :
    editAll (editRam []) {} ["poke=16384,7", "poke=16384-16386-0,1", "poke=16385,9"] =
      ({ memory := Memory.blank.write 16384 7 }, some (.pokeRange "16384-16386-0,1")) := by
  have hfirst : RamOperation.parse [] "poke=16384,7" = .ok (.poke 16384 16384 1 .assign 7) :=
    rfl
  have hsecond : RamOperation.parse [] "poke=16384-16386-0,1" =
      .error (.pokeRange "16384-16386-0,1") :=
    rfl
  have haddresses : RamOperation.rangeAddresses 16384 16384 1 = [16384] := by decide
  refine ((edits_fail_whole []).1.fails_iff _ _ _ _).mpr ⟨1, by decide, ?_, ?_⟩
  · rw [List.take_succ_cons, List.take_zero, editAll_cons_of_ok (t := _)]
    · rfl
    · simp only [editRam, hfirst, RamOperation.apply, haddresses]
      rfl
  · simp only [editRam, List.getElem_cons_succ, List.getElem_cons_zero, hsecond]

end Spectrum
