import Mathlib.Data.List.Find
import Mathlib.Data.List.Pairwise
import Mathlib.Tactic.Common
import Spectrum.Proofs.Loader.FoundLoops

/-! # One loop at an address

Polling loops are told by their bytes, some of which are left open, and the first loop of a list that
fits is taken.  Any two loops of the catalogue fix some byte differently, laid one upon the other by
their first instructions, and also by the instructions that sample the tape.  So no more than one of
them stands at an address, or samples the tape there, and it does not matter in which order loops
are looked for.

Main definitions: `PollingLoop.clash`, `PollingLoop.Apart`.
Main statements: `PollingLoop.Apart.not_isAt`, `PollingLoop.inWindow?_bytesAt`,
`recognition_unambiguous`. -/

namespace Spectrum.Loader

open Z80

namespace PollingLoop

/-! ### Patterns that exclude each other -/

/-- Whether two patterns fix the same byte differently. -/
def clash : List (Option UInt8) → List (Option UInt8) → Bool
  | some b :: pattern, some c :: pattern' => b != c || clash pattern pattern'
  | _ :: pattern, _ :: pattern' => clash pattern pattern'
  | _, _ => false

theorem exists_of_clash {pattern pattern' : List (Option UInt8)} (h : clash pattern pattern' = true) :
    ∃ (i : Nat) (b c : UInt8),
      pattern[i]? = some (some b) ∧ pattern'[i]? = some (some c) ∧ b ≠ c := by
  fun_induction clash pattern pattern' with
  | case1 b pattern c pattern' ih =>
    rcases Bool.or_eq_true_iff.mp h with hne | h
    · exact ⟨0, b, c, rfl, rfl, bne_iff_ne.mp hne⟩
    · obtain ⟨i, hi⟩ := ih h
      exact ⟨i + 1, hi⟩
  | case2 cell pattern cell' pattern' _ ih =>
    obtain ⟨i, hi⟩ := ih h
    exact ⟨i + 1, hi⟩
  | case3 => cases h

/-- Two loops that clash when they are laid one upon the other by a place in each of them. -/
def Apart (place : PollingLoop → UInt16) (p q : PollingLoop) : Prop :=
  clash (p.pattern.drop ((place p).toNat - (place q).toNat))
    (q.pattern.drop ((place q).toNat - (place p).toNat)) = true

instance (place : PollingLoop → UInt16) (p q : PollingLoop) : Decidable (Apart place p q) :=
  inferInstanceAs (Decidable (_ = _))

theorem Apart.not_isAt {place : PollingLoop → UInt16} {p q : PollingLoop} (h : Apart place p q)
    (memory : Memory) (address : UInt16) :
    ¬ (p.isAt memory (address - place p) = true ∧ q.isAt memory (address - place q) = true) := by
  rintro ⟨hp, hq⟩
  obtain ⟨i, b, c, hb, hc, hne⟩ := exists_of_clash h
  rw [List.getElem?_drop] at hb hc
  rw [isAt_iff] at hp hq
  -- the byte is the same distance behind the place that comes later in its loop
  have hsame : address - place p + UInt16.ofNat ((place p).toNat - (place q).toNat + i) =
      address - place q + UInt16.ofNat ((place q).toNat - (place p).toNat + i) := by
    have hshift {v w : UInt16} (hle : w ≤ v) : address - v + UInt16.ofNat (v.toNat - w.toNat + i) =
        address - w + UInt16.ofNat (w.toNat - v.toNat + i) := by
      have hle' := UInt16.le_iff_toNat_le.mp hle
      rw [Nat.sub_eq_zero_of_le hle', Nat.zero_add, UInt16.ofNat_add, ← UInt16.toNat_sub_of_le _ _ hle,
        UInt16.ofNat_toNat, ← UInt16.add_assoc]
      grind
    rcases UInt16.le_total (place q) (place p) with hle | hle
    · exact hshift hle
    · exact (hshift hle).symm
  exact hne ((hp _ b hb).symm.trans ((congrArg memory.read hsame).trans (hq _ c hc)))

/-! ### Windows -/

/-- A window that a pattern fits has the bytes that the pattern fixes. -/
theorem getElem?_of_fits {pattern : List (Option UInt8)} {window : List UInt8}
    (h : fits pattern window = true) {i : Nat} {b : UInt8} (hb : pattern[i]? = some (some b)) :
    window[i]? = some b := by
  fun_induction fits pattern window generalizing i with
  | case1 => cases hb
  | case2 => cases h
  | case3 pattern value window ih =>
    cases i with
    | zero => cases hb
    | succ i => exact ih h hb
  | case4 pattern expected value window ih =>
    obtain ⟨heq, h⟩ := Bool.and_eq_true_iff.mp h
    cases i with
    | zero =>
      cases hb
      exact congrArg some (beq_iff_eq.mp heq).symm
    | succ i => exact ih h hb

/-- Two patterns that clash do not fit one window. -/
theorem not_fits_of_clash {pattern pattern' : List (Option UInt8)}
    (h : clash pattern pattern' = true) (window : List UInt8) :
    ¬ (fits pattern window = true ∧ fits pattern' window = true) := by
  rintro ⟨hp, hq⟩
  obtain ⟨i, b, c, hb, hc, hne⟩ := exists_of_clash h
  exact hne (Option.some.inj ((getElem?_of_fits hp hb).symm.trans (getElem?_of_fits hq hc)))

theorem fits_bytesAt (m : Machine) (address : UInt16) {pattern : List (Option UInt8)} {n : Nat}
    (hn : pattern.length ≤ n) :
    fits pattern (m.bytesAt address n) = fitsAt m.memory address pattern := by
  induction pattern generalizing address n with
  | nil => simp [fits, fitsAt]
  | cons cell pattern ih =>
    obtain ⟨n, rfl⟩ := Nat.exists_eq_add_of_le' (Nat.le_trans (Nat.le_add_left 1 _) hn)
    have hrest := ih (address + 1) (Nat.le_of_succ_le_succ hn)
    cases cell with
    | none => exact hrest
    | some expected => exact congrArg (expected == m.memory.read address && ·) hrest

theorem inWindow?_bytesAt {loops : List PollingLoop} (m : Machine) (address : UInt16) {n : Nat}
    (hn : ∀ loop ∈ loops, loop.pattern.length ≤ n) :
    inWindow? loops (m.bytesAt address n) = inMemory? loops m.memory address :=
  List.find?_congr fun loop hl => fits_bytesAt m address (hn loop hl)

/-! ### The catalogue -/

/-- Whether a loop stands in memory with its IN A,(FE) at an address. -/
def samplesAt (loop : PollingLoop) (memory : Memory) (address : UInt16) : Bool :=
  loop.isAt memory (address - loop.inOffset)

theorem apart_starts : catalogue.Pairwise (Apart fun _ => 0) := by decide +kernel

theorem apart_samples : catalogue.Pairwise (Apart inOffset) := by decide +kernel

/-- A test that no two entries of the catalogue pass. -/
def Exclusive (test : PollingLoop → Bool) : Prop :=
  catalogue.Pairwise fun p q => ¬ (test p = true ∧ test q = true)

theorem exclusive_fits (window : List UInt8) : Exclusive fun loop => fits loop.pattern window :=
  apart_starts.imp fun h => not_fits_of_clash h window

theorem exclusive_isAt (memory : Memory) (address : UInt16) :
    Exclusive fun loop => loop.isAt memory address :=
  apart_starts.imp fun h => by simpa only [UInt16.sub_zero] using h.not_isAt memory address

theorem exclusive_samplesAt (memory : Memory) (address : UInt16) :
    Exclusive fun loop => loop.samplesAt memory address :=
  apart_samples.imp fun h => h.not_isAt memory address

/-- The first loop that passes such a test is the first in every order. -/
theorem Exclusive.find?_eq {test : PollingLoop → Bool} (h : Exclusive test)
    {loops loops' : List PollingLoop} (hl : ∀ loop ∈ loops, loop ∈ catalogue)
    (hperm : loops.Perm loops') : loops.find? test = loops'.find? test := by
  refine List.find?_eq_find?_of_perm hperm ?_
  rintro p ⟨hp, htp⟩ q ⟨hq, htq⟩
  by_contra hne
  have hsymm : Std.Symm fun p q => ¬ (test p = true ∧ test q = true) :=
    ⟨fun _ _ hpq hqp => hpq hqp.symm⟩
  exact List.Pairwise.forall h (hl p hp) (hl q hq) hne ⟨htp, htq⟩

end PollingLoop

namespace Session

/-- A session looks around an instruction for the first loop that samples the tape there. -/
theorem loopAround?_eq (s : Session) (memory : Memory) (address : UInt16) :
    s.loopAround? memory address =
      (s.loops.find? fun loop => loop.samplesAt memory address).map fun loop =>
        (address - loop.inOffset, loop) := by
  unfold loopAround?
  induction s.loops with
  | nil => rfl
  | cons loop rest ih =>
    rw [List.findSome?_cons, List.find?_cons, PollingLoop.samplesAt]
    dsimp only
    cases loop.isAt memory (address - loop.inOffset) with
    | false => exact ih
    | true => rfl

/-- What it finds there does not depend on the order of its loops. -/
theorem detectLoop_perm (s : Session) {loops loops' : List PollingLoop}
    (hl : ∀ loop ∈ loops, loop ∈ catalogue) (hperm : loops.Perm loops') (memory : Memory)
    (address : UInt16) :
    { s with loops := loops' }.detectLoop memory address =
      { { s with loops }.detectLoop memory address with loops := loops' } := by
  have haround : { s with loops, examined := address :: s.examined }.loopAround? memory address =
      { s with loops := loops', examined := address :: s.examined }.loopAround? memory address := by
    rw [loopAround?_eq, loopAround?_eq]
    dsimp only
    rw [(PollingLoop.exclusive_samplesAt memory address).find?_eq hl hperm]
  unfold detectLoop
  dsimp only
  rw [haround]
  cases s.examined.contains address with
  | true => rfl
  | false =>
    cases loopAround? { s with loops := loops', examined := address :: s.examined } memory address <;>
      rfl

end Session

section

variable {loops loops' : List PollingLoop}

/-- No two entries of the catalogue stand at one address, or with an IN A,(FE) at one address.  So
the loop that a window of bytes begins with, the loop that stands at an address and the loop that is
found around an instruction are the same in whatever order loops are looked for; and a window of
bytes from an address, as long as the longest pattern, begins with the loop that stands there. -/
theorem recognition_unambiguous (hl : ∀ loop ∈ loops, loop ∈ catalogue)
    (hperm : loops.Perm loops') (m : Machine) (address : UInt16) :
    PollingLoop.Exclusive (fun loop => loop.isAt m.memory address) ∧
      PollingLoop.Exclusive (fun loop => loop.samplesAt m.memory address) ∧
      (∀ window, PollingLoop.inWindow? loops' window = PollingLoop.inWindow? loops window) ∧
      PollingLoop.inMemory? loops' m.memory address =
        PollingLoop.inMemory? loops m.memory address ∧
      (∀ s : Session, { s with loops := loops' }.detectLoop m.memory address =
        { { s with loops }.detectLoop m.memory address with loops := loops' }) ∧
      ∀ n, (∀ loop ∈ catalogue, loop.pattern.length ≤ n) →
        PollingLoop.inWindow? loops (m.bytesAt address n) =
          PollingLoop.inMemory? loops m.memory address :=
  ⟨PollingLoop.exclusive_isAt m.memory address, PollingLoop.exclusive_samplesAt m.memory address,
    fun window => ((PollingLoop.exclusive_fits window).find?_eq hl hperm).symm,
    ((PollingLoop.exclusive_isAt m.memory address).find?_eq hl hperm).symm,
    fun s => s.detectLoop_perm hl hperm m.memory address,
    fun _ hn => PollingLoop.inWindow?_bytesAt m address fun loop h => hn loop (hl loop h)⟩

/-- A machine with the loop of the ROM across the top of memory. -/
def acrossTop : Machine where
  memory := Memory.blank.writeAll 0xFFFA
    [0x04, 0xC8, 0x3E, 0x7F, 0xDB, 0xFE, 0x1F, 0xD0, 0xA9, 0xE6, 0x20, 0x28, 0xF3]

/-- Its loop is recognized in the order of the catalogue and in the opposite order, in memory and in
a window. -/
theorem recognition_unambiguous_acrossTop :
    (∀ loop ∈ catalogue, loop ∈ catalogue) ∧ catalogue.Perm catalogue.reverse ∧
      (∀ loop ∈ catalogue, loop.pattern.length ≤ 23) ∧
      PollingLoop.inMemory? catalogue acrossTop.memory 0xFFFA = some PollingLoop.rom ∧
      PollingLoop.inMemory? catalogue.reverse acrossTop.memory 0xFFFA = some PollingLoop.rom ∧
      PollingLoop.inWindow? catalogue (acrossTop.bytesAt 0xFFFA 23) = some PollingLoop.rom := by
  have hlength : ∀ loop ∈ catalogue, loop.pattern.length ≤ 23 := by decide +kernel
  have hrom : PollingLoop.inMemory? catalogue acrossTop.memory 0xFFFA = some PollingLoop.rom := by
    decide +kernel
  obtain ⟨-, -, -, hreverse, -, hwindow⟩ := recognition_unambiguous (fun _ hl => hl)
    (List.reverse_perm catalogue).symm acrossTop 0xFFFA
  exact ⟨fun _ hl => hl, (List.reverse_perm catalogue).symm, hlength, hrom, hreverse.trans hrom,
    (hwindow 23 hlength).trans hrom⟩

end

end Spectrum.Loader
