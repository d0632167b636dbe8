import Mathlib.Tactic.Common
import Spectrum.Proofs.Z80.Stack

/-! # R counts opcode fetches

The low seven bits of R go up by one for each byte that is fetched as an opcode, which the first two
bytes of an instruction tell, and for each interrupt that is accepted.  The top bit stays.  The one
instruction that does otherwise is LD R,A.

Main definitions: `opcodesFetched`, `Counts`, `RefreshesTo`, `Machine.LoadsR`, `Unseeded`.
Main statements: `Machine.r_step`, `Machine.r_step_of_loadsR`, `Unseeded.refreshesTo`. -/

namespace Spectrum

namespace Z80

/-! ### Counting -/

/-- The bytes that are fetched as opcodes for an instruction: a prefix is one, and so is the opcode
behind it, but not what follows an index prefix that stands alone. -/
def opcodesFetched (b₀ b₁ : UInt8) : Nat := if IsPrefix b₀ ∧ ¬ StandsAlone b₀ b₁ then 2 else 1

theorem Instruction.fetches_decode (b₀ b₁ b₂ b₃ : UInt8) :
    (decode b₀ b₁ b₂ b₃).page.fetches = opcodesFetched b₀ b₁ := by
  refine decode_cases (P := fun i => i.page.fetches = opcodesFetched b₀ b₁) ?main ?bits ?extended
    ?lonePrefix ?indexed ?indexedBits
  case main => exact fun h => (if_neg fun h' => h h'.1).symm
  case lonePrefix => exact fun _ _ h => (if_neg fun h' => h'.2 h).symm
  case bits =>
    rintro rfl
    exact (if_pos ⟨by decide, fun h => absurd h.1 (by decide)⟩).symm
  case extended =>
    rintro rfl
    exact (if_pos ⟨by decide, fun h => absurd h.1 (by decide)⟩).symm
  case indexed =>
    refine fun _ hi h => (if_pos ⟨Index.isPrefix_of_ofByte? hi, fun hs => h ?_⟩).symm
    exact .inr hs.2
  case indexedBits =>
    rintro _ _ hi rfl
    exact (if_pos ⟨Index.isPrefix_of_ofByte? hi, fun h => absurd h.2 (by decide)⟩).symm

/-- R after `n` more fetches than before: its low seven bits have gone up by as many, round 128, and
its top bit is the same. -/
def Counts (r : UInt8) (n : Nat) (r' : UInt8) : Prop :=
  r'.bit 7 = r.bit 7 ∧ r'.toNat % 128 = (r.toNat + n) % 128

theorem bit_seven (b : UInt8) : b.bit 7 = decide (128 ≤ b.toNat) := by
  induction b using UInt8.of_fin with
  | h i =>
    revert i
    decide +kernel

theorem counts_refreshed (r : UInt8) (n : Nat) : Counts r n (refreshed r n) := by
  have hr := r.toNat_lt
  rw [Counts, bit_seven, bit_seven, toNat_refreshed, decide_eq_decide]
  omega

/-- One value of R comes from another by refreshes alone. -/
def RefreshesTo (r r' : UInt8) : Prop := ∃ n, r' = refreshed r n

theorem refreshesTo_of_eq {r r' : UInt8} (h : r' = r) : RefreshesTo r r' :=
  ⟨0, h.trans (refreshed_zero r).symm⟩

theorem RefreshesTo.trans {r r' r'' : UInt8} (h : RefreshesTo r r') (h' : RefreshesTo r' r'') :
    RefreshesTo r r'' := by
  obtain ⟨m, rfl⟩ := h
  obtain ⟨n, rfl⟩ := h'
  exact ⟨m + n, refreshed_refreshed r m n⟩

/-- They leave the top bit alone. -/
theorem RefreshesTo.bit_eq {r r' : UInt8} (h : RefreshesTo r r') : r'.bit 7 = r.bit 7 := by
  obtain ⟨n, rfl⟩ := h
  exact (counts_refreshed r n).1

/-! ### Operations -/

section

variable (answer : UInt16 → UInt8) (v : UInt8)

theorem Exec.steady_r : Exec.Steady answer fun e => e.machine.cpu.r = v :=
  Exec.steady_field answer (fun c => c.r) v fun _ _ h => h.r

theorem Exec.stacks_r : Exec.Stacks fun e => e.machine.cpu.r = v :=
  Exec.stacks_field (fun c => c.r) v (fun _ => rfl) fun _ => rfl

end

namespace Operation

theorem ofMain_ne_storeSpecial (s : Substitution) (opcode n₁ n₂ : UInt8) (target : Special) :
    ofMain s opcode n₁ n₂ ≠ .storeSpecial target := by
  unfold ofMain
  dsimp only
  generalize opcode.toNat / 64 = x
  generalize opcode.toNat / 8 % 8 = y
  generalize opcode.toNat % 8 = z
  repeat' split
  all_goals nofun

theorem eq_of_ofExtended_eq_storeR {opcode n₁ n₂ : UInt8}
    (h : ofExtended opcode n₁ n₂ = .storeSpecial .r) : opcode = 0x4F := by
  have hz : opcode.toNat % 8 < 8 := by omega
  have hf := eq_of_fields opcode
  unfold ofExtended at h
  dsimp only at h
  generalize opcode.toNat / 64 = x at h hf
  generalize opcode.toNat / 8 % 8 = y at h hf
  generalize opcode.toNat % 8 = z at h hf hz
  repeat' split at h
  all_goals try (cases h; done)
  obtain rfl : z = 7 := by grind
  exact hf

end Operation

/-- LD R,A is known from its two bytes. -/
theorem Instruction.decode_eq_storeR_iff {b₀ b₁ b₂ b₃ : UInt8} :
    (decode b₀ b₁ b₂ b₃).operation = .storeSpecial .r ↔ b₀ = 0xED ∧ b₁ = 0x4F := by
  constructor
  · refine decode_cases (P := fun i => i.operation = .storeSpecial .r → b₀ = 0xED ∧ b₁ = 0x4F)
      ?main ?bits ?extended ?lonePrefix ?indexed ?indexedBits
    case main => exact fun _ h => absurd h (Operation.ofMain_ne_storeSpecial _ _ _ _ _)
    case bits => exact fun _ h => absurd h (Operation.ofBits_ne rfl _ _ _)
    case extended => exact fun hed h => ⟨hed, Operation.eq_of_ofExtended_eq_storeR h⟩
    case lonePrefix =>
      intro _ _ _ h
      cases h
    case indexed => exact fun _ _ _ h => absurd h (Operation.ofMain_ne_storeSpecial _ _ _ _ _)
    case indexedBits => exact fun _ _ _ _ h => absurd h (Operation.ofBits_ne rfl _ _ _)
  · rintro ⟨rfl, rfl⟩
    rfl

end Z80

namespace Machine

open Z80

variable {m : Machine}

/-- Whether the instruction at the program counter is LD R,A. -/
def LoadsR (m : Machine) : Prop := m.read m.cpu.pc = 0xED ∧ m.read (m.cpu.pc + 1) = 0x4F

instance : DecidablePred LoadsR := fun _ => inferInstanceAs (Decidable (_ ∧ _))

/-! ### Instructions and interrupts -/

/-- Every other instruction counts its opcodes. -/
theorem r_step (h : ¬ m.LoadsR) (answer : UInt16 → UInt8) :
    (m.step answer).1.cpu.r =
      refreshed m.cpu.r (opcodesFetched (m.read m.cpu.pc) (m.read (m.cpu.pc + 1))) := by
  let i := m.instructionAt m.cpu.pc
  have hpermitted : i.operation.Permitted fun e =>
      e.machine.cpu.r = refreshed m.cpu.r i.page.fetches :=
    { waits := fun _ _ h => h
      roams := fun _ _ _ h => h
      usesStack := fun _ => Exec.stacks_r _
      restacks := fun _ _ _ h => h
      reseeds := fun hop => absurd (Instruction.decode_eq_storeR_iff.mp hop) h }
  have hfetches : i.page.fetches = _ := Instruction.fetches_decode _ _ _ _
  rw [m.step_eq_carriedOut answer, ← hfetches]
  exact Operation.keeps_execute_of_permitted (Exec.steady_r answer _) m.cpu.pc hpermitted
    (m.fetched i) rfl

theorem r_step_of_loadsR (h : m.LoadsR) (answer : UInt16 → UInt8) :
    (m.step answer).1.cpu.r = m.cpu.a := by
  have hop : (m.instructionAt m.cpu.pc).operation = .storeSpecial .r :=
    Instruction.decode_eq_storeR_iff.mpr h
  rw [m.step_eq_carriedOut answer]
  unfold carriedOut
  dsimp only
  rw [hop]
  rfl

theorem r_resume (c : Cpu) : (resume c).r = c.r := by
  unfold resume
  split <;> rfl

/-- An interrupt counts as one. -/
theorem r_interrupt {bus : UInt8} {a : Accepted} (h : m.interrupt bus = .ok (some a)) :
    a.machine.cpu.r = refreshed m.cpu.r 1 := by
  have henter := (Exec.steady_r (fun _ => 0) (refreshed m.cpu.r 1)).enterHandler
    (fun _ h => h) (Exec.stacks_r (refreshed m.cpu.r 1)) bus
  obtain rfl := eq_of_interrupt h
  exact henter _ (congrArg (refreshed · 1) (r_resume m.cpu))

theorem r_nonMaskableInterrupt (m : Machine) :
    m.nonMaskableInterrupt.machine.cpu.r = refreshed m.cpu.r 1 :=
  (Exec.steady_r (fun _ => 0) (refreshed m.cpu.r 1)).enterNonMaskable (fun _ h => h)
    (Exec.stacks_r (refreshed m.cpu.r 1)) _ (congrArg (refreshed · 1) (r_resume m.cpu))

end Machine

namespace Z80

/-! ### Runs -/

/-- The machines that a run comes to without LD R,A.  Between instructions anything may change but
R. -/
inductive Unseeded (start : Machine) : Machine → Prop
  | start : Unseeded start start
  | step {m : Machine} (h : Unseeded start m) (hr : ¬ m.LoadsR) (answer : UInt16 → UInt8) :
      Unseeded start (m.step answer).1
  | interrupt {m : Machine} (h : Unseeded start m) {bus : UInt8} {a : Accepted}
      (ha : m.interrupt bus = .ok (some a)) : Unseeded start a.machine
  | nonMaskable {m : Machine} (h : Unseeded start m) :
      Unseeded start m.nonMaskableInterrupt.machine
  | change {m : Machine} (h : Unseeded start m) (m' : Machine) (hr : m'.cpu.r = m.cpu.r) :
      Unseeded start m'

/-- R is refreshed throughout, and nothing else. -/
theorem Unseeded.refreshesTo {start m : Machine} (h : Unseeded start m) :
    RefreshesTo start.cpu.r m.cpu.r := by
  induction h with
  | start => exact refreshesTo_of_eq rfl
  | step h hr answer ih => exact ih.trans ⟨_, Machine.r_step hr answer⟩
  | interrupt h ha ih => exact ih.trans ⟨1, Machine.r_interrupt ha⟩
  | nonMaskable h ih => exact ih.trans ⟨1, Machine.r_nonMaskableInterrupt _⟩
  | change h m' hr ih => exact ih.trans (refreshesTo_of_eq hr)

end Z80
end Spectrum
