import Mathlib.Data.Nat.Find
import Mathlib.Tactic.Common
import Spectrum.Proofs.Z80.Cost
import Spectrum.Trace.Run

/-! # Where a bounded run ends

A traced run is plain execution that is cut off: `Limits.Holds` says when a limit that is given holds
after some instructions, and the run ends with the first instruction after which one does.  Nothing
else is said of runs to an address or to the end of a routine, which need not come to it.  A limit on
the instructions is always reached, and so is one on the time, since every instruction takes four
T-states or more; but the clock has 64 bits, and one that runs over starts again from zero.

Main definitions: `Limits.Holds`, `Run.after`, `StopsAfter`.
Main statements: `Machine.add_four_mul_le_clock_ran`, `exists_stopsAfter`, `toLimit_stopsAfter`. -/

namespace Spectrum

open Z80

namespace Machine

/-- While the clock does not run over, it counts the instructions. -/
theorem add_four_mul_le_clock_ran {m : Machine} {answers : Nat → UInt16 → UInt8} {n : Nat}
    (h : ∀ k < n, (m.ran answers k).cpu.clock ≤ (m.ran answers (k + 1)).cpu.clock) :
    m.cpu.clock.toNat + 4 * n ≤ (m.ran answers n).cpu.clock.toNat := by
  induction n with
  | zero => exact Nat.le_refl _
  | succ n ih =>
    have hn := ih fun k hk => h k (by omega)
    have hstep := h n (Nat.lt_succ_self n)
    obtain ⟨hmax, hclock⟩ := (m.ran answers n).clock_step (answers n)
    have hmin := (m.ran answers n).le_cost_step (answers n)
    rw [ran] at hstep ⊢
    rw [hclock] at hstep ⊢
    generalize ((m.ran answers n).step (answers n)).2.cost = cost at hmax hmin hstep ⊢
    have htime := (m.ran answers n).cpu.clock.toNat_lt
    rw [UInt64.le_iff_toNat_le, UInt64.toNat_add, UInt64.toNat_ofNat'] at hstep
    rw [UInt64.toNat_add, UInt64.toNat_ofNat']
    omega

end Machine

namespace Trace

/-! ### Limits -/

/-- A limit that is given holds after the `n`th instruction of a run, which has left the processor
as it is. -/
@[mk_iff]
inductive Limits.Holds (l : Limits) (n : Nat) (c : Cpu) : Prop
  | operations (hl : 0 < l.operations) (h : l.operations.toNat ≤ n)
  | tstates (hl : 0 < l.tstates) (h : l.tstates ≤ c.clock)
  | stop (h : l.stop = some c.pc)
  | returned (hl : l.returns = true) (ho : l.operations = 0) (ht : l.tstates = 0)
      (hs : l.stop = none) (h : c.balance < 0)

theorem Limits.bounded_eq_false_iff {l : Limits} :
    l.bounded = false ↔ l.operations = 0 ∧ l.tstates = 0 ∧ l.stop = none := by
  have hzero : ∀ x : UInt64, decide (x > 0) = false ↔ x = 0 := fun x => by
    rw [decide_eq_false_iff_not, gt_iff_lt, UInt64.not_lt, UInt64.le_zero_iff]
  unfold Limits.bounded
  simp only [Bool.or_eq_false_iff, hzero, Option.isSome_eq_false_iff, Option.isNone_iff_eq_none,
    and_assoc]

/-- The limits are looked at in turn, and a run ends if one of them holds, as long as the
instructions have been counted right. -/
theorem Limits.isSome_reached?_iff {l : Limits} {c : Cpu} {count : UInt64} {n : Nat}
    (hn : 0 < l.operations → count.toNat = n) (address : UInt16) :
    (l.reached? c address count).isSome = true ↔ l.Holds n c := by
  have hoperations : (decide (l.operations > 0) && decide (count ≥ l.operations)) = true ↔
      0 < l.operations ∧ l.operations.toNat ≤ n := by
    rw [Bool.and_eq_true, decide_eq_true_eq, decide_eq_true_eq, ge_iff_le, UInt64.le_iff_toNat_le]
    exact and_congr_right fun h => by rw [hn h]
  have htstates : (decide (l.tstates > 0) && decide (c.clock ≥ l.tstates)) = true ↔
      0 < l.tstates ∧ l.tstates ≤ c.clock := by
    rw [Bool.and_eq_true, decide_eq_true_eq, decide_eq_true_eq, gt_iff_lt, ge_iff_le]
  have hreturned : (l.returns && !l.bounded && decide (c.balance < 0)) = true ↔
      l.returns = true ∧ l.operations = 0 ∧ l.tstates = 0 ∧ l.stop = none ∧ c.balance < 0 := by
    rw [Bool.and_eq_true, Bool.and_eq_true, Bool.not_eq_true', bounded_eq_false_iff,
      decide_eq_true_eq]
    simp only [and_assoc]
  rw [holds_iff, ← hoperations, ← htstates, ← hreturned]
  unfold Limits.reached?
  simp only [apply_ite Option.isSome, Option.isSome_some, Option.isSome_none, Bool.if_true_left,
    Bool.decide_eq_true, Bool.or_eq_true, Bool.if_false_right, Bool.and_true, beq_iff_eq,
    decide_eq_true_eq]

/-! ### Runs -/

/-- Ports that nothing is attached to. -/
def unattached : Nat → UInt16 → UInt8 := fun _ _ => 0xFF

namespace Run

variable {limits : Limits} {verbosity : Option Int} {r : Run} {n : Nat}

/-- A run after some instructions, whether it has reached a limit by then or not. -/
def after (limits : Limits) (verbosity : Option Int) (r : Run) : (n : Nat) → Run
  | 0 => r
  | n + 1 => (r.after limits verbosity n).step limits verbosity

@[simp] theorem after_zero : r.after limits verbosity 0 = r := rfl

theorem after_succ (n : Nat) :
    r.after limits verbosity (n + 1) = (r.after limits verbosity n).step limits verbosity := rfl

theorem machine_after (n : Nat) :
    (r.after limits verbosity n).machine = r.machine.ran unattached n := by
  induction n with
  | zero => rfl
  | succ n ih =>
    rw [after_succ, Machine.ran, ← ih]
    rfl

theorem operations_after (n : Nat) :
    (r.after limits verbosity n).operations = r.operations + UInt64.ofNat n := by
  induction n with
  | zero => exact (UInt64.add_zero _).symm
  | succ n ih =>
    rw [UInt64.ofNat_add, ← UInt64.add_assoc, ← ih]
    rfl

/-- A run that counts from zero reaches a limit with an instruction if one holds after it. -/
theorem isSome_reached_after_iff (verbosity : Option Int) (hr : r.operations = 0)
    (hn : 0 < limits.operations → n + 1 < UInt64.size) :
    (r.after limits verbosity (n + 1)).reached.isSome = true ↔
      limits.Holds (n + 1) (r.machine.ran unattached (n + 1)).cpu := by
  have hcount : 0 < limits.operations →
      (r.after limits verbosity (n + 1)).operations.toNat = n + 1 := fun h => by
    rw [operations_after, hr, UInt64.zero_add]
    exact Nat.mod_eq_of_lt (hn h)
  have hmachine : r.machine.ran unattached (n + 1) = (r.after limits verbosity (n + 1)).machine :=
    (machine_after _).symm
  rw [hmachine]
  exact Limits.isSome_reached?_iff hcount _

theorem run_of_goesOn (h : ∀ k < n, (r.after limits verbosity (k + 1)).reached = none)
    (fuel : Nat) :
    r.run limits verbosity (n + fuel) = (r.after limits verbosity n).run limits verbosity fuel := by
  induction n generalizing fuel with
  | zero => rw [Nat.zero_add, after_zero]
  | succ n ih =>
    have hn := h n (Nat.lt_succ_self n)
    rw [Nat.add_assoc, Nat.add_comm 1, ih fun k hk => h k (by omega), run, ← after_succ, hn]
    rfl

theorem run_of_ends (h : ∀ k < n, (r.after limits verbosity (k + 1)).reached = none)
    (hn : (r.after limits verbosity (n + 1)).reached.isSome = true) (fuel : Nat) :
    r.run limits verbosity (n + (fuel + 1)) = r.after limits verbosity (n + 1) := by
  rw [run_of_goesOn h, run, ← after_succ, if_pos hn]

end Run

/-- The run `r` from a machine has executed `n` instructions and no more, as they are executed
without a limit, since a limit holds after the last of them and after none before. -/
structure StopsAfter (limits : Limits) (m : Machine) (n : Nat) (r : Run) : Prop where
  pos : 0 < n
  holds : limits.Holds n (m.ran unattached n).cpu
  first : ∀ k, 0 < k → k < n → ¬ limits.Holds k (m.ran unattached k).cpu
  machine : r.machine = m.ran unattached n
  operations : r.operations = UInt64.ofNat n
  reached : r.reached.isSome = true

section

variable {limits : Limits} {verbosity : Option Int} {r : Run} {n : Nat}

/-- As long as no limit holds a run that counts from zero has reached none.  A limit on the
instructions holds long before their count runs over. -/
theorem reached_of_not_holds (hr : r.operations = 0)
    (h : ∀ k, 0 < k → k ≤ n → ¬ limits.Holds k (r.machine.ran unattached k).cpu) :
    ∀ k < n, (r.after limits verbosity (k + 1)).reached = none := by
  intro k hk
  have hnot := h (k + 1) (Nat.succ_pos k) hk
  have hcount : 0 < limits.operations → k + 1 < UInt64.size := fun hl => by
    have hlt : ¬ limits.operations.toNat ≤ k + 1 := fun hle => hnot (.operations hl hle)
    exact Nat.lt_trans (Nat.lt_of_not_le hlt) limits.operations.toNat_lt
  rw [← Run.isSome_reached_after_iff verbosity hr hcount] at hnot
  exact Option.not_isSome_iff_eq_none.mp hnot

theorem run_of_not_holds (hr : r.operations = 0)
    (h : ∀ k, 0 < k → k ≤ n → ¬ limits.Holds k (r.machine.ran unattached k).cpu) :
    r.run limits verbosity n = r.after limits verbosity n :=
  Run.run_of_goesOn (reached_of_not_holds hr h) 0

/-- Once a limit holds, the run has ended with the first instruction after which one does, and all
fuel that does not cut it short leads there. -/
theorem exists_stopsAfter (verbosity : Option Int) (hr : r.operations = 0) (hn : 0 < n)
    (h : limits.Holds n (r.machine.ran unattached n).cpu) :
    ∃ k ≤ n, ∀ fuel, k ≤ fuel →
      StopsAfter limits r.machine k (r.run limits verbosity fuel) := by
  classical
  have hex : ∃ k, limits.Holds (k + 1) (r.machine.ran unattached (k + 1)).cpu :=
    ⟨n - 1, by rwa [Nat.sub_add_cancel hn]⟩
  let last := Nat.find hex
  have hlast : last + 1 ≤ n := by
    have := Nat.find_min' hex (m := n - 1) (by rwa [Nat.sub_add_cancel hn])
    omega
  have hfirst : ∀ k, 0 < k → k < last + 1 →
      ¬ limits.Holds k (r.machine.ran unattached k).cpu := fun k hpos hk => by
    have := Nat.find_min hex (m := k - 1) (by omega)
    rwa [Nat.sub_add_cancel hpos] at this
  have hgo : ∀ k < last, (r.after limits verbosity (k + 1)).reached = none :=
    reached_of_not_holds hr fun k hpos hk => hfirst k hpos (by omega)
  have hcount : 0 < limits.operations → last + 1 < UInt64.size := fun hl => by
    have hpos : 0 < limits.operations.toNat := UInt64.lt_iff_toNat_lt.mp hl
    have hle : last ≤ limits.operations.toNat - 1 :=
      Nat.find_min' hex (.operations hl (by omega))
    exact Nat.lt_of_le_of_lt (Nat.add_le_of_le_sub hpos hle) limits.operations.toNat_lt
  have hend := (Run.isSome_reached_after_iff verbosity hr hcount).mpr (Nat.find_spec hex)
  refine ⟨last + 1, hlast, fun fuel hfuel => ?_⟩
  obtain ⟨rest, rfl⟩ : ∃ rest, fuel = last + (rest + 1) := ⟨fuel - last - 1, by omega⟩
  rw [Run.run_of_ends hgo hend]
  exact ⟨Nat.succ_pos _, Nat.find_spec hex, hfirst, Run.machine_after _,
    by rw [Run.operations_after, hr, UInt64.zero_add], hend⟩

end

/-! ### Limited runs -/

/-- As many instructions as a limit on the time leaves room for, if each takes four T-states; the
first is always executed. -/
def Limits.mostInTime (limits : Limits) (clock : UInt64) : Nat :=
  max 1 ((limits.tstates.toNat - clock.toNat + 3) / 4)

/-- A limit on the time holds after these, as long as the clock does not run over. -/
theorem Limits.holds_mostInTime {limits : Limits} {m : Machine} (ht : 0 < limits.tstates)
    (h : ∀ k < limits.mostInTime m.cpu.clock,
      (m.ran unattached k).cpu.clock ≤ (m.ran unattached (k + 1)).cpu.clock) :
    limits.Holds (limits.mostInTime m.cpu.clock)
      (m.ran unattached (limits.mostInTime m.cpu.clock)).cpu := by
  have hclock := Machine.add_four_mul_le_clock_ran h
  refine .tstates ht (UInt64.le_iff_toNat_le.mpr ?_)
  unfold mostInTime at hclock ⊢
  omega

/-- A run ends with the first instruction after which a limit holds, in the state that the
instructions up to it lead to without a limit, and while none holds it goes on.  With a limit on the
instructions it ends after no more than these.  With a limit on the time it ends after no more than
a quarter as many as there are T-states left, rounded up, or one if none is left, as long as none of
these that it executes makes the clock run over. -/
theorem toLimit_stopsAfter (limits : Limits) (verbosity : Option Int) (m : Machine)
    (border : UInt8) (start : UInt16) :
    let s := m.startAt start
    let run := Run.run limits verbosity { machine := s, border }
    let limited := Run.toLimit limits verbosity m border start
    let most := limits.mostInTime m.cpu.clock
    (∀ n, 0 < n → limits.Holds n (s.ran unattached n).cpu →
      ∃ k ≤ n, ∀ fuel, k ≤ fuel → StopsAfter limits s k (run fuel)) ∧
    (∀ n, (∀ k, 0 < k → k ≤ n → ¬ limits.Holds k (s.ran unattached k).cpu) →
      (run n).machine = s.ran unattached n ∧ (run n).reached = none) ∧
    (0 < limits.operations → ∃ n ≤ limits.operations.toNat, StopsAfter limits s n limited) ∧
    (0 < limits.tstates →
      (∀ k < most, (∀ j, 0 < j → j ≤ k → ¬ limits.Holds j (s.ran unattached j).cpu) →
        (s.ran unattached k).cpu.clock ≤ (s.ran unattached (k + 1)).cpu.clock) →
      ∃ n ≤ most, StopsAfter limits s n limited) := by
  intro s run limited most
  have hends : ∀ n, 0 < n → limits.Holds n (s.ran unattached n).cpu →
      ∃ k ≤ n, ∀ fuel, k ≤ fuel → StopsAfter limits s k (run fuel) := fun n =>
    exists_stopsAfter verbosity (r := { machine := s, border }) rfl
  -- Its fuel does not cut a run short that has one of the two limits.
  have hlimited : ∀ n, 0 < n → n ≤ Run.longest → limits.Holds n (s.ran unattached n).cpu →
      ∃ k ≤ n, StopsAfter limits s k limited := fun n hpos hle hn => by
    obtain ⟨k, hk, hstops⟩ := hends n hpos hn
    exact ⟨k, hk, hstops Run.longest (Nat.le_trans hk hle)⟩
  refine ⟨hends, fun n hnot => ?_, fun hl => ?_, fun ht hclock => ?_⟩
  · have hrun : run n = Run.after limits verbosity { machine := s, border } n :=
      run_of_not_holds rfl hnot
    refine ⟨hrun ▸ Run.machine_after n, ?_⟩
    cases n with
    | zero => rfl
    | succ n => exact hrun ▸ reached_of_not_holds rfl hnot n (Nat.lt_succ_self n)
  · exact hlimited _ hl (Nat.le_of_lt limits.operations.toNat_lt) (.operations hl (Nat.le_refl _))
  · have hlong : most ≤ Run.longest := by
      have := limits.tstates.toNat_lt
      change max 1 ((limits.tstates.toNat - m.cpu.clock.toNat + 3) / 4) ≤ 2 ^ 64
      omega
    by_cases hex : ∃ k, 0 < k ∧ k ≤ most ∧ limits.Holds k (s.ran unattached k).cpu
    · obtain ⟨k, hpos, hk, hholds⟩ := hex
      obtain ⟨n, hn, hstops⟩ := hlimited k hpos (Nat.le_trans hk hlong) hholds
      exact ⟨n, Nat.le_trans hn hk, hstops⟩
    · have hmost := Limits.holds_mostInTime (m := s) ht fun k hk =>
        hclock k hk fun j hpos hj hholds => hex ⟨j, hpos, Nat.le_trans hj (Nat.le_of_lt hk), hholds⟩
      exact hlimited most (Nat.le_max_left _ _) hlong hmost

/-- Ten T-states from zero, with nothing in memory, are three instructions. -/
theorem toLimit_stopsAfter_blank :
    let limits : Limits := { tstates := 10 }
    let s := ({} : Machine).startAt 0x8000
    0 < limits.tstates ∧ limits.mostInTime 0 = 3 ∧
      (∀ k < 3, (s.ran unattached k).cpu.clock ≤ (s.ran unattached (k + 1)).cpu.clock) ∧
      ∃ n ≤ 3, StopsAfter limits s n (Run.toLimit limits none {} 7 0x8000) := by
  intro limits s
  have hclock : ∀ k < 3,
      (s.ran unattached k).cpu.clock ≤ (s.ran unattached (k + 1)).cpu.clock := by decide +kernel
  have hmost : limits.mostInTime 0 = 3 := by decide
  obtain ⟨n, hn, hstops⟩ := (toLimit_stopsAfter limits none {} 7 0x8000).2.2.2 (by decide)
    fun k hk _ => hclock k (hmost ▸ hk)
  exact ⟨by decide, hmost, hclock, n, hmost ▸ hn, hstops⟩

/-- The time of a run has no such bound without that condition: when the clock runs over, a limit
on the time is out of reach again. -/
theorem toLimit_not_inTime :
    ¬ ∀ (limits : Limits) (verbosity : Option Int) (m : Machine) (border : UInt8) (start : UInt16),
      0 < limits.tstates → ∃ n ≤ limits.mostInTime m.cpu.clock,
        StopsAfter limits (m.startAt start) n (Run.toLimit limits verbosity m border start) := by
  intro h
  let limits : Limits := { operations := 3, tstates := 0xFFFFFFFFFFFFFFFF }
  let m : Machine := { cpu := { clock := 0xFFFFFFFFFFFFFFFE } }
  obtain ⟨n, hn, hstops⟩ := h limits none m 7 0x8000 (by decide)
  obtain rfl : n = 1 := by
    have hpos := hstops.pos
    have : limits.mostInTime m.cpu.clock = 1 := by decide
    omega
  have hclock : ((m.startAt 0x8000).ran unattached 1).cpu.clock = 2 := by decide +kernel
  cases hstops.holds with
  | operations _ h => exact absurd h (by decide)
  | tstates _ h => exact absurd (hclock ▸ h) (by decide)
  | stop h => exact nomatch h
  | returned _ ho => exact absurd ho (by decide)

end Trace
end Spectrum
