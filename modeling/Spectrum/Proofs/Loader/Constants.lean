import Mathlib.Logic.Function.Iterate
import Mathlib.Tactic.Common
import Spectrum.Proofs.Loader.Skip

/-! # The constants of the catalogue

An entry of the catalogue says when its loop samples the tape, how long an iteration takes, and how
far it moves R and the counter.  Executed instruction by instruction, each loop of the catalogue
does just this, iteration after iteration, as long as it samples the level that it waits on and its
counter does not wrap round.

Main statements: `PollingLoop.iterate_iterated`, `PollingLoop.Regular.ran_route_succ`,
`PollingLoop.Regular.ran_iterations`, `PollingLoop.StandsAt.iterates`. -/

namespace Spectrum.Loader

open Z80 Scene

namespace PollingLoop

/-! ### Iterations of the registers -/

section

variable {loop : PollingLoop} {awaited : Bool}

/-- What some iterations do to a processor, but for R. -/
theorem iterate_iterated (c : Cpu) (n : Nat) :
    (loop.iterated awaited)^[n + 1] c =
      { afterIterations loop (n + 1) c with
        af := 0x0054
        r := ((loop.iterated awaited)^[n + 1] c).r
        wz := c.pc
        blocked := false } := by
  induction n with
  | zero => rfl
  | succ n ih =>
    rw [Function.iterate_succ_apply', ← afterIterations_succ]
    generalize (loop.iterated awaited)^[n + 1] c = d at ih ⊢
    rw [ih]
    rfl

theorem bc_iterate_iterated (c : Cpu) (n : Nat) :
    ((loop.iterated awaited)^[n] c).bc = c.bc.withHigh (countedBy loop n c.bc.high) := by
  cases n with
  | zero =>
    rw [countedBy_zero, UInt16.withHigh_high]
    rfl
  | succ n =>
    rw [iterate_iterated]
    rfl

theorem pc_iterate_iterated (c : Cpu) (n : Nat) : ((loop.iterated awaited)^[n] c).pc = c.pc := by
  cases n with
  | zero => rfl
  | succ n =>
    rw [iterate_iterated]
    rfl

theorem clock_iterate_iterated (c : Cpu) (n : Nat) :
    ((loop.iterated awaited)^[n] c).clock = c.clock + UInt64.ofNat (n * loop.loopTime) := by
  cases n with
  | zero =>
    rw [Nat.zero_mul]
    exact (UInt64.add_zero _).symm
  | succ n =>
    rw [iterate_iterated]
    rfl

/-- What they do to R: they move it on, unless it is loaded from the port in each of them. -/
theorem Regular.r_iterate_iterated (hr : loop.Regular awaited) (c : Cpu) (n : Nat) :
    ((loop.iterated awaited)^[n + 1] c).r =
      if loop.refreshes = 0 then (loop.iterated awaited c).r
      else refreshed c.r ((n + 1) * loop.refreshes) := by
  have hrefreshes := hr.refreshes
  cases hl : (loop.closingView awaited).loaded? with
  | none =>
    rw [if_pos hl] at hrefreshes
    have hstep : ∀ d, (loop.iterated awaited d).r = refreshed d.r loop.refreshes := by
      intro d
      rw [← hrefreshes]
      unfold iterated
      rw [hl]
      rfl
    rw [if_neg (by omega)]
    induction n with
    | zero => rw [Function.iterate_one, hstep, Nat.zero_add, Nat.one_mul]
    | succ n ih =>
      rw [Function.iterate_succ_apply', hstep, ih, refreshed_refreshed, ← Nat.succ_mul]
  | some byte =>
    rw [if_neg (by rw [hl]; exact Option.some_ne_none byte)] at hrefreshes
    rw [if_pos hrefreshes, Function.iterate_succ_apply']
    unfold iterated
    rw [hl]
    rfl

end

/-! ### Iterations of the machine -/

theorem countP_sample {loop : PollingLoop} (h : loop ∈ catalogue) :
    (loop.moves.countP fun x => x.2 = .sample) = 1 := by
  revert loop
  decide +kernel

theorem route_eq_zero_iff {loop : PollingLoop} (h : loop ∈ catalogue) {i : Nat} {offset : UInt16}
    (hi : loop.route[i]? = some offset) : offset = 0 ↔ i = 0 := by
  have hroute : ∀ loop ∈ catalogue, ∀ i < loop.route.length,
      loop.route.getD i 0 = 0 ↔ i = 0 := by
    decide +kernel
  have hlt := (List.getElem?_eq_some_iff.mp hi).1
  have hgetD : loop.route.getD i 0 = offset := by
    rw [List.getD_eq_getElem?_getD, hi]
    rfl
  rw [← hgetD]
  exact hroute loop h i hlt

/-- Only one loop loads R. -/
theorem refreshes_eq_zero_iff {loop : PollingLoop} (h : loop ∈ catalogue) :
    loop.refreshes = 0 ↔ loop.name = "d-and-h" := by
  revert loop
  decide +kernel

section

variable {loop : PollingLoop} {m : Machine} {p : UInt16} {answers : Nat → UInt16 → UInt8} {n : Nat}

theorem waits_iterate_iterated {awaited : Bool}
    (hlevel : m.cpu.bc.low &&& loop.earMask = loop.masked awaited)
    (hcounter : countedBy loop (n + 1) m.cpu.bc.high ≠ 0) :
    loop.Waits awaited (m.mapCpu (loop.iterated awaited)^[n]) where
  level := by
    show ((loop.iterated awaited)^[n] m.cpu).bc.low &&& loop.earMask = loop.masked awaited
    rw [bc_iterate_iterated, UInt16.low_withHigh, hlevel]
  counts := by
    show loop.counted ((loop.iterated awaited)^[n] m.cpu).bc.high ≠ 0
    rw [bc_iterate_iterated, UInt16.high_withHigh, counted_countedBy]
    exact hcounter

theorem Regular.ran_route_succ {awaited : Bool} (hr : loop.Regular awaited)
    (hat : loop.StandsAt m p) (hpc : m.cpu.pc = p)
    (hlevel : m.cpu.bc.low &&& loop.earMask = loop.masked awaited)
    (hcounter : countedBy loop (n + 1) m.cpu.bc.high ≠ 0) {t : Machine}
    (ht : t = m.mapCpu (loop.iterated awaited)^[n])
    (hreads : ∀ read ∈ t.portReads answers loop.route.length, read.value = sampled awaited) :
    (∀ i offset, loop.route[i]? = some offset → (t.ran answers i).cpu.pc = p + offset) ∧
      t.ran answers loop.route.length = m.mapCpu (loop.iterated awaited)^[n + 1] ∧
      (t.portReads answers loop.route.length).map (fun read => (read.time, read.port.low)) =
        List.replicate (loop.moves.countP fun x => x.2 = .sample)
          (m.cpu.clock + UInt64.ofNat (loop.inTime + n * loop.loopTime), 0xFE) := by
  have hclock : t.cpu.clock = m.cpu.clock + UInt64.ofNat (n * loop.loopTime) := by
    rw [ht]
    exact clock_iterate_iterated m.cpu n
  have hpc' : t.cpu.pc = p := by
    rw [ht]
    exact (pc_iterate_iterated m.cpu n).trans hpc
  have hat' : loop.StandsAt t p := hat.congr (by rw [ht]; rfl)
  have hw : loop.Waits awaited t := ht ▸ waits_iterate_iterated hlevel hcounter
  obtain ⟨hpcs, hran, hsamples⟩ := hr.ran_route hat' hpc' hw hreads
  refine ⟨hpcs, ?_, ?_⟩
  · rw [hran, ht, Function.iterate_succ']
    rfl
  · rw [hsamples, hclock, UInt64.add_assoc, ← UInt64.ofNat_add,
      Nat.add_comm (n * loop.loopTime)]

/-- Iterations are executed one after the other, each to its end. -/
theorem Regular.ran_iterations {awaited : Bool} (hr : loop.Regular awaited)
    (hat : loop.StandsAt m p) (hpc : m.cpu.pc = p)
    (hlevel : m.cpu.bc.low &&& loop.earMask = loop.masked awaited)
    (hreads : ∀ read ∈ m.portReads answers (n * loop.route.length), read.value = sampled awaited)
    (hcounter : ∀ j < n, countedBy loop (j + 1) m.cpu.bc.high ≠ 0) :
    (∀ j < n, ∀ i offset, loop.route[i]? = some offset →
        (m.ran answers (j * loop.route.length + i)).cpu.pc = p + offset) ∧
      (∀ j ≤ n, m.ran answers (j * loop.route.length) =
        m.mapCpu (loop.iterated awaited)^[j]) ∧
      (m.portReads answers (n * loop.route.length)).map
          (fun read => (read.time, read.port.low)) =
        (List.range n).flatMap fun j =>
          List.replicate (loop.moves.countP fun x => x.2 = .sample)
            (m.cpu.clock + UInt64.ofNat (loop.inTime + j * loop.loopTime), 0xFE) := by
  induction n with
  | zero =>
    rw [Nat.zero_mul]
    refine ⟨?_, ?_, rfl⟩
    · intro j hj
      exact absurd hj (Nat.not_lt_zero j)
    · intro j hj
      obtain rfl := Nat.le_zero.mp hj
      rw [Nat.zero_mul]
      rfl
  | succ n ih =>
    rw [Nat.succ_mul, m.portReads_add] at hreads
    obtain ⟨hpcs, hran, hsamples⟩ := ih
      (fun read hread => hreads read (List.mem_append_left _ hread))
      fun j hj => hcounter j (Nat.lt_succ_of_lt hj)
    obtain ⟨hpcs', hran', hsamples'⟩ := hr.ran_route_succ hat hpc hlevel
      (hcounter n (Nat.lt_succ_self n)) (hran n (Nat.le_refl n))
      fun read hread => hreads read (List.mem_append_right _ hread)
    refine ⟨?_, ?_, ?_⟩
    · intro j hj i offset hi
      rcases Nat.lt_succ_iff_lt_or_eq.mp hj with hj | rfl
      · exact hpcs j hj i offset hi
      · rw [m.ran_add]
        exact hpcs' i offset hi
    · intro j hj
      rcases Nat.le_succ_iff.mp hj with hj | rfl
      · exact hran j hj
      · rw [Nat.succ_mul, m.ran_add, hran']
    · rw [Nat.succ_mul, m.portReads_add, List.map_append, hsamples, hsamples', List.range_succ,
        List.flatMap_append, List.flatMap_singleton]

/-- The machine is back where the loop starts at the end of each iteration, and not in between. -/
theorem pc_ran_eq_iff_dvd (hl : loop ∈ catalogue) (hpos : 0 < loop.route.length)
    (hpcs : ∀ j < n, ∀ i offset, loop.route[i]? = some offset →
      (m.ran answers (j * loop.route.length + i)).cpu.pc = p + offset)
    (hend : (m.ran answers (n * loop.route.length)).cpu.pc = p) {k : Nat}
    (hk : k ≤ n * loop.route.length) :
    (m.ran answers k).cpu.pc = p ↔ loop.route.length ∣ k := by
  rcases Nat.lt_or_eq_of_le hk with hk | rfl
  · have hi : k % loop.route.length < loop.route.length := Nat.mod_lt k hpos
    have hoffset := List.getElem?_eq_getElem hi
    have hj : k / loop.route.length < n := Nat.div_lt_of_lt_mul (by rwa [Nat.mul_comm])
    have hpc := hpcs _ hj _ _ hoffset
    rw [Nat.div_add_mod'] at hpc
    rw [hpc, UInt16.add_eq_left, route_eq_zero_iff hl hoffset, Nat.dvd_iff_mod_eq_zero]
  · exact iff_of_true hend (Nat.dvd_mul_left _ n)

end

/-- Every loop of the catalogue does what its entry says.  At an address where the loop stands,
some iterations are executed, whose samples are the level that C has and in which the counter does
not come to zero.  The machine comes back to the address at the end of each of them and not in
between, and it reads the port once in each, at the time of the entry.  After each the clock, B, A,
the flags, the internal register and R are as the entry has them, and all else is as before; the
loop that loads R from the port has the same R after all of them. -/
theorem StandsAt.iterates {loop : PollingLoop} {m : Machine} {p : UInt16}
    {answers : Nat → UInt16 → UInt8} {n : Nat} (hl : loop ∈ catalogue) (hat : loop.StandsAt m p)
    (hpc : m.cpu.pc = p)
    (hreads : ∀ read ∈ m.portReads answers (n * loop.route.length),
      read.value = sampled (m.cpu.bc.low &&& loop.earMask != 0))
    (hcounter : ∀ j < n, countedBy loop (j + 1) m.cpu.bc.high ≠ 0) :
    0 < loop.route.length ∧
      (∀ k ≤ n * loop.route.length, (m.ran answers k).cpu.pc = p ↔ loop.route.length ∣ k) ∧
      (m.portReads answers (n * loop.route.length)).map
          (fun read => (read.time, read.port.low)) =
        (List.range n).map (fun j =>
          (m.cpu.clock + UInt64.ofNat (loop.inTime + j * loop.loopTime), 0xFE)) ∧
      ∀ j, 0 < j → j ≤ n →
        let after := m.ran answers (j * loop.route.length)
        after = { m with
          cpu := { m.cpu with
            af := 0x0054
            bc := m.cpu.bc.withHigh (countedBy loop j m.cpu.bc.high)
            r := after.cpu.r
            wz := p
            blocked := false
            clock := m.cpu.clock + UInt64.ofNat (j * loop.loopTime) } } ∧
        after.cpu.r =
          if loop.name = "d-and-h" then (m.ran answers loop.route.length).cpu.r
          else refreshed m.cpu.r (j * loop.refreshes) := by
  let awaited := m.cpu.bc.low &&& loop.earMask != 0
  have hr := regular_of_mem hl awaited
  obtain ⟨hpcs, hran, hsamples⟩ := hr.ran_iterations hat hpc (hr.and_earMask _) hreads hcounter
  have hpos : 0 < loop.route.length := by
    rw [hr.length_route]
    exact Nat.succ_pos _
  refine ⟨hpos, ?_, ?_, ?_⟩
  · intro k hk
    refine pc_ran_eq_iff_dvd hl hpos hpcs ?_ hk
    rw [hran n (Nat.le_refl n)]
    exact (pc_iterate_iterated m.cpu n).trans hpc
  · rw [hsamples, countP_sample hl]
    exact List.map_eq_flatMap.symm
  · intro j hj hjn
    obtain ⟨i, rfl⟩ := Nat.exists_eq_add_of_lt hj
    rw [Nat.zero_add] at hjn ⊢
    have hlap : m.ran answers loop.route.length = m.mapCpu (loop.iterated awaited)^[1] := by
      have h1 := hran 1 (by omega)
      rwa [Nat.one_mul] at h1
    constructor
    · rw [hran _ hjn, ← hpc]
      exact congrArg (fun c => { m with cpu := c }) (iterate_iterated m.cpu i)
    · simp only [hran _ hjn, hlap, ← refreshes_eq_zero_iff hl]
      exact hr.r_iterate_iterated m.cpu i

/-- Two iterations of a loop that waits for the end of the low level, while that lasts. -/
theorem iterates_waitingMachine :
    let answers : Nat → UInt16 → UInt8 := fun _ _ => 0xBF
    waitingLoop ∈ catalogue ∧ waitingLoop.StandsAt waitingMachine 0x8000 ∧
      waitingMachine.cpu.pc = 0x8000 ∧
      (∀ read ∈ waitingMachine.portReads answers (2 * waitingLoop.route.length),
        read.value = sampled (waitingMachine.cpu.bc.low &&& waitingLoop.earMask != 0)) ∧
      (∀ j < 2, countedBy waitingLoop (j + 1) waitingMachine.cpu.bc.high ≠ 0) ∧
      waitingMachine.ran answers 12 = { waitingMachine with
        cpu := { waitingMachine.cpu with
          af := 0x0054
          bc := 0x0200
          r := 12
          wz := 0x8000
          blocked := false
          clock := waitingMachine.cpu.clock + 86 } } := by
  intro answers
  have hl : waitingLoop ∈ catalogue := by decide +kernel
  have hat : waitingLoop.StandsAt waitingMachine 0x8000 := by
    refine ⟨by decide +kernel, ?_⟩
    decide +kernel
  have hreads : ∀ read ∈ waitingMachine.portReads answers (2 * waitingLoop.route.length),
      read.value = sampled (waitingMachine.cpu.bc.low &&& waitingLoop.earMask != 0) := by
    decide +kernel
  have hcounter : ∀ j < 2, countedBy waitingLoop (j + 1) waitingMachine.cpu.bc.high ≠ 0 := by
    decide +kernel
  obtain ⟨-, -, -, hafter⟩ := hat.iterates hl rfl hreads hcounter
  obtain ⟨hmachine, hr⟩ := hafter 2 (by decide) (Nat.le_refl 2)
  have hlength : 2 * waitingLoop.route.length = 12 := by decide +kernel
  rw [hlength] at hmachine hr
  refine ⟨hl, hat, rfl, hreads, hcounter, hmachine.trans ?_⟩
  rw [hr]
  rfl

end PollingLoop
end Spectrum.Loader
