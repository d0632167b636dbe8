import Mathlib.Algebra.Group.Nat.Defs
import Mathlib.Data.Bool.Basic
import Mathlib.Tactic.Common
import Spectrum.Proofs.Snapshot.LoadRequest

/-! # Loading a block into memory

Which bytes of a block a load operation copies, and where each of them goes.

With a length, bytes are counted up to the end of the block and not only as far as those that are
asked for, so the parity byte can be among them.  The address is held in 32 bits, and only the
addresses behind the first byte are reduced to sixteen; so whether a step passes the top of memory
is not always told as it would be of the reduced address and of unbounded numbers.

Main definitions: `Written`, `LoadRequest.named`, `LoadRequest.passes`.
Main statements: `RamOperation.written_loadBytes`, `load_copies`, `load_addresses`. -/

namespace Spectrum

open Text Tape

/-! ### Bytes written one after another -/

/-- What is left of a memory in which bytes have been written in order, each at its target. -/
structure Written (target : Nat → UInt16) (bytes : List UInt8) (before after : Memory) : Prop where
  /-- A byte stays unless a later one has the same target. -/
  placed : ∀ i b, bytes[i]? = some b →
    (∀ j, i < j → j < bytes.length → target j ≠ target i) → after.read (target i) = b
  kept : ∀ a, (∀ i, i < bytes.length → target i ≠ a) → after.read a = before.read a

namespace Written

variable {target target' : Nat → UInt16} {b : UInt8} {bytes : List UInt8} {before after : Memory}

theorem nil (target : Nat → UInt16) (m : Memory) : Written target [] m m where
  placed _ _ h := by cases h
  kept _ _ := rfl

/-- One byte, and the others behind it. -/
theorem cons (h : Written (fun i => target (i + 1)) bytes (before.write (target 0) b) after) :
    Written target (b :: bytes) before after where
  placed i c hc hlast := by
    cases i with
    | zero =>
      obtain rfl := Option.some.inj hc
      rw [h.kept _ fun i hi => hlast (i + 1) (Nat.succ_pos i) (Nat.succ_lt_succ hi),
        Memory.read_write_same]
    | succ i =>
      exact h.placed i c hc fun j hj hlt =>
        hlast (j + 1) (Nat.succ_lt_succ hj) (Nat.succ_lt_succ hlt)
  kept a ha := by
    rw [h.kept a fun i hi => ha (i + 1) (Nat.succ_lt_succ hi),
      Memory.read_write_ne _ (ha 0 (Nat.succ_pos _))]

theorem congr (h : Written target bytes before after) (heq : ∀ i, target i = target' i) :
    Written target' bytes before after := by
  rwa [← funext heq]

end Written

namespace RamOperation

/-- The address that is held when byte `i` is written. -/
def cursor (address step inc : UInt32) : Nat → UInt32
  | 0 => address
  | i + 1 => nextAddress (cursor address step inc i) step inc

theorem cursor_succ (address step inc : UInt32) (i : Nat) :
    cursor address step inc (i + 1) = cursor (nextAddress address step inc) step inc i := by
  induction i with
  | zero => rfl
  | succ i ih => rw [cursor, ih, cursor]

theorem written_loadBytes (memory : Memory) (address step offset inc : UInt32)
    (bytes : List UInt8) :
    Written (fun i => (cursor address step inc i + offset).toUInt16) bytes memory
      (loadBytes memory address step offset inc bytes) := by
  induction bytes generalizing memory address with
  | nil => exact .nil _ _
  | cons b rest ih =>
    refine .cons ?_
    simp only [cursor_succ]
    exact ih _ _

end RamOperation

/-! ### The bytes that are copied -/

namespace LoadRequest

/-- The bytes of the block without flag and parity, but for those that are asked for. -/
def body (r : LoadRequest) : List UInt8 :=
  let rest := if r.keepFlag then r.block.data else r.block.data.tail
  if r.keepParity then rest else rest.dropLast

/-- The bytes that are asked for: as many of these as the length says. -/
def named (r : LoadRequest) : List UInt8 :=
  match r.length with
  | none => r.body
  | some n => r.body.take n

/-- A length that goes past the last of these bytes, while the parity byte is not asked for. -/
def Overreaches (r : LoadRequest) : Prop :=
  r.keepParity = false ∧ ∃ n ∈ r.length, r.body.length < n

instance : DecidablePred Overreaches := fun _ => inferInstanceAs (Decidable (_ ∧ _))

/-- What is copied behind the bytes that are asked for. -/
def excess (r : LoadRequest) : List UInt8 :=
  if r.Overreaches then r.block.data.getLast?.toList else []

/-- Where the bytes without parity end in a block. -/
def stop (r : LoadRequest) : Nat :=
  if r.keepParity then r.block.data.length else r.block.data.length - 1

/-- Where the bytes without flag begin. -/
def first (r : LoadRequest) : Nat := min (if r.keepFlag then 0 else 1) r.stop

theorem copied_eq (r : LoadRequest) :
    r.copied =
      match r.length with
      | none => (r.block.data.take r.stop).drop r.first
      | some n => (r.block.data.drop r.first).take n := rfl

theorem body_eq_slice (r : LoadRequest) : r.body = (r.block.data.take r.stop).drop r.first := by
  unfold body first stop
  cases r.keepParity with
  | true => rcases hdata : r.block.data with _ | ⟨b, rest⟩ <;> cases r.keepFlag <;> simp
  | false =>
    rcases hdata : r.block.data with _ | ⟨b, _ | ⟨c, rest⟩⟩ <;> cases r.keepFlag <;>
      simp [List.dropLast_eq_take]

theorem drop_stop (r : LoadRequest) :
    r.block.data.drop r.stop = if r.keepParity then [] else r.block.data.getLast?.toList := by
  unfold stop
  cases r.keepParity with
  | true => simp
  | false => rcases List.eq_nil_or_concat r.block.data with h | ⟨before, last, h⟩ <;> simp [h]

/-- Without a length the block ends in front of the parity byte, but with one behind it. -/
theorem drop_first (r : LoadRequest) :
    r.block.data.drop r.first =
      r.body ++ if r.keepParity then [] else r.block.data.getLast?.toList := by
  have hstop : r.stop ≤ r.block.data.length := by
    unfold stop
    split <;> omega
  have hfirst : r.first ≤ (r.block.data.take r.stop).length := by
    rw [List.length_take_of_le hstop]
    exact Nat.min_le_right _ _
  calc r.block.data.drop r.first
      = (r.block.data.take r.stop ++ r.block.data.drop r.stop).drop r.first := by
        rw [List.take_append_drop]
    _ = (r.block.data.take r.stop).drop r.first ++ r.block.data.drop r.stop :=
        List.drop_append_of_le_length hfirst
    _ = _ := by rw [body_eq_slice, drop_stop]

/-- The bytes that are asked for are copied, and behind them the parity byte if the length reaches
it. -/
theorem copied_eq_named_append_excess (r : LoadRequest) : r.copied = r.named ++ r.excess := by
  unfold excess named
  rw [copied_eq]
  cases hlength : r.length with
  | none =>
    have hwithin : ¬ r.Overreaches := by
      rintro ⟨-, n, hn, -⟩
      rw [hlength] at hn
      cases hn
    rw [if_neg hwithin, List.append_nil, body_eq_slice]
  | some n =>
    have hreach : r.Overreaches ↔ r.keepParity = false ∧ r.body.length < n := by
      simp [Overreaches, hlength]
    dsimp only
    rw [drop_first, List.take_append]
    congr 1
    by_cases hover : r.Overreaches
    · obtain ⟨hparity, hlt⟩ := hreach.mp hover
      have hone : r.block.data.getLast?.toList.length ≤ 1 := by
        cases r.block.data.getLast? <;> simp
      rw [if_pos hover, hparity, if_neg Bool.false_ne_true]
      exact List.take_of_length_le (by omega)
    · rw [if_neg hover]
      cases hparity : r.keepParity with
      | true => rw [if_pos rfl, List.take_nil]
      | false =>
        have hle : n ≤ r.body.length := Nat.not_lt.mp fun hlt => hover (hreach.mpr ⟨hparity, hlt⟩)
        rw [Nat.sub_eq_zero_of_le hle, List.take_zero]

theorem excess_eq_nil_iff (r : LoadRequest) :
    r.excess = [] ↔ ¬ r.Overreaches ∨ r.block.data = [] := by
  unfold excess
  by_cases hover : r.Overreaches
  · rw [if_pos hover]
    rcases List.eq_nil_or_concat r.block.data with h | ⟨before, last, h⟩ <;> simp [h, hover]
  · simp [hover]

end LoadRequest

/-! ### The addresses that they go to -/

namespace LoadRequest

/-- The address in front of byte `i`, unreduced, if INC has been added `w` times. -/
def address (r : LoadRequest) (i w : Nat) : Nat := r.start + i * r.step + w * r.inc

/-- Where byte `i` goes then. -/
def target (r : LoadRequest) (i w : Nat) : UInt16 := UInt16.ofNat (r.address i w + r.offset)

/-- How many of the first steps pass a test, which may depend on how many did so far. -/
def tally (test : Nat → Nat → Bool) : Nat → Nat
  | 0 => 0
  | i + 1 => tally test i + (test i (tally test i)).toNat

/-- How many of the first steps go past the top of memory. -/
def passes (r : LoadRequest) : Nat → Nat :=
  tally fun i w => decide (0xFFFF < r.address i w % 0x10000 + r.step)

/-- The address in front of byte `i` as it is held: START is not reduced. -/
def held (r : LoadRequest) (i w : Nat) : Nat :=
  if i = 0 then r.start else r.address i w % 0x10000

/-- How many of the first steps add INC: the sum that is looked at has 32 bits. -/
def additions (r : LoadRequest) : Nat → Nat :=
  tally fun i w => decide (0xFFFF < (r.held i w + r.step) % 2 ^ 32)

/-- A step of which it is told wrongly whether it goes past the top of memory. -/
def Misjudged (r : LoadRequest) (i : Nat) : Prop :=
  if i = 0 then ¬ (0xFFFF < (r.start + r.step) % 2 ^ 32 ↔ 0xFFFF < r.start % 0x10000 + r.step)
  else 2 ^ 32 ≤ r.address i (r.passes i) % 0x10000 + r.step

end LoadRequest

namespace RamOperation

/-- One step of the address. -/
theorem toNat_nextAddress (address step inc : UInt32) :
    (nextAddress address step inc).toNat =
      (address.toNat + step.toNat +
        (decide (0xFFFF < (address.toNat + step.toNat) % 2 ^ 32)).toNat * inc.toNat) % 0x10000 := by
  have hmask (w : UInt32) : (w &&& 0xFFFF).toNat = w.toNat % 0x10000 := by
    rw [UInt32.toNat_and]
    exact Nat.and_two_pow_sub_one_eq_mod _ 16
  have hpasses : address + step > 0xFFFF ↔ 0xFFFF < (address.toNat + step.toNat) % 2 ^ 32 := by
    rw [gt_iff_lt, UInt32.lt_iff_toNat_lt, UInt32.toNat_add]
    rfl
  unfold nextAddress
  rw [hmask]
  by_cases h : 0xFFFF < (address.toNat + step.toNat) % 2 ^ 32
  -- what runs over 32 bits is a multiple of 65536
  · rw [if_pos (hpasses.mpr h), decide_eq_true h, UInt32.toNat_add, UInt32.toNat_add,
      Bool.toNat_true, Nat.one_mul]
    omega
  · rw [if_neg (mt hpasses.mp h), decide_eq_false h, UInt32.toNat_add, Bool.toNat_false,
      Nat.zero_mul]
    omega

end RamOperation

namespace LoadRequest

/-- The address that is held when byte `i` is written, as a word. -/
def cursor (r : LoadRequest) : Nat → UInt32 :=
  RamOperation.cursor (UInt32.ofNat r.start) (UInt32.ofNat r.step) (UInt32.ofNat r.inc)

/-- Reduced or not, the address that is held is that of the byte modulo 65536. -/
theorem held_mod (r : LoadRequest) (i : Nat) :
    r.held i (r.additions i) % 0x10000 = r.address i (r.additions i) % 0x10000 := by
  cases i with
  | zero => simp [held, additions, tally, address]
  | succ i => simp [held]

theorem held_succ (r : LoadRequest) (i w : Nat) :
    r.held (i + 1) w = r.address (i + 1) w % 0x10000 := rfl

theorem additions_succ (r : LoadRequest) (i : Nat) :
    r.additions (i + 1) = r.additions i +
      (decide (0xFFFF < (r.held i (r.additions i) + r.step) % 2 ^ 32)).toNat := rfl

theorem address_succ (r : LoadRequest) (i w c : Nat) :
    r.address (i + 1) (w + c) = r.address i w + (r.step + c * r.inc) := by
  unfold address
  rw [Nat.succ_mul, Nat.add_mul]
  omega

theorem toNat_cursor {r : LoadRequest} (hr : r.Fits) (i : Nat) :
    (r.cursor i).toNat = r.held i (r.additions i) := by
  have hstart : (UInt32.ofNat r.start).toNat = r.start := UInt32.toNat_ofNat_of_lt' hr.start
  have hstep : (UInt32.ofNat r.step).toNat = r.step := UInt32.toNat_ofNat_of_lt' hr.step
  have hinc : (UInt32.ofNat r.inc).toNat = r.inc := UInt32.toNat_ofNat_of_lt' hr.inc
  induction i with
  | zero => exact hstart
  | succ i ih =>
    have hmod := r.held_mod i
    rw [cursor, RamOperation.cursor, RamOperation.toNat_nextAddress, ← cursor, ih, hstep, hinc,
      held_succ, additions_succ, address_succ]
    omega

/-- Byte `i` goes where the address in front of it and OFFSET say. -/
theorem toUInt16_cursor_add {r : LoadRequest} (hr : r.Fits) (i : Nat) :
    (r.cursor i + UInt32.ofNat r.offset).toUInt16 = r.target i (r.additions i) := by
  have hoffset : (UInt32.ofNat r.offset).toNat = r.offset := UInt32.toNat_ofNat_of_lt' hr.offset
  have hmod := r.held_mod i
  apply UInt16.toNat_inj.mp
  rw [target, UInt32.toNat_toUInt16, UInt32.toNat_add, toNat_cursor hr, hoffset,
    UInt16.toNat_ofNat']
  omega

theorem written_apply {r : LoadRequest} (hr : r.Fits) (memory : Memory) :
    Written (fun i => r.target i (r.additions i)) r.copied memory (r.operation.apply memory) :=
  (RamOperation.written_loadBytes memory _ _ _ _ r.copied).congr (toUInt16_cursor_add hr)

/-! ### When the top of memory is told rightly -/

theorem tally_eq_iff {p q : Nat → Nat → Bool} {n : Nat} :
    (∀ i ≤ n, tally p i = tally q i) ↔ ∀ k < n, p k (tally q k) = q k (tally q k) := by
  constructor
  · intro h k hk
    have hnext := h (k + 1) hk
    rw [tally, tally, h k (Nat.le_of_lt hk)] at hnext
    exact Function.LeftInverse.injective Bool.ofNat_toNat (Nat.add_left_cancel hnext)
  · intro h i hi
    induction i with
    | zero => rfl
    | succ i ih =>
      rw [tally, tally, ih (Nat.le_of_succ_le hi), h i hi]

/-- A step is told rightly just if the sum that is looked at is above 65535 when it should be. -/
theorem not_misjudged_iff {r : LoadRequest} (hr : r.Fits) (k : Nat) :
    ¬ r.Misjudged k ↔
      decide (0xFFFF < (r.held k (r.passes k) + r.step) % 2 ^ 32) =
        decide (0xFFFF < r.address k (r.passes k) % 0x10000 + r.step) := by
  have hstep := hr.step
  rw [decide_eq_decide]
  cases k with
  | zero =>
    have haddress : r.address 0 (r.passes 0) = r.start := by simp [address, passes, tally]
    rw [haddress, held, if_pos rfl, Misjudged, if_pos rfl, not_not]
  | succ k =>
    rw [held, Misjudged, if_neg (Nat.succ_ne_zero k), if_neg (Nat.succ_ne_zero k)]
    omega

theorem additions_eq_passes_iff {r : LoadRequest} (hr : r.Fits) (n : Nat) :
    (∀ i ≤ n, r.additions i = r.passes i) ↔ ∀ k < n, ¬ r.Misjudged k :=
  tally_eq_iff.trans (forall₂_congr fun k _ => (not_misjudged_iff hr k).symm)

theorem not_misjudged {r : LoadRequest} (hstart : r.start < 0x10000)
    (hstep : r.step + 0xFFFF < 2 ^ 32) (k : Nat) : ¬ r.Misjudged k := by
  unfold Misjudged
  split <;> omega

/-- It does not matter what is told if INC comes to nothing modulo 65536. -/
theorem target_eq_of_inc {r : LoadRequest} (hinc : r.inc % 0x10000 = 0) (i w w' : Nat) :
    r.target i w = r.target i w' := by
  have hmul (v : Nat) : v * r.inc % 0x10000 = 0 := by
    rw [Nat.mul_mod, hinc, Nat.mul_zero, Nat.zero_mod]
  have h := hmul w
  have h' := hmul w'
  apply UInt16.toNat_inj.mp
  rw [target, target, UInt16.toNat_ofNat', UInt16.toNat_ofNat', address, address]
  omega

end LoadRequest

/-! ### Accepted load operations -/

/-- A load operation that is accepted copies the bytes that it asks for, in order, to where START,
OFFSET, STEP and INC say.  With a length that goes past them it copies the parity byte as well,
which is the flag byte of a block of one byte, and only then and if the block has any byte does it
copy something else. -/
theorem load_copies {blocks : List Block} {spec : String} {op : RamOperation}
    (h : RamOperation.parse blocks ("load=" ++ spec) = .ok op) :
    ∃ r : LoadRequest, r.Reads blocks spec ∧ op = r.operation ∧
      (∀ memory,
        Written (fun i => r.target i (r.additions i)) r.copied memory (op.apply memory)) ∧
      r.copied = r.named ++ r.excess ∧
      (r.copied = r.named ↔ ¬ r.Overreaches ∨ r.block.data = []) := by
  obtain ⟨r, hr, rfl⟩ := parse_load_iff.mp h
  refine ⟨r, hr, rfl, LoadRequest.written_apply hr.fits, r.copied_eq_named_append_excess, ?_⟩
  rw [r.copied_eq_named_append_excess, List.append_right_eq_self, r.excess_eq_nil_iff]

/-- A block of one byte between flag and parity. -/
def oneByteBlock : Block := { number := 1, data := [0xFF, 7, 0xF8] }

/-- Two bytes are asked for where there is one: the parity byte is the second. -/
def overreachingRequest : LoadRequest where
  block := oneByteBlock
  keepFlag := false
  keepParity := false
  start := 30000
  length := some 2
  step := 1
  offset := 0
  inc := 0

theorem reads_overreachingRequest : overreachingRequest.Reads [oneByteBlock] "1,30000,2" where
  block := ⟨"1", ['1'], 1, rfl, ⟨rfl, by decide, by decide⟩, rfl, rfl⟩
  start := ⟨"30000", rfl, rfl⟩
  length := rfl
  step := ⟨none, rfl, rfl⟩
  offset := ⟨none, rfl, rfl⟩
  inc := ⟨none, rfl, rfl⟩

/-- The operation copies two bytes where one is asked for, and both are found in memory. -/
theorem load_copies_parity :
    RamOperation.parse [oneByteBlock] ("load=" ++ "1,30000,2") =
      .ok (.load [7, 0xF8] 30000 1 0 0) ∧
    overreachingRequest.named = [7] ∧ overreachingRequest.excess = [0xF8] ∧
    overreachingRequest.copied = overreachingRequest.named ++ overreachingRequest.excess ∧
    ∀ memory, (overreachingRequest.operation.apply memory).read 30000 = 7 ∧
      (overreachingRequest.operation.apply memory).read 30001 = 0xF8 := by
  have h : RamOperation.parse [oneByteBlock] ("load=" ++ "1,30000,2") =
      .ok (.load [7, 0xF8] 30000 1 0 0) := parse_load_iff.mpr ⟨_, reads_overreachingRequest, rfl⟩
  obtain ⟨r, hr, -, hwritten, hcopied, -⟩ := load_copies h
  obtain rfl := hr.unique reads_overreachingRequest
  refine ⟨h, rfl, rfl, hcopied, fun memory => ⟨?_, ?_⟩⟩
  · refine (hwritten memory).placed 0 7 rfl fun j hj hlt => ?_
    obtain rfl : j = 1 := Nat.le_antisymm (Nat.lt_succ_iff.mp hlt) hj
    decide
  · exact (hwritten memory).placed 1 0xF8 rfl fun j hj hlt => absurd hlt (Nat.not_lt.mpr hj)

/-- It is not so that memory is left with only what is asked for copied into it. -/
theorem not_forall_written_named :
    ¬ ∀ (blocks : List Block) (spec : String) (r : LoadRequest), r.Reads blocks spec →
      ∀ memory, Written (fun i => r.target i (r.additions i)) r.named memory
        (r.operation.apply memory) := by
  intro h
  have hkept := (h _ _ _ reads_overreachingRequest Memory.blank).kept 30001 fun i hi => by
    obtain rfl : i = 0 := Nat.lt_one_iff.mp hi
    decide
  exact absurd hkept (by decide +kernel)

/-- A load operation that is accepted puts its bytes where START, OFFSET, STEP and INC say, one
after the other, and changes nothing else.  INC is added as often as the top of memory is passed if
START is an address and STEP leaves room in 32 bits; in general up to the first step that is
misjudged. -/
theorem load_addresses {blocks : List Block} {spec : String} {op : RamOperation}
    (h : RamOperation.parse blocks ("load=" ++ spec) = .ok op) :
    ∃ r : LoadRequest, r.Reads blocks spec ∧ op = r.operation ∧
      (∀ memory,
        Written (fun i => r.target i (r.additions i)) r.copied memory (op.apply memory)) ∧
      (∀ n, (∀ i ≤ n, r.additions i = r.passes i) ↔ ∀ k < n, ¬ r.Misjudged k) ∧
      (r.inc % 0x10000 = 0 ∨ r.start < 0x10000 ∧ r.step + 0xFFFF < 2 ^ 32 → ∀ memory,
        Written (fun i => r.target i (r.passes i)) r.copied memory (op.apply memory)) := by
  obtain ⟨r, hr, rfl⟩ := parse_load_iff.mp h
  have hfits := hr.fits
  refine ⟨r, hr, rfl, LoadRequest.written_apply hfits, LoadRequest.additions_eq_passes_iff hfits,
    fun hgood memory => (LoadRequest.written_apply hfits memory).congr fun i => ?_⟩
  rcases hgood with hinc | ⟨hstart, hstep⟩
  · exact LoadRequest.target_eq_of_inc hinc i _ _
  · have hcount := (LoadRequest.additions_eq_passes_iff hfits i).mpr fun k _ =>
      LoadRequest.not_misjudged hstart hstep k
    rw [hcount i (Nat.le_refl i)]

/-- START is the address behind the last, and STEP leads from there to 65537: INC is added, though
from the bottom of memory nothing passes its top. -/
def unreducedRequest : LoadRequest where
  block := { number := 1, data := [0xFF, 1, 2, 0] }
  keepFlag := false
  keepParity := false
  start := 65536
  length := none
  step := 1
  offset := 0
  inc := 5

theorem reads_unreducedRequest :
    unreducedRequest.Reads [unreducedRequest.block] "1,65536,,,,5" where
  block := ⟨"1", ['1'], 1, rfl, ⟨rfl, by decide, by decide⟩, rfl, rfl⟩
  start := ⟨"65536", rfl, rfl⟩
  length := rfl
  step := ⟨none, rfl, rfl⟩
  offset := ⟨none, rfl, rfl⟩
  inc := ⟨some 5, rfl, rfl⟩

/-- The second byte goes to address 6. -/
theorem load_addresses_unreduced :
    RamOperation.parse [unreducedRequest.block] ("load=" ++ "1,65536,,,,5") =
      .ok unreducedRequest.operation ∧
    unreducedRequest.target 1 (unreducedRequest.additions 1) = 6 ∧
    (unreducedRequest.operation.apply Memory.blank).read 6 = 2 := by
  have h := parse_load_iff.mpr ⟨_, reads_unreducedRequest, rfl⟩
  obtain ⟨r, hr, -, hwritten, -⟩ := load_addresses h
  obtain rfl := hr.unique reads_unreducedRequest
  refine ⟨h, rfl, ?_⟩
  exact (hwritten Memory.blank).placed 1 2 rfl fun j hj hlt => absurd hlt (Nat.not_lt.mpr hj)

/-- It is not so that INC is added just when the address passes the top of memory. -/
theorem not_forall_written_at_passes :
    ¬ ∀ (blocks : List Block) (spec : String) (r : LoadRequest), r.Reads blocks spec →
      ∀ memory, Written (fun i => r.target i (r.passes i)) r.copied memory
        (r.operation.apply memory) := by
  intro h
  have hread := (h _ _ _ reads_unreducedRequest Memory.blank).placed 1 2 rfl
    fun j hj hlt => absurd hlt (Nat.not_lt.mpr hj)
  exact absurd hread (by decide +kernel)

end Spectrum
