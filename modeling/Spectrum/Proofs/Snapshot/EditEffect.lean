import Mathlib.Algebra.Group.Nat.Defs
import Mathlib.Data.List.Nodup
import Mathlib.Tactic.Common
import Spectrum.Proofs.Memory
import Spectrum.Proofs.Snapshot.EditRequest
import Spectrum.Proofs.Snapshot.Edits

/-! # What moves and pokes change

A move reads all of its bytes before it writes the first, so it does not matter how source and
target overlap, and both wrap at the top of memory.  A poke goes through its range in a loop whose
bound and step come from the specification.  The address of the loop has 32 bits; since bounds and
step fit into sixteen, it passes the last address before it could run over, and no address is met
twice.  So a poke can be taken back: one that flips bits by itself, and one that adds by another
that adds the rest up to 256.

Main definitions: `MoveRequest.Moved`, `PokeLoop`, `PokeRequest.Poked`.
Main statements: `RamOperation.pokeLoop_rangeAddresses`, `RamOperation.read_pokeAll`,
`moves_and_pokes_touch_once`. -/

namespace Spectrum

open Text Tape

/-! ### Moves -/

/-- What a move makes of a snapshot. -/
structure MoveRequest.Moved (r : MoveRequest) (s t : Snapshot) : Prop where
  moved : ∀ i, i < r.length → t.memory.read (UInt16.ofNat (r.target + i)) =
    s.memory.read (UInt16.ofNat (r.source + i))
  kept : ∀ a, (∀ i, i < r.length → UInt16.ofNat (r.target + i) ≠ a) →
    t.memory.read a = s.memory.read a
  registers : t.registers = s.registers
  border : t.border = s.border

namespace RamOperation

theorem length_readAll (m : Memory) (a : UInt16) (n : Nat) : (readAll m a n).length = n := by
  induction n generalizing a with
  | zero => rfl
  | succ n ih => rw [readAll, List.length_cons, ih]

theorem getElem?_readAll (m : Memory) (a : UInt16) {n i : Nat} (h : i < n) :
    (readAll m a n)[i]? = some (m.read (a + UInt16.ofNat i)) := by
  induction n generalizing a i with
  | zero => cases h
  | succ n ih =>
    cases i with
    | zero =>
      rw [readAll, List.getElem?_cons_zero, show UInt16.ofNat 0 = 0 from rfl, UInt16.add_zero]
    | succ i =>
      rw [readAll, List.getElem?_cons_succ, ih _ (Nat.lt_of_succ_lt_succ h), UInt16.add_assoc,
        UInt16.ofNat_add, UInt16.add_comm 1]
      rfl

/-- An address below the end of the target has the byte at the same distance from the source. -/
theorem read_move (m : Memory) (source target : Nat) {length : Nat} (hlength : length ≤ Memory.size)
    (a : UInt16) :
    (apply (.move source length target) m).read a =
      if (a - UInt16.ofNat target).toNat < length then
        m.read (UInt16.ofNat source + (a - UInt16.ofNat target))
      else m.read a := by
  rw [apply, Nat.min_eq_left hlength,
    Memory.read_writeAll _ _ _ _ (by rw [length_readAll]; exact hlength)]
  split
  · next h => rw [getElem?_readAll _ _ h, UInt16.ofNat_toNat, Option.getD_some]
  · next h =>
    rw [List.getElem?_eq_none (by rw [length_readAll]; exact Nat.not_lt.mp h), Option.getD_none]

theorem moved_apply (r : MoveRequest) (s : Snapshot) (hlength : r.length ≤ Memory.size) :
    r.Moved s { s with memory := apply (.move r.source r.length r.target) s.memory } where
  moved i hi := by
    have hdistance : UInt16.ofNat (r.target + i) - UInt16.ofNat r.target = UInt16.ofNat i := by
      rw [UInt16.ofNat_add, UInt16.add_comm, UInt16.add_sub_cancel]
    have hnat : (UInt16.ofNat i).toNat = i :=
      UInt16.toNat_ofNat_of_lt' (Nat.lt_of_lt_of_le hi hlength)
    dsimp only
    rw [read_move _ _ _ hlength, hdistance, hnat, if_pos hi, ← UInt16.ofNat_add]
  kept a ha := by
    dsimp only
    rw [read_move _ _ _ hlength, if_neg]
    intro hlt
    refine ha _ hlt ?_
    rw [UInt16.ofNat_add, UInt16.ofNat_toNat, UInt16.add_comm, UInt16.sub_add_cancel]
  registers := rfl
  border := rfl

end RamOperation

/-! ### The loop of a poke -/

/-- The loop of a poke, with an address of 32 bits: while this is not above the last one, the byte
there is changed, and the step is added.  The list holds the addresses that are met. -/
inductive PokeLoop (change : UInt8 → UInt8) (last step : UInt32) :
    UInt32 → Memory → List UInt32 → Memory → Prop
  | over {a : UInt32} {m : Memory} (h : last < a) : PokeLoop change last step a m [] m
  | next {a : UInt32} {m m' : Memory} {visited : List UInt32} (h : a ≤ last)
      (hrest : PokeLoop change last step (a + step)
        (m.write a.toUInt16 (change (m.read a.toUInt16))) visited m') :
      PokeLoop change last step a m (a :: visited) m'

namespace RamOperation

theorem rangeAddresses_of_lt {first last : Nat} (step : Nat) (h : last < first) :
    rangeAddresses first last step = [] := if_pos h

/-- The first address of a range, and the range behind it. -/
theorem rangeAddresses_of_le {first last step : Nat} (hstep : 0 < step) (h : first ≤ last) :
    rangeAddresses first last step = first :: rangeAddresses (first + step) last step := by
  have hhead : (List.range ((last - first) / step + 1)).map (fun i => first + i * step) =
      first :: (List.range ((last - first) / step)).map fun i => first + step + i * step := by
    rw [List.range_succ_eq_map, List.map_cons, List.map_map, Nat.zero_mul, Nat.add_zero]
    refine congrArg (first :: ·) (List.map_congr_left fun i _ => ?_)
    rw [Function.comp_apply, Nat.succ_mul, Nat.add_assoc, Nat.add_comm step]
  rw [rangeAddresses, if_neg (Nat.not_lt.mpr h), hhead]
  by_cases hlast : last < first + step
  · rw [rangeAddresses_of_lt step hlast, Nat.div_eq_of_lt (by omega)]
    rfl
  · have hdiv : (last - first) / step = (last - (first + step)) / step + 1 := by
      rw [Nat.div_eq_sub_div hstep (by omega), Nat.sub_sub]
    rw [rangeAddresses, if_neg hlast, hdiv]

theorem mem_rangeAddresses {first last step a : Nat} (hstep : 0 < step) :
    a ∈ rangeAddresses first last step ↔ ∃ k, a = first + k * step ∧ a ≤ last := by
  unfold rangeAddresses
  split
  · next h =>
    refine ⟨fun hmem => absurd hmem List.not_mem_nil, ?_⟩
    rintro ⟨k, rfl, hle⟩
    omega
  · next h =>
    simp only [List.mem_map, List.mem_range, Nat.lt_succ_iff, Nat.le_div_iff_mul_le hstep]
    constructor
    · rintro ⟨k, hk, rfl⟩
      exact ⟨k, rfl, by omega⟩
    · rintro ⟨k, rfl, hle⟩
      exact ⟨k, by omega, rfl⟩

theorem nodup_rangeAddresses (first last : Nat) {step : Nat} (hstep : 0 < step) :
    (rangeAddresses first last step).Nodup := by
  unfold rangeAddresses
  split
  · exact List.nodup_nil
  · refine List.nodup_range.map fun i j hij => ?_
    exact Nat.eq_of_mul_eq_mul_right hstep (Nat.add_left_cancel hij)

/-- The loop over a range ends and meets the addresses of the range, in order.  The induction is on
what is left of the range; the address behind it is still far from 32 bits. -/
theorem pokeLoop_rangeAddresses (change : UInt8 → UInt8) {last step : Nat} (hlast : last ≤ 0xFFFF)
    (hstep : 0 < step) (hstep' : step ≤ 0xFFFF) (first : Nat) (hfirst : first ≤ 0xFFFF + 0xFFFF)
    (m : Memory) :
    PokeLoop change (UInt32.ofNat last) (UInt32.ofNat step) (UInt32.ofNat first) m
      ((rangeAddresses first last step).map UInt32.ofNat)
      (pokeAll m change (rangeAddresses first last step)) := by
  have hfirst32 : (UInt32.ofNat first).toNat = first :=
    UInt32.toNat_ofNat_of_lt' (show first < 2 ^ 32 by omega)
  have hlast32 : (UInt32.ofNat last).toNat = last :=
    UInt32.toNat_ofNat_of_lt' (show last < 2 ^ 32 by omega)
  induction hleft : last + 1 - first using Nat.strongRecOn generalizing first m with
  | ind left ih =>
    by_cases h : last < first
    · rw [rangeAddresses_of_lt step h]
      refine .over ?_
      rw [UInt32.lt_iff_toNat_lt, hfirst32, hlast32]
      exact h
    · have hle : first ≤ last := Nat.not_lt.mp h
      have haddress : (UInt32.ofNat first).toUInt16 = UInt16.ofNat first := by
        rw [← UInt16.toNat_inj, UInt32.toNat_toUInt16, hfirst32, UInt16.toNat_ofNat']
      have hnext : UInt32.ofNat first + UInt32.ofNat step = UInt32.ofNat (first + step) :=
        (UInt32.ofNat_add first step).symm
      rw [rangeAddresses_of_le hstep hle, List.map_cons, pokeAll]
      refine .next ?_ ?_
      · rw [UInt32.le_iff_toNat_le, hfirst32, hlast32]
        exact hle
      · rw [haddress, hnext]
        exact ih (last + 1 - (first + step)) (by omega) _ (by omega) _
          (UInt32.toNat_ofNat_of_lt' (show first + step < 2 ^ 32 by omega)) rfl

/-- Bytes changed at addresses that are all different. -/
theorem read_pokeAll (m : Memory) (change : UInt8 → UInt8) {addresses : List Nat}
    (hnodup : addresses.Nodup) (hlt : ∀ a ∈ addresses, a < Memory.size) (a : UInt16) :
    (pokeAll m change addresses).read a =
      if a.toNat ∈ addresses then change (m.read a) else m.read a := by
  induction addresses generalizing m with
  | nil => rfl
  | cons b rest ih =>
    obtain ⟨hb, hrest⟩ := List.nodup_cons.mp hnodup
    have hb16 : (UInt16.ofNat b).toNat = b := UInt16.toNat_ofNat_of_lt' (hlt b List.mem_cons_self)
    rw [pokeAll, ih _ hrest fun c hc => hlt c (List.mem_cons_of_mem _ hc)]
    by_cases hab : a.toNat = b
    · have ha : UInt16.ofNat b = a := by rw [← hab, UInt16.ofNat_toNat]
      rw [ha, hab, if_neg hb, if_pos List.mem_cons_self, Memory.read_write_same]
    · have hne : UInt16.ofNat b ≠ a := fun h => hab (by rw [← h, hb16])
      have hmem : a.toNat ∈ b :: rest ↔ a.toNat ∈ rest := by
        rw [List.mem_cons, or_iff_right hab]
      simp only [Memory.read_write_ne m hne, hmem]

/-- A change taken back at the same addresses. -/
theorem pokeAll_pokeAll (m : Memory) {change back : UInt8 → UInt8}
    (hback : ∀ b, back (change b) = b) {addresses : List Nat} (hnodup : addresses.Nodup)
    (hlt : ∀ a ∈ addresses, a < Memory.size) :
    pokeAll (pokeAll m change addresses) back addresses = m := by
  ext a
  rw [read_pokeAll _ _ hnodup hlt, read_pokeAll _ _ hnodup hlt]
  split
  · rw [hback]
  · rfl

end RamOperation

/-! ### Pokes -/

/-- What a poke makes of a byte, in numbers. -/
def PokeOperator.result (op : PokeOperator) (value old : Nat) : Nat :=
  match op with
  | .assign => value % 256
  | .xor => old ^^^ value % 256
  | .add => (old + value) % 256

namespace PokeRequest

variable {r r' : PokeRequest} {spec spec' : String}

/-- The change of a byte. -/
def change (r : PokeRequest) : UInt8 → UInt8 :=
  RamOperation.PokeOperator.apply r.op (UInt8.ofNat r.value)

theorem toNat_change (r : PokeRequest) (old : UInt8) :
    (r.change old).toNat = r.op.result r.value old.toNat := by
  have hvalue : (UInt8.ofNat r.value).toNat = r.value % 256 := UInt8.toNat_ofNat'
  unfold change
  cases r.op with
  | assign => exact hvalue
  | xor => rw [RamOperation.PokeOperator.apply, UInt8.toNat_xor, hvalue, PokeOperator.result]
  | add =>
    rw [RamOperation.PokeOperator.apply, UInt8.toNat_add, hvalue, PokeOperator.result,
      Nat.add_mod_mod]

/-- The addresses of a request: its first one, and on by its step up to its last one. -/
def Meets (r : PokeRequest) (a : Nat) : Prop := ∃ k, a = r.first + k * r.step ∧ a ≤ r.last

/-- What a poke makes of a snapshot. -/
structure Poked (r : PokeRequest) (s t : Snapshot) : Prop where
  /-- The loop ends, having met each address of the range once and no other. -/
  loop : ∃ visited : List UInt32,
    PokeLoop r.change (UInt32.ofNat r.last) (UInt32.ofNat r.step)
      (UInt32.ofNat r.first) s.memory visited t.memory ∧
    visited.Nodup ∧ (∀ a, a ∈ visited ↔ r.Meets a.toNat) ∧ ∀ a ∈ visited, a.toNat ≤ 0xFFFF
  changed : ∀ a : UInt16, r.Meets a.toNat →
    (t.memory.read a).toNat = r.op.result r.value (s.memory.read a).toNat
  kept : ∀ a : UInt16, ¬ r.Meets a.toNat → t.memory.read a = s.memory.read a
  registers : t.registers = s.registers
  border : t.border = s.border

/-- The addresses that are poked. -/
def addresses (r : PokeRequest) : List Nat := RamOperation.rangeAddresses r.first r.last r.step

/-- The memory after a poke. -/
def poke (r : PokeRequest) (m : Memory) : Memory :=
  RamOperation.pokeAll m r.change r.addresses

theorem Reads.bounds (h : r.Reads spec) :
    r.first ≤ 0xFFFF ∧ r.last ≤ 0xFFFF ∧ r.step ≤ 0xFFFF ∧ 0 < r.step := by
  obtain ⟨range, value, -, hrange, -⟩ := h
  exact hrange.bounds

theorem Reads.mem_addresses (h : r.Reads spec) {a : Nat} : a ∈ r.addresses ↔ r.Meets a :=
  RamOperation.mem_rangeAddresses h.bounds.2.2.2

theorem Reads.nodup_addresses (h : r.Reads spec) : r.addresses.Nodup :=
  RamOperation.nodup_rangeAddresses _ _ h.bounds.2.2.2

theorem Reads.lt_of_mem (h : r.Reads spec) : ∀ a ∈ r.addresses, a < Memory.size := by
  intro a ha
  obtain ⟨k, -, hle⟩ := h.mem_addresses.mp ha
  have := h.bounds.2.1
  unfold Memory.size
  omega

theorem Reads.poked (h : r.Reads spec) (s : Snapshot) :
    r.Poked s { s with memory := r.poke s.memory } where
  loop := by
    obtain ⟨hfirst, hlast, hstep', hstep⟩ := h.bounds
    have h32 : ∀ a ∈ r.addresses, (UInt32.ofNat a).toNat = a := fun a ha =>
      UInt32.toNat_ofNat_of_lt' (Nat.lt_trans (h.lt_of_mem a ha) (by decide))
    have hmem (a : UInt32) : a ∈ r.addresses.map UInt32.ofNat ↔ r.Meets a.toNat := by
      rw [← h.mem_addresses, List.mem_map]
      constructor
      · rintro ⟨b, hb, rfl⟩
        rwa [h32 b hb]
      · exact fun ha => ⟨_, ha, UInt32.ofNat_toNat⟩
    refine ⟨_, RamOperation.pokeLoop_rangeAddresses _ hlast hstep hstep' _ (by omega) _, ?_, hmem,
      fun a ha => ?_⟩
    · refine h.nodup_addresses.map_on fun a ha b hb hab => ?_
      rw [← h32 a ha, hab, h32 b hb]
    · obtain ⟨k, -, hle⟩ := (hmem a).mp ha
      exact Nat.le_trans hle hlast
  changed a ha := by
    dsimp only
    rw [poke, RamOperation.read_pokeAll _ _ h.nodup_addresses h.lt_of_mem,
      if_pos (h.mem_addresses.mpr ha), toNat_change]
  kept a ha := by
    dsimp only
    rw [poke, RamOperation.read_pokeAll _ _ h.nodup_addresses h.lt_of_mem,
      if_neg (mt h.mem_addresses.mp ha)]
  registers := rfl
  border := rfl

theorem Reads.editRam_eq (h : r.Reads spec) (blocks : List Block) (s : Snapshot) :
    editRam blocks ("poke=" ++ spec) s = ({ s with memory := r.poke s.memory }, none) := by
  have hparse := (RamOperation.parse_poke_iff blocks).mpr ⟨r, h, rfl⟩
  simp only [editRam, hparse]
  rfl

/-- A poke is taken back by one of the same addresses that takes back the change of a byte. -/
theorem Reads.editAll_back (h : r.Reads spec) (h' : r'.Reads spec')
    (haddresses : r'.addresses = r.addresses)
    (hback : ∀ b, r'.change (r.change b) = b)
    (blocks : List Block) (s : Snapshot) :
    editAll (editRam blocks) s ["poke=" ++ spec, "poke=" ++ spec'] = (s, none) := by
  rw [editAll_cons_of_ok (h.editRam_eq blocks s), editAll_cons_of_ok (h'.editRam_eq blocks _)]
  dsimp only
  have hpoke : r'.poke (r.poke s.memory) = s.memory := by
    rw [poke, poke, haddresses]
    exact RamOperation.pokeAll_pokeAll _ hback h.nodup_addresses h.lt_of_mem
  rw [hpoke]
  rfl

/-- Bits that are flipped twice. -/
theorem change_change_xor (hop : r.op = .xor) (b : UInt8) : r.change (r.change b) = b := by
  rw [change, hop, RamOperation.PokeOperator.apply, RamOperation.PokeOperator.apply,
    UInt8.xor_assoc, UInt8.xor_self, UInt8.xor_zero]

/-- Two additions that come to a whole turn. -/
theorem change_change_add (hop : r.op = .add) (hop' : r'.op = .add)
    (hsum : (r.value + r'.value) % 256 = 0) (b : UInt8) : r'.change (r.change b) = b := by
  have hturn : UInt8.ofNat r.value + UInt8.ofNat r'.value = 0 := by
    rw [← UInt8.ofNat_add, ← UInt8.toNat_inj, UInt8.toNat_ofNat']
    exact hsum
  rw [change, change, hop, hop', RamOperation.PokeOperator.apply, RamOperation.PokeOperator.apply,
    UInt8.add_assoc, hturn, UInt8.add_zero]

end PokeRequest

theorem MoveRequest.Reads.editRam_eq {r : MoveRequest} {spec : String} (h : r.Reads spec)
    (blocks : List Block) (s : Snapshot) :
    editRam blocks ("move=" ++ spec) s =
      ({ s with memory := RamOperation.apply (.move r.source r.length r.target) s.memory },
        none) := by
  have hparse := (RamOperation.parse_move_iff blocks).mpr ⟨r, h, rfl⟩
  simp only [editRam, hparse]

theorem snd_editRam_eq_none_iff {blocks : List Block} {spec : String} {s : Snapshot} :
    (editRam blocks spec s).2 = none ↔ ∃ op, RamOperation.parse blocks spec = .ok op := by
  cases hparse : RamOperation.parse blocks spec with
  | error e => simp [editRam, hparse]
  | ok op => simp [editRam, hparse]

open PokeRequest in
/-- Moves and pokes are accepted just if they read as requests.  A move of at most all of memory
puts each byte of its source where the target has it, as they were before; a poke changes each byte
of its range once.  Nothing else changes, and a poke that flips bits or adds can be taken back. -/
theorem moves_and_pokes_touch_once (blocks : List Block) (s : Snapshot) (spec : String) :
    ((editRam blocks ("move=" ++ spec) s).2 = none ↔ ∃ r : MoveRequest, r.Reads spec) ∧
    (∀ r : MoveRequest, r.Reads spec → r.length ≤ 65536 →
      r.Moved s (editRam blocks ("move=" ++ spec) s).1) ∧
    ((editRam blocks ("poke=" ++ spec) s).2 = none ↔ ∃ r : PokeRequest, r.Reads spec) ∧
    ∀ r : PokeRequest, r.Reads spec →
      r.Poked s (editRam blocks ("poke=" ++ spec) s).1 ∧
      (r.op = .xor →
        editAll (editRam blocks) s ["poke=" ++ spec, "poke=" ++ spec] = (s, none)) ∧
      ∀ (r' : PokeRequest) (spec' : String), r'.Reads spec' →
        r'.first = r.first → r'.last = r.last → r'.step = r.step → r.op = .add → r'.op = .add →
        (r.value + r'.value) % 256 = 0 →
        editAll (editRam blocks) s ["poke=" ++ spec, "poke=" ++ spec'] = (s, none) := by
  refine ⟨?_, fun r hr hlength => ?_, ?_, fun r hr => ⟨?_, fun hop => ?_, ?_⟩⟩
  · simp only [snd_editRam_eq_none_iff, RamOperation.parse_move_iff]
    exact ⟨fun ⟨_, r, hr, _⟩ => ⟨r, hr⟩, fun ⟨r, hr⟩ => ⟨_, r, hr, rfl⟩⟩
  · rw [hr.editRam_eq]
    exact RamOperation.moved_apply r s hlength
  · simp only [snd_editRam_eq_none_iff, RamOperation.parse_poke_iff]
    exact ⟨fun ⟨_, r, hr, _⟩ => ⟨r, hr⟩, fun ⟨r, hr⟩ => ⟨_, r, hr, rfl⟩⟩
  · rw [hr.editRam_eq]
    exact hr.poked s
  · exact hr.editAll_back hr rfl (change_change_xor hop) blocks s
  · intro r' spec' hr' hfirst hlast hstep hop hop' hsum
    have haddresses : r'.addresses = r.addresses := by
      rw [addresses, addresses, hfirst, hlast, hstep]
    exact hr.editAll_back hr' haddresses (change_change_add hop hop' hsum) blocks s

/-- Three bytes from the top of memory on, moved up by one; every seventh byte up to the top, with
its bits flipped twice; and two additions to it that come to 256. -/
theorem moves_and_pokes_touch_once_wrapping :
    let s : Snapshot := { memory := (Memory.blank.write 65535 7).write 0 9 }
    let t := (editRam [] ("move=" ++ "65535,3,0") s).1
    (t.memory.read 0 = 7 ∧ t.memory.read 1 = 9 ∧ t.memory.read 65535 = 7) ∧
    (editRam [] ("poke=" ++ "$FFF1-$FFFF-7,^$1FF") s).1.memory.read 65535 = 0xF8 ∧
    editAll (editRam []) s ["poke=" ++ "$FFF1-$FFFF-7,^$1FF", "poke=" ++ "$FFF1-$FFFF-7,^$1FF"] =
      (s, none) ∧
    editAll (editRam []) s ["poke=" ++ "$FFF1-$FFFF-7,+200", "poke=" ++ "$FFF1-$FFFF-7,+0x38"] =
      (s, none) := by
  intro s t
  have hbounds : IsBound "$FFF1" 0xFFF1 ∧ IsBound "$FFFF" 0xFFFF ∧ IsBound "7" 7 := by
    unfold IsBound
    decide
  have hrange : RangeReads "$FFF1-$FFFF-7" 0xFFF1 0xFFFF 7 :=
    .stepped hbounds.1 hbounds.2.1 hbounds.2.2 (by decide)
  have hmove : MoveRequest.Reads ⟨65535, 3, 0⟩ "65535,3,0" :=
    ⟨"65535", "3", "0", "", by decide, .inl rfl, by decide, by decide, by decide⟩
  have hflip : PokeRequest.Reads ⟨0xFFF1, 0xFFFF, 7, .xor, 0x1FF⟩ "$FFF1-$FFFF-7,^$1FF" :=
    ⟨"$FFF1-$FFFF-7", "^$1FF", by decide, hrange, .xor (v := "$1FF") (by decide)⟩
  have hadd : PokeRequest.Reads ⟨0xFFF1, 0xFFFF, 7, .add, 200⟩ "$FFF1-$FFFF-7,+200" :=
    ⟨"$FFF1-$FFFF-7", "+200", by decide, hrange, .add (v := "200") (by decide)⟩
  have hrest : PokeRequest.Reads ⟨0xFFF1, 0xFFFF, 7, .add, 56⟩ "$FFF1-$FFFF-7,+0x38" :=
    ⟨"$FFF1-$FFFF-7", "+0x38", by decide, hrange, .add (v := "0x38") (by decide)⟩
  have hmoved := (moves_and_pokes_touch_once [] s "65535,3,0").2.1 _ hmove (by decide)
  have hflipped := (moves_and_pokes_touch_once [] s "$FFF1-$FFFF-7,^$1FF").2.2.2 _ hflip
  have hadded := (moves_and_pokes_touch_once [] s "$FFF1-$FFFF-7,+200").2.2.2 _ hadd
  refine ⟨⟨?_, ?_, ?_⟩, ?_, hflipped.2.1 rfl, ?_⟩
  · exact (hmoved.moved 0 (by decide)).trans (by decide)
  · exact (hmoved.moved 1 (by decide)).trans (by decide)
  · exact (hmoved.kept 65535 (by decide)).trans (by decide)
  · have hread := hflipped.1.changed 65535 ⟨2, by decide, by decide⟩
    exact UInt8.toNat_inj.mp (hread.trans (by decide))
  · exact hadded.2.2 _ _ hrest rfl rfl rfl rfl rfl (by decide)

end Spectrum
