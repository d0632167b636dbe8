import Spectrum.Word

/-! # The address space

Memory is the 64K address space as a perfect binary tree of depth sixteen with a byte at every
leaf; the bits of an address, most significant first, say which way to go.  Reading and writing
are total, a write shares all but one path with the memory it starts from, and keeping an earlier
memory costs nothing.

Main statements: `Memory.read_write` describes a write through reads, `Memory.read_blank` the
blank memory, and `Memory.ext_read` says that a memory is determined by what is read from it. -/

namespace Spectrum

/-- A perfect binary tree of the given depth with a byte at every leaf. -/
inductive Cells : Nat → Type
  | byte (value : UInt8) : Cells 0
  | split {depth : Nat} (lower upper : Cells depth) : Cells (depth + 1)

namespace Cells

def fill (value : UInt8) : (depth : Nat) → Cells depth
  | 0 => byte value
  | depth + 1 => let half := fill value depth; split half half

/-- The leaf that the low bits of `index` lead to. -/
def read : {depth : Nat} → Cells depth → Nat → UInt8
  | _, byte value, _ => value
  | depth + 1, split lower upper, index =>
    if index.testBit depth then upper.read index else lower.read index

def write : {depth : Nat} → Cells depth → Nat → UInt8 → Cells depth
  | _, byte _, _, value => byte value
  | depth + 1, split lower upper, index, value =>
    if index.testBit depth then split lower (upper.write index value)
    else split (lower.write index value) upper

/-- The leaves from left to right, in front of `rest`. -/
def leaves : {depth : Nat} → Cells depth → List UInt8 → List UInt8
  | _, byte value, rest => value :: rest
  | _, split lower upper, rest => lower.leaves (upper.leaves rest)

@[simp] theorem read_fill (value : UInt8) (depth index : Nat) :
    (fill value depth).read index = value := by
  induction depth with
  | zero => rfl
  | succ depth ih => simp [fill, read, ih]

theorem read_write {depth : Nat} (cells : Cells depth) (i j : Nat) (value : UInt8) :
    (cells.write i value).read j =
      if ∀ k, k < depth → i.testBit k = j.testBit k then value else cells.read j := by
  induction cells with
  | byte old => simp [write, read]
  | @split depth lower upper ihl ihu =>
    have key : (∀ k, k < depth + 1 → i.testBit k = j.testBit k) ↔
        i.testBit depth = j.testBit depth ∧ ∀ k, k < depth → i.testBit k = j.testBit k := by
      constructor
      · intro h
        exact ⟨h depth (by omega), fun k hk => h k (by omega)⟩
      · rintro ⟨h, h'⟩ k hk
        rcases Nat.lt_succ_iff_lt_or_eq.mp hk with hk | rfl
        · exact h' k hk
        · exact h
    simp only [key]
    cases hi : i.testBit depth <;> cases hj : j.testBit depth <;>
      simp [write, read, hi, hj, ihl, ihu]

theorem read_congr {depth : Nat} (cells : Cells depth) {i j : Nat}
    (h : ∀ k, k < depth → i.testBit k = j.testBit k) : cells.read i = cells.read j := by
  induction cells with
  | byte value => rfl
  | @split depth lower upper ihl ihu =>
    have h' : ∀ k, k < depth → i.testBit k = j.testBit k := fun k hk => h k (by omega)
    simp [read, h depth (by omega), ihl h', ihu h']

theorem ext_read {depth : Nat} {c d : Cells depth} (h : ∀ i, c.read i = d.read i) : c = d := by
  induction depth with
  | zero =>
    cases c; cases d
    simpa [read] using h 0
  | succ depth ih =>
    cases c with
    | split cl cu =>
      cases d with
      | split dl du =>
        congr
        · refine ih fun i => ?_
          have hb : (i % 2 ^ depth).testBit depth = false := by simp
          have hi : ∀ k, k < depth → i.testBit k = (i % 2 ^ depth).testBit k := by
            intro k hk
            simp [hk]
          simpa [read, hb, ← read_congr _ hi] using h (i % 2 ^ depth)
        · refine ih fun i => ?_
          have hlt : i % 2 ^ depth < 2 ^ depth := Nat.mod_lt _ (Nat.two_pow_pos depth)
          have hb : (2 ^ depth + i % 2 ^ depth).testBit depth = true := by
            rw [Nat.testBit_two_pow_add_eq]; simp
          have hi : ∀ k, k < depth → i.testBit k = (2 ^ depth + i % 2 ^ depth).testBit k := by
            intro k hk
            rw [Nat.testBit_two_pow_add_gt hk]; simp [hk]
          simpa [read, hb, ← read_congr _ hi] using h (2 ^ depth + i % 2 ^ depth)

end Cells

/-- The 64K address space. -/
structure Memory where
  cells : Cells 16

namespace Memory

def size : Nat := 65536

def blank : Memory := ⟨Cells.fill 0 16⟩

instance : Inhabited Memory := ⟨blank⟩

@[inline] def read (m : Memory) (address : UInt16) : UInt8 := m.cells.read address.toNat

@[inline] def write (m : Memory) (address : UInt16) (value : UInt8) : Memory :=
  ⟨m.cells.write address.toNat value⟩

/-- The word at an address, low byte first; the address after 0xFFFF is 0. -/
def readWord (m : Memory) (address : UInt16) : UInt16 :=
  UInt16.join (m.read (address + 1)) (m.read address)

/-- Bytes written at consecutive addresses in order, wrapping at the top of memory. -/
def writeAll (m : Memory) (address : UInt16) : List UInt8 → Memory
  | [] => m
  | value :: rest => (m.write address value).writeAll (address + 1) rest

/-- Bytes written from `base` up; what does not fit below the top of memory is left out. -/
def load (m : Memory) (base : UInt16) (image : List UInt8) : Memory :=
  m.writeAll base (image.take (size - base.toNat))

def toList (m : Memory) : List UInt8 := m.cells.leaves []

/-- The `count` bytes from `base` up, as far as the top of memory. -/
def slice (m : Memory) (base count : Nat) : List UInt8 := (m.toList.drop base).take count

@[simp] theorem read_blank (address : UInt16) : blank.read address = 0 := by simp [blank, read]

theorem read_write (m : Memory) (i j : UInt16) (value : UInt8) :
    (m.write i value).read j = if i = j then value else m.read j := by
  simp only [read, write, Cells.read_write]
  have : (∀ k, k < 16 → i.toNat.testBit k = j.toNat.testBit k) ↔ i = j := by
    constructor
    · intro h
      apply UInt16.toNat_inj.mp
      apply Nat.eq_of_testBit_eq
      intro k
      by_cases hk : k < 16
      · exact h k hk
      · have low {n : Nat} (hn : n < 2 ^ 16) : n.testBit k = false :=
          Nat.testBit_lt_two_pow
            (Nat.lt_of_lt_of_le hn (Nat.pow_le_pow_right (by omega) (by omega)))
        rw [low i.toNat_lt, low j.toNat_lt]
    · rintro rfl k _
      rfl
  simp [this]

@[simp] theorem read_write_same (m : Memory) (i : UInt16) (value : UInt8) :
    (m.write i value).read i = value := by simp [read_write]

theorem read_write_ne (m : Memory) {i j : UInt16} (h : i ≠ j) (value : UInt8) :
    (m.write i value).read j = m.read j := by simp [read_write, h]

@[ext] theorem ext_read {m n : Memory} (h : ∀ address, m.read address = n.read address) :
    m = n := by
  cases m with
  | mk c =>
    cases n with
    | mk d =>
      congr
      refine Cells.ext_read fun i => ?_
      have low : ∀ k, k < 16 → i.testBit k = (i % 2 ^ 16).testBit k := by
        intro k hk
        rw [Nat.testBit_mod_two_pow]
        simp [hk]
      have e : (UInt16.ofNat i).toNat = i % 2 ^ 16 := UInt16.toNat_ofNat'
      rw [Cells.read_congr c low, Cells.read_congr d low, ← e]
      exact h (UInt16.ofNat i)

end Memory
end Spectrum
