import Mathlib.Data.Fintype.Card
import Mathlib.Tactic.Common
import Mathlib.Tactic.FinCases
import Spectrum.Proofs.Z80.Decoding
import Spectrum.Proofs.Z80.Registers

/-! # What is fetched is what is listed

The processor looks opcodes up and fetches operands as it comes to them; a listing decodes four
bytes by their fields and counts the operands of what it finds.  They agree on every opcode of every
page, so that the instruction that is fetched is the one that would be listed, and as many bytes are
fetched as the listing covers.

Main statement: `Instruction.fetch_eq`. -/

namespace Spectrum.Z80

/-- What holds in every column of every row of a page holds of all opcodes. -/
theorem opcode_of_rows {P : UInt8 → Prop}
    (h : ∀ (row : Fin 32) (column : Fin 8), P (UInt8.ofNat (8 * row + column))) (b : UInt8) :
    P b := by
  have hb := b.toNat_lt
  have hrow := h ⟨b.toNat / 8, by omega⟩ ⟨b.toNat % 8, by omega⟩
  rwa [show 8 * (b.toNat / 8) + b.toNat % 8 = b.toNat by omega, UInt8.ofNat_toNat] at hrow

namespace Cursor

variable (m : Machine)

/-- Behind some more bytes. -/
def skip : Nat → Cursor → Cursor
  | 0, c => c
  | n + 1, c => skip n { c with address := c.address + 1, bytes := m.read c.address :: c.bytes }

/-- Behind the first bytes of an instruction, of which some were opcodes. -/
def behind (a : UInt16) (n opcodes : Nat) : Cursor where
  address := a + UInt16.ofNat n
  bytes := (m.bytesAt a n).reverse
  opcodes := opcodes

theorem address_succ (a : UInt16) (n : Nat) :
    a + UInt16.ofNat n + 1 = a + UInt16.ofNat (n + 1) := by
  rw [UInt16.add_assoc, UInt16.ofNat_add]
  rfl

theorem bytesAt_succ (a : UInt16) (n : Nat) :
    m.bytesAt a (n + 1) = m.bytesAt a n ++ [m.read (a + UInt16.ofNat n)] := by
  induction n generalizing a with
  | zero => simp [Machine.bytesAt]
  | succ n ih =>
    have haddress : a + 1 + UInt16.ofNat n = a + UInt16.ofNat (n + 1) := by
      rw [← address_succ, UInt16.add_assoc, UInt16.add_assoc, UInt16.add_comm 1]
    rw [Machine.bytesAt, ih (a + 1), haddress]
    rfl

theorem byte_behind (a : UInt16) (n opcodes : Nat) :
    Fetch.byte m (behind m a n opcodes) =
      (m.read (a + UInt16.ofNat n), behind m a (n + 1) opcodes) := by
  unfold behind
  rw [bytesAt_succ, List.reverse_append, ← address_succ]
  rfl

theorem opcode_behind (a : UInt16) (n opcodes : Nat) :
    Fetch.opcode m (behind m a n opcodes) =
      (m.read (a + UInt16.ofNat n), behind m a (n + 1) (opcodes + 1)) := by
  have h : Fetch.opcode m (behind m a n opcodes) =
      let p := Fetch.byte m (behind m a n opcodes)
      (p.1, { p.2 with opcodes := p.2.opcodes + 1 }) := rfl
  rw [h, byte_behind]
  rfl

theorem skip_behind (a : UInt16) (n k opcodes : Nat) :
    skip m k (behind m a n opcodes) = behind m a (n + k) opcodes := by
  induction k generalizing n with
  | zero => rfl
  | succ k ih =>
    have hbyte := congrArg Prod.snd (byte_behind m a n opcodes)
    rw [skip, Nat.add_succ, ← Nat.succ_add, ← ih (n + 1)]
    exact congrArg (skip m k) hbyte

end Cursor

/-! ### The pages -/

section

variable (m : Machine) (c : Cursor) (opcode : UInt8)

/-- The main page, without a prefix. -/
theorem fetch_main :
    (OpcodeMap.main.kind opcode).fetch none opcode m c =
      let op := Operation.ofMain ⟨none, 0⟩ opcode (m.read c.address) (m.read (c.address + 1))
      (op, c.skip m op.operandBytes) := by
  induction opcode using opcode_of_rows with
  | h row column => fin_cases row <;> fin_cases column <;> rfl

/-- The main page behind an index prefix: a displacement is the first of the operand bytes. -/
theorem fetch_indexed (index : Index) :
    (OpcodeMap.main.kind opcode).fetch (some index) opcode m c =
      let op := Operation.ofMain ⟨some index, m.read c.address⟩ opcode (m.read c.address)
        (m.read (c.address + 1))
      (op, c.skip m op.operandBytes) := by
  induction opcode using opcode_of_rows with
  | h row column => fin_cases row <;> fin_cases column <;> rfl

theorem fetch_bits :
    (OpcodeMap.bits.kind opcode).fetch none opcode m c =
      let op := Operation.ofBits opcode (Substitution.place ⟨none, 0⟩ (opcode.toNat % 8)) none
      (op, c.skip m op.operandBytes) := by
  induction opcode using opcode_of_rows with
  | h row column => fin_cases row <;> fin_cases column <;> rfl

theorem fetch_extended :
    (OpcodeMap.extended.kind opcode).fetch none opcode m c =
      let op := Operation.ofExtended opcode (m.read c.address) (m.read (c.address + 1))
      (op, c.skip m op.operandBytes) := by
  induction opcode using opcode_of_rows with
  | h row column => fin_cases row <;> fin_cases column <;> rfl

end

/-! ### Prefixes -/

/-- The opcodes of each kind of prefix. -/
theorem kind_main_prefixes (b : UInt8) :
    (OpcodeMap.main.kind b = .bitsPrefix ↔ b = 0xCB) ∧
      (OpcodeMap.main.kind b = .extendedPrefix ↔ b = 0xED) ∧
      (OpcodeMap.main.kind b = .indexPrefix .ix ↔ Index.ofByte? b = some .ix) ∧
      (OpcodeMap.main.kind b = .indexPrefix .iy ↔ Index.ofByte? b = some .iy) := by
  induction b using UInt8.of_fin with
  | h i =>
    revert i
    decide +kernel

theorem kind_main_eq_bitsPrefix {b : UInt8} : OpcodeMap.main.kind b = .bitsPrefix ↔ b = 0xCB :=
  (kind_main_prefixes b).1

theorem kind_main_eq_extendedPrefix {b : UInt8} :
    OpcodeMap.main.kind b = .extendedPrefix ↔ b = 0xED :=
  (kind_main_prefixes b).2.1

theorem kind_main_eq_indexPrefix {b : UInt8} {index : Index} :
    OpcodeMap.main.kind b = .indexPrefix index ↔ Index.ofByte? b = some index := by
  cases index with
  | ix => exact (kind_main_prefixes b).2.2.1
  | iy => exact (kind_main_prefixes b).2.2.2

namespace Instruction

theorem fetchIndexed_of_ne {kind : OpcodeKind} (h : kind ≠ .bitsPrefix) (index : Index)
    (opcode : UInt8) (m : Machine) (c : Cursor) :
    fetchIndexed index opcode kind m c =
      let p := kind.fetch (some index) opcode m c
      (⟨.indexed, p.1⟩, p.2) := by
  cases kind <;> first | rfl | exact absurd rfl h

theorem fetchFrom_of_ne {kind : OpcodeKind} (hbits : kind ≠ .bitsPrefix)
    (hextended : kind ≠ .extendedPrefix) (hindex : ∀ index, kind ≠ .indexPrefix index)
    (first : UInt8) (m : Machine) (c : Cursor) :
    fetchFrom first kind m c =
      let p := kind.fetch none first m c
      (⟨.main, p.1⟩, p.2) := by
  cases kind <;>
    first | rfl | exact absurd rfl hbits | exact absurd rfl hextended | exact absurd rfl (hindex _)

/-- An instruction as it is fetched from an address: the fetch ends behind it, and as many of its
bytes were opcodes as its page says. -/
def fetchedAt (m : Machine) (a : UInt16) (i : Instruction) : Instruction × Cursor :=
  (i, .behind m a i.length i.page.fetches)

section

variable (m : Machine) (a : UInt16)

/-- It is enough to skip the operand bytes behind the opcodes. -/
theorem fetchedAt_of_skip {i : Instruction} {p : Operation × Cursor} {opcodeBytes fetches : Nat}
    (page : Page) (hbytes : page.opcodeBytes = opcodeBytes) (hfetches : page.fetches = fetches)
    (hp : p =
      (i.operation, (Cursor.behind m a opcodeBytes fetches).skip m i.operation.operandBytes))
    (hi : i = ⟨page, i.operation⟩) : (⟨page, p.1⟩, p.2) = fetchedAt m a i := by
  obtain ⟨page, op⟩ := i
  obtain rfl := congrArg Instruction.page hi
  subst hp hbytes hfetches
  rw [Cursor.skip_behind]
  rfl

/-- Behind the prefix of the bit page. -/
theorem fetchFrom_bitsPrefix (b b₂ b₃ : UInt8) :
    fetchFrom b .bitsPrefix m (.behind m a 1 1) =
      fetchedAt m a (decode 0xCB (m.read (a + 1)) b₂ b₃) := by
  have hfetch : fetchFrom b .bitsPrefix m (.behind m a 1 1) =
      let p := Fetch.opcode m (.behind m a 1 1)
      let q := (OpcodeMap.bits.kind p.1).fetch none p.1 m p.2
      (⟨.bits, q.1⟩, q.2) := rfl
  rw [hfetch, Cursor.opcode_behind]
  exact fetchedAt_of_skip m a .bits rfl rfl (fetch_bits m _ _) rfl

/-- Behind the prefix of the extended page. -/
theorem fetchFrom_extendedPrefix (b : UInt8) :
    fetchFrom b .extendedPrefix m (.behind m a 1 1) =
      fetchedAt m a (decode 0xED (m.read (a + 1)) (m.read (a + 2)) (m.read (a + 3))) := by
  have hfetch : fetchFrom b .extendedPrefix m (.behind m a 1 1) =
      let p := Fetch.opcode m (.behind m a 1 1)
      let q := (OpcodeMap.extended.kind p.1).fetch none p.1 m p.2
      (⟨.extended, q.1⟩, q.2) := rfl
  have hnext : a + 2 + 1 = a + 3 := Cursor.address_succ a 2
  rw [hfetch, Cursor.opcode_behind, ← hnext]
  exact fetchedAt_of_skip m a .extended rfl rfl (fetch_extended m _ _) rfl

/-- On the main page. -/
theorem fetchFrom_main {b : UInt8} (h : ¬ IsPrefix b) :
    fetchFrom b (OpcodeMap.main.kind b) m (.behind m a 1 1) =
      fetchedAt m a ⟨.main, .ofMain ⟨none, 0⟩ b (m.read (a + 1)) (m.read (a + 2))⟩ := by
  have hnext : a + 1 + 1 = a + 2 := Cursor.address_succ a 1
  rw [fetchFrom_of_ne, ← hnext]
  · exact fetchedAt_of_skip m a .main rfl rfl (fetch_main m _ _) rfl
  · exact fun hkind => h (.inl (kind_main_eq_bitsPrefix.mp hkind))
  · exact fun hkind => h (.inr (.inr (.inl (kind_main_eq_extendedPrefix.mp hkind))))
  · exact fun index hkind => h (Index.isPrefix_of_ofByte? (kind_main_eq_indexPrefix.mp hkind))

/-- Behind an index prefix and an opcode. -/
theorem fetchIndexed_eq {b₀ : UInt8} {index : Index} (hi : Index.ofByte? b₀ = some index)
    (h : m.read (a + 1) = 0xCB ∨ ¬ IsPrefix (m.read (a + 1))) :
    fetchIndexed index (m.read (a + 1)) (OpcodeMap.main.kind (m.read (a + 1))) m (.behind m a 2 2) =
      fetchedAt m a (decode b₀ (m.read (a + 1)) (m.read (a + 2)) (m.read (a + 3))) := by
  rcases h with hcb | hmain
  · have hfetch (b : UInt8) : fetchIndexed index b .bitsPrefix m (.behind m a 2 2) =
        let p := Fetch.byte m (.behind m a 2 2)
        let q := Fetch.byte m p.2
        let copy := if q.1.toNat % 8 == 6 then none else some (Reg8.ofCode (q.1.toNat % 8))
        (⟨.indexedBits, .ofBits q.1 (.memory (.indexed index p.1)) copy⟩, q.2) := rfl
    rw [hcb, kind_main_eq_bitsPrefix.mpr rfl, hfetch, Cursor.byte_behind, decode_of_indexedBits hi]
    dsimp only
    rw [Cursor.byte_behind, fetchedAt, length, Operation.operandBytes_ofBits]
    rfl
  · have hnext : a + 2 + 1 = a + 3 := Cursor.address_succ a 2
    rw [fetchIndexed_of_ne fun hkind => hmain (.inl (kind_main_eq_bitsPrefix.mp hkind)),
      decode_of_indexed hi hmain, ← hnext]
    exact fetchedAt_of_skip m a .indexed rfl rfl (fetch_indexed m _ _ index) rfl

/-- Behind an index prefix. -/
theorem fetchFrom_indexPrefix {b₀ : UInt8} {index : Index} (hi : Index.ofByte? b₀ = some index) :
    fetchFrom b₀ (.indexPrefix index) m (.behind m a 1 1) =
      fetchedAt m a (decode b₀ (m.read (a + 1)) (m.read (a + 2)) (m.read (a + 3))) := by
  let next := m.read (a + 1)
  have hfetch : fetchFrom b₀ (.indexPrefix index) m (.behind m a 1 1) =
      (if next == 0xDD || next == 0xFD || next == 0xED then
        return ⟨.main, .lonePrefix index⟩
      else do
        let second ← Fetch.opcode
        fetchIndexed index second (OpcodeMap.main.kind second) : Fetch Instruction)
        m (.behind m a 1 1) := rfl
  rw [hfetch]
  split
  · next hlone =>
    simp only [Bool.or_eq_true, beq_iff_eq] at hlone
    rw [decode_of_lonePrefix hi (by grind [IsPrefix]) (by grind)]
    rfl
  · next hlone =>
    simp only [Bool.or_eq_true, beq_iff_eq] at hlone
    have hsecond : ((do
        let second ← Fetch.opcode
        fetchIndexed index second (OpcodeMap.main.kind second)) : Fetch Instruction)
          m (.behind m a 1 1) =
        let p := Fetch.opcode m (.behind m a 1 1)
        fetchIndexed index p.1 (OpcodeMap.main.kind p.1) m p.2 := rfl
    rw [hsecond, Cursor.opcode_behind]
    exact fetchIndexed_eq m a hi (by grind [IsPrefix])

/-- The instruction that is fetched is the one that its bytes are listed as. -/
theorem fetch_eq : fetch m { address := a } = fetchedAt m a (m.instructionAt a) := by
  have hfirst : fetch m { address := a } =
      fetchFrom (m.read a) (OpcodeMap.main.kind (m.read a)) m (.behind m a 1 1) := rfl
  rw [hfirst, Machine.instructionAt]
  generalize m.read a = b
  cases hindex : Index.ofByte? b with
  | some index =>
    rw [kind_main_eq_indexPrefix.mpr hindex]
    exact fetchFrom_indexPrefix m a hindex
  | none =>
    by_cases h : IsPrefix b
    · rcases h with rfl | rfl | rfl | rfl
      · exact fetchFrom_bitsPrefix m a _ _ _
      · cases hindex
      · exact fetchFrom_extendedPrefix m a _
      · cases hindex
    · rw [decode_of_main h]
      exact fetchFrom_main m a h

end

end Instruction
end Spectrum.Z80
