import Mathlib.Tactic.Common
import Spectrum.Z80.Step

/-! # What is decoded

Any four bytes are decoded, to an instruction of one of the pages, and in `Instruction.decode_cases`
the first two bytes say which.  `Decoded` lists what stands on each page: apart from the lone
prefixes, an instruction of the main page or of an indexed one starts with an opcode that is no
prefix, and all of these have an operation.

Main statements: `Instruction.decode_cases`, `Instruction.decoded_decode`,
`Instruction.unhandled?_decode`, `Instruction.length_decode`. -/

namespace Spectrum.Z80

/-- The bytes that are no opcodes of the main page but lead to other pages. -/
def IsPrefix (b : UInt8) : Prop := b = 0xCB ∨ b = 0xDD ∨ b = 0xED ∨ b = 0xFD

instance (b : UInt8) : Decidable (IsPrefix b) :=
  inferInstanceAs (Decidable (_ ∨ _))

/-- An index prefix in front of a prefix other than that of the bit page. -/
def StandsAlone (b₀ b₁ : UInt8) : Prop :=
  (b₀ = 0xDD ∨ b₀ = 0xFD) ∧ (b₁ = 0xDD ∨ b₁ = 0xED ∨ b₁ = 0xFD)

instance (b₀ b₁ : UInt8) : Decidable (StandsAlone b₀ b₁) :=
  inferInstanceAs (Decidable (_ ∧ _))

/-- An opcode is made of its fields. -/
theorem eq_of_fields (b : UInt8) :
    b = UInt8.ofNat (64 * (b.toNat / 64) + 8 * (b.toNat / 8 % 8) + b.toNat % 8) := by
  apply UInt8.toNat_inj.mp
  have hb := b.toNat_lt
  rw [UInt8.toNat_ofNat']
  omega

namespace Operation

/-- Only prefixes stand for nothing on the main page. -/
theorem isPrefix_of_ofMain_eq_undefined {s : Substitution} {opcode n₁ n₂ c : UInt8}
    (h : ofMain s opcode n₁ n₂ = .undefined c) : IsPrefix opcode := by
  have hx : opcode.toNat / 64 < 4 := by have := opcode.toNat_lt; omega
  have hy : opcode.toNat / 8 % 8 < 8 := by omega
  have hf := eq_of_fields opcode
  unfold ofMain at h
  dsimp only at h
  generalize opcode.toNat / 64 = x at h hx hf
  generalize opcode.toNat / 8 % 8 = y at h hy hf
  generalize opcode.toNat % 8 = z at h hf
  repeat' split at h
  all_goals try (cases h; done)
  -- what is left are the two places where the prefixes are: 11y011 and 11y101 with an odd y
  · obtain rfl : x = 3 := by grind
    obtain rfl : y = 1 := by grind
    exact .inl hf
  · obtain rfl : x = 3 := by grind
    have hodd : y = 3 ∨ y = 5 ∨ y = 7 := by grind
    rcases hodd with rfl | rfl | rfl
    · exact .inr (.inl hf)
    · exact .inr (.inr (.inl hf))
    · exact .inr (.inr (.inr hf))

/-- A restart leads to one of the first 64 addresses. -/
theorem toNat_lt_of_ofMain_eq_rst {s : Substitution} {opcode n₁ n₂ : UInt8} {a : UInt16}
    (h : ofMain s opcode n₁ n₂ = .rst a) : a.toNat < 64 := by
  have hy : opcode.toNat / 8 % 8 < 8 := by omega
  unfold ofMain at h
  dsimp only at h
  generalize opcode.toNat / 64 = x at h
  generalize opcode.toNat / 8 % 8 = y at h hy
  generalize opcode.toNat % 8 = z at h
  repeat' split at h
  all_goals try (cases h; done)
  obtain rfl := Operation.rst.inj h
  rw [UInt16.toNat_ofNat']
  omega

/-- Whether an operation is one of the bit page. -/
def isOnBitPage : Operation → Bool
  | .shift _ _ _ | .bit _ _ | .res _ _ _ | .set _ _ _ => true
  | _ => false

theorem ofBits_ne {op : Operation} (h : op.isOnBitPage = false) (opcode : UInt8) (place : Place)
    (copy : Option Reg8) : ofBits opcode place copy ≠ op := by
  have hbits : (ofBits opcode place copy).isOnBitPage = true := by
    unfold ofBits
    dsimp only
    split <;> rfl
  rintro rfl
  exact absurd (hbits.symm.trans h) nofun

/-- Whether an operation is one that no extended opcode stands for. -/
def isOnMainPageOnly : Operation → Bool
  | .halt | .rst _ => true
  | _ => false

theorem ofExtended_ne {op : Operation} (h : op.isOnMainPageOnly = true) (opcode n₁ n₂ : UInt8) :
    ofExtended opcode n₁ n₂ ≠ op := by
  have hextended : (ofExtended opcode n₁ n₂).isOnMainPageOnly = false := by
    unfold ofExtended
    dsimp only
    repeat' split
    all_goals rfl
  rintro rfl
  exact absurd (h.symm.trans hextended) nofun

theorem operandBytes_ofBits (opcode : UInt8) (place : Place) (copy : Option Reg8) :
    (ofBits opcode place copy).operandBytes = place.operandBytes := by
  unfold ofBits
  dsimp only
  split <;> rfl

end Operation

/-! ### Pages -/

/-- The instructions that some bytes may be decoded to, by the page that they are on. -/
inductive Decoded (b₀ b₁ b₂ b₃ : UInt8) : Instruction → Prop
  | main (h : ¬ IsPrefix b₀) : Decoded b₀ b₁ b₂ b₃ ⟨.main, .ofMain ⟨none, 0⟩ b₀ b₁ b₂⟩
  | bits (place : Place) (h : place.operandBytes = 0) :
      Decoded b₀ b₁ b₂ b₃ ⟨.bits, .ofBits b₁ place none⟩
  | extended : Decoded b₀ b₁ b₂ b₃ ⟨.extended, .ofExtended b₁ b₂ b₃⟩
  | lonePrefix (index : Index) : Decoded b₀ b₁ b₂ b₃ ⟨.main, .lonePrefix index⟩
  | indexed (index : Index) (h : ¬ IsPrefix b₁) :
      Decoded b₀ b₁ b₂ b₃ ⟨.indexed, .ofMain ⟨some index, b₂⟩ b₁ b₂ b₃⟩
  | indexedBits (index : Index) (copy : Option Reg8) :
      Decoded b₀ b₁ b₂ b₃ ⟨.indexedBits, .ofBits b₃ (.memory (.indexed index b₂)) copy⟩

theorem operandBytes_place (code : Nat) : (Substitution.place ⟨none, 0⟩ code).operandBytes = 0 := by
  unfold Substitution.place
  split <;> rfl

theorem Index.eq_of_ofByte? {b : UInt8} {index : Index} (h : Index.ofByte? b = some index) :
    b = 0xDD ∨ b = 0xFD := by
  simp only [ofByte?, beq_iff_eq] at h
  split at h
  · next hdd => exact .inl hdd
  · split at h
    · next hfd => exact .inr hfd
    · cases h

theorem Index.isPrefix_of_ofByte? {b : UInt8} {index : Index} (h : Index.ofByte? b = some index) :
    IsPrefix b :=
  (Index.eq_of_ofByte? h).elim (fun hdd => .inr (.inl hdd)) fun hfd => .inr (.inr (.inr hfd))

namespace Instruction

section

variable {b₀ b₁ b₂ b₃ : UInt8} {index : Index}

theorem decode_of_main (h : ¬ IsPrefix b₀) :
    decode b₀ b₁ b₂ b₃ = ⟨.main, .ofMain ⟨none, 0⟩ b₀ b₁ b₂⟩ := by
  have hindex : Index.ofByte? b₀ = none :=
    Option.eq_none_iff_forall_ne_some.mpr fun _ hi => h (Index.isPrefix_of_ofByte? hi)
  unfold decode
  rw [hindex]
  dsimp only
  rw [if_neg fun hb => h (.inl (beq_iff_eq.mp hb)),
    if_neg fun hb => h (.inr (.inr (.inl (beq_iff_eq.mp hb))))]

variable (hi : Index.ofByte? b₀ = some index)

include hi

theorem decode_of_lonePrefix (h : IsPrefix b₁) (hcb : b₁ ≠ 0xCB) :
    decode b₀ b₁ b₂ b₃ = ⟨.main, .lonePrefix index⟩ := by
  unfold decode
  rw [hi]
  refine if_pos ?_
  rcases h with h | rfl | rfl | rfl
  · exact absurd h hcb
  all_goals rfl

theorem decode_of_indexedBits :
    decode b₀ 0xCB b₂ b₃ = ⟨.indexedBits, .ofBits b₃ (.memory (.indexed index b₂))
      (if b₃.toNat % 8 == 6 then none else some (Reg8.ofCode (b₃.toNat % 8)))⟩ := by
  unfold decode
  rw [hi]
  rfl

theorem decode_of_indexed (h : ¬ IsPrefix b₁) :
    decode b₀ b₁ b₂ b₃ = ⟨.indexed, .ofMain ⟨some index, b₂⟩ b₁ b₂ b₃⟩ := by
  unfold decode
  rw [hi]
  refine (if_neg fun hlone => ?_).trans (if_neg fun hcb => h (.inl (beq_iff_eq.mp hcb)))
  simp only [Bool.or_eq_true, beq_iff_eq] at hlone
  obtain (hdd | hfd) | hed := hlone
  · exact h (.inr (.inl hdd))
  · exact h (.inr (.inr (.inr hfd)))
  · exact h (.inr (.inr (.inl hed)))

end

/-- The ways in which an instruction begins, and what it is decoded to in each of them. -/
theorem decode_cases {P : Instruction → Prop} {b₀ b₁ b₂ b₃ : UInt8}
    (main : ¬ IsPrefix b₀ → P ⟨.main, .ofMain ⟨none, 0⟩ b₀ b₁ b₂⟩)
    (bits : b₀ = 0xCB →
      P ⟨.bits, .ofBits b₁ (Substitution.place ⟨none, 0⟩ (b₁.toNat % 8)) none⟩)
    (extended : b₀ = 0xED → P ⟨.extended, .ofExtended b₁ b₂ b₃⟩)
    (lonePrefix : ∀ index, Index.ofByte? b₀ = some index → StandsAlone b₀ b₁ →
      P ⟨.main, .lonePrefix index⟩)
    (indexed : ∀ index, Index.ofByte? b₀ = some index → ¬ IsPrefix b₁ →
      P ⟨.indexed, .ofMain ⟨some index, b₂⟩ b₁ b₂ b₃⟩)
    (indexedBits : ∀ index copy, Index.ofByte? b₀ = some index → b₁ = 0xCB →
      P ⟨.indexedBits, .ofBits b₃ (.memory (.indexed index b₂)) copy⟩) :
    P (decode b₀ b₁ b₂ b₃) := by
  cases hi : Index.ofByte? b₀ with
  | none =>
    by_cases h : IsPrefix b₀
    · rcases h with rfl | rfl | rfl | rfl
      · exact bits rfl
      · cases hi
      · exact extended rfl
      · cases hi
    · rw [decode_of_main h]
      exact main h
  | some index =>
    by_cases hcb : b₁ = 0xCB
    · subst hcb
      rw [decode_of_indexedBits hi]
      exact indexedBits index _ hi rfl
    by_cases h : IsPrefix b₁
    · rw [decode_of_lonePrefix hi h hcb]
      exact lonePrefix index hi ⟨Index.eq_of_ofByte? hi, h.resolve_left hcb⟩
    · rw [decode_of_indexed hi h]
      exact indexed index hi h

/-- Whatever the bytes are, they are decoded. -/
theorem decoded_decode (b₀ b₁ b₂ b₃ : UInt8) : Decoded b₀ b₁ b₂ b₃ (decode b₀ b₁ b₂ b₃) :=
  decode_cases (fun h => .main h) (fun _ => .bits _ (operandBytes_place _)) (fun _ => .extended)
    (fun index _ _ => .lonePrefix index) (fun index _ h => .indexed index h)
    fun index copy _ _ => .indexedBits index copy

variable (b₀ b₁ b₂ b₃ : UInt8)

/-- No opcode is met that stands for nothing. -/
theorem unhandled?_decode : (decode b₀ b₁ b₂ b₃).unhandled? = none := by
  -- on the two pages of the main opcodes an undefined one would be a prefix
  have hmain {page : Page} {s : Substitution} {opcode n₁ n₂ : UInt8} (h : ¬ IsPrefix opcode) :
      unhandled? ⟨page, .ofMain s opcode n₁ n₂⟩ = none := by
    unfold unhandled?
    split
    · rfl
    · next hc _ => exact absurd (Operation.isPrefix_of_ofMain_eq_undefined hc) h
    · rfl
  have hbits {page : Page} {opcode : UInt8} {place : Place} {copy : Option Reg8} :
      unhandled? ⟨page, .ofBits opcode place copy⟩ = none := by
    unfold unhandled?
    split
    · rfl
    · next hc _ => exact absurd hc (Operation.ofBits_ne rfl _ _ _)
    · rfl
  have hd := decoded_decode b₀ b₁ b₂ b₃
  generalize decode b₀ b₁ b₂ b₃ = i at hd
  cases hd with
  | main h => exact hmain h
  | bits place h => exact hbits
  | extended => rfl
  | lonePrefix index => rfl
  | indexed index h => exact hmain h
  | indexedBits index copy => exact hbits

theorem toNat_lt_of_decode_eq_rst {a : UInt16} (h : (decode b₀ b₁ b₂ b₃).operation = .rst a) :
    a.toNat < 64 := by
  have hd := decoded_decode b₀ b₁ b₂ b₃
  generalize decode b₀ b₁ b₂ b₃ = i at h hd
  cases hd with
  | main | indexed => exact Operation.toNat_lt_of_ofMain_eq_rst h
  | bits | indexedBits => exact absurd h (Operation.ofBits_ne rfl _ _ _)
  | extended => exact absurd h (Operation.ofExtended_ne rfl _ _ _)
  | lonePrefix => cases h

end Instruction

/-! ### Lengths -/

theorem Indirect.operandBytes_le (p : Indirect) : p.operandBytes ≤ 1 := by
  cases p with
  | hl => exact Nat.zero_le 1
  | indexed index d => exact Nat.le_refl 1

theorem Place.operandBytes_le (p : Place) : p.operandBytes ≤ 1 := by
  cases p with
  | register r => exact Nat.zero_le 1
  | memory p => exact p.operandBytes_le

theorem Source.operandBytes_le (s : Source) : s.operandBytes ≤ 1 := by
  cases s with
  | place p => exact p.operandBytes_le
  | literal n => exact Nat.le_refl 1

theorem Operation.operandBytes_le (op : Operation) : op.operandBytes ≤ 2 := by
  unfold operandBytes
  split <;> grind [Source.operandBytes_le, Place.operandBytes_le, Indirect.operandBytes_le]

theorem Instruction.length_decode (b₀ b₁ b₂ b₃ : UInt8) :
    1 ≤ (decode b₀ b₁ b₂ b₃).length ∧ (decode b₀ b₁ b₂ b₃).length ≤ 4 := by
  have hd := decoded_decode b₀ b₁ b₂ b₃
  generalize decode b₀ b₁ b₂ b₃ = i at hd
  have hop := i.operation.operandBytes_le
  unfold length
  cases hd with
  | main | bits | extended | lonePrefix | indexed =>
    simp only [Page.opcodeBytes] at hop ⊢
    omega
  | indexedBits index copy =>
    simp only [Operation.operandBytes_ofBits]
    exact show 1 ≤ 3 + 1 ∧ 3 + 1 ≤ 4 by decide

end Spectrum.Z80
