import Mathlib.Tactic.Common
import Spectrum.Proofs.Z80.Carries
import Spectrum.Proofs.Z80.Operands

/-! # Instructions of the arithmetic unit

The operations of the accumulator take their operand from a byte register, from memory or from the
instruction itself, and the sums and differences of words from a word register.  Whatever it comes
from, such an instruction leaves the result and the flags of their definitions, and nothing else is
different afterwards but the program counter, R, the clock and the internal register.

Main definitions: `Arithmetic.code`, `WordArithmetic`.
Main statements: `Machine.step_of_arithmetic`, `Machine.step_of_wordArithmetic`. -/

namespace Spectrum

namespace Z80

/-! ### Code -/

/-- The prefix that selects an index register. -/
def Index.byte : Index → UInt8
  | .ix => 0xDD
  | .iy => 0xFD

/-- The index register that the code of a place has a prefix for. -/
def Place.index? : Place → Option Index
  | .register .ixh | .register .ixl => some .ix
  | .register .iyh | .register .iyl => some .iy
  | .memory (.indexed index _) => some index
  | _ => none

/-- The number of a place in an opcode. -/
def Place.number : Place → Nat
  | .register .b => 0
  | .register .c => 1
  | .register .d => 2
  | .register .e => 3
  | .register .h | .register .ixh | .register .iyh => 4
  | .register .l | .register .ixl | .register .iyl => 5
  | .memory _ => 6
  | .register .a => 7

/-- The displacement behind the opcode. -/
def Place.displacement? : Place → Option UInt8
  | .memory (.indexed _ d) => some d
  | _ => none

/-- The number of an operation of the accumulator in an opcode. -/
def Arithmetic.number : Arithmetic → Nat
  | .add => 0
  | .adc => 1
  | .sub => 2
  | .sbc => 3
  | .and => 4
  | .xor => 5
  | .or => 6
  | .cp => 7

/-- An opcode of the main page, behind the prefix of an index register if there is one. -/
def indexedCode (index : Option Index) (opcode : Nat) (operands : List UInt8) : List UInt8 :=
  (index.map Index.byte).toList ++ UInt8.ofNat opcode :: operands

/-- The bytes of an operation of the accumulator. -/
def Arithmetic.code (op : Arithmetic) : Source → List UInt8
  | .place p =>
    indexedCode p.index? (0x80 + 8 * op.number + p.number) p.displacement?.toList
  | .literal n => indexedCode none (0xC6 + 8 * op.number) [n]

theorem Arithmetic.number_lt (op : Arithmetic) : op.number < 8 := by
  cases op <;> decide

theorem Arithmetic.ofCode_number (op : Arithmetic) : Arithmetic.ofCode op.number = op := by
  cases op <;> rfl

theorem Place.number_lt (p : Place) : p.number < 8 := by
  rcases p with r | p
  · cases r <;> decide
  · exact (by decide : 6 < 8)

theorem Place.index?_ne_none {p : Place} {d : UInt8} (h : p.displacement? = some d) :
    p.index? ≠ none := by
  rcases p with r | _ | ⟨index, d'⟩
  · cases h
  · cases h
  · exact nofun

theorem Arithmetic.fields_code (op : Arithmetic) {z : Nat} (hz : z < 8) :
    fields (UInt8.ofNat (0x80 + 8 * op.number + z)) = (2, op.number, z) := by
  have hop := op.number_lt
  rw [fields_eq_iff, UInt8.toNat_ofNat']
  omega

theorem Arithmetic.fields_literal (op : Arithmetic) :
    fields (UInt8.ofNat (0xC6 + 8 * op.number)) = (3, op.number, 6) := by
  have hop := op.number_lt
  rw [fields_eq_iff, UInt8.toNat_ofNat']
  omega

theorem Place.place_number (p : Place) {d : UInt8} (hd : ∀ d', p.displacement? = some d' → d' = d) :
    Substitution.place ⟨p.index?, d⟩ p.number = p := by
  rcases p with r | _ | ⟨index, d'⟩
  · cases r <;> rfl
  · rfl
  · rw [hd d' rfl]
    rfl

end Z80

namespace Machine

open Z80

variable {m : Machine}

/-- The operation at the program counter, given the code of an opcode of the main page. -/
theorem exists_operation_of_code {index : Option Index} {opcode : Nat} {operands : List UInt8}
    (h : m.bytesAt m.cpu.pc (indexedCode index opcode operands).length =
      indexedCode index opcode operands) (hp : ¬ IsPrefix (UInt8.ofNat opcode)) :
    ∃ d n₁ n₂, (m.instructionAt m.cpu.pc).operation =
        .ofMain ⟨index, d⟩ (UInt8.ofNat opcode) n₁ n₂ ∧
      (∀ n rest, operands = n :: rest → n₁ = n ∧ (index ≠ none → d = n)) := by
  cases index with
  | none =>
    obtain ⟨hopcode, hrest⟩ := List.cons.inj h
    refine ⟨0, m.read (m.cpu.pc + 1), m.read (m.cpu.pc + 2), ?_, ?_⟩
    · unfold instructionAt
      rw [hopcode, Instruction.decode_of_main hp]
    · rintro n rest rfl
      exact ⟨(List.cons.inj hrest).1, fun hne => absurd rfl hne⟩
  | some index =>
    obtain ⟨hselect, hrest⟩ := List.cons.inj h
    obtain ⟨hopcode, hrest⟩ := List.cons.inj hrest
    have hi : Index.ofByte? (m.read m.cpu.pc) = some index := by
      rw [hselect]
      cases index <;> rfl
    have hnext : m.cpu.pc + 1 + 1 = m.cpu.pc + 2 := Cursor.address_succ m.cpu.pc 1
    refine ⟨m.read (m.cpu.pc + 2), m.read (m.cpu.pc + 2), m.read (m.cpu.pc + 3), ?_, ?_⟩
    · rw [← hopcode] at hp ⊢
      rw [instructionAt_of_indexed hi hp]
    · rintro n rest rfl
      have hn := (List.cons.inj hrest).1
      rw [hnext] at hn
      exact ⟨hn, fun _ => hn⟩

theorem operation_of_code (op : Arithmetic) (source : Source)
    (h : m.bytesAt m.cpu.pc (op.code source).length = op.code source) :
    (m.instructionAt m.cpu.pc).operation = .arithmetic op source := by
  cases source with
  | place p =>
    have hfields := op.fields_code p.number_lt
    obtain ⟨d, n₁, n₂, hoperation, hoperands⟩ :=
      exists_operation_of_code h (not_isPrefix hfields (Nat.le_refl 2))
    have hd : ∀ d', p.displacement? = some d' → d' = d := fun d' hd' =>
      ((hoperands d' [] (by rw [hd']; rfl)).2 (p.index?_ne_none hd')).symm
    rw [hoperation, Operation.ofMain_arithmetic _ _ _ hfields, op.ofCode_number,
      p.place_number hd]
  | literal n =>
    have hp : ¬ IsPrefix (UInt8.ofNat (0xC6 + 8 * op.number)) := by
      cases op <;> decide
    obtain ⟨d, n₁, n₂, hoperation, hoperands⟩ := exists_operation_of_code h hp
    rw [hoperation, Operation.ofMain_arithmeticLiteral _ _ _ op.fields_literal, op.ofCode_number,
      (hoperands n [] rfl).1]

end Machine

namespace Z80

/-! ### Operands -/

/-- The address of a byte in memory. -/
def Indirect.location (c : Cpu) : Indirect → UInt16
  | .hl => c.hl
  | .indexed index d => c.get16 index.register + d.displacement

/-- The value of an operand. -/
def Source.value (m : Machine) : Source → UInt8
  | .place (.register r) => m.cpu.get8 r
  | .place (.memory p) => m.read (p.location m.cpu)
  | .literal n => n

/-- The internal register after an operand has been read: it takes up the address of an indexed
one. -/
def Source.wz (c : Cpu) : Source → UInt16
  | .place (.memory (.indexed index d)) => Indirect.location c (.indexed index d)
  | _ => c.wz

theorem Source.fetch_eq (source : Source) (e : Execution) :
    (source.fetch e).1 = source.value e.machine ∧
      (source.fetch e).2.machine = e.machine.mapCpu fun c => { c with wz := source.wz c } := by
  rcases source with (r | _ | ⟨index, d⟩) | n
  all_goals exact ⟨rfl, rfl⟩

theorem Exec.machine_setResult (f : Cpu → UInt8 × Flags) (e : Execution) :
    ((do let c ← Exec.cpu; Exec.setResult (f c) : Exec Unit) e).2.machine =
      e.machine.mapCpu fun c => c.mapFile (·.setResult (f c)) := rfl

theorem Operation.machine_arithmetic (answer : UInt16 → UInt8) (start : UInt16) (op : Arithmetic)
    (source : Source) (e : Execution) :
    ((arithmetic op source).execute answer start e).2.machine =
      e.machine.mapCpu fun c =>
        { c with
          toRegisterFile := c.setResult (op.defined c.a (source.value e.machine) c.flags.c)
          wz := source.wz c } := by
  obtain ⟨hvalue, hmachine⟩ := source.fetch_eq e
  dsimp only [execute]
  simp only [bind, StateT.bind]
  refine (Exec.machine_setResult (fun c => op.apply c.a (source.fetch e).1 c.flags)
    (source.fetch e).2).trans ?_
  rw [hmachine, hvalue]
  generalize source.value e.machine = x
  simp only [Arithmetic.apply_eq]
  rfl

theorem Source.value_fetched (m : Machine) (i : Instruction) (source : Source) :
    source.value (m.fetched i).machine = source.value m ∧
      source.wz (m.fetched i).machine.cpu = source.wz m.cpu := by
  rcases source with (r | _ | ⟨index, d⟩) | n
  · cases r <;> exact ⟨rfl, rfl⟩
  · exact ⟨rfl, rfl⟩
  · cases index <;> exact ⟨rfl, rfl⟩
  · exact ⟨rfl, rfl⟩

end Z80

namespace Machine

open Z80

variable {m : Machine}

/-- The machine after a step, from the one after its operation. -/
theorem exists_step_eq {operation : Operation} {next : Machine} (answer : UInt16 → UInt8)
    (h : (m.instructionAt m.cpu.pc).operation = operation)
    (hnext : (operation.execute answer m.cpu.pc
      (m.fetched (m.instructionAt m.cpu.pc))).2.machine = next) :
    ∃ cost, (m.step answer).1 = next.mapCpu fun c => { c with clock := c.clock + cost } := by
  subst h hnext
  exact ⟨_, (step_of_execute answer rfl rfl).1⟩

/-- Each operation of the accumulator with each form of operand leaves in the accumulator and the
flags what its definition says of the accumulator, the operand and the carry. -/
theorem step_of_arithmetic (m : Machine) (answer : UInt16 → UInt8) :
    (∀ op source, m.bytesAt m.cpu.pc (op.code source).length = op.code source →
      (m.instructionAt m.cpu.pc).operation = .arithmetic op source) ∧
    ∀ op source, (m.instructionAt m.cpu.pc).operation = .arithmetic op source →
      let n := (m.step answer).1
      let result := op.defined m.cpu.a (source.value m) m.cpu.flags.c
      n = { m with
        cpu := { m.cpu with
          af := UInt16.join result.1 result.2.toByte
          pc := n.cpu.pc
          r := n.cpu.r
          wz := source.wz m.cpu
          blocked := false
          clock := n.cpu.clock } } := by
  refine ⟨fun op source h => operation_of_code op source h, fun op source h => ?_⟩
  obtain ⟨cost, hstep⟩ := exists_step_eq answer h (Operation.machine_arithmetic ..)
  obtain ⟨hvalue, hwz⟩ := source.value_fetched m (m.instructionAt m.cpu.pc)
  intro n result
  have hn : n = _ := hstep
  rw [hn, hvalue]
  dsimp only [mapCpu]
  rw [hwz]
  rfl

/-- ADC A,(IX-1) with the carry set. -/
def carrying : Machine where
  cpu := { Cpu.powerOn with af := 0x7F01, ix := 0x9000, pc := 0x8000 }
  memory := (Memory.blank.writeAll 0x8000 [0xDD, 0x8E, 0xFF]).write 0x8FFF 0x80

/-- The sum is zero, with a carry out of both halves and no overflow. -/
theorem step_of_arithmetic_carrying :
    let n := (carrying.step fun _ => 0xFF).1
    (carrying.instructionAt 0x8000).operation =
        .arithmetic .adc (.place (.memory (.indexed .ix 0xFF))) ∧
      n.cpu.af = 0x0051 ∧ n.cpu.wz = 0x8FFF ∧ n.memory = carrying.memory := by
  intro n
  obtain ⟨hcode, heffect⟩ := carrying.step_of_arithmetic fun _ => 0xFF
  have h := hcode .adc (.place (.memory (.indexed .ix 0xFF))) (by decide +kernel)
  have hn : n = _ := heffect _ _ h
  refine ⟨h, ?_, ?_, ?_⟩ <;> rw [hn]
  · decide +kernel
  · decide +kernel

end Machine

/-! ### Words -/

namespace Z80

/-- The operations on a pair of words: ADD to HL or to an index register, ADC and SBC to HL. -/
inductive WordArithmetic where
  | add (index : Option Index)
  | adc
  | sbc

/-- The second operand of these; `target` is the register of the first. -/
inductive WordOperand where
  | bc
  | de
  | target
  | sp

/-- The number of a word register in an opcode. -/
def WordOperand.number : WordOperand → Nat
  | .bc => 0
  | .de => 1
  | .target => 2
  | .sp => 3

namespace WordArithmetic

/-- The register of the first operand and the result. -/
def target : WordArithmetic → Reg16
  | .add (some index) => index.register
  | .add none | .adc | .sbc => .hl

/-- The register of the second operand. -/
def source (op : WordArithmetic) : WordOperand → Reg16
  | .bc => .bc
  | .de => .de
  | .target => op.target
  | .sp => .sp

/-- The bytes of an operation. -/
def code (op : WordArithmetic) (operand : WordOperand) : List UInt8 :=
  match op with
  | .add index => indexedCode index (0x09 + 16 * operand.number) []
  | .adc => [0xED, UInt8.ofNat (0x4A + 16 * operand.number)]
  | .sbc => [0xED, UInt8.ofNat (0x42 + 16 * operand.number)]

/-- The instruction with these bytes. -/
def operation (op : WordArithmetic) (operand : WordOperand) : Operation :=
  match op with
  | .add _ => .addWord op.target (op.source operand)
  | .adc => .adcWord (op.source operand)
  | .sbc => .sbcWord (op.source operand)

/-- The result and the flags that an operation gives by its definition. -/
def defined (op : WordArithmetic) (x y : UInt16) (f : Flags) : UInt16 × Flags :=
  let sum (c : Bool) := UInt16.ofBitVec (wrappedSum x.toBitVec y.toBitVec c)
  match op with
  | .add _ =>
    (sum false, { sumFlags x.toBitVec y.toBitVec false with s := f.s, z := f.z, pv := f.pv })
  | .adc => (sum f.c, sumFlags x.toBitVec y.toBitVec f.c)
  | .sbc => (.ofBitVec (wrappedDifference x.toBitVec y.toBitVec f.c),
      differenceFlags x.toBitVec y.toBitVec f.c)

theorem machine_execute (answer : UInt16 → UInt8) (start : UInt16) (op : WordArithmetic)
    (operand : WordOperand) (e : Execution) :
    ((op.operation operand).execute answer start e).2.machine =
      e.machine.mapCpu fun c =>
        let result := op.defined (c.get16 op.target) (c.get16 (op.source operand)) c.flags
        { c with
          toRegisterFile := (c.set16 op.target result.1).setFlags result.2
          wz := c.get16 op.target + 1 } := by
  cases op with
  | add index =>
    have hdefined (x y : UInt16) (f : Flags) :
        (WordArithmetic.add index).defined x y f = Alu.addWord x y f :=
      (Alu.addWord_eq x y f).symm
    simp only [hdefined]
    rfl
  | adc =>
    have hdefined (x y : UInt16) (f : Flags) :
        WordArithmetic.adc.defined x y f = Alu.adcWord x y f.c :=
      (Alu.adcWord_eq x y f.c).symm
    simp only [hdefined]
    rfl
  | sbc =>
    have hdefined (x y : UInt16) (f : Flags) :
        WordArithmetic.sbc.defined x y f = Alu.sbcWord x y f.c :=
      (Alu.sbcWord_eq x y f.c).symm
    simp only [hdefined]
    rfl

end WordArithmetic
end Z80

namespace Machine

open Z80

variable {m : Machine}

theorem operation_of_wordCode (op : WordArithmetic) (operand : WordOperand)
    (h : m.bytesAt m.cpu.pc (op.code operand).length = op.code operand) :
    (m.instructionAt m.cpu.pc).operation = op.operation operand := by
  cases op with
  | add index =>
    have hp : ¬ IsPrefix (UInt8.ofNat (0x09 + 16 * operand.number)) := by
      cases operand <;> decide
    obtain ⟨d, n₁, n₂, hoperation, -⟩ := exists_operation_of_code h hp
    rw [hoperation]
    rcases index with _ | _ | _ <;> cases operand <;> rfl
  | adc | sbc =>
    obtain ⟨hextended, hrest⟩ := List.cons.inj h
    obtain ⟨hopcode, -⟩ := List.cons.inj hrest
    unfold instructionAt
    rw [hextended, hopcode]
    cases operand <;> rfl

/-- A sum or difference of words leaves in the register of its first operand and in the flags what
its definition says of the operands and the flags before. -/
theorem step_of_wordArithmetic (answer : UInt16 → UInt8) (op : WordArithmetic)
    (operand : WordOperand)
    (h : m.bytesAt m.cpu.pc (op.code operand).length = op.code operand) :
    let n := (m.step answer).1
    let x := m.cpu.get16 op.target
    let result := op.defined x (m.cpu.get16 (op.source operand)) m.cpu.flags
    n = { m with
      cpu := { m.cpu with
        toRegisterFile :=
          { (m.cpu.set16 op.target result.1).setFlags result.2 with pc := n.cpu.pc, r := n.cpu.r }
        wz := x + 1
        blocked := false
        clock := n.cpu.clock } } := by
  obtain ⟨cost, hstep⟩ := exists_step_eq answer (operation_of_wordCode op operand h)
    (WordArithmetic.machine_execute ..)
  intro n x result
  have hn : n = _ := hstep
  rw [hn]
  dsimp only [mapCpu]
  rw [get16_fetched, get16_fetched, flags_fetched]
  have hresult : op.defined (m.cpu.get16 op.target) (m.cpu.get16 (op.source operand)) m.cpu.flags =
      result := rfl
  rw [hresult]
  clear_value result
  dsimp only [x]
  generalize op.target = target
  cases target <;> rfl

/-- SBC HL,DE with the lowest number that has a sign and one. -/
def subtracting : Machine where
  cpu := { Cpu.powerOn with af := 0x00C5, de := 0x0001, hl := 0x8000, pc := 0x8000 }
  memory := Memory.blank.writeAll 0x8000 [0xED, 0x52]

/-- With the borrow the difference is two less, which overflows. -/
theorem step_of_wordArithmetic_subtracting :
    subtracting.bytesAt 0x8000 2 = [0xED, 0x52] ∧
      let n := (subtracting.step fun _ => 0xFF).1
      n.cpu.hl = 0x7FFE ∧ n.cpu.af = 0x003E ∧ n.cpu.wz = 0x8001 := by
  have h : subtracting.bytesAt 0x8000 2 = [0xED, 0x52] := by decide +kernel
  refine ⟨h, ?_⟩
  intro n
  have hn : n = _ := step_of_wordArithmetic (fun _ => 0xFF) .sbc .de h
  rw [hn]
  decide +kernel

end Machine
end Spectrum
