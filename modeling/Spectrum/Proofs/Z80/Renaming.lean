import Mathlib.Data.Fintype.Card
import Mathlib.Tactic.Common
import Mathlib.Tactic.FinCases
import Spectrum.Proofs.Z80.Fetching

/-! # Registers in each other's place

Behind an index prefix the opcodes of the main page stand for the same operations with IX or IY for
HL, as long as they have no byte in memory that HL points to and do not name HL in another way.
`Operation.rename` puts an index register and HL in each other's place in an operation, and
`RegisterFile.exchange` does in a register file.

Main statement: `ofMain_rename`. -/

namespace Spectrum

namespace Z80

/-! ### Registers in each other's place -/

/-- The byte register in the place of another, when an index register and HL are exchanged. -/
def Reg8.rename (index : Index) (r : Reg8) : Reg8 :=
  match index, r with
  | .ix, .h => .ixh
  | .ix, .l => .ixl
  | .ix, .ixh => .h
  | .ix, .ixl => .l
  | .iy, .h => .iyh
  | .iy, .l => .iyl
  | .iy, .iyh => .h
  | .iy, .iyl => .l
  | _, r => r

/-- The word register in the place of another. -/
def Reg16.rename (index : Index) (r : Reg16) : Reg16 :=
  match index, r with
  | .ix, .hl => .ix
  | .ix, .ix => .hl
  | .iy, .hl => .iy
  | .iy, .iy => .hl
  | _, r => r

/-- The file with HL and an index register exchanged. -/
def RegisterFile.exchange (index : Index) (f : RegisterFile) : RegisterFile :=
  match index with
  | .ix => { f with hl := f.ix, ix := f.hl }
  | .iy => { f with hl := f.iy, iy := f.hl }

/-- A source with other registers. -/
def Source.rename (index : Index) : Source → Source
  | .place (.register r) => .place (.register (r.rename index))
  | s => s

/-- A place with other registers. -/
def Place.rename (index : Index) : Place → Place
  | .register r => .register (r.rename index)
  | p => p

namespace Operation

/-- An operation with other registers. -/
def rename (index : Index) : Operation → Operation
  | .ld target source => .ld (target.rename index) (source.rename index)
  | .loadVia pointer => .loadVia (pointer.rename index)
  | .storeVia pointer => .storeVia (pointer.rename index)
  | .ldWord target n => .ldWord (target.rename index) n
  | .ldWordDirect target address => .ldWordDirect (target.rename index) address
  | .storeWordDirect address source => .storeWordDirect address (source.rename index)
  | .ldSp source => .ldSp (source.rename index)
  | .push source => .push (source.rename index)
  | .pop target => .pop (target.rename index)
  | .exSp other => .exSp (other.rename index)
  | .arithmetic op source => .arithmetic op (source.rename index)
  | .inc place => .inc (place.rename index)
  | .dec place => .dec (place.rename index)
  | .addWord target source => .addWord (target.rename index) (source.rename index)
  | .incWord target => .incWord (target.rename index)
  | .decWord target => .decWord (target.rename index)
  | .jpRegister source => .jpRegister (source.rename index)
  | op => op

/-- Whether an operation only works on registers that it names, and on memory only through others
than HL. -/
def namesRegisters : Operation → Bool
  | .ld _ (.place (.memory _)) | .arithmetic _ (.place (.memory _)) => false
  | .inc (.memory _) | .dec (.memory _) | .store _ _ | .storeLiteral _ _ => false
  | .exDeHl | .exx | .halt | .block _ _ _ | .rrd | .rld | .adcWord _ | .sbcWord _ => false
  | .shift _ _ _ | .bit _ _ | .res _ _ _ | .set _ _ _ => false
  | .loadSpecial _ | .storeSpecial _ | .inRegister _ | .outRegister _ => false
  | _ => true

end Operation

/-! ### Opcodes -/

/-- The opcodes of the main page with a byte in memory that HL points to. -/
def memoryOpcodes : List UInt8 :=
  [0x34, 0x35, 0x36, 0x46, 0x4E, 0x56, 0x5E, 0x66, 0x6E, 0x7E,
    0x70, 0x71, 0x72, 0x73, 0x74, 0x75, 0x77,
    0x86, 0x8E, 0x96, 0x9E, 0xA6, 0xAE, 0xB6, 0xBE]

/-- The opcodes of the main page in which an index register takes the place of HL, or that do
without either: not those with a memory operand, nor EX DE,HL, EXX and HALT. -/
structure Substitutable (opcode : UInt8) : Prop where
  main : ¬ IsPrefix opcode
  register : opcode ∉ memoryOpcodes
  other : opcode ≠ 0xEB ∧ opcode ≠ 0xD9 ∧ opcode ≠ 0x76

instance (opcode : UInt8) : Decidable (Substitutable opcode) :=
  decidable_of_iff (¬ IsPrefix opcode ∧ opcode ∉ memoryOpcodes ∧
    opcode ≠ 0xEB ∧ opcode ≠ 0xD9 ∧ opcode ≠ 0x76)
    ⟨fun h => ⟨h.1, h.2.1, h.2.2⟩, fun h => ⟨h.main, h.register, h.other⟩⟩

/-- Behind an index prefix these opcodes stand for the same operations with other registers. -/
theorem ofMain_rename {opcode : UInt8} (h : Substitutable opcode) (index : Index)
    (d n₁ n₂ : UInt8) :
    let op := Operation.ofMain ⟨none, 0⟩ opcode n₁ n₂
    Operation.ofMain ⟨some index, d⟩ opcode n₁ n₂ = op.rename index ∧ op.namesRegisters = true := by
  induction opcode using opcode_of_rows with
  | h row column =>
    cases index <;> fin_cases row <;> fin_cases column <;>
      first | exact ⟨rfl, rfl⟩ | exact absurd h (by decide)

end Z80
end Spectrum
