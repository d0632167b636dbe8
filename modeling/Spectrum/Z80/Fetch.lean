import Spectrum.Machine
import Spectrum.Z80.Decode
import Spectrum.Z80.Opcodes

/-! # Fetching

The processor fetches an instruction byte by byte: prefixes and opcodes, which tell it what to do,
and the operands that this takes, as it comes to them.  `Instruction.fetch` goes by the opcode maps;
`Instruction.decode` takes the same instruction from its four bytes by their fields.

Main definitions: `OpcodeKind.fetch`, `Instruction.fetch`. -/

namespace Spectrum.Z80

/-- Where the fetch of an instruction has come to: the address of the next byte, the bytes so far,
the newest first, and how many of them were fetched as opcodes. -/
structure Cursor where
  address : UInt16
  bytes : List UInt8 := []
  opcodes : Nat := 0
deriving DecidableEq, Repr

/-- A part of a fetch from the memory of a machine. -/
abbrev Fetch := ReaderT Machine (StateM Cursor)

namespace Fetch

/-- The next byte, which stays to be fetched. -/
def peek : Fetch UInt8 := return (← read).read (← get).address

def byte : Fetch UInt8 := do
  let b ← peek
  modify fun c => { c with address := c.address + 1, bytes := b :: c.bytes }
  return b

def opcode : Fetch UInt8 := do
  let b ← byte
  modify fun c => { c with opcodes := c.opcodes + 1 }
  return b

def word : Fetch UInt16 := do
  let low ← byte
  let high ← byte
  return UInt16.join high low

/-- The byte in memory that HL points to, or that an index register and the displacement in the next
byte do. -/
def memory (index : Option Index) : Fetch Indirect := do
  match index with
  | none => return .hl
  | some index => return .indexed index (← byte)

end Fetch

open Fetch

/-- The operation of an opcode of a kind, with the index register in the place of HL if there is a
prefix for one.  Register numbers that come with a memory operand mean H and L even so. -/
def OpcodeKind.fetch (index : Option Index) (opcode : UInt8) (kind : OpcodeKind) :
    Fetch Operation := do
  let y := opcode.toNat / 8 % 8
  let z := opcode.toNat % 8
  let s : Substitution := ⟨index, 0⟩
  match kind with
  | .bitsPrefix | .extendedPrefix | .indexPrefix _ | .undefined => return .undefined opcode
  -- the main page
  | .nop => return .nop
  | .halt => return .halt
  | .di => return .di
  | .ei => return .ei
  | .ldRegister => return .ld (s.register y) (.place (.register (s.register z)))
  | .ldLiteral => return .ld (s.register y) (.literal (← byte))
  | .ldMemory => return .ld (Reg8.ofCode y) (.place (.memory (← memory index)))
  | .storeMemory => return .store (← memory index) (Reg8.ofCode z)
  | .storeMemoryLiteral => do
    let target ← memory index
    return .storeLiteral target (← byte)
  | .loadVia pointer => return .loadVia pointer
  | .storeVia pointer => return .storeVia pointer
  | .loadDirect => return .loadDirect (← word)
  | .storeDirect => return .storeDirect (← word)
  | .ldWord => return .ldWord (s.pair (y / 2)) (← word)
  | .loadHl => return .ldWordDirect s.word (← word)
  | .storeHl => return .storeWordDirect (← word) s.word
  | .ldSp => return .ldSp s.word
  | .push => return .push (s.stackPair (y / 2))
  | .pop => return .pop (s.stackPair (y / 2))
  | .exDeHl => return .exDeHl
  | .exAf => return .exAf
  | .exx => return .exx
  | .exSp => return .exSp s.word
  | .arithmeticRegister op => return .arithmetic op (.place (.register (s.register z)))
  | .arithmeticMemory op => return .arithmetic op (.place (.memory (← memory index)))
  | .arithmeticLiteral op => return .arithmetic op (.literal (← byte))
  | .incRegister => return .inc (.register (s.register y))
  | .incMemory => return .inc (.memory (← memory index))
  | .decRegister => return .dec (.register (s.register y))
  | .decMemory => return .dec (.memory (← memory index))
  | .daa => return .daa
  | .cpl => return .cpl
  | .ccf => return .ccf
  | .scf => return .scf
  | .rotate op => return .rotate op
  | .addWord => return .addWord s.word (s.pair (y / 2))
  | .incWord => return .incWord (s.pair (y / 2))
  | .decWord => return .decWord (s.pair (y / 2))
  | .jp => return .jp none (← word)
  | .jpIf => return .jp (some (Condition.ofCode y)) (← word)
  | .jpHl => return .jpRegister s.word
  | .jr => return .jr none (← byte)
  | .jrIf => return .jr (some (Condition.ofCode (y % 4))) (← byte)
  | .djnz => return .djnz (← byte)
  | .call => return .call none (← word)
  | .callIf => return .call (some (Condition.ofCode y)) (← word)
  | .ret => return .ret none
  | .retIf => return .ret (some (Condition.ofCode y))
  | .rst => return .rst (UInt16.ofNat (8 * y))
  | .inLiteral => return .inLiteral (← byte)
  | .outLiteral => return .outLiteral (← byte)
  -- the bit page
  | .shiftRegister => return .shift (Alu.Shift.ofCode y) (.register (s.register z)) none
  | .shiftMemory => return .shift (Alu.Shift.ofCode y) (.memory .hl) none
  | .bitRegister => return .bit (UInt8.ofNat y) (.register (s.register z))
  | .bitMemory => return .bit (UInt8.ofNat y) (.memory .hl)
  | .resRegister => return .res (UInt8.ofNat y) (.register (s.register z)) none
  | .resMemory => return .res (UInt8.ofNat y) (.memory .hl) none
  | .setRegister => return .set (UInt8.ofNat y) (.register (s.register z)) none
  | .setMemory => return .set (UInt8.ofNat y) (.memory .hl) none
  -- the extended page
  | .inRegister => return .inRegister (if y == 6 then none else some (s.register y))
  | .outRegister => return .outRegister (if y == 6 then none else some (s.register y))
  | .adcWord => return .adcWord (s.pair (y / 2))
  | .sbcWord => return .sbcWord (s.pair (y / 2))
  | .ldWordDirect => return .ldWordDirect (s.pair (y / 2)) (← word)
  | .storeWordDirect => return .storeWordDirect (← word) (s.pair (y / 2))
  | .neg => return .neg
  | .retn => return if y == 1 then .reti else .retn
  | .im => return .im (if y % 4 ≤ 1 then .im0 else if y % 2 == 0 then .im1 else .im2)
  | .storeSpecial => return .storeSpecial (if opcode == 0x47 then .i else .r)
  | .loadSpecial => return .loadSpecial (if opcode == 0x57 then .i else .r)
  | .rotateDigits => return if opcode == 0x6F then .rld else .rrd
  | .block kind repeats => return .block kind (if y % 2 == 1 then .down else .up) repeats

namespace Instruction

/-- The rest of an instruction with an index prefix and an opcode of a kind behind it.  On the bit
page the displacement comes before the last byte, which is not fetched as an opcode. -/
def fetchIndexed (index : Index) (opcode : UInt8) : OpcodeKind → Fetch Instruction
  | .bitsPrefix => do
    let displacement ← byte
    let last ← byte
    let copy := if last.toNat % 8 == 6 then none else some (Reg8.ofCode (last.toNat % 8))
    return ⟨.indexedBits, .ofBits last (.memory (.indexed index displacement)) copy⟩
  | kind => return ⟨.indexed, ← kind.fetch (some index) opcode⟩

/-- The rest of an instruction that starts with an opcode of a kind.  An index prefix in front of
another prefix, other than that of the bit page, stands alone. -/
def fetchFrom (first : UInt8) : OpcodeKind → Fetch Instruction
  | .indexPrefix index => do
    let next ← peek
    if next == 0xDD || next == 0xFD || next == 0xED then return ⟨.main, .lonePrefix index⟩
    else
      let second ← opcode
      fetchIndexed index second (OpcodeMap.main.kind second)
  | .bitsPrefix => do
    let second ← opcode
    return ⟨.bits, ← (OpcodeMap.bits.kind second).fetch none second⟩
  | .extendedPrefix => do
    let second ← opcode
    return ⟨.extended, ← (OpcodeMap.extended.kind second).fetch none second⟩
  | kind => return ⟨.main, ← kind.fetch none first⟩

def fetch : Fetch Instruction := do
  let first ← opcode
  fetchFrom first (OpcodeMap.main.kind first)

end Instruction
end Spectrum.Z80
