import Spectrum.Z80.Instruction

/-! # The opcode maps

The processor knows an opcode by its kind, which it looks up on a page of 32 rows of eight.  Kinds
whose opcodes differ in registers, conditions or numbers are told apart by the opcode afterwards.

Main definitions: `OpcodeMap.main`, `OpcodeMap.bits`, `OpcodeMap.extended`. -/

namespace Spectrum.Z80

/-- What the processor does with an opcode, apart from what the opcode itself says.  `hl` in a name
stands for HL or the index register in its place, `Memory` for the byte that it points to. -/
inductive OpcodeKind where
  -- prefixes, and what stands for nothing
  | bitsPrefix
  | extendedPrefix
  | indexPrefix (index : Index)
  | undefined
  -- the main page
  | nop | halt | di | ei
  | ldRegister | ldLiteral | ldMemory | storeMemory | storeMemoryLiteral
  | loadVia (pointer : Reg16) | storeVia (pointer : Reg16) | loadDirect | storeDirect
  | ldWord | loadHl | storeHl | ldSp | push | pop
  | exDeHl | exAf | exx | exSp
  | arithmeticRegister (op : Arithmetic) | arithmeticMemory (op : Arithmetic)
  | arithmeticLiteral (op : Arithmetic)
  | incRegister | incMemory | decRegister | decMemory
  | daa | cpl | ccf | scf | rotate (op : Alu.Shift)
  | addWord | incWord | decWord
  | jp | jpIf | jpHl | jr | jrIf | djnz | call | callIf | ret | retIf | rst
  | inLiteral | outLiteral
  -- the bit page
  | shiftRegister | shiftMemory | bitRegister | bitMemory
  | resRegister | resMemory | setRegister | setMemory
  -- the extended page
  | inRegister | outRegister | adcWord | sbcWord | ldWordDirect | storeWordDirect
  | neg | retn | im | storeSpecial | loadSpecial | rotateDigits
  | block (kind : BlockKind) (repeats : Bool)
deriving DecidableEq, Repr, Inhabited

/-- The kinds of the opcodes of a page, in rows of eight. -/
abbrev OpcodeMap := Array (Array OpcodeKind)

namespace OpcodeMap

open OpcodeKind

def kind (map : OpcodeMap) (opcode : UInt8) : OpcodeKind :=
  (map.getD (opcode.toNat / 8) #[]).getD (opcode.toNat % 8) undefined

/-- The row of an operation on the byte registers, the seventh of which is memory. -/
def onBytes (register memory : OpcodeKind) : Array OpcodeKind :=
  #[register, register, register, register, register, register, memory, register]

def undefinedRow : Array OpcodeKind := Array.replicate 8 undefined

/-- The page of the opcodes without a prefix, and of those behind an index prefix. -/
def main : OpcodeMap := #[
  /- 00 -/ #[nop, ldWord, storeVia .bc, incWord, incRegister, decRegister, ldLiteral, rotate .rlc],
  /- 08 -/ #[exAf, addWord, loadVia .bc, decWord, incRegister, decRegister, ldLiteral, rotate .rrc],
  /- 10 -/ #[djnz, ldWord, storeVia .de, incWord, incRegister, decRegister, ldLiteral, rotate .rl],
  /- 18 -/ #[jr, addWord, loadVia .de, decWord, incRegister, decRegister, ldLiteral, rotate .rr],
  /- 20 -/ #[jrIf, ldWord, storeHl, incWord, incRegister, decRegister, ldLiteral, daa],
  /- 28 -/ #[jrIf, addWord, loadHl, decWord, incRegister, decRegister, ldLiteral, cpl],
  /- 30 -/ #[jrIf, ldWord, storeDirect, incWord, incMemory, decMemory, storeMemoryLiteral, scf],
  /- 38 -/ #[jrIf, addWord, loadDirect, decWord, incRegister, decRegister, ldLiteral, ccf],
  /- 40 -/ onBytes ldRegister ldMemory,
  /- 48 -/ onBytes ldRegister ldMemory,
  /- 50 -/ onBytes ldRegister ldMemory,
  /- 58 -/ onBytes ldRegister ldMemory,
  /- 60 -/ onBytes ldRegister ldMemory,
  /- 68 -/ onBytes ldRegister ldMemory,
  /- 70 -/ onBytes storeMemory halt,
  /- 78 -/ onBytes ldRegister ldMemory,
  /- 80 -/ onBytes (arithmeticRegister .add) (arithmeticMemory .add),
  /- 88 -/ onBytes (arithmeticRegister .adc) (arithmeticMemory .adc),
  /- 90 -/ onBytes (arithmeticRegister .sub) (arithmeticMemory .sub),
  /- 98 -/ onBytes (arithmeticRegister .sbc) (arithmeticMemory .sbc),
  /- A0 -/ onBytes (arithmeticRegister .and) (arithmeticMemory .and),
  /- A8 -/ onBytes (arithmeticRegister .xor) (arithmeticMemory .xor),
  /- B0 -/ onBytes (arithmeticRegister .or) (arithmeticMemory .or),
  /- B8 -/ onBytes (arithmeticRegister .cp) (arithmeticMemory .cp),
  /- C0 -/ #[retIf, pop, jpIf, jp, callIf, push, arithmeticLiteral .add, rst],
  /- C8 -/ #[retIf, ret, jpIf, bitsPrefix, callIf, call, arithmeticLiteral .adc, rst],
  /- D0 -/ #[retIf, pop, jpIf, outLiteral, callIf, push, arithmeticLiteral .sub, rst],
  /- D8 -/ #[retIf, exx, jpIf, inLiteral, callIf, indexPrefix .ix, arithmeticLiteral .sbc, rst],
  /- E0 -/ #[retIf, pop, jpIf, exSp, callIf, push, arithmeticLiteral .and, rst],
  /- E8 -/ #[retIf, jpHl, jpIf, exDeHl, callIf, extendedPrefix, arithmeticLiteral .xor, rst],
  /- F0 -/ #[retIf, pop, jpIf, di, callIf, push, arithmeticLiteral .or, rst],
  /- F8 -/ #[retIf, ldSp, jpIf, ei, callIf, indexPrefix .iy, arithmeticLiteral .cp, rst]]

def bits : OpcodeMap :=
  Array.replicate 8 (onBytes shiftRegister shiftMemory) ++
    Array.replicate 8 (onBytes bitRegister bitMemory) ++
    Array.replicate 8 (onBytes resRegister resMemory) ++
    Array.replicate 8 (onBytes setRegister setMemory)

def blockRow (repeats : Bool) : Array OpcodeKind :=
  #[block .load repeats, block .compare repeats, block .input repeats, block .output repeats,
    undefined, undefined, undefined, undefined]

/-- The rows of the extended page from 0x40 up. -/
def extendedRows : OpcodeMap := #[
  /- 40 -/ #[inRegister, outRegister, sbcWord, storeWordDirect, neg, retn, im, storeSpecial],
  /- 48 -/ #[inRegister, outRegister, adcWord, ldWordDirect, neg, retn, im, storeSpecial],
  /- 50 -/ #[inRegister, outRegister, sbcWord, storeWordDirect, neg, retn, im, loadSpecial],
  /- 58 -/ #[inRegister, outRegister, adcWord, ldWordDirect, neg, retn, im, loadSpecial],
  /- 60 -/ #[inRegister, outRegister, sbcWord, storeWordDirect, neg, retn, im, rotateDigits],
  /- 68 -/ #[inRegister, outRegister, adcWord, ldWordDirect, neg, retn, im, rotateDigits],
  /- 70 -/ #[inRegister, outRegister, sbcWord, storeWordDirect, neg, retn, im, undefined],
  /- 78 -/ #[inRegister, outRegister, adcWord, ldWordDirect, neg, retn, im, undefined]]

def extended : OpcodeMap :=
  Array.replicate 8 undefinedRow ++ extendedRows ++ Array.replicate 4 undefinedRow ++
    #[blockRow false, blockRow false, blockRow true, blockRow true] ++
    Array.replicate 8 undefinedRow

end OpcodeMap
end Spectrum.Z80
