import Spectrum.Z80.Alu

/-! # Instructions

An instruction is the page of the opcode map that it was decoded from and what it does.  The page
fixes how many opcode bytes it has and how many of them are fetched as opcodes; the operation
fixes how many operand bytes follow.  Executing, listing and measuring an instruction are separate
functions over this one type. -/

namespace Spectrum.Z80

inductive Index where
  | ix | iy
deriving DecidableEq, Repr

inductive Reg8 where
  | a | b | c | d | e | h | l
  | ixh | ixl | iyh | iyl
deriving DecidableEq, Repr

inductive Reg16 where
  | bc | de | hl | sp | af | ix | iy
deriving DecidableEq, Repr

def Index.register : Index → Reg16
  | .ix => .ix
  | .iy => .iy

/-- A byte of memory addressed by HL, or by an index register and a signed displacement. -/
inductive Indirect where
  | hl
  | indexed (index : Index) (displacement : UInt8)
deriving DecidableEq, Repr

/-- Where a byte can be read and written. -/
inductive Place where
  | register (r : Reg8)
  | memory (p : Indirect)
deriving DecidableEq, Repr

/-- Where a byte can be read: a place or a literal. -/
inductive Source where
  | place (p : Place)
  | literal (n : UInt8)
deriving DecidableEq, Repr

inductive Condition where
  | nz | z | nc | c | po | pe | p | m
deriving DecidableEq, Repr

inductive Arithmetic where
  | add | adc | sub | sbc | and | xor | or | cp
deriving DecidableEq, Repr

/-- How a maskable interrupt finds its handler. -/
inductive InterruptMode where
  | im0 | im1 | im2
deriving DecidableEq, Repr, Inhabited

inductive Direction where
  | up | down
deriving DecidableEq, Repr

/-- What one step of a block instruction does. -/
inductive BlockKind where
  | load | compare | input | output
deriving DecidableEq, Repr

/-- The two registers outside the main set that the accumulator exchanges bytes with. -/
inductive Special where
  | i | r
deriving DecidableEq, Repr

/-- What an instruction does. -/
inductive Operation where
  | nop
  | undefined (opcode : UInt8)
  | lonePrefix (index : Index)
  | halt
  | di
  | ei
  | im (mode : InterruptMode)
  -- byte loads
  | ld (target : Reg8) (source : Source)
  | store (target : Indirect) (source : Reg8)
  | storeLiteral (target : Indirect) (n : UInt8)
  | loadVia (pointer : Reg16)
  | storeVia (pointer : Reg16)
  | loadDirect (address : UInt16)
  | storeDirect (address : UInt16)
  | loadSpecial (source : Special)
  | storeSpecial (target : Special)
  -- word loads
  | ldWord (target : Reg16) (n : UInt16)
  | ldWordDirect (target : Reg16) (address : UInt16)
  | storeWordDirect (address : UInt16) (source : Reg16)
  | ldSp (source : Reg16)
  | push (source : Reg16)
  | pop (target : Reg16)
  -- exchanges and blocks
  | exDeHl
  | exAf
  | exx
  | exSp (other : Reg16)
  | block (kind : BlockKind) (direction : Direction) (repeats : Bool)
  -- byte arithmetic
  | arithmetic (op : Arithmetic) (source : Source)
  | inc (place : Place)
  | dec (place : Place)
  | daa
  | cpl
  | neg
  | ccf
  | scf
  -- word arithmetic
  | addWord (target source : Reg16)
  | adcWord (source : Reg16)
  | sbcWord (source : Reg16)
  | incWord (target : Reg16)
  | decWord (target : Reg16)
  -- bits
  | rotate (op : Alu.Shift)
  | shift (op : Alu.Shift) (place : Place) (copy : Option Reg8)
  | bit (number : UInt8) (place : Place)
  | res (number : UInt8) (place : Place) (copy : Option Reg8)
  | set (number : UInt8) (place : Place) (copy : Option Reg8)
  | rrd
  | rld
  -- jumps
  | jp (condition : Option Condition) (address : UInt16)
  | jpRegister (source : Reg16)
  | jr (condition : Option Condition) (displacement : UInt8)
  | djnz (displacement : UInt8)
  | call (condition : Option Condition) (address : UInt16)
  | ret (condition : Option Condition)
  | reti
  | retn
  | rst (address : UInt16)
  -- ports
  | inLiteral (low : UInt8)
  | inRegister (target : Option Reg8)
  | outLiteral (low : UInt8)
  | outRegister (source : Option Reg8)
deriving DecidableEq, Repr

inductive Page where
  | main
  | bits
  | extended
  | indexed
  | indexedBits
deriving DecidableEq, Repr

def Page.opcodeBytes : Page → Nat
  | .main => 1
  | .bits => 2
  | .extended => 2
  | .indexed => 2
  | .indexedBits => 3

/-- The bytes that are fetched as opcodes: the final byte of an indexed bit operation is read like
an operand. -/
def Page.fetches : Page → Nat
  | .main => 1
  | .bits => 2
  | .extended => 2
  | .indexed => 2
  | .indexedBits => 2

def Indirect.operandBytes : Indirect → Nat
  | .hl => 0
  | .indexed _ _ => 1

def Place.operandBytes : Place → Nat
  | .register _ => 0
  | .memory p => p.operandBytes

def Source.operandBytes : Source → Nat
  | .place p => p.operandBytes
  | .literal _ => 1

def Operation.operandBytes : Operation → Nat
  | .ld _ source | .arithmetic _ source => source.operandBytes
  | .store target _ => target.operandBytes
  | .storeLiteral target _ => target.operandBytes + 1
  | .inc place | .dec place | .bit _ place => place.operandBytes
  | .shift _ place _ | .res _ place _ | .set _ place _ => place.operandBytes
  | .loadDirect _ | .storeDirect _ | .ldWord _ _ | .ldWordDirect _ _ | .storeWordDirect _ _ => 2
  | .jp _ _ | .call _ _ => 2
  | .jr _ _ | .djnz _ | .inLiteral _ | .outLiteral _ => 1
  | _ => 0

structure Instruction where
  page : Page
  operation : Operation
deriving DecidableEq, Repr

def Instruction.length (i : Instruction) : Nat := i.page.opcodeBytes + i.operation.operandBytes

end Spectrum.Z80
