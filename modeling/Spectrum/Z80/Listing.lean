import Spectrum.Text.Digits
import Spectrum.Z80.Decode

/-! # Assembler text

`Operation.mnemonic` and `Operation.operands` spell out an operation; numbers are written in
hexadecimal after a dollar sign, and a relative jump shows the address that it goes to.
`disassemble` lists the instruction at an address from the four bytes that stand there. -/

namespace Spectrum.Z80

open Text

def byteText (b : UInt8) : String := "$" ++ hex8 b

def wordText (w : UInt16) : String := "$" ++ hex16 w

def bracketed (s : String) : String := "(" ++ s ++ ")"

def Index.text : Index → String
  | .ix => "IX"
  | .iy => "IY"

def Reg8.text : Reg8 → String
  | .a => "A"
  | .b => "B"
  | .c => "C"
  | .d => "D"
  | .e => "E"
  | .h => "H"
  | .l => "L"
  | .ixh => "IXH"
  | .ixl => "IXL"
  | .iyh => "IYH"
  | .iyl => "IYL"

def Reg16.text : Reg16 → String
  | .bc => "BC"
  | .de => "DE"
  | .hl => "HL"
  | .sp => "SP"
  | .af => "AF"
  | .ix => "IX"
  | .iy => "IY"

/-- A memory operand: a displacement has a sign and two digits. -/
def Indirect.text : Indirect → String
  | .hl => "(HL)"
  | .indexed index d =>
    bracketed (index.text ++ (if d < 0x80 then "+" ++ byteText d else "-" ++ byteText (0 - d)))

def Place.text : Place → String
  | .register r => r.text
  | .memory p => p.text

def Source.text : Source → String
  | .place p => p.text
  | .literal n => byteText n

def Condition.text : Condition → String
  | .nz => "NZ"
  | .z => "Z"
  | .nc => "NC"
  | .c => "C"
  | .po => "PO"
  | .pe => "PE"
  | .p => "P"
  | .m => "M"

def Arithmetic.text : Arithmetic → String
  | .add => "ADD"
  | .adc => "ADC"
  | .sub => "SUB"
  | .sbc => "SBC"
  | .and => "AND"
  | .xor => "XOR"
  | .or => "OR"
  | .cp => "CP"

/-- Additions and the subtraction with borrow name the accumulator, the others leave it out. -/
def Arithmetic.namesAccumulator : Arithmetic → Bool
  | .add | .adc | .sbc => true
  | _ => false

def Alu.Shift.text : Alu.Shift → String
  | .rlc => "RLC"
  | .rrc => "RRC"
  | .rl => "RL"
  | .rr => "RR"
  | .sla => "SLA"
  | .sra => "SRA"
  | .sll => "SLL"
  | .srl => "SRL"

def InterruptMode.text : InterruptMode → String
  | .im0 => "0"
  | .im1 => "1"
  | .im2 => "2"

def Special.text : Special → String
  | .i => "I"
  | .r => "R"

def BlockKind.text (direction : Direction) (repeats : Bool) (kind : BlockKind) : String :=
  match kind, direction, repeats with
  | .load, .up, false => "LDI"
  | .load, .up, true => "LDIR"
  | .load, .down, false => "LDD"
  | .load, .down, true => "LDDR"
  | .compare, .up, false => "CPI"
  | .compare, .up, true => "CPIR"
  | .compare, .down, false => "CPD"
  | .compare, .down, true => "CPDR"
  | .input, .up, false => "INI"
  | .input, .up, true => "INIR"
  | .input, .down, false => "IND"
  | .input, .down, true => "INDR"
  | .output, .up, false => "OUTI"
  | .output, .up, true => "OTIR"
  | .output, .down, false => "OUTD"
  | .output, .down, true => "OTDR"

def Operation.mnemonic : Operation → String
  | .nop => "NOP"
  | .undefined _ => "DEFB"
  | .lonePrefix _ => "DEFB"
  | .halt => "HALT"
  | .di => "DI"
  | .ei => "EI"
  | .im _ => "IM"
  | .ld _ _ | .store _ _ | .storeLiteral _ _ | .loadVia _ | .storeVia _ | .loadDirect _
  | .storeDirect _ | .loadSpecial _ | .storeSpecial _ | .ldWord _ _ | .ldWordDirect _ _
  | .storeWordDirect _ _ | .ldSp _ => "LD"
  | .push _ => "PUSH"
  | .pop _ => "POP"
  | .exDeHl | .exAf | .exSp _ => "EX"
  | .exx => "EXX"
  | .block kind direction repeats => kind.text direction repeats
  | .arithmetic op _ => op.text
  | .inc _ | .incWord _ => "INC"
  | .dec _ | .decWord _ => "DEC"
  | .daa => "DAA"
  | .cpl => "CPL"
  | .neg => "NEG"
  | .ccf => "CCF"
  | .scf => "SCF"
  | .addWord _ _ => "ADD"
  | .adcWord _ => "ADC"
  | .sbcWord _ => "SBC"
  | .rotate op => op.text ++ "A"
  | .shift op _ _ => op.text
  | .bit _ _ => "BIT"
  | .res _ _ _ => "RES"
  | .set _ _ _ => "SET"
  | .rrd => "RRD"
  | .rld => "RLD"
  | .jp _ _ | .jpRegister _ => "JP"
  | .jr _ _ => "JR"
  | .djnz _ => "DJNZ"
  | .call _ _ => "CALL"
  | .ret _ => "RET"
  | .reti => "RETI"
  | .retn => "RETN"
  | .rst _ => "RST"
  | .inLiteral _ | .inRegister _ => "IN"
  | .outLiteral _ | .outRegister _ => "OUT"

def operandPair (a b : String) : String := a ++ "," ++ b

def conditional (condition : Option Condition) (operand : String) : String :=
  match condition with
  | none => operand
  | some cc => operandPair cc.text operand

/-- An operand before an optional copy register. -/
def copied (operand : String) : Option Reg8 → String
  | none => operand
  | some r => operandPair operand r.text

/-- The operands of an instruction that is followed by the one at `next`. -/
def Operation.operands (next : UInt16) : Operation → String
  | .undefined opcode => operandPair (byteText 0xED) (byteText opcode)
  | .lonePrefix .ix => byteText 0xDD
  | .lonePrefix .iy => byteText 0xFD
  | .im mode => mode.text
  | .ld target source => operandPair target.text source.text
  | .store target source => operandPair target.text source.text
  | .storeLiteral target n => operandPair target.text (byteText n)
  | .loadVia pointer => operandPair "A" (bracketed pointer.text)
  | .storeVia pointer => operandPair (bracketed pointer.text) "A"
  | .loadDirect address => operandPair "A" (bracketed (wordText address))
  | .storeDirect address => operandPair (bracketed (wordText address)) "A"
  | .loadSpecial source => operandPair "A" source.text
  | .storeSpecial target => operandPair target.text "A"
  | .ldWord target n => operandPair target.text (wordText n)
  | .ldWordDirect target address => operandPair target.text (bracketed (wordText address))
  | .storeWordDirect address source => operandPair (bracketed (wordText address)) source.text
  | .ldSp source => operandPair "SP" source.text
  | .push r | .pop r | .incWord r | .decWord r => r.text
  | .exDeHl => "DE,HL"
  | .exAf => "AF,AF'"
  | .exSp other => operandPair "(SP)" other.text
  | .arithmetic op source =>
    if op.namesAccumulator then operandPair "A" source.text else source.text
  | .inc place | .dec place => place.text
  | .addWord target source => operandPair target.text source.text
  | .adcWord source | .sbcWord source => operandPair "HL" source.text
  | .shift _ place copy => copied place.text copy
  | .bit number place => operandPair (toString number.toNat) place.text
  | .res number place copy | .set number place copy =>
    copied (operandPair (toString number.toNat) place.text) copy
  | .jp condition address | .call condition address => conditional condition (wordText address)
  | .jpRegister source => bracketed source.text
  | .jr condition d => conditional condition (wordText (next + d.displacement))
  | .djnz d => wordText (next + d.displacement)
  | .ret (some cc) => cc.text
  | .rst address => byteText address.low
  | .inLiteral low => operandPair "A" (bracketed (byteText low))
  | .inRegister none => "F,(C)"
  | .inRegister (some r) => operandPair r.text "(C)"
  | .outLiteral low => operandPair (bracketed (byteText low)) "A"
  | .outRegister none => "(C),0"
  | .outRegister (some r) => operandPair "(C)" r.text
  | _ => ""

/-- A line of a listing: how many bytes it covers and its text in two parts. -/
structure Line where
  length : Nat
  mnemonic : String
  operands : String
deriving DecidableEq, Repr

/-- The mnemonic, and the operands if there are any. -/
def Line.text (line : Line) : String :=
  if line.operands.isEmpty then line.mnemonic else line.mnemonic ++ " " ++ line.operands

def Instruction.line (i : Instruction) (address : UInt16) : Line :=
  { length := i.length
    mnemonic := i.operation.mnemonic
    operands := i.operation.operands (address + UInt16.ofNat i.length) }

def disassemble (b₀ b₁ b₂ b₃ : UInt8) (address : UInt16) : Line :=
  (Instruction.decode b₀ b₁ b₂ b₃).line address

/-- A list of bytes as the first bytes of an instruction, with zeros for those that are missing. -/
def disassembleBytes (bytes : List UInt8) (address : UInt16) : Line :=
  let byte (n : Nat) : UInt8 := bytes.getD n 0
  disassemble (byte 0) (byte 1) (byte 2) (byte 3) address

end Spectrum.Z80
