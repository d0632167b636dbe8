import Spectrum.Z80.Instruction

/-! # Decoding

An opcode is three fields: `x`, its top two bits, `y`, the next three, and `z`, the last three; `y`
splits further into a pair number and its lowest bit.  Each page of the opcode map is a function
of these fields, and an index prefix only changes what stands in for HL. -/

namespace Spectrum.Z80

/-- What H, L, HL and (HL) stand for: themselves, or an index register and a displacement. -/
structure Substitution where
  index : Option Index
  displacement : UInt8

namespace Substitution

def word (s : Substitution) : Reg16 :=
  match s.index with
  | none => .hl
  | some i => i.register

def high (s : Substitution) : Reg8 :=
  match s.index with
  | none => .h
  | some .ix => .ixh
  | some .iy => .iyh

def low (s : Substitution) : Reg8 :=
  match s.index with
  | none => .l
  | some .ix => .ixl
  | some .iy => .iyl

def memory (s : Substitution) : Indirect :=
  match s.index with
  | none => .hl
  | some i => .indexed i s.displacement

end Substitution

/-- The byte registers by number; number 6 is memory and stands apart. -/
def Reg8.ofCode : Nat → Reg8
  | 0 => .b
  | 1 => .c
  | 2 => .d
  | 3 => .e
  | 4 => .h
  | 5 => .l
  | _ => .a

def Substitution.register (s : Substitution) : Nat → Reg8
  | 4 => s.high
  | 5 => s.low
  | code => Reg8.ofCode code

def Substitution.place (s : Substitution) : Nat → Place
  | 6 => .memory s.memory
  | code => .register (s.register code)

/-- The word register with a number, where number 3 is the stack pointer. -/
def Substitution.pair (s : Substitution) : Nat → Reg16
  | 0 => .bc
  | 1 => .de
  | 2 => s.word
  | _ => .sp

/-- The word register with a number, where number 3 is the accumulator and flags. -/
def Substitution.stackPair (s : Substitution) : Nat → Reg16
  | 0 => .bc
  | 1 => .de
  | 2 => s.word
  | _ => .af

def Condition.ofCode : Nat → Condition
  | 0 => .nz
  | 1 => .z
  | 2 => .nc
  | 3 => .c
  | 4 => .po
  | 5 => .pe
  | 6 => .p
  | _ => .m

def Arithmetic.ofCode : Nat → Arithmetic
  | 0 => .add
  | 1 => .adc
  | 2 => .sub
  | 3 => .sbc
  | 4 => .and
  | 5 => .xor
  | 6 => .or
  | _ => .cp

def Alu.Shift.ofCode : Nat → Alu.Shift
  | 0 => .rlc
  | 1 => .rrc
  | 2 => .rl
  | 3 => .rr
  | 4 => .sla
  | 5 => .sra
  | 6 => .sll
  | _ => .srl

/-- The operations of the main page, given the operand bytes after the opcode (and after the
displacement byte, which the substitution holds). -/
def Operation.ofMain (s : Substitution) (opcode n₁ n₂ : UInt8) : Operation :=
  let x := opcode.toNat / 64
  let y := opcode.toNat / 8 % 8
  let z := opcode.toNat % 8
  let p := y / 2
  let odd := y % 2 == 1
  let nn := UInt16.join n₂ n₁
  match x with
  | 0 =>
    match z with
    | 0 =>
      match y with
      | 0 => .nop
      | 1 => .exAf
      | 2 => .djnz n₁
      | 3 => .jr none n₁
      | _ => .jr (some (Condition.ofCode (y - 4))) n₁
    | 1 => if odd then .addWord s.word (s.pair p) else .ldWord (s.pair p) nn
    | 2 =>
      match y with
      | 0 => .storeVia .bc
      | 1 => .loadVia .bc
      | 2 => .storeVia .de
      | 3 => .loadVia .de
      | 4 => .storeWordDirect nn s.word
      | 5 => .ldWordDirect s.word nn
      | 6 => .storeDirect nn
      | _ => .loadDirect nn
    | 3 => if odd then .decWord (s.pair p) else .incWord (s.pair p)
    | 4 => .inc (s.place y)
    | 5 => .dec (s.place y)
    | 6 =>
      match s.place y, s.index with
      | .register r, _ => .ld r (.literal n₁)
      | .memory p, none => .storeLiteral p n₁
      | .memory p, some _ => .storeLiteral p n₂
    | _ =>
      match y with
      | 0 => .rotate .rlc
      | 1 => .rotate .rrc
      | 2 => .rotate .rl
      | 3 => .rotate .rr
      | 4 => .daa
      | 5 => .cpl
      | 6 => .scf
      | _ => .ccf
  | 1 =>
    if y == 6 then
      if z == 6 then .halt else .store s.memory (Reg8.ofCode z)
    else if z == 6 then .ld (Reg8.ofCode y) (.place (.memory s.memory))
    else .ld (s.register y) (.place (.register (s.register z)))
  | 2 => .arithmetic (Arithmetic.ofCode y) (.place (s.place z))
  | _ =>
    match z with
    | 0 => .ret (some (Condition.ofCode y))
    | 1 =>
      if odd then
        match p with
        | 0 => .ret none
        | 1 => .exx
        | 2 => .jpRegister s.word
        | _ => .ldSp s.word
      else .pop (s.stackPair p)
    | 2 => .jp (some (Condition.ofCode y)) nn
    | 3 =>
      match y with
      | 0 => .jp none nn
      | 2 => .outLiteral n₁
      | 3 => .inLiteral n₁
      | 4 => .exSp s.word
      | 5 => .exDeHl
      | 6 => .di
      | 7 => .ei
      | _ => .undefined opcode
    | 4 => .call (some (Condition.ofCode y)) nn
    | 5 =>
      if odd then
        match p with
        | 0 => .call none nn
        | _ => .undefined opcode
      else .push (s.stackPair p)
    | 6 => .arithmetic (Arithmetic.ofCode y) (.literal n₁)
    | _ => .rst (UInt16.ofNat (8 * y))

/-- The operations of the bit page on a place, with a register that receives a copy. -/
def Operation.ofBits (opcode : UInt8) (place : Place) (copy : Option Reg8) : Operation :=
  let y := opcode.toNat / 8 % 8
  match opcode.toNat / 64 with
  | 0 => .shift (Alu.Shift.ofCode y) place copy
  | 1 => .bit (UInt8.ofNat y) place
  | 2 => .res (UInt8.ofNat y) place copy
  | _ => .set (UInt8.ofNat y) place copy

def Operation.ofExtended (opcode n₁ n₂ : UInt8) : Operation :=
  let x := opcode.toNat / 64
  let y := opcode.toNat / 8 % 8
  let z := opcode.toNat % 8
  let odd := y % 2 == 1
  let nn := UInt16.join n₂ n₁
  let plain : Substitution := ⟨none, 0⟩
  let register := if y == 6 then none else some (Reg8.ofCode y)
  match x with
  | 1 =>
    match z with
    | 0 => .inRegister register
    | 1 => .outRegister register
    | 2 => if odd then .adcWord (plain.pair (y / 2)) else .sbcWord (plain.pair (y / 2))
    | 3 =>
      if odd then .ldWordDirect (plain.pair (y / 2)) nn
      else .storeWordDirect nn (plain.pair (y / 2))
    | 4 => .neg
    | 5 => if y == 1 then .reti else .retn
    | 6 =>
      match y % 4 with
      | 2 => .im .im1
      | 3 => .im .im2
      | _ => .im .im0
    | _ =>
      match y with
      | 0 => .storeSpecial .i
      | 1 => .storeSpecial .r
      | 2 => .loadSpecial .i
      | 3 => .loadSpecial .r
      | 4 => .rrd
      | 5 => .rld
      | _ => .undefined opcode
  | 2 =>
    if y < 4 then .undefined opcode
    else
      let direction := if odd then Direction.down else .up
      let repeats := y ≥ 6
      match z with
      | 0 => .block .load direction repeats
      | 1 => .block .compare direction repeats
      | 2 => .block .input direction repeats
      | 3 => .block .output direction repeats
      | _ => .undefined opcode
  | _ => .undefined opcode

def Index.ofByte? (opcode : UInt8) : Option Index :=
  if opcode == 0xDD then some .ix else if opcode == 0xFD then some .iy else none

/-- The instruction that starts with the given bytes.  An index prefix in front of another prefix,
other than that of the bit page, stands alone. -/
def Instruction.decode (b₀ b₁ b₂ b₃ : UInt8) : Instruction :=
  match Index.ofByte? b₀ with
  | none =>
    if b₀ == 0xCB then
      ⟨.bits, .ofBits b₁ (Substitution.place ⟨none, 0⟩ (b₁.toNat % 8)) none⟩
    else if b₀ == 0xED then ⟨.extended, .ofExtended b₁ b₂ b₃⟩
    else ⟨.main, .ofMain ⟨none, 0⟩ b₀ b₁ b₂⟩
  | some index =>
    if b₁ == 0xDD || b₁ == 0xFD || b₁ == 0xED then ⟨.main, .lonePrefix index⟩
    else if b₁ == 0xCB then
      let copy := if b₃.toNat % 8 == 6 then none else some (Reg8.ofCode (b₃.toNat % 8))
      ⟨.indexedBits, .ofBits b₃ (.memory (.indexed index b₂)) copy⟩
    else ⟨.indexed, .ofMain ⟨some index, b₂⟩ b₁ b₂ b₃⟩

end Spectrum.Z80
