import Spectrum.Z80.Execution

/-! # What instructions do

`Operation.execute` carries out an operation whose bytes have been fetched: the program counter
already stands behind them and their fetches have been paid for.  The answer of a port to a read is
a parameter, so an execution is a function of the machine alone.

Main definitions: `Operation.execute`, and `Exec.block` for the block instructions. -/

namespace Spectrum.Z80

@[inline] def Exec.flags : Exec Flags := return (← Exec.cpu).flags

/-- Read a place; a memory operand that an instruction only reads costs five T-states more when it
is indexed. -/
def Place.fetch : Place → Exec UInt8
  | .register r => return (← Exec.cpu).get8 r
  | .memory p => do
    let value ← Exec.readByte (← Exec.address p)
    Exec.spend (p.delay 5)
    return value

def Source.fetch : Source → Exec UInt8
  | .place p => p.fetch
  | .literal n => return n

/-- Replace the byte at a place.  Memory is read and written back; `direct` and `indexed` are the
T-states that this costs beside the two accesses.  A memory result is also copied to the register
`copy`, if there is one. -/
def Place.update (place : Place) (direct indexed : Nat) (copy : Option Reg8)
    (f : UInt8 → Exec UInt8) : Exec Unit :=
  match place with
  | .register r => do
    let value ← f ((← Exec.cpu).get8 r)
    Exec.modifyFile (·.set8 r value)
  | .memory p => do
    let address ← Exec.address p
    let value ← f (← Exec.readByte address)
    Exec.writeByte address value
    match copy with
    | some r => Exec.modifyFile (·.set8 r value)
    | none => pure ()
    Exec.spend (match p with
      | .hl => direct
      | .indexed _ _ => indexed)

def Arithmetic.apply (op : Arithmetic) (a x : UInt8) (f : Flags) : UInt8 × Flags :=
  match op with
  | .add => Alu.add a x false
  | .adc => Alu.add a x f.c
  | .sub => Alu.sub a x false
  | .sbc => Alu.sub a x f.c
  | .and => Alu.and a x
  | .xor => Alu.xor a x
  | .or => Alu.or a x
  | .cp => (a, Alu.compare a x)

def Direction.step : Direction → UInt16
  | .up => 1
  | .down => 0xFFFF

namespace Exec

/-- Go back over a repeating block instruction, so that it executes again. -/
def again : Exec Unit := do
  modifyCpu fun c => { c with pc := c.pc - 2 }
  spend 5

def blockLoad (direction : Direction) (repeats : Bool) : Exec Unit := do
  let c ← cpu
  let value ← readByte c.hl
  writeByte c.de value
  let count := c.bc - 1
  modifyFile fun f =>
    { f with bc := count, de := f.de + direction.step, hl := f.hl + direction.step }
  setFlags (Alu.blockLoadFlags c.a value (count != 0) c.flags)
  spend 2
  if repeats && count != 0 then
    again
    modifyCpu fun c => { c with wz := c.pc + 1 }

def blockCompare (direction : Direction) (repeats : Bool) : Exec Unit := do
  let c ← cpu
  let value ← readByte c.hl
  let count := c.bc - 1
  modifyFile fun f => { f with bc := count, hl := f.hl + direction.step }
  setFlags (Alu.blockCompareFlags c.a value (count != 0) c.flags)
  spend 5
  if repeats && count != 0 && c.a != value then
    again
    modifyCpu fun c => { c with wz := c.pc + 1 }
  else
    modifyCpu fun c => { c with wz := c.wz + direction.step }

def blockInput (answer : UInt16 → UInt8) (direction : Direction) (repeats : Bool) :
    Exec Unit := do
  let c ← cpu
  let value ← input c.bc (answer c.bc)
  setWz (c.bc + direction.step)
  spend 5
  writeByte c.hl value
  let count := c.bc.high - 1
  modifyFile fun f => { f with bc := f.bc.withHigh count, hl := f.hl + direction.step }
  setFlags (Alu.blockTransferFlags value (c.bc.low + direction.step.low) count)
  if repeats && count != 0 then again

/-- One step of OUTI, OUTD, OTIR or OTDR; the counter is decremented before it is put on the
bus. -/
def blockOutput (direction : Direction) (repeats : Bool) : Exec Unit := do
  let c ← cpu
  let value ← readByte c.hl
  let count := c.bc.high - 1
  let port := c.bc.withHigh count
  let hl := c.hl + direction.step
  output port value
  setWz (port + direction.step)
  spend 5
  modifyFile fun f => { f with bc := port, hl := hl }
  setFlags (Alu.blockTransferFlags value hl.low count)
  if repeats && count != 0 then again

def block (answer : UInt16 → UInt8) : BlockKind → Direction → Bool → Exec Unit
  | .load => blockLoad
  | .compare => blockCompare
  | .input => blockInput answer
  | .output => blockOutput

/-- A digit rotation through the accumulator and the byte at HL; `f` takes the low digit of the
accumulator and the byte to the new low digit and the new byte. -/
def rotateDigits (f : UInt8 → UInt8 → UInt8 × UInt8) : Exec Unit := do
  let c ← cpu
  let value ← readByte c.hl
  let (digit, result) := f (c.a &&& 0x0F) value
  writeByte c.hl result
  let a := (c.a &&& 0xF0) ||| digit
  setResult (a, { Flags.ofResultParity a with c := c.flags.c })
  setWz (c.hl + 1)
  spend 4

/-- The word that the internal register takes up when the accumulator is stored at an address or
sent to a port. -/
def storedWz (a : UInt8) (address : UInt16) : UInt16 := UInt16.join a (address + 1).low

def jumpBy (displacement : UInt8) : Exec Unit := do
  goto ((← cpu).pc + displacement.displacement)
  spend 5

def test (condition : Option Condition) : Exec Bool := do
  match condition with
  | none => return true
  | some cc => return cc.holds (← flags)

def callTo (address : UInt16) : Exec Unit := do
  spend 1
  push (← cpu).pc
  goto address

def returnFrom : Exec Unit := do goto (← pop)

end Exec

open Exec in
/-- Carry out an operation whose instruction starts at `start`. -/
def Operation.execute (answer : UInt16 → UInt8) (start : UInt16) : Operation → Exec Unit
  | .nop => pure ()
  | .undefined _ => pure ()
  | .lonePrefix _ => modifyCpu fun c => { c with blocked := true }
  | .halt => modifyCpu fun c => { c with halted := true, pc := start }
  | .di => modifyCpu fun c => { c with iff1 := false, iff2 := false }
  | .ei => modifyCpu fun c => { c with iff1 := true, iff2 := true, blocked := true }
  | .im mode => modifyCpu fun c => { c with mode := mode }
  -- byte loads
  | .ld target source => do
    let value ← source.fetch
    modifyFile (·.set8 target value)
  | .store target source => do
    let address ← address target
    writeByte address ((← cpu).get8 source)
    spend (target.delay 5)
  | .storeLiteral target n => do
    writeByte (← address target) n
    spend (target.delay 2)
  | .loadVia pointer => do
    let p := (← cpu).get16 pointer
    let value ← readByte p
    modifyFile (·.set8 .a value)
    setWz (p + 1)
  | .storeVia pointer => do
    let c ← cpu
    let p := c.get16 pointer
    writeByte p c.a
    setWz (storedWz c.a p)
  | .loadDirect address => do
    let value ← readByte address
    modifyFile (·.set8 .a value)
    setWz (address + 1)
  | .storeDirect address => do
    let a := (← cpu).a
    writeByte address a
    setWz (storedWz a address)
  | .loadSpecial source => do
    let c ← cpu
    let value := match source with
      | .i => c.i
      | .r => c.r
    setResult (value, { Flags.ofResult value with pv := c.iff2, c := c.flags.c })
    spend 1
  | .storeSpecial target => do
    modifyFile fun f => match target with
      | .i => { f with i := f.a }
      | .r => { f with r := f.a }
    spend 1
  -- word loads
  | .ldWord target n => modifyFile (·.set16 target n)
  | .ldWordDirect target address => do
    let value ← readWord address
    modifyFile (·.set16 target value)
    setWz (address + 1)
  | .storeWordDirect address source => do
    writeWord address ((← cpu).get16 source)
    setWz (address + 1)
  | .ldSp source => do
    modifyFile fun f => { f with sp := f.get16 source }
    spend 2
  | .push source => do
    spend 1
    Exec.push ((← cpu).get16 source)
  | .pop target => do
    let value ← Exec.pop
    modifyFile (·.set16 target value)
  -- exchanges and blocks
  | .exDeHl => modifyFile fun f => { f with de := f.hl, hl := f.de }
  | .exAf => modifyFile fun f => { f with af := f.af', af' := f.af }
  | .exx => modifyFile fun f =>
    { f with bc := f.bc', de := f.de', hl := f.hl', bc' := f.bc, de' := f.de, hl' := f.hl }
  | .exSp other => do
    let c ← cpu
    let value ← readWord c.sp
    writeWord c.sp (c.get16 other)
    modifyFile (·.set16 other value)
    setWz value
    spend 3
  | .block kind direction repeats => Exec.block answer kind direction repeats
  -- byte arithmetic
  | .arithmetic op source => do
    let x ← source.fetch
    let c ← cpu
    setResult (op.apply c.a x c.flags)
  | .inc place => place.update 1 6 none fun x => do
    let (value, flags) := Alu.inc x (← flags)
    setFlags flags
    return value
  | .dec place => place.update 1 6 none fun x => do
    let (value, flags) := Alu.dec x (← flags)
    setFlags flags
    return value
  | .daa => do let c ← cpu; setResult (Alu.daa c.a c.flags)
  | .cpl => do let c ← cpu; setResult (Alu.cpl c.a c.flags)
  | .neg => do setResult (Alu.sub 0 (← cpu).a false)
  | .ccf => do let c ← cpu; setFlags (Alu.ccf c.a c.flags)
  | .scf => do let c ← cpu; setFlags (Alu.scf c.a c.flags)
  -- word arithmetic
  | .addWord target source => do
    let c ← cpu
    let x := c.get16 target
    let (value, flags) := Alu.addWord x (c.get16 source) c.flags
    modifyFile (·.set16 target value)
    setFlags flags
    setWz (x + 1)
    spend 7
  | .adcWord source => do
    let c ← cpu
    let (value, flags) := Alu.adcWord c.hl (c.get16 source) c.flags.c
    modifyFile (·.set16 .hl value)
    setFlags flags
    setWz (c.hl + 1)
    spend 7
  | .sbcWord source => do
    let c ← cpu
    let (value, flags) := Alu.sbcWord c.hl (c.get16 source) c.flags.c
    modifyFile (·.set16 .hl value)
    setFlags flags
    setWz (c.hl + 1)
    spend 7
  | .incWord target => do
    modifyFile fun f => f.set16 target (f.get16 target + 1)
    spend 2
  | .decWord target => do
    modifyFile fun f => f.set16 target (f.get16 target - 1)
    spend 2
  -- bits
  | .rotate op => do let c ← cpu; setResult (Alu.rotate op c.a c.flags)
  | .shift op place copy => place.update 1 3 copy fun x => do
    let (value, flags) := Alu.shift op x (← flags)
    setFlags flags
    return value
  | .bit number place => do
    match place with
    | .register r => do
      let c ← cpu
      let x := c.get8 r
      setFlags (Alu.bit number x x c.flags)
    | .memory p => do
      let x ← readByte (← address p)
      let c ← cpu
      setFlags (Alu.bit number x c.wz.high c.flags)
      spend (match p with
        | .hl => 1
        | .indexed _ _ => 3)
  | .res number place copy =>
    place.update 1 3 copy fun x => return x &&& ~~~ Alu.mask number
  | .set number place copy =>
    place.update 1 3 copy fun x => return x ||| Alu.mask number
  | .rrd => rotateDigits fun digit x => (x &&& 0x0F, digit <<< 4 ||| x >>> 4)
  | .rld => rotateDigits fun digit x => (x >>> 4, x <<< 4 ||| digit)
  -- jumps
  | .jp condition address => do
    if ← test condition then modifyCpu fun c => { c with pc := address }
    setWz address
  | .jpRegister source => modifyCpu fun c => { c with pc := c.get16 source }
  | .jr condition displacement => do
    if ← test condition then jumpBy displacement
  | .djnz displacement => do
    spend 1
    let count := (← cpu).bc.high - 1
    modifyFile (·.set8 .b count)
    if count != 0 then jumpBy displacement
  | .call condition address => do
    if ← test condition then callTo address
    setWz address
  | .ret none => returnFrom
  | .ret (some cc) => do
    spend 1
    if ← test (some cc) then returnFrom
  | .reti | .retn => do
    modifyCpu fun c => { c with iff1 := c.iff2 }
    returnFrom
  | .rst address => callTo address
  -- ports
  | .inLiteral low => do
    let port := UInt16.join (← cpu).a low
    setWz (port + 1)
    let value ← input port (answer port)
    modifyFile (·.set8 .a value)
    spend 4
  | .inRegister target => do
    let c ← cpu
    let value ← input c.bc (answer c.bc)
    match target with
    | some r => modifyFile (·.set8 r value)
    | none => pure ()
    setFlags { Flags.ofResultParity value with c := c.flags.c }
    setWz ((← cpu).bc + 1)
    spend 4
  | .outLiteral low => do
    let a := (← cpu).a
    let port := UInt16.join a low
    output port a
    setWz (storedWz a port)
    spend 4
  | .outRegister source => do
    let c ← cpu
    let value := match source with
      | some r => c.get8 r
      | none => 0
    output c.bc value
    setWz (c.bc + 1)
    spend 4

end Spectrum.Z80
