import Spectrum.Text.Digits

/-! # Tape blocks

A tape is a list of blocks.  A data block is recorded as a pilot tone, two sync pulses and two equal
pulses for every bit; a pulse block lists its pulses; some kinds of block are known but cannot be
played. -/

namespace Spectrum.Tape

/-- The pulse lengths of a data block in T-states.  Without pilot pulses there are no sync pulses
either. -/
structure Timings where
  pilot : UInt16 := 2168
  pilotCount : Nat := 8063
  sync1 : UInt16 := 667
  sync2 : UInt16 := 735
  zero : UInt16 := 855
  one : UInt16 := 1710
  /-- How many bits of the last byte are recorded. -/
  usedBits : UInt8 := 8
  /-- The silence behind the block in milliseconds. -/
  pause : UInt16 := 1000
deriving DecidableEq, Repr, Inhabited

/-- The timings of the ROM: the pilot tone is longer in front of a header. -/
def Timings.standard (flag : UInt8) (pause : UInt16 := 1000) : Timings :=
  { pilotCount := if flag < 128 then 8063 else 3223, pause }

inductive Kind where
  | data | pulses | unsupported
deriving DecidableEq, Repr, Inhabited

/-- A block of a tape.  `number` is its position in the container, counted from one, `id` the kind
of block that the container gives it. -/
structure Block where
  kind : Kind := .data
  number : Nat := 0
  id : UInt8 := 0
  timings : Timings := {}
  data : List UInt8 := []
  pulses : List UInt16 := []
deriving DecidableEq, Repr, Inhabited

namespace Block

def hasData (b : Block) : Bool := b.kind == .data && !b.data.isEmpty

/-- The first byte of the data, which tells headers from other blocks; zero without data. -/
def flag (b : Block) : UInt8 := b.data.headD 0

end Block

/-- What the names of headers begin with, by the type of the header. -/
def headerTypes : List String := ["Program", "Number array", "Character array", "Bytes"]

def headerSize : Nat := 19

/-- The type and name in the header of a file, if bytes begin with one: flag zero, a type from 0 to
3, and ten characters. -/
def describeHeader? (data : List UInt8) : Option String :=
  match data with
  | 0 :: type :: rest =>
    if data.length < headerSize then none
    else (headerTypes[type.toNat]?).map fun text => text ++ ": " ++ Text.ofBytes (rest.take 10)
  | _ => none

def Block.isHeader (b : Block) : Bool :=
  b.data.length == headerSize && b.flag == 0 && (b.data.getD 1 0) ≤ 3

/-- A block in a line: the file it is the header of, or its size without flag and parity. -/
def Block.describe (b : Block) : String :=
  if b.isHeader then (describeHeader? b.data).getD ""
  else s!"Data block ({b.data.length - 2} bytes)"

inductive TapeError where
  | truncatedTap (number declared available : Nat)
  | notTzx
  | truncatedTzx (number : Nat) (id : UInt8)
  | unknownTzx (id : UInt8)
  | unsupported (id : UInt8)
deriving DecidableEq, Repr

def unsupportedName (id : UInt8) : String :=
  if id == 0x15 then "Direct Recording"
  else if id == 0x18 then "CSW Recording"
  else if id == 0x19 then "Generalized Data Block"
  else "Unknown"

def TapeError.message : TapeError → String
  | .truncatedTap number declared available =>
    s!"Truncated TAP block {number}: declares {declared} bytes, {available} available"
  | .notTzx => "Not a TZX file"
  | .truncatedTzx number id => s!"Truncated TZX block {number} (ID 0x{Text.hex8 id})"
  | .unknownTzx id => s!"Unknown TZX block ID: 0x{Text.hex id.toNat}"
  | .unsupported id => s!"TZX {unsupportedName id} (0x{Text.hex8 id}) not supported"

end Spectrum.Tape
