import Spectrum.Clock
import Spectrum.Snapshot.Basic
import Spectrum.Snapshot.RunLength

/-! # Snapshot files

The `.z80` file of a 48K machine.  `encode` writes the extended layout: a header of 30 bytes whose
program counter field is zero, an extension of 54 bytes with the real program counter and the
position within the frame, and the three pages of RAM.  `decode` reads that and the two older
layouts: one without extension, where all of RAM follows the header, and one with an extension of
23 bytes, which has no clock.

ROM is not stored, and of the clock only the position within a frame.

The fields of a file are read at fixed offsets.  That a file has all of the extension that it
declares is checked, but not that the extension reaches up to these offsets: with one that is too
short, a field may lie behind the end of the file.  What is read there the file does not tell, so it
is an argument of `decode`. -/

namespace Spectrum.Snapshot

open Z80

inductive FileError where
  /-- The file ends before what it declares. -/
  | truncated
  /-- A record for a page that a 48K machine does not have. -/
  | unexpectedPage (page : UInt8)
  /-- The file describes another machine. -/
  | unsupportedMode (version : Nat) (mode : UInt8)
  /-- A page whose decoded length is not 16K. -/
  | wrongPageSize (page : UInt8) (size : Nat)
  /-- A fixed field that a too short extension leaves outside of the file. -/
  | outside (offset : Nat)
deriving DecidableEq, Repr

def FileError.message : FileError → String
  | .truncated => "Z80 snapshot is truncated"
  | .unexpectedPage page => s!"Unexpected 48K page number: {page.toNat}"
  | .unsupportedMode version mode =>
    s!"Unsupported hardware mode in version {version} Z80 snapshot: {mode.toNat}"
  | .wrongPageSize page size => s!"Page {page.toNat} of Z80 snapshot has {size} bytes"
  | .outside offset => s!"Z80 snapshot has no byte at {offset}"

def headerLength : Nat := 30

/-- The length of the extension that is written. -/
def extensionLength : Nat := 54

/-- The length of the extension of the second layout; all other lengths mean the third. -/
def shortExtensionLength : Nat := 23

def quarterFrame : UInt64 := 17472

def pageSize : Nat := 0x4000

/-- The number of each page of RAM and where it lies. -/
def pages : List (UInt8 × UInt16) := [(8, 0x4000), (4, 0x8000), (5, 0xC000)]

def pageBase? (page : UInt8) : Option UInt16 :=
  (pages.find? fun entry => entry.1 == page).map Prod.snd

/-! ### Writing -/

def wordBytes (w : UInt16) : List UInt8 := [w.low, w.high]

def boolByte (b : Bool) : UInt8 := if b then 1 else 0

/-- The two clock fields: a down-counter within the quarter of the frame, and the number of the
quarter, counted from the second. -/
def clockFields (clock : UInt64) : UInt16 × UInt8 :=
  let t := Clock.withinFrame clock
  ((quarterFrame - 1 - t % quarterFrame).toUInt16, ((t / quarterFrame + 3) % 4).toUInt8)

def header (s : Snapshot) : List UInt8 :=
  let r := s.registers
  let (low, high) := clockFields r.clock
  [r.af.high, r.af.low] ++ wordBytes r.bc ++ wordBytes r.hl ++ wordBytes 0 ++ wordBytes r.sp ++
    [r.i, r.r &&& 0x7F, (r.r >>> 7) ||| ((s.border &&& 7) <<< 1)] ++
    wordBytes r.de ++ wordBytes r.bc' ++ wordBytes r.de' ++ wordBytes r.hl' ++
    [r.af'.high, r.af'.low] ++ wordBytes r.iy ++ wordBytes r.ix ++
    [boolByte r.iff1, boolByte r.iff2, r.im &&& 3] ++
    wordBytes (UInt16.ofNat extensionLength) ++ wordBytes r.pc ++ List.replicate 21 0 ++
    wordBytes low ++ [high] ++ List.replicate 28 0

/-- The record of a page: its length, its number and its coding.  A page that coding does not
shorten is stored as it is, with the length 0xFFFF. -/
def pageRecord (page : UInt8) (bytes : List UInt8) : List UInt8 :=
  let code := RunLength.encode bytes
  if code.length < pageSize then wordBytes (UInt16.ofNat code.length) ++ page :: code
  else wordBytes 0xFFFF ++ page :: bytes

def encode (s : Snapshot) : List UInt8 :=
  header s ++ pages.flatMap fun (page, base) =>
    pageRecord page (s.memory.slice base.toNat pageSize)

/-! ### Reading -/

/-- What is read at the offsets behind the end of a file. -/
abbrev Beyond := Nat → Except FileError UInt8

/-- Reading on behind the end finds zeros. -/
def Beyond.zeros : Beyond := fun _ => .ok 0

/-- Reading behind the end is an error. -/
def Beyond.refused : Beyond := fun offset => .error (.outside offset)

section

variable (beyond : Beyond)

def byteAt (bytes : List UInt8) (offset : Nat) : Except FileError UInt8 :=
  match bytes[offset]? with
  | some b => .ok b
  | none => beyond offset

def wordAt (bytes : List UInt8) (offset : Nat) : Except FileError UInt16 := do
  let low ← byteAt beyond bytes offset
  let high ← byteAt beyond bytes (offset + 1)
  return UInt16.join high low

def require (bytes : List UInt8) (length : Nat) : Except FileError Unit :=
  if bytes.length < length then .error .truncated else .ok ()

/-- The flags byte of the header; 255, which some old files have, means 1. -/
def headerFlags (bytes : List UInt8) : Except FileError UInt8 := do
  let flags ← byteAt beyond bytes 12
  return if flags == 0xFF then 1 else flags

/-- What the header says of registers and border; the program counter is read apart. -/
def decodeHeader (bytes : List UInt8) : Except FileError Snapshot := do
  let flags ← headerFlags beyond bytes
  let refresh ← byteAt beyond bytes 11
  let mode ← byteAt beyond bytes 29
  let r := (refresh &&& (0x7F : UInt8)) ||| (flags <<< 7)
  let im : UInt8 := mode &&& 3
  let registers : Registers :=
    { af := UInt16.join (← byteAt beyond bytes 0) (← byteAt beyond bytes 1)
      bc := ← wordAt beyond bytes 2
      hl := ← wordAt beyond bytes 4
      sp := ← wordAt beyond bytes 8
      i := ← byteAt beyond bytes 10
      r := r
      de := ← wordAt beyond bytes 13
      bc' := ← wordAt beyond bytes 15
      de' := ← wordAt beyond bytes 17
      hl' := ← wordAt beyond bytes 19
      af' := UInt16.join (← byteAt beyond bytes 21) (← byteAt beyond bytes 22)
      iy := ← wordAt beyond bytes 23
      ix := ← wordAt beyond bytes 25
      iff1 := (← byteAt beyond bytes 27) != 0
      iff2 := (← byteAt beyond bytes 28) != 0
      im := im }
  return { registers, border := (flags >>> 1) &&& 7 }

def clockOfFields (low : UInt16) (high : UInt8) : UInt64 :=
  ((high.toUInt64 + 1) % 4 + 1) * quarterFrame - (low.toUInt64 + 1)

def is48K (version : Nat) (mode : UInt8) : Bool :=
  mode == 0 || mode == 1 || (version == 3 && mode == 3)

def withPc (s : Snapshot) (pc : UInt16) : Snapshot :=
  { s with registers := { s.registers with pc := pc } }

/-- The first layout: all of RAM behind the header, run-length coded if the flags say so. -/
def decodeWhole (s : Snapshot) (coded : Bool) (body : List UInt8) : Except FileError Snapshot :=
  let ramSize := 3 * pageSize
  match if coded then RunLength.decode (some ramSize) body else some body with
  | none => .error .truncated
  | some ram =>
    if ram.length < ramSize then .error .truncated
    else .ok { s with memory := s.memory.load 0x4000 (ram.take ramSize) }

/-- The bytes of a page as a record stores them. -/
def decodePage (page : UInt8) (length : UInt16) (stored : List UInt8) :
    Except FileError (List UInt8) :=
  match if length == 0xFFFF then some stored else RunLength.decode (some pageSize) stored with
  | none => .error .truncated
  | some bytes =>
    if bytes.length = pageSize then .ok bytes else .error (.wrongPageSize page bytes.length)

/-- The page records that follow the header; a later record of a page replaces an earlier one. -/
def decodePages (memory : Memory) : List UInt8 → Except FileError Memory
  | [] => .ok memory
  | low :: high :: page :: rest => do
    let length := UInt16.join high low
    let size := if length == 0xFFFF then pageSize else length.toNat
    if rest.length < size then .error .truncated
    let bytes ← decodePage page length (rest.take size)
    match pageBase? page with
    | none => .error (.unexpectedPage page)
    | some base => decodePages (memory.load base bytes) (rest.drop size)
  | _ => .error .truncated
termination_by bytes => bytes.length

/-- The fields of the extension.  The second layout has no clock. -/
def decodeFields (version : Nat) (s : Snapshot) (bytes : List UInt8) :
    Except FileError Snapshot := do
  let s := withPc s (← wordAt beyond bytes 32)
  let mode ← byteAt beyond bytes 34
  if !is48K version mode then .error (.unsupportedMode version mode)
  else if version = 3 then
    let low ← wordAt beyond bytes 55
    let high ← byteAt beyond bytes 57
    return { s with registers := { s.registers with clock := clockOfFields low high } }
  else return { s with registers := { s.registers with clock := 0 } }

def decodeExtension (s : Snapshot) (bytes : List UInt8) : Except FileError (Snapshot × Nat) := do
  require bytes (headerLength + 2)
  let extension := (← wordAt beyond bytes headerLength).toNat
  let version := if extension = shortExtensionLength then 2 else 3
  require bytes (headerLength + 2 + extension)
  let s ← decodeFields beyond version s bytes
  return (s, headerLength + 2 + extension)

end

/-- The snapshot in a file, with `beyond` read behind its end. -/
def decode (bytes : List UInt8) (beyond : Beyond := .zeros) : Except FileError Snapshot := do
  require bytes headerLength
  let s ← decodeHeader beyond bytes
  let pc ← wordAt beyond bytes 6
  if pc != 0 then
    let flags ← headerFlags beyond bytes
    decodeWhole (withPc s pc) (flags &&& 0x20 != 0) (bytes.drop headerLength)
  else
    let (s, offset) ← decodeExtension beyond s bytes
    let memory ← decodePages s.memory (bytes.drop offset)
    return { s with memory := memory }

end Spectrum.Snapshot
