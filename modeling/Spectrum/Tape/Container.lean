import Spectrum.Tape.Block
import Spectrum.Text.Split

/-! # Tape files

Two containers hold tapes.  A TAP file is a chain of blocks, each behind its length.  A TZX file
has a header of ten bytes and then blocks that begin with an ID; the length of a block's body
follows from its ID and, for most, from a count within the body.  `Layout` holds these rules, so
that a block is skipped and read by the same description.

Main definitions: `decodeTap`, `encodeTap`, `decodeTzx`, `decode`. -/

namespace Spectrum.Tape

/-- The number that bytes stand for, lowest first. -/
def littleEndian : List UInt8 → Nat
  | [] => 0
  | b :: rest => b.toNat + 256 * littleEndian rest

def numberAt (bytes : List UInt8) (offset width : Nat) : Nat :=
  littleEndian ((bytes.drop offset).take width)

def wordAt (bytes : List UInt8) (offset : Nat) : UInt16 := UInt16.ofNat (numberAt bytes offset 2)

/-! ### TAP -/

/-- The blocks of a TAP file from the one with the given number on.  A single byte at the end, too
short for a length, is passed over. -/
def decodeTapFrom (number : Nat) : List UInt8 → Except TapeError (List Block)
  | low :: high :: rest => do
    let length := littleEndian [low, high]
    let data := rest.take length
    if data.length < length then .error (.truncatedTap number length data.length)
    let block : Block := { number, data, timings := Timings.standard (data.headD 0) }
    let blocks ← decodeTapFrom (number + 1) (rest.drop length)
    return block :: blocks
  | _ => .ok []
termination_by bytes => bytes.length

def decodeTap (bytes : List UInt8) : Except TapeError (List Block) := decodeTapFrom 1 bytes

def encodeTap (blocks : List (List UInt8)) : List UInt8 :=
  blocks.flatMap fun data =>
    UInt8.ofNat data.length :: UInt8.ofNat (data.length / 256) :: data

/-! ### TZX -/

/-- How long the body of a block is: a head of fixed length, and for each of a number of items the
same length again.  The number of items stands in the head. -/
structure Layout where
  head : Nat
  countOffset : Nat := 0
  countWidth : Nat := 0
  itemLength : Nat := 0
deriving DecidableEq, Repr

def Layout.bodyLength (l : Layout) (bytes : List UInt8) : Nat :=
  l.head + l.itemLength * numberAt bytes l.countOffset l.countWidth

/-- The body at the front of `bytes`, if all of it is there.  Without all of the head there cannot
be all of the body, whatever number is read from it. -/
def Layout.body? (l : Layout) (bytes : List UInt8) : Option (List UInt8) :=
  let length := l.bodyLength bytes
  let body := bytes.take length
  if body.length < length then none else some body

def Layout.ofId? (id : UInt8) : Option Layout :=
  match id.toNat with
  | 0x10 => some { head := 4, countOffset := 2, countWidth := 2, itemLength := 1 }
  | 0x11 => some { head := 18, countOffset := 15, countWidth := 3, itemLength := 1 }
  | 0x12 => some { head := 4 }
  | 0x13 => some { head := 1, countWidth := 1, itemLength := 2 }
  | 0x14 => some { head := 10, countOffset := 7, countWidth := 3, itemLength := 1 }
  | 0x15 => some { head := 8, countOffset := 5, countWidth := 3, itemLength := 1 }
  | 0x18 | 0x19 | 0x2A | 0x2B => some { head := 4, countWidth := 4, itemLength := 1 }
  | 0x20 | 0x23 | 0x24 => some { head := 2 }
  | 0x21 | 0x30 => some { head := 1, countWidth := 1, itemLength := 1 }
  | 0x22 | 0x25 | 0x27 => some { head := 0 }
  | 0x26 => some { head := 2, countWidth := 2, itemLength := 2 }
  | 0x28 | 0x32 => some { head := 2, countWidth := 2, itemLength := 1 }
  | 0x31 => some { head := 2, countOffset := 1, countWidth := 1, itemLength := 1 }
  | 0x33 => some { head := 1, countWidth := 1, itemLength := 3 }
  | 0x34 => some { head := 8 }
  | 0x35 => some { head := 20, countOffset := 16, countWidth := 4, itemLength := 1 }
  | 0x5A => some { head := 9 }
  | _ => none

def words : List UInt8 → List UInt16
  | low :: high :: rest => UInt16.join high low :: words rest
  | _ => []

/-- The block with an ID and a body; none if it only controls playing or informs. -/
def Block.ofBody? (number : Nat) (id : UInt8) (body : List UInt8) : Option Block :=
  match id.toNat with
  | 0x10 =>
    let data := body.drop 4
    some { number, id, data, timings := Timings.standard (data.headD 0) (wordAt body 0) }
  | 0x11 =>
    some
      { number, id, data := body.drop 18
        timings :=
          { pilot := wordAt body 0, sync1 := wordAt body 2, sync2 := wordAt body 4
            zero := wordAt body 6, one := wordAt body 8, pilotCount := numberAt body 10 2
            usedBits := body.getD 12 0, pause := wordAt body 13 } }
  | 0x12 =>
    some
      { kind := .pulses, number, id, timings := { pause := 0 }
        pulses := List.replicate (numberAt body 2 2) (wordAt body 0) }
  | 0x13 =>
    some { kind := .pulses, number, id, timings := { pause := 0 }, pulses := words (body.drop 1) }
  | 0x14 =>
    some
      { number, id, data := body.drop 10
        timings :=
          { pilotCount := 0, zero := wordAt body 0, one := wordAt body 2
            usedBits := body.getD 4 0, pause := wordAt body 5 } }
  | 0x15 | 0x18 | 0x19 => some { kind := .unsupported, number, id }
  | _ => none

def decodeTzxFrom (number : Nat) : List UInt8 → Except TapeError (List Block)
  | [] => .ok []
  | id :: rest =>
    match Layout.ofId? id with
    | none => .error (.unknownTzx id)
    | some layout =>
      match layout.body? rest with
      | none => .error (.truncatedTzx number id)
      | some body => do
        let blocks ← decodeTzxFrom (number + 1) (rest.drop body.length)
        match Block.ofBody? number id body with
        | none => return blocks
        | some block => return block :: blocks
termination_by bytes => bytes.length

/-- What a TZX file begins with; a version in two bytes follows. -/
def tzxSignature : List UInt8 := [0x5A, 0x58, 0x54, 0x61, 0x70, 0x65, 0x21, 0x1A]

def decodeTzx (bytes : List UInt8) : Except TapeError (List Block) :=
  let start := tzxSignature.length + 2
  if bytes.length < start ∨ !tzxSignature.isPrefixOf bytes then .error .notTzx
  else decodeTzxFrom 1 (bytes.drop start)

/-! ### Either -/

/-- The two containers. -/
inductive Container where
  | tap | tzx
deriving DecidableEq, Repr

def Container.decode : Container → List UInt8 → Except TapeError (List Block)
  | .tap => decodeTap
  | .tzx => decodeTzx

def Container.ofFileName (name : String) : Container :=
  if Text.endsWithIgnoringCase name ".tzx" then .tzx else .tap

/-- The container that the first bytes of a file speak of. -/
def Container.ofBytes (bytes : List UInt8) : Container :=
  if (tzxSignature.take 7).isPrefixOf bytes then .tzx else .tap

def decode (bytes : List UInt8) : Except TapeError (List Block) :=
  (Container.ofBytes bytes).decode bytes

end Spectrum.Tape
