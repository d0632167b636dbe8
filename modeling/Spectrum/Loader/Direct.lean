import Spectrum.Loader.Config
import Spectrum.Snapshot.Basic
import Spectrum.Tape.Block

/-! # Loading without running

A tape of ordinary files can be put into memory without running anything: the data of a program goes
where the ROM would put it, and a block of bytes to the address in its header.  The snapshot is that
of a machine that has just returned to BASIC. -/

namespace Spectrum.Loader

open Tape

inductive DirectNotice where
  | truncatedHeader (block : Nat)
  | headerless (block : Nat)
deriving DecidableEq, Repr

def DirectNotice.message : DirectNotice → String
  | .truncatedHeader block => s!"Ignoring truncated header block {block}"
  | .headerless block => s!"Ignoring headerless block {block}"

def programStart : UInt16 := 23755

/-- The bytes of a header up to the parity byte. -/
def headerFields : Nat := 18

/-- Where the data behind a header goes. -/
def destination (header : Block) : Except LoadError UInt16 :=
  let type := header.data.getD 1 0
  if type == 0 then .ok programStart
  else if type == 3 then .ok (UInt16.join (header.data.getD 15 0) (header.data.getD 14 0))
  else .error (.headerType type header.number)

/-- Put the data of blocks into memory.  `pending` is the destination that the header before gave,
if there was one. -/
def placeBlocks (memory : Memory) (pending : Option UInt16) :
    List Block → List DirectNotice × Except LoadError Memory
  | [] => ([], .ok memory)
  | block :: rest =>
    if !block.hasData then placeBlocks memory pending rest
    else if block.flag == 0 then
      if block.data.length < headerFields then
        let (notices, result) := placeBlocks memory none rest
        (.truncatedHeader block.number :: notices, result)
      else
        match destination block with
        | .error e => ([], .error e)
        | .ok address => placeBlocks memory (some address) rest
    else
      match pending with
      | none =>
        let (notices, result) := placeBlocks memory pending rest
        (.headerless block.number :: notices, result)
      | some address =>
        let body := (block.data.drop 1).take (block.data.length - 2)
        placeBlocks (memory.load address body) none rest

/-- The registers of a machine that has just returned to BASIC. -/
def basicRegisters (start : Option UInt16) : Z80.Registers :=
  { sp := 65344, iy := 23610, i := 63, iff1 := true, iff2 := true, im := 1, pc := start.getD 0 }

def standardLoad (blocks : List Block) (config : Config) :
    List DirectNotice × Except LoadError Snapshot :=
  let (notices, result) := placeBlocks Memory.blank none blocks
  (notices, result.map fun memory => { memory, registers := basicRegisters config.start })

end Spectrum.Loader
