import Spectrum.Z80.Listing
import Spectrum.Z80.Step

/-! # Reports of executed instructions

The text of an executed instruction is that of the bytes that were fetched for it; bytes that were
not fetched count as zero. -/

namespace Spectrum.Z80.Executed

open Text

def length (e : Executed) : Nat := e.bytes.length

/-- A byte of the instruction, zero behind its end. -/
def byte (e : Executed) (n : Nat) : UInt8 := e.bytes.getD n 0

def hex (e : Executed) : String := hexBytes e.bytes

/-- The assembler text of the fetched bytes. -/
def text (e : Executed) : String := (disassembleBytes e.bytes e.address).text

end Spectrum.Z80.Executed
