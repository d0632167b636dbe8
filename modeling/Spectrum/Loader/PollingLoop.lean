import Spectrum.Memory

/-! # Polling loops

A tape loader waits for the next edge in a loop that samples a port again and again, counting in B.
The loops of known loaders are told by the bytes of their code; a `PollingLoop` holds such a
pattern, which starts at the first instruction of the loop, and what one iteration does to the clock and to
R. -/

namespace Spectrum.Loader

/-- The polling loop of a tape loader. -/
structure PollingLoop where
  name : String
  /-- The bytes of the code; none where they differ between releases. -/
  pattern : List (Option UInt8)
  /-- T-states from the start of the loop to the start of its IN A,(FE). -/
  inTime : Nat
  /-- T-states that an iteration takes. -/
  loopTime : Nat
  /-- How far an iteration moves R. -/
  refreshes : Nat
  /-- The bit of the accumulator that the loop compares with the same bit of C. -/
  earMask : UInt8
deriving DecidableEq, Repr, Inhabited

namespace PollingLoop

def fits : List (Option UInt8) → List UInt8 → Bool
  | [], _ => true
  | _, [] => false
  | none :: pattern, _ :: bytes => fits pattern bytes
  | some expected :: pattern, actual :: bytes => expected == actual && fits pattern bytes

def fitsAt (memory : Memory) : UInt16 → List (Option UInt8) → Bool
  | _, [] => true
  | address, none :: pattern => fitsAt memory (address + 1) pattern
  | address, some expected :: pattern =>
    expected == memory.read address && fitsAt memory (address + 1) pattern

/-- Whether the code at an address is the loop. -/
def isAt (loop : PollingLoop) (memory : Memory) (address : UInt16) : Bool :=
  fitsAt memory address loop.pattern

def findIn? : List (Option UInt8) → Option Nat
  | some 0xDB :: some 0xFE :: _ => some 0
  | _ :: pattern => (findIn? pattern).map (· + 1)
  | [] => none

def inOffset? (loop : PollingLoop) : Option Nat := findIn? loop.pattern

/-- How far behind the start of the loop the IN A,(FE) stands that samples the tape. -/
def inOffset (loop : PollingLoop) : UInt16 := UInt16.ofNat (loop.inOffset?.getD 0)

/-- Whether the loop counts B down, with a DEC B at its start, and not up. -/
def countsDown (loop : PollingLoop) : Bool := loop.pattern.head? == some (some 0x05)

def inWindow? (loops : List PollingLoop) (window : List UInt8) : Option PollingLoop :=
  loops.find? fun loop => fits loop.pattern window

/-- The first of some loops that stands in memory at an address. -/
def inMemory? (loops : List PollingLoop) (memory : Memory) (address : UInt16) :
    Option PollingLoop :=
  loops.find? fun loop => loop.isAt memory address

end PollingLoop
end Spectrum.Loader
