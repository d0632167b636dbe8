import Spectrum.Tape.Block

/-! # The signal of a tape

Played back, a tape is a level that flips at certain times.  `Signal` holds these times, in T-states
from the start of the tape, and which of the flips record the data of which block.  The level is low
at first, so it is high after an odd number of flips.

Main definitions: `Signal.ofBlocks`, `Signal.edgesUntil`. -/

namespace Spectrum.Tape

/-- T-states in a millisecond. -/
def tstatesPerMillisecond : Nat := 3500

/-- The two pulses of every bit of a byte, for the first `count` bits from the top. -/
def bitPulses (t : Timings) (byte : UInt8) (count : Nat) : List Nat :=
  (List.range count).flatMap fun k =>
    let length := if byte.toNat.testBit (7 - k) then t.one.toNat else t.zero.toNat
    [length, length]

/-- The pulses of the bits of data; the last byte may be recorded in part. -/
def dataPulses (t : Timings) : List UInt8 → List Nat
  | [] => []
  | [last] => bitPulses t last (min t.usedBits.toNat 8)
  | byte :: rest => bitPulses t byte 8 ++ dataPulses t rest

def leaderPulses (t : Timings) : List Nat :=
  if t.pilotCount = 0 then []
  else List.replicate t.pilotCount t.pilot.toNat ++ [t.sync1.toNat, t.sync2.toNat]

/-- Where the edges of a data block lie: `start` is the index of its first edge, `data` that of the
first edge of its first bit, `stop` the index behind its last edge. -/
structure DataRange where
  block : Nat
  start : Nat
  data : Nat
  stop : Nat
deriving DecidableEq, Repr, Inhabited

/-- A tape as the times at which its level flips. -/
structure Signal where
  blocks : Array Block
  edges : Array Nat
  ranges : List DataRange
deriving Inhabited

/-- A signal that is being put together, up to a time. -/
structure Recording where
  time : Nat := 0
  edges : Array Nat := #[]
  ranges : Array DataRange := #[]

namespace Recording

def pulse (r : Recording) (length : Nat) : Recording :=
  { r with time := r.time + length, edges := r.edges.push (r.time + length) }

def pulses (r : Recording) (lengths : List Nat) : Recording := lengths.foldl pulse r

def pause (r : Recording) (milliseconds : UInt16) : Recording :=
  { r with time := r.time + milliseconds.toNat * tstatesPerMillisecond }

def data (r : Recording) (index : Nat) (block : Block) : Recording :=
  let start := r.edges.size
  let r := r.pulses (leaderPulses block.timings)
  let first := r.edges.size
  let r := r.pulses (dataPulses block.timings block.data)
  { r with ranges := r.ranges.push { block := index, start, data := first, stop := r.edges.size } }

def block (r : Recording) (index : Nat) (b : Block) : Except TapeError Recording :=
  match b.kind with
  | .unsupported => .error (.unsupported b.id)
  | .pulses => .ok ((r.pulses (b.pulses.map UInt16.toNat)).pause b.timings.pause)
  | .data =>
    if b.data.isEmpty then .ok (r.pause b.timings.pause)
    else .ok ((r.data index b).pause b.timings.pause)

def blocks (r : Recording) (index : Nat) : List Block → Except TapeError Recording
  | [] => .ok r
  | b :: rest =>
    match r.block index b with
    | .error e => .error e
    | .ok r => r.blocks (index + 1) rest

end Recording

namespace Signal

/-- The signal of a tape, unless it has a block that cannot be played. -/
def ofBlocks (blocks : List Block) : Except TapeError Signal :=
  match Recording.blocks {} 0 blocks with
  | .error e => .error e
  | .ok r => .ok { blocks := blocks.toArray, edges := r.edges, ranges := r.ranges.toList }

def length (s : Signal) : Nat := s.edges.back?.getD 0

/-- The first index from `low` on, and below `high`, of an edge later than `t`; `high` if there is
none. -/
def search (edges : Array Nat) (t low high : Nat) : Nat :=
  if h : low < high then
    let middle := (low + high) / 2
    if edges.getD middle 0 ≤ t then search edges t (middle + 1) high
    else search edges t low middle
  else low
termination_by high - low

/-- The number of edges at or before a time. -/
def edgesUntil (s : Signal) (t : Nat) : Nat := search s.edges t 0 s.edges.size

def levelAfter (edges : Nat) : Bool := edges % 2 == 1

end Signal
end Spectrum.Tape
