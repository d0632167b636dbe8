import Spectrum.Loader.Config
import Spectrum.Loader.Keyboard
import Spectrum.Tape.Signal
import Spectrum.Z80.Step

/-! # A tape playing into a running machine

A `Session` is a tape that plays while a machine runs: where the tape is, what is typed, which
polling loops have been found, and what has been seen of the border.  This module holds the session
itself, what ports return and what it notes of port accesses; `Spectrum.Loader.Watch` says what
happens between instructions. -/

namespace Spectrum.Loader

open Z80 Tape

inductive StopReason where
  | atStart
  | inRam
  | timedOut
deriving DecidableEq, Repr

def StopReason.text : StopReason → String
  | .atStart => "PC at start address"
  | .inRam => "PC in RAM"
  | .timedOut => "timed out"

/-- What is reported during a run. -/
inductive Notice where
  | tapeFinished
  | skipped (block : String)
  | header (description : String)
  | dataBlock (address length : UInt16)
  | stopped (reason : StopReason) (pc : UInt16)
deriving DecidableEq, Repr

def Notice.message : Notice → String
  | .tapeFinished => "Tape finished"
  | .skipped block => block ++ " [skipped]"
  | .header description => description
  | .dataBlock address length => s!"Fast loading data block: {address.toNat},{length.toNat}"
  | .stopped reason pc => s!"Simulation stopped ({reason.text}): PC={pc.toNat}"

/-- Keys that are to be typed before the tape starts: first the machine has to enable interrupts,
and then some frames have to pass. -/
inductive Typing where
  | awaitingInterrupts
  | fromFrame (frame : UInt64)
deriving DecidableEq, Repr

/-- A tape playing into a machine.  `origin` is the time from which the edges of the tape count,
once it plays; `index` is the number of edges that lie in the past. -/
structure Session where
  signal : Signal
  config : Config
  loops : List PollingLoop
  runStart : UInt64
  keyboard : Keyboard := {}
  typing : Option Typing := none
  interruptFrame : Option UInt64 := none
  origin : Option UInt64 := none
  index : Nat := 0
  finished : Bool := false
  border : UInt8 := 7
  /-- The polling loops that have been found, by the address of their first instruction. -/
  found : List (UInt16 × PollingLoop) := []
  /-- The addresses of port reads around which a polling loop has been looked for. -/
  examined : List UInt16 := []
  /-- The address of the latest instruction that sampled the tape. -/
  lastSample : UInt16 := 0
  stopReason : Option StopReason := none

namespace Session

def create (signal : Signal) (config : Config) (clock : UInt64) : Except LoadError Session :=
  match config.loops with
  | .error e => .error e
  | .ok loops => .ok { signal, config, loops, runStart := clock }

def running (s : Session) : Bool := s.origin.isSome

def startTape (s : Session) (clock : UInt64) : Session :=
  { s with origin := some clock, index := 0 }

/-- Frames for which a key is held, and released. -/
def keyFrames : UInt64 := 10

/-- Frames between the machine enabling interrupts and the first key. -/
def bootFrames : UInt64 := 50

/-- Type chords, and start the tape after the last. -/
def typeThenStart (s : Session) (chords : List (List String)) : Session :=
  { s with keyboard := s.keyboard.queue chords keyFrames, typing := some .awaitingInterrupts }

def setBorder (s : Session) (colour : UInt8) : Session := { s with border := colour &&& 7 }

/-- The number of edges in the past at a time; edges never come back. -/
def indexAt (s : Session) (clock : UInt64) : Nat :=
  match s.origin with
  | none => s.index
  | some origin =>
    if clock < origin then s.index else max s.index (s.signal.edgesUntil (clock - origin).toNat)

def advanceTape (s : Session) (clock : UInt64) : Session := { s with index := s.indexAt clock }

/-- The level of the tape: low while it does not play. -/
def level (s : Session) : Bool := s.running && Signal.levelAfter s.index

/-- Whether a port address reaches the keyboard and the tape: the lowest bit has to be zero. -/
def isUlaPort (port : UInt16) : Bool := port &&& 1 == 0

/-- What a read of a port returns at a time: the level in bit 6 and the selected keys below. -/
def answer (s : Session) (clock : UInt64) (port : UInt16) : UInt8 :=
  if isUlaPort port then
    0xA0 ||| (if (s.advanceTape clock).level then 0x40 else 0x00) ||| s.keyboard.read port.high
  else 0xFF

/-- The loop of the session that samples the tape at an address, and where it starts. -/
def loopAround? (s : Session) (memory : Memory) (address : UInt16) :
    Option (UInt16 × PollingLoop) :=
  s.loops.findSome? fun loop =>
    let start := address - loop.inOffset
    if loop.isAt memory start then some (start, loop) else none

/-- Look for a loop around a sampling instruction, once for every address. -/
def detectLoop (s : Session) (memory : Memory) (address : UInt16) : Session :=
  if s.examined.contains address then s
  else
    let s := { s with examined := address :: s.examined }
    match s.loopAround? memory address with
    | none => s
    | some (start, loop) => { s with found := (start, loop) :: s.found }

def foundAt? (s : Session) (address : UInt16) : Option PollingLoop := s.found.lookup address

/-- What is noted of a port read by the instruction at `address`: the tape moves on, and the
instruction may belong to a polling loop. -/
def noteInput (s : Session) (m : Machine) (address port : UInt16) : Session :=
  if isUlaPort port then
    let s := s.advanceTape m.cpu.clock
    if s.running && !s.loops.isEmpty then
      { s.detectLoop m.memory address with lastSample := address }
    else s
  else s

def noteOutput (s : Session) (port : UInt16) (value : UInt8) : Session :=
  if isUlaPort port then s.setBorder value else s

/-- What is noted of a bus event of the instruction at `address`, which started in the machine
`m`. -/
def note (m : Machine) (address : UInt16) (s : Session) : BusEvent → Session
  | .input port _ => s.noteInput m address port
  | .output port value => s.noteOutput port value
  | .read _ _ | .write _ _ => s

end Session
end Spectrum.Loader
