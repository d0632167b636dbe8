import Spectrum.Loader.Watch
import Spectrum.Snapshot.Basic

/-! # Simulated loads

A simulated load plays a tape into a running machine; the state of the machine at the end becomes a
snapshot.  The machine either starts from a given state with the tape already playing, or boots its
ROM, and the tape starts after the command to load has been typed. -/

namespace Spectrum.Loader

open Z80 Tape

/-- A tape and the choices for loading it, both checked. -/
structure Simulation where
  signal : Signal
  config : Config

inductive Failure where
  | tape (e : TapeError)
  | run (e : RunError)
deriving DecidableEq, Repr

def Failure.message : Failure → String
  | .tape e => e.message
  | .run e => e.message

/-- What a run leaves: the registers, the border, and why it stopped. -/
structure Outcome where
  registers : Registers
  border : UInt8
  stopReason : Option StopReason
deriving DecidableEq, Repr

/-- A scene with a tape that starts to play at the clock of some registers. -/
def playingScene (signal : Signal) (config : Config) (m : Machine) (registers : Registers) :
    Except LoadError Scene :=
  match Session.create signal config registers.clock with
  | .error e => .error e
  | .ok session =>
    .ok { machine := m.setRegisters registers, session := session.startTape registers.clock }

def Scene.outcome (s : Scene) : Outcome :=
  { registers := s.machine.registers
    border := s.session.border
    stopReason := s.session.stopReason }

def Scene.snapshot (s : Scene) : Snapshot :=
  { memory := s.machine.memory, registers := s.machine.registers, border := s.session.border }

/-- Run a machine from an address, with the tape playing from the first instruction. -/
def fastLoad (signal : Signal) (config : Config) (m : Machine) (registers : Registers)
    (start : UInt16) : Except LoadError (Scene × Scene.Ending) :=
  match playingScene signal config m registers with
  | .error e => .error e
  | .ok scene => .ok ({ scene with machine := scene.machine.startAt start }.runToEnd)

namespace Simulation

/-- A simulation of loading some blocks.  Fails if a block cannot be played or a loader is
unknown. -/
def create (blocks : List Block) (config : Config) : Except Failure Simulation :=
  match Signal.ofBlocks blocks with
  | .error e => .error (.tape e)
  | .ok signal =>
    match config.loops with
    | .error e => .error (.run (.load e))
    | .ok _ => .ok { signal, config }

/-- What a run ended with: the snapshot, or the error that ended it, and all reports in order. -/
def finish : Scene × Scene.Ending → List Notice × Except RunError Snapshot
  | (s, .failed e) => (s.notices.reverse, .error e)
  | (s, _) => (s.notices.reverse, .ok s.snapshot)

def boot (sim : Simulation) (rom : List UInt8) : List Notice × Except RunError Snapshot :=
  match Session.create sim.signal sim.config 0 with
  | .error e => ([], .error (.load e))
  | .ok session =>
    let m : Machine := ({ romProtected := true } : Machine).load 0 rom
    let scene : Scene :=
      { machine := (m.setRegisters {}).startAt 0
        session := session.typeThenStart loadKeystrokes }
    finish scene.runToEnd

def runFrom (sim : Simulation) (initial : Snapshot) (start : UInt16) :
    List Notice × Except RunError Snapshot :=
  let m : Machine := { memory := initial.memory, romProtected := true }
  match fastLoad sim.signal sim.config m initial.registers start with
  | .error e => ([], .error (.load e))
  | .ok ended => finish ended

end Simulation
end Spectrum.Loader
