import Spectrum.Trace.Listing

/-! # Bounded runs

A traced run executes instructions with nothing attached to the ports until a limit is reached: a
number of instructions, a time, an address, or, if no other limit is given, the return from the
routine that the run started in.

Main definitions: `Limits.reached?`, `Run.step`, `Run.run`. -/

namespace Spectrum.Trace

open Text Z80

/-- When a run ends.  A limit of zero is none.  The balance of the stack is a heuristic and only
counts while no other limit is given. -/
structure Limits where
  operations : UInt64 := 0
  tstates : UInt64 := 0
  stop : Option UInt16 := none
  returns : Bool := true
deriving DecidableEq, Repr, Inhabited

/-- Whether a limit other than the balance of the stack is given. -/
def Limits.bounded (l : Limits) : Bool := l.operations > 0 || l.tstates > 0 || l.stop.isSome

inductive Reached where
  | operations (address : UInt16) (count : UInt64)
  | tstates (address : UInt16) (clock : UInt64)
  | stop (pc : UInt16)
  | returned (address : UInt16) (balance : Int32)
deriving DecidableEq, Repr

def Reached.message : Reached → String
  | .operations address count => s!"Stopped at ${hex16 address}: {count.toNat} operations"
  | .tstates address clock => s!"Stopped at ${hex16 address}: {clock.toNat} T-states"
  | .stop pc => s!"Stopped at ${hex16 pc}"
  | .returned address balance => s!"Stopped at ${hex16 address}: PUSH-POP count is {balance}"

def Limits.reached? (l : Limits) (c : Cpu) (address : UInt16) (count : UInt64) : Option Reached :=
  if l.operations > 0 && count ≥ l.operations then some (.operations address count)
  else if l.tstates > 0 && c.clock ≥ l.tstates then some (.tstates address c.clock)
  else if l.stop == some c.pc then some (.stop c.pc)
  else if l.returns && !l.bounded && c.balance < 0 then some (.returned address c.balance)
  else none

/-- A run in progress, with the lines shown so far, the latest first. -/
structure Run where
  machine : Machine
  border : UInt8
  operations : UInt64 := 0
  lines : List String := []
  reached : Option Reached := none

namespace Run

/-- Whether a port address sets the border: its low half has to be 0xFE. -/
def isBorderPort (port : UInt16) : Bool := port.low == 0xFE

def noteBorder (border : UInt8) : BusEvent → UInt8
  | .output port value => if isBorderPort port then value &&& 7 else border
  | _ => border

def step (limits : Limits) (verbosity : Option Int) (r : Run) : Run :=
  let (machine, e) := r.machine.step fun _ => 0xFF
  let operations := r.operations + 1
  { machine
    border := e.events.foldl noteBorder r.border
    operations
    lines := match verbosity with
      | some level => line level machine.cpu e :: r.lines
      | none => r.lines
    reached := limits.reached? machine.cpu e.address operations }

/-- Run until a limit is reached, for at most `fuel` instructions. -/
def run (limits : Limits) (verbosity : Option Int) (r : Run) : (fuel : Nat) → Run
  | 0 => r
  | fuel + 1 =>
    let r := r.step limits verbosity
    if r.reached.isSome then r else r.run limits verbosity fuel

def longest : Nat := UInt64.size

/-- A run of a machine from an address to a limit. -/
def toLimit (limits : Limits) (verbosity : Option Int) (m : Machine) (border : UInt8)
    (start : UInt16) : Run :=
  run limits verbosity { machine := m.startAt start, border } longest

def output (r : Run) : String := String.join r.lines.reverse

end Run
end Spectrum.Trace
