import Spectrum.Clock
import Spectrum.Loader.Catalogue
import Spectrum.Text.Split

/-! # How a tape is loaded

The choices for a load, and the polling loops that they select. -/

namespace Spectrum.Loader

/-- The choices for a load. -/
structure Config where
  /-- Carry out the ROM's loading routine block by block. -/
  fastLoad : Bool := true
  /-- Names of loaders; "auto" stands for all of them and "none" for none. -/
  accelerators : List String := ["auto"]
  /-- Skip idle iterations of polling loops. -/
  accelerateLoops : Bool := true
  /-- Stop at this address, and not when the tape is over and the program in RAM. -/
  start : Option UInt16 := none
  /-- Give up after this many T-states. -/
  timeout : UInt64 := 900 * Clock.frequency
  /-- Raise the interrupt of each frame. -/
  interrupts : Bool := true
  /-- The name of the file with the ROM. -/
  rom : String := ""
deriving DecidableEq, Repr, Inhabited

inductive LoadError where
  | unknownLoader (name : String)
  | noSample (name : String)
  | endOfTape
  | noRom
  | headerType (type : UInt8) (block : Nat)
deriving DecidableEq, Repr

def LoadError.message (e : LoadError) : String :=
  Text.beforeNul <| match e with
  | .unknownLoader name => "Unrecognised accelerator: " ++ name
  | .noSample name => "Accelerator " ++ name ++ " has no IN A,($FE) instruction"
  | .endOfTape => "Failed to fast load block: unexpected end of tape"
  | .noRom => "No ROM image specified for simulated LOAD"
  | .headerType type block => s!"Unknown block type ({type.toNat}) in header block {block}"

/-- The loops selected so far, with the choice of a name added: "auto" selects all of them and
"none" none; any other name adds its loop, unless it is selected already. -/
def addChoice (selected : List PollingLoop) (name : String) :
    Except LoadError (List PollingLoop) :=
  if name == "auto" then .ok catalogue
  else if name == "none" then .ok []
  else
    match PollingLoop.named? name with
    | none => .error (.unknownLoader name)
    | some loop =>
      if selected.any fun other => other.name == loop.name then .ok selected
      else .ok (selected ++ [loop])

/-- The loops that a configuration selects, in order.  Names are checked even when no loops are to
be skipped. -/
def Config.loops (c : Config) : Except LoadError (List PollingLoop) :=
  match c.accelerators.foldlM addChoice [] with
  | .error e => .error e
  | .ok loops => .ok (if c.accelerateLoops then loops else [])

end Spectrum.Loader
