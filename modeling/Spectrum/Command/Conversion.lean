import Spectrum.Command.Help
import Spectrum.Command.Work
import Spectrum.Loader.Direct
import Spectrum.Tape.Container

/-! # Converting a tape to a snapshot

A tape file is read and loaded, either directly or by running the ROM; the edits that the command
line asks for are applied, and a snapshot is written.

Main definitions: `Conversion.ofArguments`, `Conversion.run`. -/

namespace Spectrum.Command

open Loader

structure Conversion where
  tape : String
  output : String
  /-- Run the ROM and play the tape to it. -/
  simulate : Bool := false
  config : Config := {}
  ram : List String := []
  registers : List String := []
  state : List String := []
deriving DecidableEq, Repr

namespace Conversion

def grammar : Grammar where
  options :=
    [{ name := "help", arity := .switch },
     { name := "rom", arity := .text },
     { name := "sim-load", arity := .switch },
     { name := "no-fast-load", arity := .switch },
     { name := "accelerator", arity := .texts },
     { name := "start", arity := .text },
     { name := "timeout", arity := .number UInt32.size },
     { name := "reg", arity := .texts },
     { name := "state", arity := .texts },
     { name := "ram", arity := .texts },
     { name := "stack", short := some 'p', arity := .text },
     { name := "logfile", arity := .text },
     { name := "trace", arity := .switch },
     { name := "tape", arity := .text },
     { name := "outfile", arity := .text }]
  free := ["tape", "outfile"]

/-- What is printed when the tape or the snapshot is not named. -/
def usageText : String := usage "zxload" "convert a TAP or TZX file to a Z80 snapshot"

def configOf (given : List Given) : Except OptionError Config := do
  let defaults : Config := {}
  let start ← addressOf? given "start"
  return {
    fastLoad := !isGiven given "no-fast-load"
    accelerators :=
      if isGiven given "accelerator" then valuesOf given "accelerator" else defaults.accelerators
    start := start
    timeout :=
      match numberOf? given "timeout" with
      | some seconds => UInt64.ofNat seconds * Clock.frequency
      | none => defaults.timeout
    rom := (valueOf? given "rom").getD defaults.rom }

/-- The job that options describe.  The stack pointer is set after the registers. -/
def ofGiven (given : List Given) (tape output : String) : Except OptionError Conversion := do
  let config ← configOf given
  let stack ← addressOf? given "stack"
  return {
    tape := tape
    output := output
    simulate := isGiven given "sim-load"
    config := config
    ram := valuesOf given "ram"
    registers := valuesOf given "reg" ++ (stack.map fun sp => s!"sp={sp.toNat}").toList
    state := valuesOf given "state" }

/-- What a command line asks for.  A list of loaders or of memory operations is asked for by the
word "help", and both go before anything else. -/
def ofArguments (arguments : List String) : Request Conversion :=
  match grammar.parse arguments with
  | .error e => .invalid e
  | .ok given =>
    if (valuesOf given "accelerator").contains "help" then .help loaderHelp
    else if (valuesOf given "ram").contains "help" then .help ramHelp
    else if isGiven given "help" then .help usageText
    else
      match valueOf? given "tape", valueOf? given "outfile" with
      | some tape, some output =>
        match ofGiven given tape output with
        | .ok job => .job job
        | .error e => .invalid e
      | _, _ => .help usageText

variable {m : Type → Type} [Monad m]

/-- Load by running the ROM. -/
def loadSimulated (host : Host m) (c : Conversion) (blocks : List Tape.Block) :
    Work m Snapshot := do
  let simulation ← Work.check .load (Simulation.create blocks c.config)
  if c.config.rom.isEmpty then throw (.load (.run (.load .noRom)))
  let rom ← Work.read host c.config.rom
  if Machine.overflows 0 rom then Work.report (.warn (Machine.truncationWarning 0 rom))
  let (notices, result) := simulation.boot rom
  Work.reportAll (notices.map fun n => .info n.message)
  Work.check (fun e => .load (.run e)) result

/-- Load without running anything.  If a memory operation loads a block, no others are loaded. -/
def loadDirectly (c : Conversion) (blocks : List Tape.Block) : Work m Snapshot := do
  let blocks := if hasLoadOperation c.ram then [] else blocks
  let (notices, result) := standardLoad blocks c.config
  Work.reportAll (notices.map fun n => .warn n.message)
  Work.check (fun e => .load (.run (.load e))) result

def snapshot (host : Host m) (c : Conversion) : Work m Snapshot := do
  let file ← Work.read host c.tape
  let container := Tape.Container.ofFileName c.tape
  let blocks ← Work.check (fun e => .load (.tape e)) (container.decode file)
  let s ← if c.simulate then loadSimulated host c blocks else loadDirectly c blocks
  let s ← Work.edit (editRam blocks) c.ram s
  let registers ← Work.edit editRegister c.registers s.registers
  Work.edit editState c.state { s with registers }

def convert (host : Host m) (c : Conversion) : Work m Unit := do
  let s ← c.snapshot host
  Work.write host c.output (Snapshot.encode s)
  Work.report (.info s!"Wrote {c.output}")

def run (host : Host m) (c : Conversion) : m (Transcript × Bool) :=
  (c.convert host).finish fun e =>
    s!"Error while getting snapshot {c.output}: " ++ e.message

end Conversion
end Spectrum.Command
