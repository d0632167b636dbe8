import Spectrum.Command.Help
import Spectrum.Command.Work
import Spectrum.Trace.Run

/-! # Tracing a program

Code from a snapshot or a binary file is run up to a limit.  As far as the command line asks for
it, the instructions are shown and the state at the end is written to a snapshot.

Main definitions: `TracedRun.ofArguments`, `TracedRun.run`. -/

namespace Spectrum.Command

open Trace

structure TracedRun where
  file : String
  start : UInt16
  /-- Where a binary file goes; without it, the file ends at the top of memory. -/
  origin : Option UInt16 := none
  rom : Option String := none
  registers : List String := []
  limits : Limits := {}
  verbosity : Nat := 0
  statistics : Bool := false
  dump : Option String := none
deriving DecidableEq, Repr

namespace TracedRun

def grammar : Grammar where
  options :=
    [{ name := "help", arity := .switch },
     { name := "org", arity := .text },
     { name := "rom", arity := .text },
     { name := "reg", arity := .texts },
     { name := "end", arity := .text },
     { name := "max-operations", arity := .number UInt64.size },
     { name := "max-tstates", arity := .number UInt64.size },
     { name := "no-push-pop-stop", arity := .switch },
     { name := "verbose", short := some 'v', arity := .counter },
     { name := "stats", arity := .switch },
     { name := "dump", arity := .text },
     { name := "logfile", arity := .text },
     { name := "trace", arity := .switch },
     { name := "file", arity := .text },
     { name := "start", arity := .text }]
  free := ["file", "start"]

/-- What is printed when the file or the address is missing. -/
def usageText : String := usage "zxtrace" "trace Z80 machine code execution"

/-- The name of a file that an option gives; an empty one is none. -/
def fileOf? (given : List Given) (name : String) : Option String :=
  (valueOf? given name).filter fun file => !file.isEmpty

def ofGiven (given : List Given) (file start : String) : Except OptionError TracedRun := do
  let start ← parseAddress start
  let origin ← addressOf? given "org"
  let stop ← addressOf? given "end"
  return {
    file := file
    start := start
    origin := origin
    rom := fileOf? given "rom"
    registers := valuesOf given "reg"
    limits :=
      { operations := UInt64.ofNat ((numberOf? given "max-operations").getD 0)
        tstates := UInt64.ofNat ((numberOf? given "max-tstates").getD 0)
        stop := stop
        returns := !isGiven given "no-push-pop-stop" }
    verbosity := (valuesOf given "verbose").length
    statistics := isGiven given "stats"
    dump := fileOf? given "dump" }

def ofArguments (arguments : List String) : Request TracedRun :=
  match grammar.parse arguments with
  | .error e => .invalid e
  | .ok given =>
    if isGiven given "help" then .help usageText
    else
      match valueOf? given "file", valueOf? given "start" with
      | some file, some start =>
        match ofGiven given file start with
        | .ok job => .job job
        | .error e => .invalid e
      | _, _ => .help usageText

/-- A binary file in memory that is otherwise zero. -/
def placeBinary (name : String) (origin : Option UInt16) (code : List UInt8) :
    Except FileError Snapshot :=
  let size := code.length
  if size = 0 ∨ Memory.size < size then .error (.unusableSize name)
  else
    let base := (origin.map UInt16.toNat).getD (Memory.size - size)
    if Memory.size < base + size then .error (.doesNotFit name size base)
    else .ok { memory := Memory.blank.load (UInt16.ofNat base) code }

def romSize : Nat := 0x4000

variable {m : Type → Type} [Monad m]

/-- The state in the file: a snapshot, or a binary file. -/
def initial (host : Host m) (t : TracedRun) : Work m Snapshot := do
  let bytes ← Work.read host t.file
  if Text.endsWithIgnoringCase t.file ".z80" then Work.check .snapshot (Snapshot.decode bytes)
  else Work.check .file (placeBinary t.file t.origin bytes)

/-- The state to start from: that in the file, with the ROM, the clock and the registers as the job
asks for. -/
def prepared (host : Host m) (t : TracedRun) : Work m Snapshot := do
  let s ← t.initial host
  let rom ← match t.rom with
    | none => pure []
    | some name => Work.read host name
  let memory := s.memory.load 0 (rom.take romSize)
  let registers ← Work.edit editRegister t.registers { s.registers with clock := 0 }
  return { s with memory, registers }

def trace (host : Host m) (t : TracedRun) : Work m Unit := do
  let s ← t.prepared host
  let machine := ({ memory := s.memory, romProtected := true } : Machine).setRegisters s.registers
  let (ended, seconds) ← host.timed fun _ =>
    Run.toLimit t.limits (some t.verbosity) machine s.border t.start
  Work.print ended.output
  Work.reportAll (ended.reached.map fun reached => .info reached.message).toList
  if t.statistics then
    Work.print (Trace.statistics ended.machine.cpu.clock ended.operations seconds)
  match t.dump with
  | none => return
  | some name =>
    let final : Snapshot :=
      { memory := ended.machine.memory, registers := ended.machine.registers,
        border := ended.border }
    Work.write host name (Snapshot.encode final)
    Work.report (.info s!"Snapshot dumped to {name}")

def run (host : Host m) (t : TracedRun) : m (Transcript × Bool) :=
  (t.trace host).finish fun e => "Exception: " ++ e.message

end TracedRun
end Spectrum.Command
