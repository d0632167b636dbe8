import Spectrum.Command.Conversion
import Spectrum.Command.TracedRun

/-! # The programs

The first argument says what to do: `convert` a tape to a snapshot, or `trace` a program.  The other
arguments are the command line of that. -/

namespace Spectrum.Command

/-- The files and the clock of the computer. -/
def computer : Host IO where
  read name := do
    try
      return .ok (← IO.FS.readBinFile name).toList
    catch _ => return .error (.notFound name)
  write name bytes := do
    try
      IO.FS.writeBinFile name ⟨bytes.toArray⟩
      return .ok ()
    catch _ => return .error (.notWritable name)
  timed f := do
    let before ← IO.monoNanosNow
    let value ← IO.lazyPure f
    let after ← IO.monoNanosNow
    return (value, (after - before).toFloat / 1000000000)

/-- Show a report: progress as it is, and problems with their level on the other stream. -/
def showLine (line : LogLine) : IO Unit :=
  match line.level with
  | .info => IO.println line.text
  | .warn => IO.eprintln ("[warning] " ++ line.text)
  | .error => IO.eprintln ("[error] " ++ line.text)

/-- Do what a command line asks for; only a job that succeeds is a success. -/
def serve {α : Type} (request : Request α) (run : α → IO (Transcript × Bool)) : IO UInt32 := do
  match request with
  | .help text => IO.print text; return 1
  | .invalid e => IO.eprintln ("Error: " ++ e.message); return 1
  | .job job =>
    let (shown, succeeded) ← run job
    IO.print shown.output
    shown.log.forM showLine
    return if succeeded then 0 else 1

def serveProgram (arguments : List String) : IO UInt32 := do
  match arguments with
  | "convert" :: rest => serve (Conversion.ofArguments rest) (Conversion.run computer)
  | "trace" :: rest => serve (TracedRun.ofArguments rest) (TracedRun.run computer)
  | _ =>
    IO.eprintln "Usage: convert ARGUMENTS or trace ARGUMENTS"
    return 1

end Spectrum.Command

def main (arguments : List String) : IO UInt32 := Spectrum.Command.serveProgram arguments
