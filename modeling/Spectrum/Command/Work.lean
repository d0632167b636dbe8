import Spectrum.Command.Host
import Spectrum.Loader.Simulation
import Spectrum.Command.Options
import Spectrum.Log
import Spectrum.Snapshot.File
import Spectrum.Snapshot.RamEdit

/-! # The work of a command

`Work` is what a command does on a host: it prints, reports, and may fail.  What was printed and
reported before a failure stays. -/

namespace Spectrum.Command

inductive Failure where
  | file (e : FileError)
  | snapshot (e : Snapshot.FileError)
  | load (e : Loader.Failure)
  | edit (e : EditError)
deriving DecidableEq, Repr

def Failure.message : Failure → String
  | .file e => e.message
  | .snapshot e => e.message
  | .load e => e.message
  | .edit e => e.message

/-- What a command has shown: its output, and its reports in order. -/
structure Transcript where
  output : String := ""
  log : List LogLine := []
deriving DecidableEq, Repr

/-- What a command does on a host. -/
abbrev Work (m : Type → Type) := ExceptT Failure (StateT Transcript m)

namespace Work

variable {m : Type → Type} [Monad m]

def check {ε α : Type} (reason : ε → Failure) (result : Except ε α) : Work m α :=
  match result with
  | .ok a => return a
  | .error e => throw (reason e)

def print (text : String) : Work m Unit := modify fun t => { t with output := t.output ++ text }

def report (line : LogLine) : Work m Unit := modify fun t => { t with log := t.log ++ [line] }

def reportAll (lines : List LogLine) : Work m Unit :=
  modify fun t => { t with log := t.log ++ lines }

def read (host : Host m) (name : String) : Work m (List UInt8) := do
  check .file (← host.read name)

def write (host : Host m) (name : String) (bytes : List UInt8) : Work m Unit := do
  check .file (← host.write name bytes)

/-- Apply edits; one that fails is a failure. -/
def edit {σ : Type} (f : String → σ → σ × Option EditError) (specs : List String) (s : σ) :
    Work m σ :=
  match editAll f s specs with
  | (s, none) => return s
  | (_, some e) => throw (.edit e)

/-- Do the work: what it showed, and whether it succeeded.  A failure is reported in the given
words. -/
def finish (words : Failure → String) (work : Work m Unit) : m (Transcript × Bool) := do
  match ← work.run.run {} with
  | (.ok (), t) => return (t, true)
  | (.error e, t) => return ({ t with log := t.log ++ [.error (words e)] }, false)

end Work

/-- What a command line asks for: a text, something that cannot be understood, or a job. -/
inductive Request (α : Type) where
  | help (text : String)
  | invalid (e : OptionError)
  | job (job : α)

end Spectrum.Command
