import Spectrum.Clock
import Spectrum.Text.Fixed
import Spectrum.Z80.Report

/-! # Traces

The text that a traced run shows: a line for every instruction, with the time at which it started,
its bytes, address, text and cost, and on request the registers after it; and statistics at the
end. -/

namespace Spectrum.Trace

open Text Z80

def flagsText (f : UInt8) : String :=
  String.ofList ((List.range 8).map fun i => if f.toNat.testBit (7 - i) then '1' else '0')

def registersText (r : RegisterFile) : String :=
  " ".intercalate
    ["A=" ++ hex8 r.af.high, "F=" ++ flagsText r.af.low, "BC=" ++ hex16 r.bc, "DE=" ++ hex16 r.de,
     "HL=" ++ hex16 r.hl, "A'=" ++ hex8 r.af'.high, "F'=" ++ flagsText r.af'.low,
     "BC'=" ++ hex16 r.bc', "DE'=" ++ hex16 r.de', "HL'=" ++ hex16 r.hl', "SP=" ++ hex16 r.sp]

def instructionText (c : Cpu) (e : Executed) : String :=
  let started := c.clock - UInt64.ofNat e.cost
  padLeft 9 (toString started.toNat) ++ "  " ++ padRight 8 e.hex ++ " $" ++ hex16 e.address ++
    " " ++ padRight 16 e.text ++ "  [" ++ padLeft 2 (toString e.cost) ++ "]"

/-- What is shown of an instruction: nothing, its line, or its line and the registers. -/
def line (verbosity : Int) (c : Cpu) (e : Executed) : String :=
  if verbosity ≤ 0 then ""
  else
    let text := instructionText c e
    (if verbosity > 1 then text ++ "  " ++ registersText c.toRegisterFile else text) ++ "\n"

/-- The statistics of a run: emulated time, instructions, and the time that it took. -/
def statistics (tstates : UInt64) (operations : UInt64) (seconds : Float) : String :=
  let emulated := tstates.toFloat / Clock.frequency.toFloat
  let speed := if seconds > 0 then emulated / seconds else 0
  s!"Z80 execution time: {tstates.toNat} T-states ({fixed 3 emulated}s)\n" ++
  s!"Instructions executed: {operations.toNat}\n" ++
  s!"Emulation time: {fixed 3 seconds}s (x{fixed 2 speed})\n"

end Spectrum.Trace
