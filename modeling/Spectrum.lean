import Spectrum.Main
import Spectrum.Proofs.Loader.Delivery
import Spectrum.Proofs.Loader.FoundLoops
import Spectrum.Proofs.Loader.Constants
import Spectrum.Proofs.Snapshot.RoundTrip
import Spectrum.Proofs.Snapshot.Offsets
import Spectrum.Proofs.Tape.Grammar
import Spectrum.Proofs.Loader.Course
import Spectrum.Proofs.Loader.Level
import Spectrum.Proofs.Loader.Interrupts
import Spectrum.Proofs.Snapshot.Layouts
import Spectrum.Proofs.Snapshot.Position
import Spectrum.Proofs.Loader.Ending
import Spectrum.Proofs.Tape.Chain
import Spectrum.Proofs.Z80.Decoding
import Spectrum.Proofs.Z80.Replay
import Spectrum.Z80.Fetch
import Spectrum.Proofs.Text.Hexadecimal
import Spectrum.Proofs.Text.Numerals
import Spectrum.Proofs.Z80.Boundaries
import Spectrum.Proofs.Z80.Substitution
import Spectrum.Proofs.Loader.Border
import Spectrum.Proofs.Loader.Placement
import Spectrum.Proofs.Z80.Stack
import Spectrum.Proofs.Z80.Operands
import Spectrum.Proofs.Trace.Limits
import Spectrum.Proofs.Loader.Routine
import Spectrum.Proofs.Loader.Typing
import Spectrum.Proofs.Loader.Recognition
import Spectrum.Proofs.Z80.Halting
import Spectrum.Proofs.Z80.Reports
import Spectrum.Proofs.Loader.Refresh
import Spectrum.Proofs.Z80.Arithmetic
import Spectrum.Proofs.Z80.Blocks
import Spectrum.Proofs.Tape.Bits
import Spectrum.Proofs.Loader.Direct
import Spectrum.Proofs.Z80.Transparency
import Spectrum.Proofs.Snapshot.BlockLoad
import Spectrum.Proofs.Snapshot.Edits
import Spectrum.Proofs.Snapshot.EditEffect
import Spectrum.Proofs.Loader.Chords
import Spectrum.Proofs.Z80.PowerOn
