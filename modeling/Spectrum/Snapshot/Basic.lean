import Spectrum.Memory
import Spectrum.Z80.Registers

/-! # Snapshots

The state of a 48K machine at rest: all of memory, ROM included, the registers and the border. -/

namespace Spectrum

/-- The state of a 48K machine. -/
structure Snapshot where
  memory : Memory := Memory.blank
  registers : Z80.Registers := {}
  border : UInt8 := 0
deriving Inhabited

end Spectrum
