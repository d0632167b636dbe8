/-! # Timing of the machine

The clock counts T-states, of which there are 3.5 million in a second.  The display is redrawn every
frame, and an interrupt is raised at the start of each. -/

namespace Spectrum.Clock

/-- T-states in a second. -/
def frequency : UInt64 := 3500000

/-- T-states in a frame. -/
def frameLength : UInt64 := 69888

/-- T-states for which the interrupt of a frame is raised. -/
def interruptLength : UInt64 := 32

def frame (clock : UInt64) : UInt64 := clock / frameLength

def withinFrame (clock : UInt64) : UInt64 := clock % frameLength

end Spectrum.Clock
