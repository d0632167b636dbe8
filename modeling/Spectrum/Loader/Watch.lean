import Spectrum.Loader.Session

/-! # Between instructions

After every instruction the session looks at the machine: idle iterations of a polling loop are
skipped, a call of the ROM's loading routine is carried out in one step, keys are typed, the
interrupt of the frame is offered, the tape moves on, and the run may end.  Each of these is a
function on a `Scene`, and `Scene.step` is an instruction followed by all of them.

Main definitions: `Scene.skipIterations`, `Scene.loadBlock`, `Scene.afterInstruction`,
`Scene.run`. -/

namespace Spectrum.Loader

open Z80 Tape

/-- Why a run cannot go on. -/
inductive RunError where
  | load (e : LoadError)
  | key (e : UnknownKey)
deriving DecidableEq, Repr

def RunError.message : RunError → String
  | .load e => e.message
  | .key e => e.message

/-- A machine, the session that watches it and what has been reported, the latest first. -/
structure Scene where
  machine : Machine
  session : Session
  notices : List Notice := []

namespace Scene

def clock (s : Scene) : UInt64 := s.machine.cpu.clock

@[inline] def mapCpu (s : Scene) (f : Cpu → Cpu) : Scene :=
  { s with machine := s.machine.mapCpu f }

@[inline] def mapSession (s : Scene) (f : Session → Session) : Scene :=
  { s with session := f s.session }

def report (s : Scene) (n : Notice) : Scene := { s with notices := n :: s.notices }

/-! ### Polling loops -/

/-- The iterations of a loop, about to start, in which nothing happens: those that sample the tape
before its next edge and in which the counter does not wrap round. -/
def idleIterations (session : Session) (origin : UInt64) (loop : PollingLoop) (c : Cpu) : Nat :=
  let sample := c.clock + UInt64.ofNat loop.inTime
  if sample < origin then 0
  else
    let time := (sample - origin).toNat
    let index := session.signal.edgesUntil time
    let awaited := c.bc.low &&& loop.earMask != 0
    if Signal.levelAfter index != awaited then 0
    else
      let b := c.bc.high
      let untilWrap := if loop.countsDown then (b - 1).toNat else (0xFF - b).toNat
      match session.signal.edges[index]? with
      | none => untilWrap
      | some edge => min untilWrap ((edge - time + loop.loopTime - 1) / loop.loopTime)

def afterIterations (loop : PollingLoop) (n : Nat) (c : Cpu) : Cpu :=
  let b := c.bc.high
  let b := if loop.countsDown then b - UInt8.ofNat n else b + UInt8.ofNat n
  { c with
    toRegisterFile := { c.toRegisterFile.refresh (n * loop.refreshes) with bc := c.bc.withHigh b }
    clock := c.clock + UInt64.ofNat (n * loop.loopTime) }

/-- Skip the idle iterations of a polling loop, if the instruction that was executed completed a
whole iteration of one.  Nothing is skipped while an interrupt could arrive. -/
def skipIterations (s : Scene) (e : Executed) : Scene :=
  let c := s.machine.cpu
  match s.session.origin with
  | none => s
  | some origin =>
    if s.session.loops.isEmpty || c.iff1 then s
    else
      match s.session.foundAt? c.pc with
      | none => s
      | some loop =>
        if (e.address - c.pc).toNat < loop.pattern.length
            ∧ s.session.lastSample = c.pc + loop.inOffset then
          match idleIterations s.session origin loop c with
          | 0 => s
          | n => s.mapCpu (afterIterations loop n)
        else s

/-! ### Loading a block in one step -/

def loadRoutine : UInt16 := 0x0556

/-- The instruction through which the routine returns. -/
def loadRoutineExit : UInt16 := 0x05E2

/-- The address that the routine returns to first, where interrupts are enabled again. -/
def loadRoutineReturn : UInt16 := 0x053F

/-- The next block on the tape whose flag is wanted, and the blocks that are passed over before
it. -/
def nextBlock (signal : Signal) (flag : UInt8) : List DataRange →
    List Block × Option (DataRange × Block)
  | [] => ([], none)
  | range :: rest =>
    let block := signal.blocks.getD range.block {}
    if block.flag == flag then ([], some (range, block))
    else
      let (passed, result) := nextBlock signal flag rest
      (block :: passed, result)

/-- Bytes written upwards from an address, except into protected memory. -/
def writeBytes (m : Machine) (address : UInt16) : List UInt8 → Machine
  | [] => m
  | b :: rest => writeBytes (m.write address b) (address + 1) rest

/-- The flags after a comparison of the accumulator with one, without bits 5 and 3. -/
def compareWithOne (a : UInt8) : Flags :=
  { s := (a - 1).bit 7, z := a == 1, y := false, h := a &&& 0x0F == 0,
    x := false, pv := a == 0x80, n := true, c := a == 0 }

/-- What the loading routine does with the data of a block: the bytes behind the flag go to IX
onwards, as many as DE asks for, and one more is read as parity.  If the block is too short, the
rest of the destination is filled with the last byte read. -/
def placeData (m : Machine) (data : List UInt8) : Machine :=
  let c := m.cpu
  let flag := c.a
  let wanted := c.de.toNat
  let body := data.drop 1
  let placed := body.take wanted
  let count := placed.length
  let checksum := placed.foldl (· ^^^ ·) flag
  let last := placed.getLastD flag
  match body.drop wanted with
  | parity :: _ =>
    let checksum := checksum ^^^ parity
    (writeBytes m c.ix placed).mapCpu fun c =>
      { c with
        af := UInt16.join checksum (compareWithOne checksum).toByte
        bc := c.bc.withHigh 0xB0
        de := 0
        hl := UInt16.join checksum parity
        ix := c.ix + UInt16.ofNat count }
  | [] =>
    let filling := List.replicate (wanted - count) last
    (writeBytes m c.ix (placed ++ filling)).mapCpu fun c =>
      { c with
        af := 0
        de := c.de - UInt16.ofNat count
        hl := UInt16.join checksum last
        ix := c.ix + UInt16.ofNat count }

/-- Move the tape so that its first `index` edges lie in the past: the clock goes forward to the
last of them, or if it is past that already, the tape is taken to have started later. -/
def moveTapeTo (s : Scene) (index : Nat) : Scene :=
  let s := s.mapSession fun t => { t with index }
  match index, s.session.origin with
  | last + 1, some origin =>
    let offset := UInt64.ofNat (s.session.signal.edges.getD last 0)
    if s.clock < origin + offset then
      let elapsed := origin + offset - s.clock
      let rom := PollingLoop.rom
      let iterations := (elapsed / UInt64.ofNat rom.loopTime).toNat
      s.mapCpu fun c =>
        { c with
          toRegisterFile := c.toRegisterFile.refresh (iterations * rom.refreshes)
          clock := c.clock + elapsed }
    else s.mapSession fun t => { t with origin := some (s.clock - offset) }
  | _, _ => s

/-- Return from the loading routine the way the ROM does, with interrupts disabled. -/
def leaveRoutine (m : Machine) : Machine :=
  let sp := m.cpu.sp - 2
  (m.writeWord sp loadRoutineReturn).mapCpu fun c =>
    { c with sp, pc := loadRoutineExit, iff1 := false, iff2 := false }

/-- What is reported of a block that is loaded: a request for 17 bytes with flag zero reads a
header. -/
def blockNotice (c : Cpu) (data : List UInt8) : Notice :=
  match if c.a == 0 && c.de == 17 then describeHeader? data else none with
  | some description => .header description
  | none => .dataBlock c.ix c.de

/-- Carry out the ROM's loading routine on the next block with the flag in the accumulator.  Blocks
whose data has begun to play are out of reach. -/
def loadBlock (s : Scene) : Scene × Option LoadError :=
  let s := s.mapSession (·.advanceTape s.clock)
  let session := s.session
  let ahead := session.signal.ranges.dropWhile fun range => range.data < session.index
  let (passed, next) := nextBlock session.signal s.machine.cpu.a ahead
  let s := passed.foldl (fun s block => s.report (.skipped block.describe)) s
  match next with
  | none => (s, some .endOfTape)
  | some (range, block) =>
    let s := s.report (blockNotice s.machine.cpu block.data)
    let s := { s with machine := placeData s.machine block.data }
    let s := s.moveTapeTo range.stop
    ({ s with machine := leaveRoutine s.machine }, none)

def trapRoutine (s : Scene) : Scene × Option LoadError :=
  if s.session.config.fastLoad && s.session.running && s.machine.cpu.pc == loadRoutine then
    s.loadBlock
  else (s, none)

/-! ### Keys and interrupts -/

def typeKeys (s : Scene) (frame : UInt64) : Scene × Option UnknownKey :=
  match s.session.typing with
  | none => (s, none)
  | some .awaitingInterrupts =>
    if s.machine.cpu.iff1 then
      (s.mapSession fun t =>
        { t with typing := some (.fromFrame (frame + Session.bootFrames)) }, none)
    else (s, none)
  | some (.fromFrame first) =>
    if frame < first then (s, none)
    else
      let (keyboard, error) := s.session.keyboard.advance frame
      let s := s.mapSession fun t => { t with keyboard }
      match error with
      | some e => (s, some e)
      | none =>
        if keyboard.typing then (s, none)
        else (s.mapSession fun t => { t.startTape s.clock with typing := none }, none)

/-- Offer the interrupt of a frame, if it is raised and has not been accepted yet. -/
def offerInterrupt (s : Scene) (frame : UInt64) : Scene :=
  if s.session.config.interrupts && s.session.interruptFrame != some frame
      && Clock.withinFrame s.clock < Clock.interruptLength then
    match s.machine.interrupt 0xFF with
    | .ok (some accepted) =>
      { s with
        machine := accepted.machine
        session := { s.session with interruptFrame := some frame } }
    | _ => s
  else s

/-! ### The end -/

/-- Move the tape on, and report when its last edge has passed. -/
def followTape (s : Scene) : Scene :=
  let s := s.mapSession (·.advanceTape s.clock)
  let session := s.session
  if session.running && !session.finished && session.signal.edges.size ≤ session.index then
    (s.mapSession fun t => { t with finished := true }).report .tapeFinished
  else s

/-- Why the run ends here, if it does: at the start address; without one, in RAM after the end of
the tape; or because the time is up. -/
def stopReason? (s : Scene) : Option StopReason :=
  let config := s.session.config
  let pc := s.machine.cpu.pc
  if config.start == some pc then some .atStart
  else if config.start.isNone && s.session.finished && pc ≥ Machine.ramStart then some .inRam
  else if s.clock - s.session.runStart ≥ config.timeout then some .timedOut
  else none

def checkStop (s : Scene) : Scene × Bool :=
  match s.stopReason? with
  | none => (s, false)
  | some reason =>
    ((s.mapSession fun t => { t with stopReason := some reason }).report
      (.stopped reason s.machine.cpu.pc), true)

def afterInstruction (s : Scene) (e : Executed) : Scene × Except RunError Bool :=
  match (s.skipIterations e).trapRoutine with
  | (s, some error) => (s, .error (.load error))
  | (s, none) =>
    let frame := Clock.frame s.clock
    match s.typeKeys frame with
    | (s, some error) => (s, .error (.key error))
    | (s, none) =>
      let (s, stop) := ((s.offerInterrupt frame).followTape).checkStop
      (s, .ok stop)

def step (s : Scene) : (Scene × Except RunError Bool) × Executed :=
  let (machine, e) := s.machine.step (s.session.answer s.clock)
  let session := e.events.foldl (Session.note s.machine e.address) s.session
  (({ s with machine, session }).afterInstruction e, e)

inductive Ending where
  | stopped
  | failed (e : RunError)
  | exhausted
deriving DecidableEq, Repr

def run (s : Scene) : (fuel : Nat) → Scene × Ending
  | 0 => (s, .exhausted)
  | fuel + 1 =>
    match s.step.1 with
    | (s, .error e) => (s, .failed e)
    | (s, .ok true) => (s, .stopped)
    | (s, .ok false) => s.run fuel

/-- The instructions that fit into the time of a run: none takes less than four T-states. -/
def fuelFor (c : Config) : Nat := c.timeout.toNat / 4 + 1

def runToEnd (s : Scene) : Scene × Ending := s.run (fuelFor s.session.config)

end Scene
end Spectrum.Loader
