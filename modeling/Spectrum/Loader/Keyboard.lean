import Spectrum.Text.Split
import Spectrum.Word

/-! # The keyboard

The forty keys form a matrix of eight half-rows.  Reading a port selects half-rows by the zero bits
of the high half of its address, and a key that is held down in one of them reads as a zero.  Chords
can be queued to be typed: each is held for some frames and then released for as many.

Main definitions: `Keyboard.read`, `Keyboard.advance`. -/

namespace Spectrum.Loader

/-- A key is a place in the matrix. -/
structure Key where
  row : Fin 8
  column : Fin 5
deriving DecidableEq, Repr

namespace Key

/-- The keys of each half-row, from the lowest bit on. -/
def matrix : List (List String) :=
  [["CS", "Z", "X", "C", "V"],
   ["A", "S", "D", "F", "G"],
   ["Q", "W", "E", "R", "T"],
   ["1", "2", "3", "4", "5"],
   ["0", "9", "8", "7", "6"],
   ["P", "O", "I", "U", "Y"],
   ["ENTER", "L", "K", "J", "H"],
   ["SPACE", "SS", "M", "N", "B"]]

def all : List Key :=
  (List.finRange 8).flatMap fun row => (List.finRange 5).map fun column => { row, column }

def label (k : Key) : String := (matrix.getD k.row []).getD k.column ""

def named? (label : String) : Option Key := all.find? fun k => k.label == label

def bit (k : Key) : UInt8 := 1 <<< UInt8.ofNat k.column

/-- Whether the high half of an address selects the half-row of a key. -/
def selected (k : Key) (high : UInt8) : Bool := !high.bit (UInt8.ofNat k.row)

end Key

/-- A label that is on no key. -/
structure UnknownKey where
  label : String
deriving DecidableEq, Repr

def UnknownKey.message (e : UnknownKey) : String := Text.beforeNul ("Unknown key: " ++ e.label)

/-- The keys that are held, and the chords that are still to be typed.  The first chord is held
while `pressing`; `phaseEnd` is the frame at which it is pressed or released. -/
structure Keyboard where
  held : List Key := []
  chords : List (List String) := []
  frames : UInt64 := 0
  phaseEnd : UInt64 := 0
  pressing : Bool := false
  started : Bool := false
deriving DecidableEq, Repr, Inhabited

namespace Keyboard

def press (k : Keyboard) (label : String) : Except UnknownKey Keyboard :=
  match Key.named? label with
  | some key => .ok { k with held := key :: k.held }
  | none => .error ⟨label⟩

def release (k : Keyboard) : Keyboard := { k with held := [] }

/-- The five bits that a read with `high` on the upper address lines returns. -/
def read (k : Keyboard) (high : UInt8) : UInt8 :=
  k.held.foldl (fun v key => if key.selected high then v &&& ~~~key.bit else v) 0x1F

/-- Chords to be typed after those that wait already, each held and released for `frames`. -/
def queue (k : Keyboard) (chords : List (List String)) (frames : UInt64) : Keyboard :=
  { k with chords := k.chords ++ chords, frames }

def typing (k : Keyboard) : Bool := !k.chords.isEmpty || k.pressing

/-- Hold down the keys of a chord; the keys before an unknown one stay down. -/
def pressAll (k : Keyboard) : List String → Keyboard × Option UnknownKey
  | [] => (k, none)
  | label :: rest =>
    match k.press label with
    | .ok k => k.pressAll rest
    | .error e => (k, some e)

/-- The keyboard in a frame: once the phase is over, the chord that is held is released or the next
one pressed. -/
def advance (k : Keyboard) (frame : UInt64) : Keyboard × Option UnknownKey :=
  if !k.typing then (k, none)
  else
    let k := if k.started then k else { k with started := true, phaseEnd := frame }
    if frame < k.phaseEnd then (k, none)
    else
      let k := k.release
      if k.pressing then
        ({ k with chords := k.chords.tail, pressing := false, phaseEnd := frame + k.frames }, none)
      else
        match k.pressAll (k.chords.headD []) with
        | (k, some e) => (k, some e)
        | (k, none) => ({ k with pressing := true, phaseEnd := frame + k.frames }, none)

end Keyboard

/-- The keys that type the command to load: the keyword key, two quotes and ENTER. -/
def loadKeystrokes : List (List String) := [["J"], ["SS", "P"], ["SS", "P"], ["ENTER"]]

end Spectrum.Loader
