import Spectrum.Z80.Registers

/-! # Registers by name

Every register that can be addressed by name: pairs, their halves, and I and R.  A leading
circumflex marks the alternate set.

Main statement: `RegisterName.get_set`, a named register holds what it was set to. -/

namespace Spectrum.Z80

/-- The word registers of a register file. -/
inductive Pair where
  | af | bc | de | hl | af' | bc' | de' | hl' | ix | iy | sp | pc
deriving DecidableEq, Repr

namespace Pair

def get (f : RegisterFile) : Pair → UInt16
  | .af => f.af
  | .bc => f.bc
  | .de => f.de
  | .hl => f.hl
  | .af' => f.af'
  | .bc' => f.bc'
  | .de' => f.de'
  | .hl' => f.hl'
  | .ix => f.ix
  | .iy => f.iy
  | .sp => f.sp
  | .pc => f.pc

def set (f : RegisterFile) (v : UInt16) : Pair → RegisterFile
  | .af => { f with af := v }
  | .bc => { f with bc := v }
  | .de => { f with de := v }
  | .hl => { f with hl := v }
  | .af' => { f with af' := v }
  | .bc' => { f with bc' := v }
  | .de' => { f with de' := v }
  | .hl' => { f with hl' := v }
  | .ix => { f with ix := v }
  | .iy => { f with iy := v }
  | .sp => { f with sp := v }
  | .pc => { f with pc := v }

@[simp] theorem get_set (f : RegisterFile) (v : UInt16) (p : Pair) : p.get (p.set f v) = v := by
  cases p <;> rfl

end Pair

/-- A register with a name. -/
inductive RegisterName where
  | word (pair : Pair)
  | high (pair : Pair)
  | low (pair : Pair)
  | special (register : Special)
deriving DecidableEq, Repr

namespace RegisterName

def table : List (String × RegisterName) :=
  [("A", .high .af), ("F", .low .af), ("B", .high .bc), ("C", .low .bc),
   ("D", .high .de), ("E", .low .de), ("H", .high .hl), ("L", .low .hl),
   ("AF", .word .af), ("BC", .word .bc), ("DE", .word .de), ("HL", .word .hl),
   ("^A", .high .af'), ("^F", .low .af'), ("^B", .high .bc'), ("^C", .low .bc'),
   ("^D", .high .de'), ("^E", .low .de'), ("^H", .high .hl'), ("^L", .low .hl'),
   ("^AF", .word .af'), ("^BC", .word .bc'), ("^DE", .word .de'), ("^HL", .word .hl'),
   ("IXH", .high .ix), ("IXL", .low .ix), ("IYH", .high .iy), ("IYL", .low .iy),
   ("IX", .word .ix), ("IY", .word .iy), ("SP", .word .sp), ("PC", .word .pc),
   ("I", .special .i), ("R", .special .r)]

/-- The register with a name, whatever the case of its letters. -/
def parse? (name : String) : Option RegisterName :=
  (table.find? fun entry => entry.1 == name.toUpper).map Prod.snd

def text (r : RegisterName) : String :=
  ((table.find? fun entry => entry.2 == r).map Prod.fst).getD ""

def width : RegisterName → Nat
  | .word _ => 16
  | _ => 8

/-- The value of a register, widened to a word. -/
def get (f : RegisterFile) : RegisterName → UInt16
  | .word p => p.get f
  | .high p => (p.get f).high.toUInt16
  | .low p => (p.get f).low.toUInt16
  | .special .i => f.i.toUInt16
  | .special .r => f.r.toUInt16

/-- The file with a register replaced; a byte register takes the low byte of the value. -/
def set (f : RegisterFile) (v : UInt16) : RegisterName → RegisterFile
  | .word p => p.set f v
  | .high p => p.set f ((p.get f).withHigh v.low)
  | .low p => p.set f ((p.get f).withLow v.low)
  | .special .i => { f with i := v.low }
  | .special .r => { f with r := v.low }

theorem get_set (f : RegisterFile) (v : UInt16) (r : RegisterName) :
    r.get (r.set f v) = if r.width = 16 then v else v.low.toUInt16 := by
  cases r with
  | word p => simp [get, set, width]
  | high p => simp [get, set, width, UInt16.withHigh]
  | low p => simp [get, set, width, UInt16.withLow]
  | special s => cases s <;> simp [get, set, width]

end RegisterName
end Spectrum.Z80
