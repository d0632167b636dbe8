import Spectrum.Loader.PollingLoop

/-! # The catalogue of loaders

The polling loops of known tape loaders.  Each begins with INC B or DEC B and samples the tape with
IN A,(FE); the operands of jumps out of the loop are left open where releases differ.  Some loaders
use the loop of another one and are listed as further names of it.

Main definitions: `catalogue`, `aliases`, `PollingLoop.named?`. -/

namespace Spectrum.Loader

/-- Marks a byte of a pattern that is left open. -/
def any : Nat := 0x100

def bytes (cells : List Nat) : List (Option UInt8) :=
  cells.map fun n => if n < any then some (UInt8.ofNat n) else none

/-- The known loops. -/
def catalogue : List PollingLoop := [
  { name := "alkatraz"
    pattern := bytes [0x04, 0x20, 0x03, any, any, any, 0xDB, 0xFE, 0x1F, 0xC8, 0xA9, 0xE6, 0x20,
      0x28, 0xF1]
    inTime := 16, loopTime := 59, refreshes := 8, earMask := 0x20 },
  { name := "alkatraz-05"
    pattern := bytes [0x04, 0x20, 0x05, any, any, any, any, any, 0xDB, 0xFE, 0x1F, 0xC8, 0xA9,
      0xE6, 0x20, 0x28, 0xEF]
    inTime := 16, loopTime := 59, refreshes := 8, earMask := 0x20 },
  { name := "alkatraz-09"
    pattern := bytes [0x04, 0x20, 0x09, any, any, any, any, any, any, any, any, any, 0xDB, 0xFE,
      0x1F, 0xC8, 0xA9, 0xE6, 0x20, 0x28, 0xEB]
    inTime := 16, loopTime := 59, refreshes := 8, earMask := 0x20 },
  { name := "alkatraz-0a"
    pattern := bytes [0x04, 0x20, 0x0A, any, any, any, any, any, any, any, any, any, any, 0xDB,
      0xFE, 0x1F, 0xC8, 0xA9, 0xE6, 0x20, 0x28, 0xEA]
    inTime := 16, loopTime := 59, refreshes := 8, earMask := 0x20 },
  { name := "alkatraz-0b"
    pattern := bytes [0x04, 0x20, 0x0B, any, any, any, any, any, any, any, any, any, any, any,
      0xDB, 0xFE, 0x1F, 0xC8, 0xA9, 0xE6, 0x20, 0x28, 0xE9]
    inTime := 16, loopTime := 59, refreshes := 8, earMask := 0x20 },
  { name := "alkatraz2"
    pattern := bytes [0x04, 0x20, 0x01, 0xC9, 0xDB, 0xFE, 0x1F, 0xC8, 0xA9, 0xE6, 0x20, 0x28,
      0xF3]
    inTime := 16, loopTime := 59, refreshes := 8, earMask := 0x20 },
  { name := "alternative"
    pattern := bytes [0x04, 0xC8, 0x3E, 0x7F, 0xDB, 0xFE, 0xCB, 0x1F, 0x00, 0xA9, 0xE6, 0x20,
      0x28, 0xF2]
    inTime := 16, loopTime := 62, refreshes := 10, earMask := 0x20 },
  { name := "alternative2"
    pattern := bytes [0x04, 0xC8, 0x3E, 0x7F, 0xDB, 0xFE, 0xCB, 0x1F, 0xD0, 0xA9, 0xE6, 0x20,
      0x28, 0xF2]
    inTime := 16, loopTime := 63, refreshes := 10, earMask := 0x20 },
  { name := "bleepload"
    pattern := bytes [0x04, 0xC8, 0x3E, 0x7F, 0xDB, 0xFE, 0x1F, 0x00, 0xA9, 0xE6, 0x20, 0x28,
      0xF3]
    inTime := 16, loopTime := 58, refreshes := 9, earMask := 0x20 },
  { name := "boguslaw-juza"
    pattern := bytes [0x04, 0xC8, 0x3E, 0x7F, 0xDB, 0xFE, 0x1F, 0xD6, 0x00, 0xA9, 0xE6, 0x20,
      0x28, 0xF2]
    inTime := 16, loopTime := 61, refreshes := 9, earMask := 0x20 },
  { name := "crl"
    pattern := bytes [0x04, 0xC8, 0x3E, 0x7F, 0xDB, 0xFE, 0xB7, 0xD8, 0xA9, 0xE6, 0x40, 0x28,
      0xF3]
    inTime := 16, loopTime := 59, refreshes := 9, earMask := 0x40 },
  { name := "crl2"
    pattern := bytes [0x04, 0xC8, 0xC8, 0x3E, 0x7F, 0xDB, 0xFE, 0x1F, 0xA9, 0xE6, 0x20, 0x28,
      0xF3]
    inTime := 21, loopTime := 59, refreshes := 9, earMask := 0x20 },
  { name := "crl3"
    pattern := bytes [0x04, 0x28, any, 0x3E, 0x7F, 0xDB, 0xFE, 0x1F, 0x30, any, 0xA9, 0xE6,
      0x20, 0x28, 0xF1]
    inTime := 18, loopTime := 63, refreshes := 9, earMask := 0x20 },
  { name := "crl4"
    pattern := bytes [0x04, 0xC8, 0x3E, 0x7F, 0xDB, 0xFE, 0x1F, 0xA9, 0xE6, 0x20, 0xE6, 0x20,
      0x28, 0xF2]
    inTime := 16, loopTime := 61, refreshes := 9, earMask := 0x20 },
  { name := "cybexlab"
    pattern := bytes [0x04, 0xC8, 0xAF, 0xDB, 0xFE, 0x1F, 0xD0, 0xA9, 0xE6, 0x20, 0x28, 0xF4]
    inTime := 13, loopTime := 56, refreshes := 9, earMask := 0x20 },
  { name := "d-and-h"
    pattern := bytes [0x04, 0xC8, 0x3E, 0x7F, 0xDB, 0xFE, 0xED, 0x4F, 0xA9, 0xE6, 0x40, 0x28,
      0xF3]
    inTime := 16, loopTime := 59, refreshes := 0, earMask := 0x40 },
  { name := "delphine"
    pattern := bytes [0x04, 0xC8, 0x3E, 0x7F, 0xDB, 0xFE, 0xA7, 0xD8, 0xA9, 0xE6, 0x40, 0x28,
      0xF3]
    inTime := 16, loopTime := 59, refreshes := 9, earMask := 0x40 },
  { name := "design-design"
    pattern := bytes [0x04, 0xCA, any, any, 0x3E, 0x7F, 0xDB, 0xFE, 0x1F, 0xA9, 0xE6, 0x20,
      0x28, 0xF2]
    inTime := 21, loopTime := 59, refreshes := 8, earMask := 0x20 },
  { name := "digital-integration"
    pattern := bytes [0x05, 0xC8, 0xDB, 0xFE, 0xA9, 0xE6, 0x40, 0xCA]
    inTime := 9, loopTime := 41, refreshes := 6, earMask := 0x40 },
  { name := "dinaload"
    pattern := bytes [0x04, 0xC8, 0x3E, 0xFF, 0xDB, 0xFE, 0x1F, 0xD0, 0xA9, 0xE6, 0x20, 0x28,
      0xF3]
    inTime := 16, loopTime := 59, refreshes := 9, earMask := 0x20 },
  { name := "gremlin"
    pattern := bytes [0x04, 0xC8, 0x3E, 0x7F, 0xDB, 0xFE, 0xA9, 0xE6, 0x40, 0x28, 0xF5]
    inTime := 16, loopTime := 50, refreshes := 7, earMask := 0x40 },
  { name := "gremlin2"
    pattern := bytes [0x04, 0xC8, 0x3E, 0xFF, 0xDB, 0xFE, 0xA9, 0xE6, 0x40, 0xD8, 0x00, 0x28,
      0xF3]
    inTime := 16, loopTime := 59, refreshes := 9, earMask := 0x40 },
  { name := "microprose"
    pattern := bytes [0x04, 0xC8, 0xDB, 0xFE, 0x1F, 0xC8, 0xA9, 0xE6, 0x20, 0x28, 0xF5]
    inTime := 9, loopTime := 52, refreshes := 8, earMask := 0x20 },
  { name := "microsphere"
    pattern := bytes [0x04, 0xC8, 0x3E, 0x7F, 0xDB, 0xFE, 0x1F, 0xA7, 0xA9, 0xE6, 0x20, 0x28,
      0xF3]
    inTime := 16, loopTime := 58, refreshes := 9, earMask := 0x20 },
  { name := "micro-style"
    pattern := bytes [0x04, 0xC8, 0x3E, 0x7F, 0x3E, 0x7F, 0xDB, 0xFE, 0x1F, 0x00, 0xA9, 0xE6,
      0x20, 0x28, 0xF1]
    inTime := 23, loopTime := 65, refreshes := 10, earMask := 0x20 },
  { name := "palas"
    pattern := bytes [0x04, 0xC8, 0xAF, 0xDB, 0xFE, 0x1F, 0xB7, 0xA9, 0xE6, 0x20, 0x28, 0xF4]
    inTime := 13, loopTime := 55, refreshes := 9, earMask := 0x20 },
  { name := "paul-owens"
    pattern := bytes [0x04, 0xC8, 0x3E, 0x7F, 0xDB, 0xFE, 0x1F, 0xC8, 0xA9, 0xE6, 0x20, 0x28,
      0xF3]
    inTime := 16, loopTime := 59, refreshes := 9, earMask := 0x20 },
  { name := "raxoft"
    pattern := bytes [0x04, 0xC8, 0xAF, 0xDB, 0xFE, 0x1F, 0x00, 0xA9, 0xE6, 0x20, 0x28, 0xF4]
    inTime := 13, loopTime := 55, refreshes := 9, earMask := 0x20 },
  { name := "realtime"
    pattern := bytes [0x04, 0xC8, 0x00, 0x00, 0x00, 0xDB, 0xFE, 0x1F, 0xA9, 0xE6, 0x20, 0x28,
      0xF3]
    inTime := 21, loopTime := 59, refreshes := 10, earMask := 0x20 },
  { name := "rom"
    pattern := bytes [0x04, 0xC8, 0x3E, 0x7F, 0xDB, 0xFE, 0x1F, 0xD0, 0xA9, 0xE6, 0x20, 0x28,
      0xF3]
    inTime := 16, loopTime := 59, refreshes := 9, earMask := 0x20 },
  { name := "search-loader"
    pattern := bytes [0x04, 0xC8, 0x3E, 0x00, 0xDB, 0xFE, 0xA9, 0xE6, 0x40, 0xD8, 0x00, 0x28,
      0xF3]
    inTime := 16, loopTime := 59, refreshes := 9, earMask := 0x40 },
  { name := "silverbird"
    pattern := bytes [0x04, 0x28, any, 0x3A, 0x00, 0x00, 0x7F, 0xDB, 0xFE, 0xA9, 0xE6, 0x40,
      0x28, 0xF2]
    inTime := 28, loopTime := 62, refreshes := 8, earMask := 0x40 },
  { name := "sparklers"
    pattern := bytes [0x04, 0xC8, 0xAF, 0xDB, 0xFE, 0x1F, 0x00, 0x00, 0xA9, 0xE6, 0x20, 0x28,
      0xF3]
    inTime := 13, loopTime := 59, refreshes := 10, earMask := 0x20 },
  { name := "speedlock"
    pattern := bytes [0x04, 0xC8, 0x3E, 0x7F, 0xDB, 0xFE, 0x1F, 0xA9, 0xE6, 0x20, 0x28, 0xF4]
    inTime := 16, loopTime := 54, refreshes := 8, earMask := 0x20 },
  { name := "suzy-soft"
    pattern := bytes [0x04, 0xC8, 0x3E, 0xFB, 0xDB, 0xFE, 0x1F, 0xD0, 0xA9, 0xE6, 0x20, 0x28,
      0xF3]
    inTime := 16, loopTime := 59, refreshes := 9, earMask := 0x20 },
  { name := "suzy-soft2"
    pattern := bytes [0x04, 0xC8, 0x3E, 0xF7, 0xDB, 0xFE, 0x1F, 0xA9, 0xE6, 0x20, 0x28, 0xF4]
    inTime := 16, loopTime := 54, refreshes := 8, earMask := 0x20 },
  { name := "tiny"
    pattern := bytes [0x04, 0xC8, 0xDB, 0xFE, 0xA9, 0xE6, 0x40, 0x28, 0xF7]
    inTime := 9, loopTime := 43, refreshes := 6, earMask := 0x40 },
  { name := "weird-science"
    pattern := bytes [0x04, 0xC8, 0x3E, 0x7F, 0xDB, 0xFE, 0x37, 0xD0, 0xA9, 0xE6, 0x40, 0x28,
      0xF3]
    inTime := 16, loopTime := 59, refreshes := 9, earMask := 0x40 }
]

/-- Further names of known loops. -/
def aliases : List (String × String) :=
  [("cyberlode", "bleepload"), ("edge", "rom"), ("elite-uni-loader", "speedlock"),
   ("excelerator", "bleepload"), ("flash-loader", "rom"), ("ftl", "speedlock"),
   ("gargoyle", "speedlock"), ("hewson-slowload", "rom"), ("injectaload", "bleepload"),
   ("poliload", "dinaload"), ("power-load", "bleepload"), ("softlock", "rom"),
   ("zydroload", "speedlock")]

namespace PollingLoop

/-- The loop of the ROM. -/
def rom : PollingLoop := catalogue.getD 29 default

def canonical? (name : String) : Option PollingLoop := catalogue.find? fun loop => loop.name == name

/-- The loop with a name, which may be one of its further names. -/
def named? (name : String) : Option PollingLoop :=
  match aliases.find? fun entry => entry.1 == name with
  | some (_, name) => canonical? name
  | none => canonical? name

def names : List String :=
  (catalogue.map (·.name) ++ aliases.map Prod.fst).mergeSort fun a b => decide (a ≤ b)

end PollingLoop
end Spectrum.Loader
