/-! # Run-length coding

The coding of memory in snapshot files.  A run of two to 255 equal bytes may be written as the mark
ED ED, the count and the byte; any other byte stands for itself.  Runs are coded from five bytes on,
and runs of ED, which could be taken for a mark, from two on.  A lone ED is followed by a literal
byte, so that no mark is read where none was written.

Main definitions: `encode`, `decode`, `limitOf`. -/

namespace Spectrum.Snapshot.RunLength

/-- The byte that marks a run when it stands twice. -/
def mark : UInt8 := 0xED

def longestRun : Nat := 255

/-- The number of bytes at the front that equal `b`, up to `limit`. -/
def leading (b : UInt8) : (limit : Nat) → List UInt8 → Nat
  | 0, _ => 0
  | _, [] => 0
  | limit + 1, c :: rest => if c == b then leading b limit rest + 1 else 0

def isCoded (b : UInt8) (n : Nat) : Bool := n ≥ 5 || (b == mark && n ≥ 2)

def encode : List UInt8 → List UInt8
  | [] => []
  | b :: rest =>
    let more := leading b (longestRun - 1) rest
    if isCoded b (more + 1) then
      mark :: mark :: UInt8.ofNat (more + 1) :: b :: encode (rest.drop more)
    else if b == mark then
      match rest with
      | [] => [b]
      | c :: rest => b :: c :: encode rest
    else b :: encode rest
termination_by bytes => bytes.length

/-- The bytes that a coding stands for, or none if it ends within a run.  With a limit, decoding
stops as soon as there are that many bytes; a run that crosses the limit is given whole. -/
def decode (limit : Option Nat) (code : List UInt8) : Option (List UInt8) :=
  match code, limit with
  | [], _ => some []
  | _, some 0 => some []
  | 0xED :: 0xED :: count :: b :: rest, _ =>
    (decode (limit.map (· - count.toNat)) rest).map (List.replicate count.toNat b ++ ·)
  | 0xED :: 0xED :: _, _ => none
  | b :: rest, _ => (decode (limit.map (· - 1)) rest).map (b :: ·)

/-- The limit that a requested length sets; a length of zero asks for everything. -/
def limitOf (length : Nat) : Option Nat := if length = 0 then none else some length

end Spectrum.Snapshot.RunLength
