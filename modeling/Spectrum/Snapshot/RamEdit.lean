import Spectrum.Snapshot.Edit
import Spectrum.Snapshot.SystemVariables
import Spectrum.Tape.Block

/-! # Edits of memory

Operations that change the memory of a snapshot: copying a tape block, setting bytes, moving bytes,
and initialising the system variables.  `RamOperation.parse` reads one from its specification and
`RamOperation.apply` carries it out, so an operation that cannot be read has changed nothing. -/

namespace Spectrum

open Text Tape

inductive PokeOperator where
  | assign | xor | add
deriving DecidableEq, Repr

inductive RamOperation where
  /-- Bytes go to `start + offset` on; after each the address moves by `step`, and by `inc` more
  when it has passed the top of memory. -/
  | load (bytes : List UInt8) (start step offset inc : UInt32)
  /-- Every `step`th byte from `first` to `last` changes. -/
  | poke (first last step : Nat) (op : PokeOperator) (value : UInt8)
  | move (source length target : Nat)
  | systemVariables
deriving DecidableEq, Repr

namespace RamOperation

/-! ### Reading -/

/-- Bytes of a block to copy: without the flag byte and the parity byte, unless they are asked for.
A length counts from the first byte that is copied, as far as the block goes. -/
def selectBytes (data : List UInt8) (keepFlag keepParity : Bool) (length : Option Nat) :
    List UInt8 :=
  let stop := if keepParity then data.length else data.length - 1
  let start := min (if keepFlag then 0 else 1) stop
  match length with
  | none => (data.take stop).drop start
  | some n => (data.drop start).take n

/-- The block number with the marks around it that ask for flag and parity. -/
def blockMarks (text : List Char) : Bool × Bool × List Char :=
  let (keepFlag, text) := match text with
    | '+' :: rest => (true, rest)
    | _ => (false, text)
  if text.getLast? == some '+' then (keepFlag, true, text.dropLast) else (keepFlag, false, text)

/-- An optional field of a specification, none if it is missing or empty.  The outer result says
whether it can be read. -/
def optionalField (fields : List String) (index : Nat) : Option (Option Nat) :=
  match fields[index]? with
  | none => some none
  | some text => if text.isEmpty then some none else (integer? text).map some

/-- The operation `load=block,start,length,step,offset,inc`. -/
def parseLoad (blocks : List Block) (spec : String) : Except EditError RamOperation :=
  let params := fields ',' spec
  match params with
  | block :: start :: _ =>
    let (keepFlag, keepParity, number) := blockMarks block.toList
    match integer? (String.ofList number), integer? start, optionalField params 2,
        optionalField params 3, optionalField params 4, optionalField params 5 with
    | some number, some start, some length, some step, some offset, some inc =>
      match blocks.find? fun b => b.number == number with
      | none => .error (.loadBlock number spec)
      | some b =>
        .ok (.load (selectBytes b.data keepFlag keepParity length) (UInt32.ofNat start)
          (UInt32.ofNat (step.getD 1)) (UInt32.ofNat (offset.getD 0)) (UInt32.ofNat (inc.getD 0)))
    | _, _, _, _, _, _ => .error (.loadInteger spec)
  | _ => .error (.loadArguments spec)

def rangeBound? (text : String) : Option Nat :=
  match integer? text with
  | some n => if n ≤ 0xFFFF then some n else none
  | none => none

def parseRange? (text : List Char) : Option (Nat × Nat × Nat) :=
  match (fields '-' (String.ofList text)).mapM rangeBound? with
  | some [a] => some (a, a, 1)
  | some [a, b] => some (a, b, 1)
  | some [a, b, c] => if c = 0 then none else some (a, b, c)
  | _ => none

def pokeOperator (text : List Char) : PokeOperator × List Char :=
  match text with
  | '^' :: rest => (.xor, rest)
  | '+' :: rest => (.add, rest)
  | _ => (.assign, text)

/-- The operation `poke=range,value`. -/
def parsePoke (spec : String) : Except EditError RamOperation :=
  match cut ',' spec.toList with
  | (_, none) => .error (.pokeMissingValue spec)
  | (range, some value) =>
    match parseRange? range with
    | none => .error (.pokeRange spec)
    | some (first, last, step) =>
      let (op, value) := pokeOperator value
      match integer? (String.ofList value) with
      | none => .error (.pokeValue spec)
      | some n => .ok (.poke first last step op (UInt8.ofNat n))

def parseMove (spec : String) : Except EditError RamOperation :=
  match fields ',' spec with
  | source :: length :: target :: _ =>
    match integer? source, integer? length, integer? target with
    | some source, some length, some target => .ok (.move source length target)
    | _, _, _ => .error (.moveInteger spec)
  | _ => .error (.moveArguments spec)

/-- What follows a prefix of a text. -/
def afterPrefix? (start : String) (text : String) : Option String :=
  if start.toList.isPrefixOf text.toList then
    some (String.ofList (text.toList.drop start.length))
  else none

def parse (blocks : List Block) (spec : String) : Except EditError RamOperation :=
  match afterPrefix? "load=" spec with
  | some rest => parseLoad blocks rest
  | none =>
    match afterPrefix? "poke=" spec with
    | some rest => parsePoke rest
    | none =>
      match afterPrefix? "move=" spec with
      | some rest => parseMove rest
      | none => if spec == "sysvars" then .ok .systemVariables else .error (.unknownOperation spec)

/-! ### Applying -/

/-- The address after one that a byte has been loaded to. -/
def nextAddress (address step inc : UInt32) : UInt32 :=
  let moved := address + step
  (if moved > 0xFFFF then moved + inc else moved) &&& 0xFFFF

/-- Bytes loaded one after another. -/
def loadBytes (memory : Memory) (address step offset inc : UInt32) : List UInt8 → Memory
  | [] => memory
  | b :: rest =>
    loadBytes (memory.write (address + offset).toUInt16 b) (nextAddress address step inc) step
      offset inc rest

def PokeOperator.apply (op : PokeOperator) (value old : UInt8) : UInt8 :=
  match op with
  | .assign => value
  | .xor => old ^^^ value
  | .add => old + value

/-- The addresses of a range, none if it ends before it starts. -/
def rangeAddresses (first last step : Nat) : List Nat :=
  if last < first then []
  else (List.range ((last - first) / step + 1)).map fun i => first + i * step

def pokeAll (memory : Memory) (change : UInt8 → UInt8) : List Nat → Memory
  | [] => memory
  | a :: rest =>
    let address := UInt16.ofNat a
    pokeAll (memory.write address (change (memory.read address))) change rest

/-- The bytes at consecutive addresses, wrapping at the top of memory. -/
def readAll (memory : Memory) (address : UInt16) : Nat → List UInt8
  | 0 => []
  | n + 1 => memory.read address :: readAll memory (address + 1) n

/-- Carry out an operation.  Bytes are moved as a whole; a length over that of memory moves all of
it. -/
def apply (op : RamOperation) (memory : Memory) : Memory :=
  match op with
  | .load bytes start step offset inc => loadBytes memory start step offset inc bytes
  | .poke first last step op value =>
    pokeAll memory (PokeOperator.apply op value) (rangeAddresses first last step)
  | .move source length target =>
    memory.writeAll (UInt16.ofNat target)
      (readAll memory (UInt16.ofNat source) (min length Memory.size))
  | .systemVariables => memory.load Snapshot.systemVariablesStart Snapshot.systemVariableBytes

end RamOperation

def editRam (blocks : List Block) (spec : String) (s : Snapshot) : Snapshot × Option EditError :=
  match RamOperation.parse blocks spec with
  | .error e => (s, some e)
  | .ok op => ({ s with memory := op.apply s.memory }, none)

def hasLoadOperation (specs : List String) : Bool :=
  specs.any fun spec => (RamOperation.afterPrefix? "load=" spec).isSome

end Spectrum
