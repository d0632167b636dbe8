import Spectrum.Snapshot.Basic
import Spectrum.Text.Integer
import Spectrum.Text.Split
import Spectrum.Z80.RegisterName

/-! # Edits of a snapshot

Registers and hardware state can be set by specifications `name=value`.  An edit gives what it
leaves and, if it fails, why; `editAll` applies edits in order up to the first that fails.

Main statement: `editAll_append`, a list of edits in two parts is applied one part after the
other. -/

namespace Spectrum

open Z80 Text

/-- Why an edit cannot be applied.  Each cause carries the specification at fault. -/
inductive EditError where
  | unknownRegister (spec : String)
  | registerValue (spec : String)
  | unknownParameter (spec : String)
  | parameterValue (spec : String)
  | unknownOperation (spec : String)
  | loadArguments (spec : String)
  | loadInteger (spec : String)
  | loadBlock (number : Nat) (spec : String)
  | pokeMissingValue (spec : String)
  | pokeRange (spec : String)
  | pokeValue (spec : String)
  | moveArguments (spec : String)
  | moveInteger (spec : String)
deriving DecidableEq, Repr

def EditError.message (e : EditError) : String :=
  beforeNul <| match e with
  | .unknownRegister spec => "Invalid register: " ++ spec
  | .registerValue spec => "Cannot parse register value: " ++ spec
  | .unknownParameter spec => "Invalid parameter: " ++ spec
  | .parameterValue spec => "Cannot parse integer: " ++ spec
  | .unknownOperation spec => "Invalid operation: " ++ spec
  | .loadArguments spec => "Not enough arguments in load spec (expected 2): " ++ spec
  | .loadInteger spec => "Invalid integer in load spec: " ++ spec
  | .loadBlock number spec => s!"Block {number} not found: {spec}"
  | .pokeMissingValue spec => "Value missing in poke spec: " ++ spec
  | .pokeRange spec => "Invalid address range in poke spec: " ++ spec
  | .pokeValue spec => "Invalid value in poke spec: " ++ spec
  | .moveArguments spec => "Not enough arguments in move spec (expected 3): " ++ spec
  | .moveInteger spec => "Invalid integer in move spec: " ++ spec

/-- Apply edits in order.  The first that fails ends the list; what was done up to there stays. -/
def editAll {σ ε : Type} (edit : String → σ → σ × Option ε) (s : σ) : List String → σ × Option ε
  | [] => (s, none)
  | spec :: specs =>
    match edit spec s with
    | (s, none) => editAll edit s specs
    | (s, some e) => (s, some e)

theorem editAll_append {σ ε : Type} (edit : String → σ → σ × Option ε) (s : σ)
    (xs ys : List String) :
    editAll edit s (xs ++ ys) =
      match editAll edit s xs with
      | (s, none) => editAll edit s ys
      | (s, some e) => (s, some e) := by
  induction xs generalizing s with
  | nil => rfl
  | cons spec specs ih =>
    simp only [List.cons_append, editAll]
    match edit spec s with
    | (s, none) => exact ih s
    | (s, some e) => rfl

/-- The two sides of a specification `name=value`; without a value it is empty. -/
def nameAndValue (spec : String) : String × String :=
  let (name, value) := cut '=' spec.toList
  (String.ofList name, String.ofList (value.getD []))

def editRegister (spec : String) (r : Registers) : Registers × Option EditError :=
  let (name, value) := nameAndValue spec
  match RegisterName.parse? name with
  | none => (r, some (.unknownRegister spec))
  | some register =>
    match integer? value with
    | none => (r, some (.registerValue spec))
    | some n =>
      ({ r with toRegisterFile := register.set r.toRegisterFile (UInt16.ofNat n) }, none)

/-- The hardware state that can be set. -/
inductive Parameter where
  | border | iff | im | tstates
deriving DecidableEq, Repr

def Parameter.parse? (name : String) : Option Parameter :=
  match name.toLower with
  | "border" => some .border
  | "iff" => some .iff
  | "im" => some .im
  | "tstates" => some .tstates
  | _ => none

def Parameter.set (p : Parameter) (n : Nat) (s : Snapshot) : Snapshot :=
  match p with
  | .border => { s with border := UInt8.ofNat n &&& 7 }
  | .iff => { s with registers := { s.registers with iff1 := n != 0, iff2 := n != 0 } }
  | .im => { s with registers := { s.registers with im := UInt8.ofNat n &&& 3 } }
  | .tstates => { s with registers := { s.registers with clock := UInt64.ofNat n } }

def editState (spec : String) (s : Snapshot) : Snapshot × Option EditError :=
  let (name, value) := nameAndValue spec
  match Parameter.parse? name with
  | none => (s, some (.unknownParameter spec))
  | some p =>
    match integer? value with
    | none => (s, some (.parameterValue spec))
    | some n => (p.set n s, none)

end Spectrum
