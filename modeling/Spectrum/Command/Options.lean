import Spectrum.Text.Integer
import Spectrum.Text.Split

/-! # Command line syntax

A command line is options, `--name value`, `--name=value`, `-n value` or `-nvalue`, and free
arguments.  A long name may be cut short as long as only one option begins with what is left.  An
option either takes a value or none; switches without a value can be written together behind one
dash.  Everything behind `--` is free.  Free arguments stand for options of their own, in a fixed
order.

Main definition: `Grammar.parse`. -/

namespace Spectrum.Command

/-- What an option takes. -/
inductive Arity where
  /-- Nothing, and it may be given once. -/
  | switch
  /-- Nothing, and it may be repeated. -/
  | counter
  /-- A text, once. -/
  | text
  /-- A decimal number below a bound, once. -/
  | number (bound : Nat)
  /-- A text, any number of times. -/
  | texts
deriving DecidableEq, Repr

namespace Arity

def takesValue : Arity → Bool
  | .switch | .counter => false
  | _ => true

def repeats : Arity → Bool
  | .counter | .texts => true
  | _ => false

def accepts (arity : Arity) (value : String) : Bool :=
  match arity with
  | .number bound => (Text.digits? 10 bound value.toList).isSome
  | _ => true

end Arity

/-- An option of a program. -/
structure OptionSpec where
  name : String
  short : Option Char := none
  arity : Arity
deriving DecidableEq, Repr

/-- The options of a program, and the names of those that free arguments stand for. -/
structure Grammar where
  options : List OptionSpec
  free : List String
deriving Repr

inductive OptionError where
  | unknown (option : String)
  | ambiguous (option : String) (candidates : List String)
  | missingValue (option : String)
  | unexpectedValue (option : String)
  | repeated (option : String)
  | tooManyArguments
  | invalidValue (value : String)
deriving DecidableEq, Repr

def OptionError.message : OptionError → String
  | .unknown option => s!"unrecognised option '{option}'"
  | .ambiguous option candidates =>
    s!"option '{option}' is ambiguous and matches " ++ ", ".intercalate candidates
  | .missingValue option => s!"the required argument for option '{option}' is missing"
  | .unexpectedValue option => s!"option '{option}' does not take any arguments"
  | .repeated option => s!"option '{option}' cannot be specified more than once"
  | .tooManyArguments => "too many positional options have been specified on the command line"
  | .invalidValue value => s!"the argument ('{value}') is invalid"

/-- An option that was given, with its value; empty if it takes none. -/
structure Given where
  name : String
  value : String
deriving DecidableEq, Repr

/-- What a piece of a command line is. -/
inductive Piece where
  | option (given : Given)
  | free (argument : String)
deriving DecidableEq, Repr

namespace Grammar

def named? (g : Grammar) (name : String) : Option OptionSpec :=
  g.options.find? fun o => o.name == name

def beginningWith (g : Grammar) (text : String) : List OptionSpec :=
  g.options.filter fun o => text.toList.isPrefixOf o.name.toList

/-- The option that a long name stands for: the one with that name, or else the only one whose name
begins with it. -/
def resolve (g : Grammar) (name : String) : Except OptionError OptionSpec :=
  match g.named? name with
  | some o => .ok o
  | none =>
    match g.beginningWith name with
    | [] => .error (.unknown name)
    | [o] => .ok o
    | candidates => .error (.ambiguous name (candidates.map (·.name)))

def lettered? (g : Grammar) (letter : Char) : Option OptionSpec :=
  g.options.find? fun o => o.short == some letter

/-- The switches and the option in a group of letters.  The value of the option, if it takes one, is
the rest of the group; the second result is the option that still lacks a value. -/
def letters (g : Grammar) : List Char → Except OptionError (List Given × Option OptionSpec)
  | [] => .ok ([], none)
  | letter :: rest =>
    match g.lettered? letter with
    | none => .error (.unknown (String.ofList ['-', letter]))
    | some o =>
      if o.arity.takesValue then
        if rest.isEmpty then .ok ([], some o)
        else .ok ([⟨o.name, String.ofList rest⟩], none)
      else
        match g.letters rest with
        | .error e => .error e
        | .ok (given, open_) => .ok (⟨o.name, ""⟩ :: given, open_)

/-- The option in a long argument, without its dashes, and whether it still lacks a value. -/
def long (g : Grammar) (text : List Char) : Except OptionError (Given × Bool) :=
  let (name, value) := Text.cut '=' text
  match g.resolve (String.ofList name) with
  | .error e => .error e
  | .ok o =>
    match value with
    | none => .ok (⟨o.name, ""⟩, o.arity.takesValue)
    | some [] => .error (.missingValue o.name)
    | some value =>
      if o.arity.takesValue then .ok (⟨o.name, String.ofList value⟩, false)
      else .error (.unexpectedValue o.name)

def pieces (g : Grammar) : List String → Except OptionError (List Piece)
  | [] => .ok []
  | argument :: rest =>
    match argument.toList with
    | ['-', '-'] => .ok (rest.map .free)
    | '-' :: '-' :: text => do
      let (given, lacking) ← g.long text
      if lacking then
        match rest with
        | [] => .error (.missingValue given.name)
        | value :: rest => return .option ⟨given.name, value⟩ :: (← g.pieces rest)
      else return .option given :: (← g.pieces rest)
    | '-' :: letter :: text => do
      let (given, lacking) ← g.letters (letter :: text)
      let given := given.map .option
      match lacking with
      | none => return given ++ (← g.pieces rest)
      | some o =>
        match rest with
        | [] => .error (.missingValue o.name)
        | value :: rest => return given ++ .option ⟨o.name, value⟩ :: (← g.pieces rest)
    | _ => return .free argument :: (← g.pieces rest)

/-- Free arguments take the names that are left for them, in order. -/
def nameFree : List String → List Piece → Except OptionError (List Given)
  | _, [] => .ok []
  | names, .option given :: rest => return given :: (← nameFree names rest)
  | [], .free _ :: _ => .error .tooManyArguments
  | name :: names, .free argument :: rest => return ⟨name, argument⟩ :: (← nameFree names rest)

/-- Options are known to take the values they have, and are not repeated unless they may be. -/
def check (g : Grammar) : List Given → Except OptionError Unit
  | [] => .ok ()
  | given :: rest =>
    match g.named? given.name with
    | none => .error (.unknown given.name)
    | some o =>
      if !o.arity.accepts given.value then .error (.invalidValue given.value)
      else if !o.arity.repeats && rest.any fun other => other.name == given.name then
        .error (.repeated given.name)
      else g.check rest

def parse (g : Grammar) (arguments : List String) : Except OptionError (List Given) := do
  let given ← nameFree g.free (← g.pieces arguments)
  g.check given
  return given

end Grammar

def valuesOf (given : List Given) (name : String) : List String :=
  (given.filter fun g => g.name == name).map (·.value)

def valueOf? (given : List Given) (name : String) : Option String := (valuesOf given name).head?

def isGiven (given : List Given) (name : String) : Bool := given.any fun g => g.name == name

def parseAddress (text : String) : Except OptionError UInt16 :=
  match Text.integer? text with
  | some n => if n ≤ 0xFFFF then .ok (UInt16.ofNat n) else .error (.invalidValue text)
  | none => .error (.invalidValue text)

def addressOf? (given : List Given) (name : String) : Except OptionError (Option UInt16) :=
  match valueOf? given name with
  | none => .ok none
  | some text => (parseAddress text).map some

def numberOf? (given : List Given) (name : String) : Option Nat :=
  (valueOf? given name).bind fun text => Text.digits? 10 UInt64.size text.toList

end Spectrum.Command
