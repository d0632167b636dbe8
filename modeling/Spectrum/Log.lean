/-! # Reports to the user

What a run reports beside its result: lines of text, each of some importance. -/

namespace Spectrum

/-- The importance of a report. -/
inductive Level where
  | info | warn | error
deriving DecidableEq, Repr

/-- A report. -/
structure LogLine where
  level : Level
  text : String
deriving DecidableEq, Repr

namespace LogLine

def info (text : String) : LogLine := ⟨.info, text⟩

def warn (text : String) : LogLine := ⟨.warn, text⟩

def error (text : String) : LogLine := ⟨.error, text⟩

end LogLine
end Spectrum
