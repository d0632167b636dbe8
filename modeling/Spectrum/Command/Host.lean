import Spectrum.Text.Split

/-! # What a command needs of a computer

A command reads and writes files and measures time.  It does so through a `Host`, so that it can be
run on the files of a computer and also on a list of files, `Files`, which is a value.

Main statements: `Files.read_write_same`, `Files.read_write_of_ne`: what has been written is read
back, and other files stay as they are. -/

namespace Spectrum.Command

inductive FileError where
  | notFound (name : String)
  | notWritable (name : String)
  | unusableSize (name : String)
  | doesNotFit (name : String) (size origin : Nat)
deriving DecidableEq, Repr

def FileError.message (e : FileError) : String :=
  Text.beforeNul <| match e with
  | .notFound name => name ++ ": file not found"
  | .notWritable name => name ++ ": cannot open for writing"
  | .unusableSize name => name ++ ": unusable binary file size"
  | .doesNotFit name size origin => s!"{name}: {size} bytes do not fit at {origin}"

/-- Access to files and to a clock. -/
structure Host (m : Type → Type) where
  read : String → m (Except FileError (List UInt8))
  write : String → List UInt8 → m (Except FileError Unit)
  /-- The value of a computation and the seconds that it took. -/
  timed : {α : Type} → (Unit → α) → m (α × Float)

/-- Files by name. -/
abbrev Files := List (String × List UInt8)

namespace Files

def read (files : Files) (name : String) : Except FileError (List UInt8) :=
  match files.lookup name with
  | some bytes => .ok bytes
  | none => .error (.notFound name)

/-- Whether a file can have a name: there are no directories to name. -/
def isName (name : String) : Bool :=
  !name.isEmpty && name != "." && name != ".." && !name.toList.contains '/'

def write (files : Files) (name : String) (bytes : List UInt8) : Except FileError Files :=
  if isName name then .ok ((name, bytes) :: files.filter fun file => file.1 != name)
  else .error (.notWritable name)

/-- A list of files as a host on which nothing takes time. -/
def host : Host (StateM Files) where
  read name := return (← get).read name
  write name bytes := do
    match (← get).write name bytes with
    | .ok files => set files; return .ok ()
    | .error e => return .error e
  timed f := return (f (), 0)

theorem read_write_same {files written : Files} {name : String} {bytes : List UInt8}
    (h : files.write name bytes = .ok written) : written.read name = .ok bytes := by
  unfold write at h
  split at h
  · cases h
    simp [read]
  · simp at h

theorem lookup_filter_ne (files : Files) {name other : String} (h : other ≠ name) :
    (files.filter fun file => file.1 != name).lookup other = files.lookup other := by
  induction files with
  | nil => rfl
  | cons file rest ih =>
    obtain ⟨key, bytes⟩ := file
    by_cases hk : key = name
    · subst hk
      simp [List.lookup_cons, ih, beq_false_of_ne h]
    · simp [List.lookup_cons, hk, ih]

theorem read_write_of_ne {files written : Files} {name other : String} {bytes : List UInt8}
    (h : files.write name bytes = .ok written) (hne : other ≠ name) :
    written.read other = files.read other := by
  unfold write at h
  split at h
  · cases h
    simp [read, List.lookup_cons, beq_false_of_ne hne, lookup_filter_ne files hne]
  · simp at h

end Files
end Spectrum.Command
