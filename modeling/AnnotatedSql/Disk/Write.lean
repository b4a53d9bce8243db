import AnnotatedSql.Disk.Basic
/-!
# Writing files that may be there already

A file that already holds the text to be written is left alone. Otherwise the directories above
it are made where they are missing, and then the file is written.
-/

namespace AnnotatedSql.Disk

/-- What writing a file came to. -/
inductive Outcome
  | written
  /-- The file held the same text before, and nothing was touched. -/
  | unchanged
  deriving DecidableEq, Repr

/-- Why a file could not be written. -/
inductive WriteError
  /-- A directory above the file could not be made. -/
  | directory (path : String) (cause : Fault)
  | file (path : String) (cause : Fault)
  deriving DecidableEq, Repr

def WriteError.message : WriteError → String
  | .directory path _ => "failed to create directory '" ++ path ++ "'"
  | .file path _ => "failed to write '" ++ path ++ "'"

/-- What the disk said. -/
def WriteError.cause : WriteError → Fault
  | .directory _ cause => cause
  | .file _ cause => cause

/-- Whether a path leads to a file with exactly this text. -/
def holds (d : Disk) (path text : String) : Bool :=
  match d.readText path with
  | .ok old => old == text
  | .error _ => false

/-- Writes a text to a path that does not hold it. -/
def overwrite (d : Disk) (path text : String) : Disk × Except WriteError Outcome :=
  let (d, fault) := match Path.parent? path with
    | none => (d, none)
    | some dir =>
      let (d, fault) := d.makeDirs dir
      (d, fault.map (WriteError.directory dir))
  match fault with
  | some e => (d, .error e)
  | none =>
    match d.writeBytes path text.toUTF8 with
    | .error cause => (d, .error (.file path cause))
    | .ok d => (d, .ok .written)

/-- Makes a path hold a text. -/
def writeText (d : Disk) (path text : String) : Disk × Except WriteError Outcome :=
  if d.holds path text then (d, .ok .unchanged) else d.overwrite path text

end AnnotatedSql.Disk
