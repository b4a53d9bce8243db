import AnnotatedSql.Manifest
import AnnotatedSql.Output.Plan
/-!
# Writing a generation

The planned files are written one after another, and then the export is registered in the
manifest of the client and in that of the package. The first failure ends the run; what was done
before it stays.
-/

namespace AnnotatedSql

/-- What a generation did to the disk. -/
structure Summary where
  written : List String
  unchanged : List String
  /-- The manifests that hold the export. -/
  registered : List String
  /-- The manifests that are missing or have no exports. -/
  skipped : List String
  deriving DecidableEq, Repr

/-- Why a generation failed. -/
inductive RunError
  | write (error : Disk.WriteError)
  | manifest (error : Manifest.Error)
  deriving DecidableEq, Repr

namespace RunError

/-- What every failure of a generation says first. -/
def message : String :=
  "unable to write files for procedure generator"

end RunError

namespace Summary

/-- Nothing done yet. -/
def empty : Summary :=
  { written := [], unchanged := [], registered := [], skipped := [] }

/-- The number of files that hold what was planned. -/
def fileCount (s : Summary) : Nat :=
  s.written.length + s.unchanged.length

end Summary

/-! ## Steps -/

/-- One step of a generation. -/
inductive OutputStep
  | write (file : PlannedFile)
  /-- Registers an export in the manifest of a directory. -/
  | register (dir exportPath : String)
  deriving DecidableEq, Repr

namespace OutputStep

/-- Adds a written file to a summary. -/
def recordFile (s : Summary) (path : String) : Disk.Outcome → Summary
  | .written => { s with written := s.written ++ [path] }
  | .unchanged => { s with unchanged := s.unchanged ++ [path] }

/-- Adds a manifest to a summary. -/
def recordManifest (s : Summary) (path : String) : Manifest.Outcome → Summary
  | .registered | .unchanged => { s with registered := s.registered ++ [path] }
  | .noExports | .missing => { s with skipped := s.skipped ++ [path] }

/-- Takes a step, and adds to a summary what it did. -/
def perform (d : Disk) (s : Summary) : OutputStep → Disk × Except RunError Summary
  | write file =>
    match d.writeText file.path file.content with
    | (d, .error e) => (d, .error (.write e))
    | (d, .ok outcome) => (d, .ok (recordFile s file.path outcome))
  | register dir exportPath =>
    match Manifest.register d dir exportPath with
    | (d, .error e) => (d, .error (.manifest e))
    | (d, .ok outcome) => (d, .ok (recordManifest s (Manifest.path dir) outcome))

/-- Takes steps in order up to the first that fails. -/
def performAll (d : Disk) (s : Summary) : List OutputStep → Disk × Except RunError Summary
  | [] => (d, .ok s)
  | step :: steps =>
    match step.perform d s with
    | (d, .error e) => (d, .error e)
    | (d, .ok s) => performAll d s steps

end OutputStep

namespace Generation

/-- The steps of a generation: every planned file, then the manifest of the client and that of
the package. -/
def steps (g : Generation) (l : Layout) : List OutputStep :=
  (g.files l).map .write ++ [.register l.client l.exportPath, .register l.package l.exportPath]

/-- Writes a generation to a disk. -/
def run (g : Generation) (l : Layout) (d : Disk) : Disk × Except RunError Summary :=
  OutputStep.performAll d .empty (g.steps l)

end Generation
end AnnotatedSql
