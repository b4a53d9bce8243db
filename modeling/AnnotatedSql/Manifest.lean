import AnnotatedSql.Disk.Write
import AnnotatedSql.Json.Print
import AnnotatedSql.Json.Read
import AnnotatedSql.Output.Module
/-!
# Package manifests

A package names what it exports in the object `exports` of its manifest. Registering an export
sets one entry of that object and changes nothing else; a manifest without the object is left
alone.
-/

namespace AnnotatedSql.Manifest

open Json (Value)

/-- The file of the manifest of the package in a directory. -/
def path (dir : String) : String :=
  Path.join dir "package.json"

/-- How a manifest refers to a generated module beside it. -/
def target (kind : ModuleKind) : Value :=
  .string ("./" ++ kind.fileName)

/-- The files that one way of loading a package finds. -/
def conditions (kind : ModuleKind) : Value :=
  .object [("types", target .declarations), ("node", target kind), ("default", target kind)]

/-- The entry that makes the generated modules an export. -/
def entry : Value :=
  .object [("require", conditions .commonJs), ("import", conditions .esModule),
    ("default", target .commonJs)]

/-- A manifest with an entry set in its exports; there is none without an object of exports. -/
def withExport? (manifest : Value) (exportPath : String) : Option Value := do
  let members ← manifest.members?
  let exports ← (Entries.get? members "exports").bind Value.members?
  return .object (Entries.put members "exports" (.object (exports.put exportPath entry)))

/-- What registering an export came to. -/
inductive Outcome
  | registered
  | unchanged
  /-- The manifest has no object of exports. -/
  | noExports
  /-- There is no manifest. -/
  | missing
  deriving DecidableEq, Repr

/-- Why an export could not be registered. -/
inductive Error
  | unreadable (path : String) (cause : Disk.Fault)
  | malformed (path : String) (cause : Json.Fault)
  | write (error : Disk.WriteError)
  deriving DecidableEq, Repr

def Error.message : Error → String
  | .unreadable path _ => "failed to read '" ++ path ++ "'"
  | .malformed path _ => "failed to parse '" ++ path ++ "'"
  | .write error => error.message

/-- What an error comes from, from the outermost cause to the innermost. -/
def Error.causes : Error → List String
  | .unreadable _ cause => [cause.message]
  | .malformed _ cause => [cause.message]
  | .write error => [error.cause.message]

/-- Writes a manifest that has been changed. -/
def save (d : Disk) (file : String) (manifest : Value) : Disk × Except Error Outcome :=
  match d.writeText file manifest.render with
  | (d, .error e) => (d, .error (.write e))
  | (d, .ok .written) => (d, .ok .registered)
  | (d, .ok .unchanged) => (d, .ok .unchanged)

/-- Registers an export in the manifest of a directory. -/
def register (d : Disk) (dir exportPath : String) : Disk × Except Error Outcome :=
  let file := path dir
  match d.readText file with
  | .error .notFound => (d, .ok .missing)
  | .error cause => (d, .error (.unreadable file cause))
  | .ok text =>
    match Value.parse text with
    | .error cause => (d, .error (.malformed file cause))
    | .ok manifest =>
      match withExport? manifest exportPath with
      | none => (d, .ok .noExports)
      | some manifest => save d file manifest

end AnnotatedSql.Manifest
