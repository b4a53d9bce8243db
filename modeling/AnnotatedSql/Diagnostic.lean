/-!
# Diagnostics

A diagnostic is a message about a source that does not by itself stop a run.
-/

namespace AnnotatedSql

/-- How grave a diagnostic is. -/
inductive Severity
  | error
  | warning
  | info
  deriving DecidableEq, Repr

def Severity.name : Severity → String
  | .error => "error"
  | .warning => "warning"
  | .info => "info"

/-- The severity with a given name. -/
def Severity.ofName? (text : String) : Option Severity :=
  [Severity.error, .warning, .info].find? fun s => s.name == text

/-- A message, the phase that gave it and the file it is about. -/
structure Diagnostic where
  severity : Severity
  phase : String
  message : String
  location : Option String
  deriving DecidableEq, Repr

namespace Diagnostic

/-- A diagnostic on one line. -/
def display (d : Diagnostic) : String :=
  let head := d.severity.name ++ ": " ++ d.message
  match d.location with
  | some place => head ++ " (at " ++ place ++ ")"
  | none => head

def isError (d : Diagnostic) : Bool :=
  d.severity == .error

def isWarning (d : Diagnostic) : Bool :=
  d.severity == .warning

end Diagnostic
end AnnotatedSql
