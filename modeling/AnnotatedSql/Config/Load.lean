import AnnotatedSql.Config.Place
import AnnotatedSql.Config.Schema
import AnnotatedSql.Disk.Basic
import AnnotatedSql.Toml.Read
/-!
# Loading configurations
-/

namespace AnnotatedSql

/-- Why there is no configuration. -/
inductive ConfigError
  | unreadable (path : String) (cause : Disk.Fault)
  /-- The text is no document, or one that neither fits nor is valid. -/
  | notToml (file : String)
  /-- A part of the document does not fit. -/
  | mismatch (file : String) (problem : Config.Mismatch) (span : Span)
  /-- A value is of the right type and still wrong. -/
  | rejected (file : String) (fault : Config.Fault) (span : Option Span)
  deriving DecidableEq, Repr

namespace ConfigError

def message : ConfigError → String
  | unreadable path _ => "failed to read '" ++ path ++ "'"
  | notToml _ => "failed to parse sqlproc.toml"
  | mismatch _ _ _ => "failed to parse sqlproc.toml"
  | rejected _ fault _ => fault.message

/-- What the reader can do about an error. -/
def help? : ConfigError → Option String
  | unreadable _ _ => some "pass --config to point at an existing sqlproc.toml"
  | _ => none

end ConfigError

namespace Config

/-- The file that holds the configuration of a project, if nothing else is said. -/
def fileName : String := "sqlproc.toml"

/-- The configuration that a text gives. Whether the whole document is valid only matters if a part
of it does not fit. -/
def parse (text : String) (file : String := fileName) : Except ConfigError Config :=
  match Toml.parse? text with
  | none => .error (.notToml file)
  | some document =>
    match ofTable document with
    | .error problem =>
      if document.isValid then .error (.mismatch file problem.value problem.span)
      else .error (.notToml file)
    | .ok config =>
      match config.fault? with
      | some fault => .error (.rejected file fault (place? fault.key text))
      | none => .ok config

/-- A configuration and the text that it comes from, which is empty if the defaults hold. -/
structure Loaded where
  path : String
  text : String
  config : Config
  deriving DecidableEq, Repr

/-- Reads a configuration file. -/
def load (d : Disk) (path : String) : Except ConfigError Loaded :=
  match d.readText path with
  | .error cause => .error (.unreadable path cause)
  | .ok text => (parse text path).map fun config => { path, text, config }

/-- Reads a configuration file if anything stands at its path. -/
def loadOrStandard (d : Disk) (path : String) : Except ConfigError Loaded :=
  if d.isThere path then load d path else .ok { path, text := "", config := .standard }

end Config
end AnnotatedSql
