import AnnotatedSql.Output.Plan
/-!
# Configurations

A configuration says where sources are, what generated procedures do and where they go. Whatever
is not given has a default.
-/

namespace AnnotatedSql

/-- A configuration. -/
structure Config where
  /-- The directory that holds the sources. -/
  input : String
  mode : Mode
  layout : Layout
  deriving DecidableEq, Repr

namespace Config

/-- The configuration that holds where nothing is given. -/
def standard : Config where
  input := "prisma/procedures"
  mode := .execute
  layout := .standard

/-- What can be wrong with values of the right types. -/
inductive Fault
  | emptyInput
  /-- The path of the export is not a path below the package. -/
  | badExport (path : String)
  deriving DecidableEq, Repr

namespace Fault

def message : Fault → String
  | emptyInput => "input directory cannot be empty"
  | badExport path => "export path '" ++ path ++ "' must start with './', e.g. './procedures'"

/-- The key whose value is wrong. -/
def key : Fault → String
  | emptyInput => "input"
  | badExport _ => "export"

end Fault

/-- Whether a path names something below a package: two characters and at least one more. -/
def isExportPath (path : String) : Bool :=
  match path.toList with
  | '.' :: '/' :: _ :: _ => true
  | _ => false

/-- The first thing wrong with a configuration. -/
def fault? (c : Config) : Option Fault :=
  if c.input = "" then some .emptyInput
  else if isExportPath c.layout.exportPath then none
  else some (.badExport c.layout.exportPath)

end Config
end AnnotatedSql
