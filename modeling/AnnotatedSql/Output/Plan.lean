import AnnotatedSql.Disk.Path
import AnnotatedSql.Output.Module
/-!
# The files of a generation

The modules of a batch go into the directory of the client, and the shims into that of the
package. What is written can be told without a disk.
-/

namespace AnnotatedSql

/-- Where generated files go and how the package exports them. -/
structure Layout where
  client : String
  package : String
  exportPath : String
  deriving DecidableEq, Repr

/-- The layout of an installed client. -/
def Layout.standard : Layout where
  client := "node_modules/.prisma/client"
  package := "node_modules/@prisma/client"
  exportPath := "./procedures"

/-- A file to be written. -/
structure PlannedFile where
  path : String
  content : String
  deriving DecidableEq, Repr

namespace ModuleKind

/-- The file of a module in a directory. -/
def pathIn (kind : ModuleKind) (dir : String) : String :=
  Path.join dir kind.fileName

end ModuleKind

/-- What is generated from some procedures. -/
structure Generation where
  procedures : List Procedure
  mode : Mode
  deriving DecidableEq, Repr

namespace Generation

/-- The file that holds a module. -/
def moduleFile (g : Generation) (l : Layout) (kind : ModuleKind) : PlannedFile :=
  ⟨kind.pathIn l.client, kind.file g.mode g.procedures⟩

/-- The file that holds the shim for a module. -/
def shimFile (l : Layout) (kind : ModuleKind) : PlannedFile :=
  ⟨kind.pathIn l.package, kind.shim⟩

/-- All files in the order in which they are written. -/
def files (g : Generation) (l : Layout) : List PlannedFile :=
  ModuleKind.all.map (g.moduleFile l) ++ ModuleKind.all.map (shimFile l)

end Generation
end AnnotatedSql
