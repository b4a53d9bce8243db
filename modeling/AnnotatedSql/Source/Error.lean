import AnnotatedSql.Disk.Fault
import AnnotatedSql.Source.Mistake
/-!
# Errors about sources
-/

namespace AnnotatedSql

/-- Why sources could not be used. -/
inductive SourceError
  /-- A file or directory could not be read. -/
  | unreadable (path : String) (cause : Disk.Fault)
  /-- Some procedures have names that cannot be used. -/
  | rejectedNames (names : List (String × Identifier.Fault))
  /-- A source holds a mistake. -/
  | mistake (file : String) (mistake : Mistake)
  deriving DecidableEq, Repr

namespace SourceError

def message : SourceError → String
  | unreadable path _ => s!"failed to read '{path}'"
  | rejectedNames names =>
    "invalid procedure name(s), expected valid JavaScript identifier(s): "
      ++ ", ".intercalate (names.map Prod.fst)
  | mistake _ m => m.fault.message

/-- What the reader can do about an error. For names it gives a line with the reason for each. -/
def help? : SourceError → Option String
  | unreadable _ _ => none
  | rejectedNames names =>
    some <| "\n".intercalate <| names.map fun (name, reason) => name ++ ": " ++ reason.message
  | mistake _ m => some m.fault.help

end SourceError
end AnnotatedSql
