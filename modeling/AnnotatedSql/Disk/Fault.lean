/-!
# What can go wrong on a disk
-/

namespace AnnotatedSql.Disk

/-- Why an operation on files failed. -/
inductive Fault
  | notFound
  | alreadyExists
  | notADirectory
  | isADirectory
  /-- The content of a file is not UTF-8 text. -/
  | notText
  deriving DecidableEq, Repr

def Fault.message : Fault → String
  | .notFound => "no such file or directory"
  | .alreadyExists => "file exists"
  | .notADirectory => "not a directory"
  | .isADirectory => "is a directory"
  | .notText => "stream did not contain valid UTF-8"

end AnnotatedSql.Disk
