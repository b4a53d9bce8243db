import AnnotatedSql.Disk.Basic
import AnnotatedSql.Source.Error
import AnnotatedSql.Statement
/-!
# Collecting sources

The sources of a directory are the files directly in it whose extension is `sql`, in the order
of the bytes of their names. The stem of such a name names the procedure.
-/

namespace AnnotatedSql.Collect

/-- The extension of a source. -/
def extension : String := "sql"

/-- The files of a directory that are sources: stem, file name and bytes. -/
def sourceFiles (entries : Entries Disk.Tree) : List (String × String × ByteArray) :=
  (Disk.Tree.inOrder entries).filterMap fun (name, t) =>
    match t, Path.stem? extension name with
    | .file content, some stem => some (stem, name, content)
    | _, _ => none

/-- Reads files in turn; the first that is not text decides. -/
def readAll (dir : String) : List (String × String × ByteArray) → Except SourceError (List SourceText)
  | [] => .ok []
  | (stem, name, bytes) :: rest =>
    match String.fromUTF8? bytes with
    | none => .error (.unreadable (Path.join dir name) .notText)
    | some content => (readAll dir rest).map ({ name := stem, file := name, content } :: ·)

/-- The sources of a directory. A path that leads to no directory has none. -/
def sources (d : Disk) (dir : String) : Except SourceError (List SourceText) :=
  match d.find dir with
  | .ok (.dir entries) => readAll dir (sourceFiles entries)
  | _ => .ok []

end AnnotatedSql.Collect
