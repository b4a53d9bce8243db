import AnnotatedSql.Disk.Fault
import AnnotatedSql.Disk.Path
import AnnotatedSql.Disk.Tree
/-!
# Disks

A disk is a tree without links and a working directory in it. A path is followed piece by piece;
whatever comes before its last piece must be a directory. Operations that change a disk give the
new one, and those that fail half way give what is left then.
-/

namespace AnnotatedSql

/-- A tree of files and the directory from which unrooted paths start. -/
structure Disk where
  root : Disk.Tree
  workingDir : Disk.Place

namespace Disk

/-- A disk with nothing on it. -/
def empty : Disk :=
  { root := .dir [], workingDir := [] }

/-- The tree at a place of the disk. -/
def at? (d : Disk) (place : Place) : Option Tree :=
  d.root.at? place

/-! ## Following paths -/

/-- The place that one piece of a path leads to from a directory. -/
def step (place : Place) (piece : List Char) : Place :=
  if piece = [] ∨ piece = ['.'] then place
  else if piece = ['.', '.'] then place.dropLast
  else place ++ [String.ofList piece]

/-- Follows pieces from a place. Each has to start from a directory, but the last may lead to a
place where nothing is. -/
def follow (d : Disk) : Place → List (List Char) → Except Fault Place
  | place, [] => .ok place
  | place, piece :: rest =>
    match d.at? place with
    | none => .error .notFound
    | some (.file _) => .error .notADirectory
    | some (.dir _) => follow d (step place piece) rest

/-- The place that a path leads to. An empty path leads nowhere. -/
def locate (d : Disk) (path : List Char) : Except Fault Place :=
  if path = [] then .error .notFound
  else follow d (if Path.isRooted path then [] else d.workingDir) (Path.pieces path)

/-- What a path leads to. -/
def find (d : Disk) (path : String) : Except Fault Tree :=
  match d.locate path.toList with
  | .error fault => .error fault
  | .ok place =>
    match d.at? place with
    | none => .error .notFound
    | some t => .ok t

/-- Whether a path leads to a directory. -/
def isDir (d : Disk) (path : String) : Bool :=
  match d.find path with
  | .ok t => t.isDir
  | .error _ => false

/-- Whether anything stands where a path leads. -/
def isThere (d : Disk) (path : String) : Bool :=
  (d.find path).isOk

/-! ## Reading -/

/-- The text of the file that a path leads to. -/
def readText (d : Disk) (path : String) : Except Fault String :=
  match d.find path with
  | .error fault => .error fault
  | .ok (.dir _) => .error .isADirectory
  | .ok (.file content) =>
    match String.fromUTF8? content with
    | none => .error .notText
    | some text => .ok text

/-! ## Changing -/

/-- Puts a tree at a place. -/
def put (d : Disk) (place : Place) (t : Tree) : Disk :=
  { d with root := d.root.put place t }

/-- A path without the slashes that it ends with. -/
def withoutSlashes (path : List Char) : List Char :=
  (path.reverse.dropWhile (· == '/')).reverse

/-- Makes one directory, in a directory that is there. -/
def makeDir (d : Disk) (path : String) : Except Fault Disk :=
  let bare := withoutSlashes path.toList
  match d.locate (if bare = [] then path.toList else bare) with
  | .error fault => .error fault
  | .ok place =>
    match d.at? place with
    | some _ => .error .alreadyExists
    | none => .ok (d.put place (.dir []))

/-- Makes the first of some paths a directory, after making the next ones directories if they
are missing; each path lies right above the one before it. Directories made before a failure
stay. -/
def makeChain (d : Disk) : List String → Disk × Option Fault
  | [] => (d, some .notFound)
  | path :: above =>
    if path = "" then (d, none)
    else
      match d.makeDir path with
      | .ok made => (made, none)
      | .error .notFound =>
        match makeChain d above with
        | (d, some fault) => (d, some fault)
        | (d, none) =>
          match d.makeDir path with
          | .ok made => (made, none)
          | .error fault => (d, if d.isDir path then none else some fault)
      | .error fault => (d, if d.isDir path then none else some fault)

/-- Makes a directory and those above it that are missing. -/
def makeDirs (d : Disk) (path : String) : Disk × Option Fault :=
  d.makeChain (path :: Path.parents path)

/-- Gives the file that a path leads to a content, in a directory that is there. A path that
ends in a slash names no file. -/
def writeBytes (d : Disk) (path : String) (content : ByteArray) : Except Fault Disk :=
  let bare := withoutSlashes path.toList
  if bare = path.toList then
    match d.locate path.toList with
    | .error fault => .error fault
    | .ok place =>
      match d.at? place with
      | some (.dir _) => .error .isADirectory
      | _ => .ok (d.put place (.file content))
  else
    match d.locate bare with
    | .error fault => if bare = [] then .error .isADirectory else .error fault
    | .ok _ => .error .isADirectory

/-- Takes away what a path leads to, with everything below it. -/
def remove (d : Disk) (path : String) : Disk :=
  match d.locate path.toList with
  | .error _ => d
  | .ok place => { d with root := d.root.remove place }

end Disk
end AnnotatedSql
