import AnnotatedSql.Text
/-!
# Paths

A path is kept as the text it was given as, because messages and reports show that text. Its
pieces stand between slashes; for taking a path apart, empty pieces and those that only say
"here" do not count, except that a path may start with one of the latter.
-/

namespace AnnotatedSql.Path

/-- The path of a name below another path. No slash comes after an empty path or after a slash. -/
def join (base name : String) : String :=
  match base.toList.getLast? with
  | none | some '/' => base ++ name
  | some _ => base ++ "/" ++ name

/-- Whether a path starts from the root of the disk. -/
def isRooted (path : List Char) : Bool :=
  path.head? == some '/'

/-- What stands between the slashes of a path. -/
def pieces (path : List Char) : List (List Char) :=
  path.splitOn '/'

/-! ## The path above -/

/-- The ends of the pieces that count: for each, the path up to there. -/
def ends (path : List Char) : List (List Char) :=
  let ps := pieces path
  (List.range ps.length).filterMap fun i =>
    let upTo := (ps.take (i + 1))
    let piece := ps.getD i []
    if piece = [] ∨ (piece = ['.'] ∧ i ≠ 0) then none else some (['/'].intercalate upTo)

/-- The paths above a path from the nearest to the farthest: each is what is left of the one
before it without its last piece. The path above a single name is empty, and nothing is above
the root or an empty path. -/
def parents (path : String) : List String :=
  match (ends path.toList).reverse with
  | [] => []
  | _ :: above => above.map String.ofList ++ [if isRooted path.toList then "/" else ""]

/-- The path right above a path. -/
def parent? (path : String) : Option String :=
  (parents path).head?

/-! ## File names -/

/-- A file name cut at its last dot into stem and extension. A dot that comes first in the name
does not start an extension. -/
def splitName? (name : List Char) : Option (List Char × List Char) :=
  match (name.reverse.dropWhile (· ≠ '.')).tail.reverse with
  | [] => none
  | stem => some (stem, (name.reverse.takeWhile (· ≠ '.')).reverse)

/-- The stem of a file name with a given extension. -/
def stem? (extension name : String) : Option String :=
  match splitName? name.toList with
  | some (stem, ext) => if ext = extension.toList then some (String.ofList stem) else none
  | none => none

end AnnotatedSql.Path
