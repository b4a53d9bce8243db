import AnnotatedSql.Source.Mistake
import AnnotatedSql.Source.ParamLine
/-!
# Headers

A source starts with its header: the longest run of lines that are blank or parameter lines.
What follows, without the blanks around it, is the body. `Header.read` gives both, or the first
mistake in the header.
-/

namespace AnnotatedSql

open Text (byteLength indent trim)

/-- What a line is, as far as a header is concerned. -/
inductive SourceLine
  | blank
  /-- A parameter line and the blanks in front of it. -/
  | param (margin : List Char) (line : ParamLine)
  | other
  deriving DecidableEq, Repr

/-- Classifies a line. -/
def SourceLine.read (line : List Char) : SourceLine :=
  match trim line with
  | [] => .blank
  | text =>
    match ParamLine.read? text with
    | some p => .param (indent line) p
    | none => .other

/-- Whether a line can stand in a header. -/
def SourceLine.isHeader (line : List Char) : Bool :=
  SourceLine.read line != .other

/-- The declaration that a parameter line makes, where `start` is the byte at which the line
starts. The type is judged first, then the position, then the alias. -/
def ParamLine.declaration (line : ParamLine) (start : Nat) : Except Mistake Declaration :=
  let mistakeAt (before part : List Char) (fault : Fault) : Mistake :=
    ⟨fault, ⟨start + byteLength before, byteLength part⟩⟩
  let tag := String.ofList line.tag
  match ScalarType.ofTag? tag with
  | none => .error (mistakeAt line.beforeTag line.tag (.unknownType tag))
  | some type =>
    match Position.ofDigits? line.digits with
    | none =>
      .error (mistakeAt line.beforeDollar line.key (.positionOutOfRange (String.ofList line.key)))
    | some position =>
      let declared : Declaration := {
        position
        type
        aliasName := line.aliasName.map String.ofList
        optional := line.optional
        description := if line.note = [] then none else some (String.ofList line.note) }
      match line.aliasName with
      | none => .ok declared
      | some word =>
        match Identifier.fault? (String.ofList word) with
        | none => .ok declared
        | some reason =>
          .error (mistakeAt line.beforeAlias word (.unusableAlias (String.ofList word) reason))

/-- A source taken apart. -/
structure Header where
  /-- The declarations in the order of their lines, repeated positions included. -/
  declarations : List Declaration
  body : List Char
  /-- The byte of the source at which the body starts. -/
  bodyOffset : Nat
  deriving DecidableEq, Repr

namespace Header

/-- The declarations of the parameter lines among `lines`, where `start` is the byte at which
the first line starts. -/
def declarationsFrom (start : Nat) : (lines : List (List Char)) → Except Mistake (List Declaration)
  | [] => .ok []
  | line :: lines =>
    let next := start + byteLength line + 1
    match SourceLine.read line with
    | .param margin p =>
      match p.declaration (start + byteLength margin) with
      | .error mistake => .error mistake
      | .ok d => (declarationsFrom next lines).map (d :: ·)
    | _ => declarationsFrom next lines

/-- The lines of a source. Only a line feed ends a line. -/
def linesOf (source : List Char) : List (List Char) :=
  source.splitOn '\n'

/-- The text of a source from the first line that is no header line. -/
def remainder (source : List Char) : List Char :=
  ['\n'].intercalate ((linesOf source).dropWhile SourceLine.isHeader)

/-- Reads the header of a source and finds its body. -/
def read (source : List Char) : Except Mistake Header :=
  let rest := remainder source
  (declarationsFrom 0 ((linesOf source).takeWhile SourceLine.isHeader)).map fun declarations =>
    { declarations
      body := trim rest
      bodyOffset := byteLength source - byteLength rest + byteLength (indent rest) }

end Header
end AnnotatedSql
