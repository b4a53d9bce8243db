import AnnotatedSql.Source.Code
import AnnotatedSql.Source.Header
/-!
# Statements

A statement is what is left of a source once its header is read and the placeholders of its body
are resolved.
-/

namespace AnnotatedSql

/-- The text of one procedure and where it comes from. -/
structure SourceText where
  /-- The name of the procedure. -/
  name : String
  /-- The name of the file, for messages. -/
  file : String
  content : String
  deriving DecidableEq, Repr

/-- A source that has been read. -/
structure Statement where
  name : String
  file : String
  parameters : Parameters
  /-- The positions that were declared more than once. -/
  repeated : List Nat
  /-- The body as a template literal. -/
  code : String
  /-- Whether anything follows the header. -/
  hasBody : Bool
  deriving DecidableEq, Repr

namespace Statement

/-- Reads a source. A mistake in the header comes before any in the body. -/
def ofSource (source : SourceText) : Except Mistake Statement :=
  match Header.read source.content.toList with
  | .error mistake => .error mistake
  | .ok header =>
    let parameters := Parameters.ofDeclarations header.declarations
    (Code.ofBody parameters header.bodyOffset header.body).map fun code =>
      { name := source.name
        file := source.file
        parameters
        repeated := repeatedNumbers (header.declarations.map (·.position))
        code := String.ofList code
        hasBody := header.body != [] }

/-- The highest declared position, or zero where nothing is declared. -/
def maxPosition (s : Statement) : Nat :=
  s.parameters.maxPosition

end Statement
end AnnotatedSql
