import AnnotatedSql.Signature
import AnnotatedSql.Statement
/-!
# Procedures

A procedure is a statement with the signature that its parameters give it.
-/

namespace AnnotatedSql

/-- A statement and the signature of the function generated for it. -/
structure Procedure where
  statement : Statement
  signature : Signature
  deriving DecidableEq, Repr

namespace Procedure

/-- The procedure of a statement. -/
def ofStatement (s : Statement) : Procedure :=
  { statement := s, signature := .ofParameters s.parameters }

def name (p : Procedure) : String :=
  p.statement.name

/-- The body as a template literal. -/
def code (p : Procedure) : String :=
  p.statement.code

end Procedure
end AnnotatedSql
