import AnnotatedSql.Diagnostic
import AnnotatedSql.Statement
/-!
# Lints

A lint looks at one statement and gives diagnostics. The built-in ones only warn.
-/

namespace AnnotatedSql

/-- A check of single statements. -/
structure Lint where
  name : String
  summary : String
  check : Statement → List Diagnostic

namespace Lint

/-- A warning of a lint about a statement. -/
def warning (s : Statement) (message : String) : Diagnostic :=
  { severity := .warning, phase := "lint", message, location := some s.file }

/-! ## Positions declared more than once -/

/-- Warns of each position that is declared again; the last declaration counts. -/
def duplicatePosition : Lint where
  name := "duplicate-position"
  summary := "Detect positional keys declared more than once"
  check s := s.repeated.map fun n => warning s <|
    "parameter " ++ Position.key n ++ " of '" ++ s.name
      ++ "' is declared more than once, the last declaration wins"

/-! ## Positions that are skipped -/

/-- The positions up to the highest one that have no declaration. -/
def skippedPositions (parameters : Parameters) : List Nat :=
  (List.range' 1 parameters.maxPosition).filter fun n => !parameters.any (·.position == n)

/-- Warns once of all positions that are skipped. -/
def positionGap : Lint where
  name := "position-gap"
  summary := "Detect positions that are skipped in the parameter header"
  check s :=
    match skippedPositions s.parameters with
    | [] => []
    | skipped =>
      [warning s <| "'" ++ s.name ++ "' never declares "
        ++ ", ".intercalate (skipped.map Position.key) ++ ", the argument will be untyped"]

/-! ## Aliases that several parameters share -/

/-- The lowest position that is declared with an alias. -/
def owner? (parameters : Parameters) (aliasName : String) : Option Nat :=
  ((parameters.filter (·.aliasName == some aliasName)).map (·.position)).min?

/-- The declarations that do not own the alias they carry, with that alias and its owner. -/
def shadowed (parameters : Parameters) : List (Declaration × String × Nat) :=
  parameters.filterMap fun d => do
    let aliasName ← d.aliasName
    let owner ← owner? parameters aliasName
    if owner = d.position then none else some (d, aliasName, owner)

/-- Warns of each declaration whose alias belongs to a lower position. -/
def duplicateAlias : Lint where
  name := "duplicate-alias"
  summary := "Detect aliases shared by several parameters"
  check s := (shadowed s.parameters).map fun (d, aliasName, owner) => warning s <|
    "alias '" ++ aliasName ++ "' of " ++ Position.key d.position ++ " is already used by "
      ++ Position.key owner ++ ", ':" ++ aliasName ++ "' refers to " ++ Position.key owner

/-! ## Sources without a statement -/

/-- Warns of a source that ends with its header. -/
def emptyBody : Lint where
  name := "empty-body"
  summary := "Detect sources with no SQL after the header"
  check s := if s.hasBody then [] else [warning s ("'" ++ s.name ++ "' has no SQL statement")]

/-- The built-in lints, in the order in which they run. -/
def builtin : List Lint :=
  [duplicatePosition, positionGap, duplicateAlias, emptyBody]

end Lint
end AnnotatedSql
