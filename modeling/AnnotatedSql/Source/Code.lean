import AnnotatedSql.Source.Mistake
import AnnotatedSql.Source.Placeholder
/-!
# From a body to a template literal

Each placeholder becomes a substitution of the value it refers to, and all other text is copied.
Numbered placeholders are judged before named ones, each kind in the order of the body.
-/

namespace AnnotatedSql

/-- What a placeholder refers to. -/
inductive Target
  /-- The argument of a position. -/
  | argument (n : Nat)
  /-- The local binding of an alias. -/
  | binding (aliasName : List Char)
  deriving DecidableEq, Repr

namespace Target

/-- The name a generated function knows a target by. -/
def name : Target → List Char
  | argument n => '$' :: Nat.toDigits 10 n
  | binding aliasName => '$' :: aliasName

/-- The substitution that reads a target inside a template literal. -/
def substitution (t : Target) : List Char :=
  ['$', '{'] ++ t.name ++ ['}']

end Target

namespace Placeholder

/-- The place among the declarations that the digits behind a dollar sign count to. They count from
one, and digits too long for a word of 64 bits count to none. -/
def index? (digits : List Char) : Option Nat :=
  (Text.decimal64? digits).bind fun n => if n = 0 then none else some (n - 1)

/-- The argument for a place among the declarations, which has to be in range. -/
def argument? (parameters : Parameters) (index : Option Nat) : Option Target :=
  (index.filter (· < parameters.length)).map fun i => .argument (i + 1)

/-- What a placeholder refers to, if it refers to anything. A position is in range up to the
number of declared parameters. A question mark counts the declarations in front of the first one
with an alias, and refers to the argument after as many. -/
def target? (parameters : Parameters) : Placeholder → Option Target
  | position digits => argument? parameters (index? digits)
  | question => argument? parameters (parameters.findIdx? (·.aliasName.isSome))
  | name word =>
    if parameters.any (·.aliasName == some (String.ofList word)) then some (.binding word) else none

/-- What is wrong with a placeholder that refers to nothing. -/
def fault : Placeholder → Fault
  | position digits => .unknownPosition (String.ofList digits)
  | question => .unboundQuestion
  | name word => .unknownName (String.ofList word)

end Placeholder

namespace Code

/-- The first placeholder of a kind that refers to nothing, where `start` is the byte of the
source at which the pieces start. -/
def findMistake (parameters : Parameters) (kind : Placeholder → Bool) (start : Nat)
    (pieces : List Piece) : Option Mistake :=
  ((occurrences start pieces).find? fun o =>
    kind o.placeholder && (o.placeholder.target? parameters).isNone).map
    fun o => ⟨o.placeholder.fault, o.span⟩

/-- What a piece of the body becomes. -/
def ofPiece (parameters : Parameters) : Piece → List Char
  | .literal c => [c]
  | .hole p => ((p.target? parameters).map Target.substitution).getD []

/-- The mark that opens and closes a template literal. -/
def backtick : Char := '\x60'

/-- A text with a backslash in front of its first backtick. -/
def escapeFirst : List Char → List Char
  | [] => []
  | c :: cs => if c = backtick then '\\' :: c :: cs else c :: escapeFirst cs

/-- The template literal of a body that starts at byte `start` of its source. -/
def ofBody (parameters : Parameters) (start : Nat) (body : List Char) :
    Except Mistake (List Char) :=
  let pieces := scan body
  match findMistake parameters (!·.isName) start pieces with
  | some mistake => .error mistake
  | none =>
    match findMistake parameters Placeholder.isName start pieces with
    | some mistake => .error mistake
    | none =>
      .ok (backtick :: escapeFirst (pieces.flatMap (ofPiece parameters)) ++ [backtick])

end Code
end AnnotatedSql
