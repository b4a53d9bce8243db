import AnnotatedSql.Declaration
/-!
# Signatures of generated functions

A generated function takes one argument for each position from the first to the highest one
declared. Every module is rendered from the same signature, so they agree on number, order and
names of the arguments.
-/

namespace AnnotatedSql

/-- One argument of a generated function. -/
structure Argument where
  position : Nat
  /-- The name that callers see. -/
  exposed : String
  /-- The declared type; nothing for a position that was skipped. -/
  type : Option ScalarType
  optional : Bool
  description : Option String
  deriving DecidableEq, Repr

namespace Argument

/-- The formal argument in the generated function. -/
def formal (a : Argument) : String :=
  Position.key a.position

/-- The local name that the generated function binds the argument to. -/
def binding (a : Argument) : String :=
  "$" ++ a.exposed

/-- Whether the argument's position was declared. -/
def isDeclared (a : Argument) : Bool :=
  a.type.isSome

/-- The argument as a typed parameter of a declaration file. -/
def typed (a : Argument) : String :=
  a.exposed ++ ": " ++ clientType a.type a.optional

/-- The argument of a position that was skipped. -/
def skipped (n : Nat) : Argument :=
  { position := n, exposed := Position.key n, type := none, optional := false, description := none }

/-- The argument of a declared position, exposed under a given name. -/
def declared (n : Nat) (exposed : String) (d : Declaration) : Argument :=
  { position := n
    exposed
    type := some d.type
    optional := d.optional
    description := d.description }

end Argument

/-- The arguments of a generated function, in order of position. -/
abbrev Signature := List Argument

namespace Signature

/-- The arguments of the given positions, from lowest to highest. An alias goes to the first
position that has it; a later one with an alias from `taken` is exposed under its key. -/
def fill (parameters : Parameters) (taken : List String) : (positions : List Nat) → Signature
  | [] => []
  | n :: rest =>
    match parameters.at? n with
    | none => .skipped n :: fill parameters taken rest
    | some d =>
      match d.aliasName with
      | none => .declared n (Position.key n) d :: fill parameters taken rest
      | some aliasName =>
        if taken.contains aliasName then
          .declared n (Position.key n) d :: fill parameters taken rest
        else
          .declared n aliasName d :: fill parameters (aliasName :: taken) rest

/-- The signature for declared parameters. -/
def ofParameters (parameters : Parameters) : Signature :=
  fill parameters [] (List.range' 1 parameters.maxPosition)

/-- The positions below the highest that were skipped. -/
def gaps (s : Signature) : List Nat :=
  (s.filter (!·.isDeclared)).map (·.position)

/-- The formal arguments, as a generated function lists them. -/
def formals (s : Signature) : String :=
  ",".intercalate (s.map Argument.formal)

/-- The statement that binds every argument to its local name; empty if there is none to bind. -/
def initializer (s : Signature) : String :=
  if s.isEmpty then ""
  else "const[" ++ ",".intercalate (s.map Argument.binding) ++ "]=[" ++ s.formals ++ "];"

/-- The typed parameters of a declaration file. -/
def typed (s : Signature) : String :=
  ", ".intercalate (s.map Argument.typed)

/-- The documentation lines of a declaration file, each starting a new line. -/
def documentation (s : Signature) : String :=
  String.join <| s.map fun a =>
    match a.description with
    | some text => "\n * @param " ++ a.exposed ++ " " ++ text
    | none => "\n * @param " ++ a.exposed

end Signature
end AnnotatedSql
