import AnnotatedSql.Mode
import AnnotatedSql.Procedure
import AnnotatedSql.Template
/-!
# Generated modules

A batch of procedures is written three times: as a CommonJS module, as an ES module and as type
declarations. Each file is a preamble followed by one text for each procedure, made by filling a
template. The package that re-exports the client holds a shim for each of the three.
-/

namespace AnnotatedSql

open Template (hole braced)

/-- The kinds of generated module. -/
inductive ModuleKind
  | commonJs
  | esModule
  | declarations
  deriving DecidableEq, Repr

namespace ModuleKind

/-- Every kind, in the order in which files are written. -/
def all : List ModuleKind :=
  [commonJs, esModule, declarations]

/-- The name of the file that holds a module. -/
def fileName : ModuleKind → String
  | commonJs => "procedures.js"
  | esModule => "procedures.mjs"
  | declarations => "procedures.d.ts"

/-- The first line of a module: what its procedures use. -/
def preamble : ModuleKind → Mode → String
  | commonJs, .execute =>
    "const" ++ braced "PrismaClient" ++ "=require(\"./index.js\");const prisma=new PrismaClient();"
  | esModule, .execute =>
    "import" ++ braced "PrismaClient" ++ "from\"./index.js\";const prisma=new PrismaClient();"
  | commonJs, .compose => "const" ++ braced "Prisma" ++ "=require(\"./index.js\");"
  | esModule, .compose => "import" ++ braced "Prisma" ++ "from\"./index.js\";"
  | declarations, _ => "import * as runtime from \"@prisma/client/runtime/library\";"

/-- The expression that a template literal is handed to. -/
def call : Mode → String
  | .execute => "await prisma.$executeRaw"
  | .compose => "Prisma.sql"

/-- The parameter list and the body of a function: the bindings, then the tagged literal. -/
def functionTail (mode : Mode) : String :=
  "(" ++ hole "args" ++ ")" ++ braced (hole "init" ++ "return " ++ call mode ++ hole "code" ++ ";")

/-- The text of one procedure with its variable parts left open. -/
def template : ModuleKind → Mode → String
  | commonJs, mode => "exports." ++ hole "name" ++ "=async function" ++ functionTail mode
  | esModule, mode => "export async function " ++ hole "name" ++ functionTail mode
  | declarations, _ =>
    "/**" ++ hole "docs" ++ "\n */\nexport const " ++ hole "name"
      ++ ": (" ++ hole "params" ++ ") => " ++ hole "returns" ++ ";"

/-- The type that a procedure returns. -/
def returnType : Mode → String
  | .execute => "runtime.PrismaPromise<number>"
  | .compose => "Promise<runtime.Sql>"

/-- The variable parts of the text of one procedure. -/
def values (kind : ModuleKind) (mode : Mode) (p : Procedure) : List (String × String) :=
  match kind with
  | commonJs | esModule =>
    [("name", p.name), ("args", p.signature.formals), ("init", p.signature.initializer),
     ("code", p.code)]
  | declarations =>
    [("docs", p.signature.documentation), ("name", p.name), ("params", p.signature.typed),
     ("returns", returnType mode)]

/-- The text of one procedure. -/
def render (kind : ModuleKind) (mode : Mode) (p : Procedure) : String :=
  Template.render (kind.template mode) (kind.values mode p)

/-- The text of a whole module. -/
def file (kind : ModuleKind) (mode : Mode) (procedures : List Procedure) : String :=
  kind.preamble mode ++ "\n" ++ "\n".intercalate (procedures.map (kind.render mode))

/-- The file that re-exports a module from the package's own directory. -/
def shim : ModuleKind → String
  | commonJs =>
    "\"use strict\";module.exports=" ++ braced "...require(\".prisma/client/procedures\")" ++ ";"
  | esModule => "export*from\"../../.prisma/client/procedures.mjs\";"
  | declarations => "export*from\".prisma/client/procedures\";"

end ModuleKind
end AnnotatedSql
