import AnnotatedSql.Lint
import AnnotatedSql.Procedure
import AnnotatedSql.Source.Error
/-!
# Batches

A batch holds what is known about a set of sources while they are compiled. A step looks at a
batch, changes it and may fail; when it fails, what it has changed by then stays. Diagnostics are
only ever added.
-/

namespace AnnotatedSql

/-- Why a step failed. -/
inductive StepFailure
  | source (error : SourceError)
  /-- There are diagnostics that are errors. -/
  | lint (errors : Nat)
  /-- A step that is not built in gave a reason of its own. -/
  | custom (message : String)
  deriving DecidableEq, Repr

def StepFailure.message : StepFailure → String
  | .source error => error.message
  | .lint errors => "Lint failed with " ++ errors.repr ++ " error(s)"
  | .custom message => message

/-- The state of a compilation. -/
structure Batch where
  inputs : List SourceText
  /-- The sources that have been read and not yet turned into procedures. -/
  statements : List Statement
  procedures : List Procedure
  diagnostics : List Diagnostic
  deriving DecidableEq, Repr

/-- A step of a compilation: the batch it leaves, and its failure if it fails. -/
abbrev Step := Batch → Batch × Option StepFailure

namespace Batch

/-- The batch with which the compilation of some sources starts. -/
def ofInputs (inputs : List SourceText) : Batch :=
  { inputs, statements := [], procedures := [], diagnostics := [] }

def errorCount (b : Batch) : Nat :=
  b.diagnostics.countP (·.isError)

def warningCount (b : Batch) : Nat :=
  b.diagnostics.countP (·.isWarning)

/-- Adds diagnostics behind those that are there. -/
def report (b : Batch) (diagnostics : List Diagnostic) : Batch :=
  { b with diagnostics := b.diagnostics ++ diagnostics }

/-- Takes the procedures out of a batch. -/
def takeProcedures (b : Batch) : List Procedure × Batch :=
  (b.procedures, { b with procedures := [] })

/-- The names among the inputs that cannot be used, each with the reason. -/
def rejected (inputs : List SourceText) : List (String × Identifier.Fault) :=
  inputs.filterMap fun input => (Identifier.fault? input.name).map fun reason => (input.name, reason)

/-- Reads every source; the first that holds a mistake decides. -/
def readAll : List SourceText → Except SourceError (List Statement)
  | [] => .ok []
  | input :: inputs =>
    match Statement.ofSource input with
    | .error mistake => .error (.mistake input.file mistake)
    | .ok s => (readAll inputs).map (s :: ·)

/-! ## Steps -/

/-- Fails if any name cannot be used, and names them all. -/
def checkNames : Step := fun b =>
  match rejected b.inputs with
  | [] => (b, none)
  | names => (b, some (.source (.rejectedNames names)))

/-- Replaces the statements by those of the inputs. -/
def parse : Step := fun b =>
  match readAll b.inputs with
  | .error error => (b, some (.source error))
  | .ok statements => ({ b with statements }, none)

/-- Adds what the lints say about each statement, and fails if any diagnostic of the batch is an
error. -/
def lint (lints : List Lint) : Step := fun b =>
  let linted := b.report (b.statements.flatMap fun s => lints.flatMap (·.check s))
  (linted, if linted.errorCount = 0 then none else some (.lint linted.errorCount))

/-- Turns the statements into procedures. -/
def finish : Step := fun b =>
  ({ b with statements := [], procedures := b.statements.map .ofStatement }, none)

/-- Runs steps one after another up to the first that fails. -/
def runSteps : List Step → Step
  | [], b => (b, none)
  | step :: steps, b =>
    match step b with
    | (b, none) => runSteps steps b
    | (b, some failure) => (b, some failure)

end Batch

/-- Compiles sources: names first, then mistakes, then the built-in lints and those given, then
the steps given. Gives the finished batch or the first failure. -/
def compile (lints : List Lint) (steps : List Step) (inputs : List SourceText) :
    Except StepFailure Batch :=
  let all := [Batch.checkNames, Batch.parse, Batch.lint (Lint.builtin ++ lints), Batch.finish] ++ steps
  match Batch.runSteps all (.ofInputs inputs) with
  | (b, none) => .ok b
  | (_, some failure) => .error failure

end AnnotatedSql
