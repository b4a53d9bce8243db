import AnnotatedSql.Batch
import AnnotatedSql.Collect
import AnnotatedSql.CommandLine.Command
import AnnotatedSql.Config.Load
import AnnotatedSql.Output.Run
/-!
# Running commands

A command is run on a disk. Checking and dry runs only look at it; a generation writes to it
after everything else has succeeded.
-/

namespace AnnotatedSql.CommandLine

/-- What a program leaves behind. -/
structure Ended where
  disk : Disk
  exitCode : Nat
  stdout : String
  stderr : String

/-- Why a command failed. -/
inductive Failure
  | config (error : ConfigError)
  | source (error : SourceError)
  | step (failure : StepFailure)
  | output (error : RunError)
  deriving DecidableEq, Repr

/-- What a failure comes from, from the outermost cause to the innermost. -/
def Failure.causes : Failure → List String
  | config (.unreadable _ cause) => [cause.message]
  | config (.mismatch _ problem _) => [problem.message]
  | source (.unreadable _ cause) => [cause.message]
  | step (.source (.unreadable _ cause)) => [cause.message]
  | output (.write e) => [e.message, e.cause.message]
  | output (.manifest e) => e.message :: e.causes
  | _ => []

/-- What the reader can do about a failure. -/
def Failure.help? : Failure → Option String
  | config error => error.help?
  | source error => error.help?
  | step (.source error) => error.help?
  | _ => none

def Failure.message : Failure → String
  | config error => error.message
  | source error => error.message
  | step failure => failure.message
  | output _ => RunError.message

/-- A failure as it is reported. -/
def Failure.report (f : Failure) : List String :=
  ("error: " ++ f.message) :: f.causes.map ("  caused by: " ++ ·)
    ++ (f.help?.map ("  help: " ++ ·)).toList

/-- Lines, each with its end. -/
def lines (texts : List String) : String :=
  String.join (texts.map (· ++ "\n"))

/-! ## Finding out what to do -/

/-- The configuration of a file that has to be there, or the one of the project. -/
def loadConfig (d : Disk) (path : Option String) : Except Failure Config :=
  let loaded := match path with
    | some path => Config.load d path
    | none => Config.loadOrStandard d Config.fileName
  match loaded with
  | .error e => .error (.config e)
  | .ok l => .ok l.config

/-- A configuration in which the options count first. -/
def override (o : Options) (c : Config) : Config where
  input := o.input.getD c.input
  mode := o.mode.getD c.mode
  layout :=
    { client := o.clientDir.getD c.layout.client
      package := o.packageDir.getD c.layout.package
      exportPath := c.layout.exportPath }

/-- Compiles the sources of a directory. -/
def compileIn (d : Disk) (input : String) : Except Failure Batch :=
  match Collect.sources d input with
  | .error e => .error (.source e)
  | .ok sources =>
    match compile [] [] sources with
    | .error f => .error (.step f)
    | .ok batch => .ok batch

/-- The configuration that a command works with, and its compiled sources. -/
def prepare (d : Disk) (o : Options) : Except Failure (Config × Batch) :=
  match loadConfig d o.config with
  | .error f => .error f
  | .ok config =>
    let config := override o config
    match compileIn d config.input with
    | .error f => .error f
    | .ok batch => .ok (config, batch)

/-! ## Reporting -/

/-- Warnings and errors as they are shown beside the output, each with the file it is about. -/
def notices (b : Batch) : List String :=
  b.diagnostics.flatMap fun d =>
    match d.severity with
    | .info => []
    | _ =>
      (d.severity.name ++ ": " ++ d.message) :: (d.location.map ("  --> " ++ ·)).toList

/-- Remarks as they are shown in the output. -/
def remarks (b : Batch) : List String :=
  b.diagnostics.filterMap fun d =>
    if d.severity = .info then some (d.severity.name ++ ": " ++ d.message) else none

/-- A number of procedures. -/
def countText (procedures : List Procedure) : String :=
  let n := procedures.length
  n.repr ++ " procedure" ++ (if n = 1 then "" else "s")

/-- The output of a check. -/
def checkText (c : Config) (b : Batch) : List String :=
  (if b.warningCount = 0 then [] else [""])
    ++ ["✓ " ++ countText b.procedures ++ " in " ++ c.input, ""]
    ++ b.procedures.map fun p => "    " ++ p.name ++ "(" ++ p.signature.typed ++ ")"

/-- The output of a dry run. -/
def previewText (files : List PlannedFile) (l : Layout) : List String :=
  (files.flatMap fun f => ["── " ++ f.path ++ " ──", f.content])
    ++ ["── Summary ──", files.length.repr ++ " files would be generated",
      "exports '" ++ l.exportPath ++ "' would be registered in existing package.json files"]

/-- The output of a generation. -/
def summaryText (g : Generation) (s : Summary) : List String :=
  [countText g.procedures ++ " (" ++ g.mode.name ++ " mode)"]
    ++ g.procedures.map ("  " ++ ·.name)
    ++ ["", "Generated: " ++ s.fileCount.repr ++ " file(s)"]
    ++ s.written.map ("  + " ++ ·)
    ++ (if s.unchanged = [] then [] else ["  (" ++ s.unchanged.length.repr ++ " unchanged)"])
    ++ (if s.registered = [] then []
        else ["", "Registered exports:"] ++ s.registered.map ("  " ++ ·))
    ++ (if s.skipped = [] then []
        else ["", "Skipped package manifests:"] ++ s.skipped.map ("  - " ++ ·))

/-! ## Commands -/

/-- A command that failed before there was a batch. -/
def failed (d : Disk) (f : Failure) : Ended :=
  { disk := d, exitCode := 1, stdout := "", stderr := lines f.report }

/-- A command that showed the diagnostics of a batch, and then its own output and errors. -/
def reported (d : Disk) (b : Batch) (exitCode : Nat) (output errors : List String) : Ended :=
  { disk := d, exitCode, stdout := lines (remarks b ++ output), stderr := lines (notices b ++ errors) }

/-- Compiles everything and reports on it. Errors among what is reported are a failure. -/
def check (d : Disk) (o : Options) : Ended :=
  match prepare d o with
  | .error f => failed d f
  | .ok (config, batch) =>
    if batch.errorCount = 0 then reported d batch 0 (checkText config batch) []
    else reported d batch 1 [] []

/-- Compiles everything, and writes what is generated from it or only shows it. -/
def generate (d : Disk) (o : Options) : Ended :=
  match prepare d o with
  | .error f => failed d f
  | .ok (config, batch) =>
    let g : Generation := ⟨batch.procedures, config.mode⟩
    if o.dryRun then reported d batch 0 (previewText (g.files config.layout) config.layout) []
    else
      match g.run config.layout d with
      | (d, .error e) => reported d batch 1 [] (Failure.output e).report
      | (d, .ok summary) => reported d batch 0 (summaryText g summary) []

/-- Runs a command. A script with completions is not part of its output. -/
def Command.run (d : Disk) : Command → Ended
  | .generate o => CommandLine.generate d o
  | .check o => CommandLine.check d o
  | .completions _ => { disk := d, exitCode := 0, stdout := "", stderr := "" }

/-- The name and the version of the program. -/
def versionText : String := "sqlproc 0.3.0"

/-- What the program can do. -/
def usageText : List String :=
  ["Usage: sqlproc [--verbose] <command> [options]",
   "",
   "  generate     --config, --input, --mode, --client-dir, --package-dir, --dry-run",
   "  check        --config, --input",
   "  completions  bash, elvish, fish, powershell or zsh",
   "  help         [command]"]

/-- Runs the program on a disk with the arguments behind its name. -/
def run (d : Disk) (args : List String) : Ended :=
  match parse args with
  | .ok command => command.run d
  | .error .help => { disk := d, exitCode := 0, stdout := lines usageText, stderr := "" }
  | .error .version => { disk := d, exitCode := 0, stdout := lines [versionText], stderr := "" }
  | .error (.usage e) =>
    { disk := d, exitCode := 2, stdout := "", stderr := lines ["error: " ++ e.message] }

end AnnotatedSql.CommandLine
