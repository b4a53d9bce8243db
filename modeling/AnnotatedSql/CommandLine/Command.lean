import AnnotatedSql.CommandLine.Argument
import AnnotatedSql.Mode
/-!
# Commands

The items of a command line are taken in order. Asking for help or for the version ends the
reading at once, and so does the first mistake.
-/

namespace AnnotatedSql.CommandLine

/-- A shell that completions can be made for. -/
inductive Shell
  | bash
  | elvish
  | fish
  | powershell
  | zsh
  deriving DecidableEq, Repr

namespace Shell

def name : Shell → String
  | bash => "bash"
  | elvish => "elvish"
  | fish => "fish"
  | powershell => "powershell"
  | zsh => "zsh"

/-- The shell with a name, which is case-sensitive. -/
def ofName? (text : String) : Option Shell :=
  [bash, elvish, fish, powershell, zsh].find? fun s => s.name == text

end Shell

/-- What options say; a setting that is not given is left to the configuration. -/
structure Options where
  verbose : Bool
  dryRun : Bool
  config : Option String
  input : Option String
  mode : Option Mode
  clientDir : Option String
  packageDir : Option String
  shell : Option Shell
  deriving DecidableEq, Repr

/-- Nothing given. -/
def Options.none : Options where
  verbose := false
  dryRun := false
  config := .none
  input := .none
  mode := .none
  clientDir := .none
  packageDir := .none
  shell := .none

/-- A command with its options. -/
inductive Command
  | generate (options : Options)
  | check (options : Options)
  | completions (shell : Shell)
  deriving DecidableEq, Repr

/-- Why no command is to be run. -/
inductive Stop
  | help
  | version
  | usage (error : UsageError)
  deriving DecidableEq, Repr

/-- The commands by name. -/
inductive CommandName
  | generate
  | check
  | completions
  deriving DecidableEq, Repr

namespace CommandName

def name : CommandName → String
  | generate => "generate"
  | check => "check"
  | completions => "completions"

def ofName? (text : String) : Option CommandName :=
  [generate, check, completions].find? fun c => c.name == text

/-- The options that a command knows. -/
def grammar : CommandName → Grammar
  | generate =>
    { switches := [.help, .verbose, .dryRun]
      settings := [.config, .input, .mode, .clientDir, .packageDir] }
  | check => { switches := [.help, .verbose], settings := [.config, .input] }
  | completions => { switches := [.help, .verbose], settings := [] }

end CommandName

namespace Options

/-- Sets a switch, once. -/
def takeSwitch (o : Options) : Switch → Except Stop Options
  | .help => .error .help
  | .version => .error .version
  | .verbose =>
    if o.verbose then .error (.usage (.repeated Switch.verbose.long))
    else .ok { o with verbose := true }
  | .dryRun =>
    if o.dryRun then .error (.usage (.repeated Switch.dryRun.long))
    else .ok { o with dryRun := true }

/-- A path given for a setting that has none yet. -/
def takePath (s : Setting) (old : Option String) (value : String) : Except Stop (Option String) :=
  if value = "" then .error (.usage (.badValue s.long "a path cannot be empty"))
  else if old.isSome then .error (.usage (.repeated s.long))
  else .ok value

/-- A mode given where there is none yet. -/
def takeMode (old : Option Mode) (value : String) : Except Stop (Option Mode) :=
  match Mode.ofWord? value with
  | .none => .error (.usage (.badValue Setting.mode.long (Mode.unknownMessage value)))
  | some mode =>
    if old.isSome then .error (.usage (.repeated Setting.mode.long)) else .ok (some mode)

/-- Sets a setting, once. -/
def takeSetting (o : Options) (value : String) : Setting → Except Stop Options
  | .config => (takePath .config o.config value).map fun v => { o with config := v }
  | .input => (takePath .input o.input value).map fun v => { o with input := v }
  | .mode => (takeMode o.mode value).map fun v => { o with mode := v }
  | .clientDir => (takePath .clientDir o.clientDir value).map fun v => { o with clientDir := v }
  | .packageDir => (takePath .packageDir o.packageDir value).map fun v => { o with packageDir := v }

/-- A word names a shell, and only completions have one. -/
def takeWord (o : Options) (command : CommandName) (text : String) : Except Stop Options :=
  if command = .completions ∧ o.shell.isNone then
    match Shell.ofName? text with
    | .none => .error (.usage (.unknownShell text))
    | some shell => .ok { o with shell := some shell }
  else .error (.usage (.unexpectedWord text))

/-- Takes the items behind the name of a command. -/
def takeAll (command : CommandName) (o : Options) : List Item → Except Stop Options
  | [] => .ok o
  | item :: items =>
    let taken := match item with
      | .switch s => o.takeSwitch s
      | .setting s value => o.takeSetting value s
      | .word text _ | .operand text => o.takeWord command text
      | .bad error => .error (.usage error)
    match taken with
    | .error stop => .error stop
    | .ok o => takeAll command o items

end Options

/-- The command of a name with the arguments behind it. -/
def CommandName.read (command : CommandName) (args : List String) : Except Stop Command :=
  match Options.takeAll command .none (command.grammar.items args) with
  | .error stop => .error stop
  | .ok options =>
    match command, options.shell with
    | .generate, _ => .ok (.generate options)
    | .check, _ => .ok (.check options)
    | .completions, some shell => .ok (.completions shell)
    | .completions, none => .error (.usage .missingShell)

/-- The word that asks for help on a command. -/
def helpWord : String := "help"

/-- Help is given on the program or on one command. -/
def readHelp : List String → Stop
  | [] => .help
  | [name] =>
    if name = helpWord ∨ (CommandName.ofName? name).isSome then .help
    else .usage (.unexpectedWord name)
  | _ :: name :: _ => .usage (.unexpectedWord name)

/-- The options in front of the name of a command. -/
def rootGrammar : Grammar where
  switches := [.help, .version, .verbose]
  settings := []

/-- Takes the items in front of the name of a command, and reads the command. -/
def readRoot (o : Options) : List Item → Except Stop Command
  | [] => .error (.usage .missingCommand)
  | .switch s :: items =>
    match o.takeSwitch s with
    | .error stop => .error stop
    | .ok o => readRoot o items
  | .word name args :: _ =>
    if name = helpWord then .error (readHelp args)
    else
      match CommandName.ofName? name with
      | none => .error (.usage (.unexpectedWord name))
      | some command => command.read args
  | .setting s _ :: _ => .error (.usage (.unknownOption s.long))
  | .operand text :: _ => .error (.usage (.unexpectedWord text))
  | .bad error :: _ => .error (.usage error)

/-- The command that a command line asks for. -/
def parse (args : List String) : Except Stop Command :=
  readRoot .none (rootGrammar.items args)

end AnnotatedSql.CommandLine
