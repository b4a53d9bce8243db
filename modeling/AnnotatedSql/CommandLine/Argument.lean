/-!
# Arguments of a command line

A command line is cut into items: options, their values, and words. What an option means is not
decided here, but whether it takes a value is, because that decides where the next item starts.
-/

namespace AnnotatedSql.CommandLine

/-- An option without a value. -/
inductive Switch
  | help
  | version
  | verbose
  | dryRun
  deriving DecidableEq, Repr

/-- An option with a value. -/
inductive Setting
  | config
  | input
  | mode
  | clientDir
  | packageDir
  deriving DecidableEq, Repr

def Switch.long : Switch → String
  | help => "help"
  | version => "version"
  | verbose => "verbose"
  | dryRun => "dry-run"

def Switch.short? : Switch → Option Char
  | help => some 'h'
  | version => some 'V'
  | verbose => some 'v'
  | dryRun => none

def Setting.long : Setting → String
  | config => "config"
  | input => "input"
  | mode => "mode"
  | clientDir => "client-dir"
  | packageDir => "package-dir"

def Setting.short? : Setting → Option Char
  | config => some 'c'
  | input => some 'i'
  | mode => some 'm'
  | clientDir => none
  | packageDir => none

/-- The options that a command knows. -/
structure Grammar where
  switches : List Switch
  settings : List Setting

/-- Why a command line is not understood. -/
inductive UsageError
  | unknownOption (text : String)
  | unexpectedValue (option : String)
  | missingValue (option : String)
  | repeated (option : String)
  /-- The value of an option is not one that it takes. -/
  | badValue (option reason : String)
  | unexpectedWord (text : String)
  | missingCommand
  | missingShell
  | unknownShell (name : String)
  deriving DecidableEq, Repr

def UsageError.message : UsageError → String
  | unknownOption text => "unexpected argument '" ++ text ++ "' found"
  | unexpectedValue option => "'--" ++ option ++ "' takes no value"
  | missingValue option => "'--" ++ option ++ "' needs a value"
  | repeated option => "'--" ++ option ++ "' cannot be used multiple times"
  | badValue option reason => "invalid value for '--" ++ option ++ "': " ++ reason
  | unexpectedWord text => "unexpected argument '" ++ text ++ "' found"
  | missingCommand => "a command is needed"
  | missingShell => "the name of a shell is needed"
  | unknownShell name => "unknown shell '" ++ name ++ "'"

/-- An item of a command line. -/
inductive Item
  | switch (s : Switch)
  | setting (s : Setting) (value : String)
  /-- A word, with the arguments behind it. -/
  | word (text : String) (rest : List String)
  /-- A word behind the mark that ends the options. -/
  | operand (text : String)
  /-- Something that is not understood; nothing follows it. -/
  | bad (error : UsageError)
  deriving DecidableEq, Repr

/-- What an argument that starts an option leaves to do. -/
inductive Pending
  | done (items : List Item)
  /-- An option waits for its value, which is the next argument. -/
  | waiting (items : List Item) (s : Setting)
  deriving DecidableEq, Repr

/-- Puts an item in front of what is read so far. -/
def Pending.cons (item : Item) : Pending → Pending
  | done items => done (item :: items)
  | waiting items s => waiting (item :: items) s

namespace Grammar

/-- An option written with its long name, behind the two dashes. A value may follow an equals
sign. -/
def readLong (g : Grammar) (text : List Char) : Pending :=
  let name := String.ofList (text.takeWhile (· != '='))
  let value := (text.dropWhile (· != '=')).tail?
  match g.switches.find? (·.long == name), g.settings.find? (·.long == name), value with
  | some s, _, none => .done [.switch s]
  | some _, _, some _ => .done [.bad (.unexpectedValue name)]
  | none, some s, some v => .done [.setting s (String.ofList v)]
  | none, some s, none => .waiting [] s
  | none, none, _ => .done [.bad (.unknownOption ("--" ++ name))]

/-- Options written with their letters, behind the dash. What follows the letter of an option
with a value is the value, and an equals sign between them is dropped. -/
def readShort (g : Grammar) : List Char → Pending
  | [] => .done []
  | c :: rest =>
    match g.switches.find? (·.short? == some c), g.settings.find? (·.short? == some c) with
    | some s, _ => (g.readShort rest).cons (.switch s)
    | none, some s =>
      match rest with
      | [] => .waiting [] s
      | '=' :: value => .done [.setting s (String.ofList value)]
      | value => .done [.setting s (String.ofList value)]
    | none, none => .done [.bad (.unknownOption (String.ofList ['-', c]))]

/-- Whether an argument starts with a dash and is more than a dash. -/
def isOption : List Char → Bool
  | '-' :: _ :: _ => true
  | _ => false

/-- The option that an argument starts; a single dash starts none. -/
def readOption (g : Grammar) : List Char → Pending
  | '-' :: '-' :: name => g.readLong name
  | '-' :: letters => g.readShort letters
  | _ => .done []

/-- The items of a command line. -/
def items (g : Grammar) : List String → List Item
  | [] => []
  | arg :: rest =>
    if arg = "--" then rest.map .operand
    else if isOption arg.toList then
      match g.readOption arg.toList, rest with
      | .done found, rest => found ++ g.items rest
      | .waiting found s, value :: rest =>
        if isOption value.toList then found ++ [.bad (.missingValue s.long)]
        else found ++ .setting s value :: g.items rest
      | .waiting found s, [] => found ++ [.bad (.missingValue s.long)]
    else .word arg rest :: g.items rest

end Grammar
end AnnotatedSql.CommandLine
