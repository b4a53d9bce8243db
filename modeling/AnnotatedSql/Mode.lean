/-!
# What a generated procedure does

A procedure either runs its statement or hands it out for use inside another one.
-/

namespace AnnotatedSql

/-- What a procedure does when it is called. -/
inductive Mode
  /-- Runs the statement and gives the number of affected rows. -/
  | execute
  /-- Gives the statement as a fragment, without running it. -/
  | compose
  deriving DecidableEq, Repr

namespace Mode

/-- The name of a mode, as configuration files and reports write it. -/
def name : Mode → String
  | execute => "execute"
  | compose => "compose"

/-- The mode with exactly this name. -/
def ofName? (text : String) : Option Mode :=
  [execute, compose].find? fun mode => mode.name == text

/-- The mode that a command line asks for: its name or a short form, in any case. The words have
no letter that anything but its own capital is folded to, so folding ASCII letters is enough. -/
def ofWord? (text : String) : Option Mode :=
  let word := text.toList.map Char.toLower
  if word = "execute".toList ∨ word = "exec".toList then some execute
  else if word = "compose".toList ∨ word = "sql".toList then some compose
  else none

/-- The message about a word that names no mode. -/
def unknownMessage (text : String) : String :=
  s!"unknown mode '{text}', expected 'execute' or 'compose'"

end Mode
end AnnotatedSql
