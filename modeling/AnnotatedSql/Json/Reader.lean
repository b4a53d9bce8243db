/-!
# Readers

A reader takes something from the front of a text and gives the rest, which is always shorter.
-/

namespace AnnotatedSql.Json

/-- Why a text is not a JSON value. -/
inductive Fault
  /-- The text ends in the middle of a value. -/
  | endOfText
  | malformed
  deriving DecidableEq, Repr

def Fault.message : Fault → String
  | .endOfText => "unexpected end of text"
  | .malformed => "malformed JSON"

/-- What was read from the front of a text, and the rest. -/
structure Front (α : Type) (text : List Char) where
  value : α
  rest : List Char
  shorter : rest.length < text.length

/-- A function that reads something from the front of a text. -/
abbrev Reader (α : Type) := (text : List Char) → Except Fault (Front α text)

/-- What is left behind a first character is shorter. -/
theorem length_rest_lt (c : Char) (rest : List Char) : rest.length < (c :: rest).length :=
  Nat.lt_succ_self rest.length

namespace Front

variable {α β : Type} {text : List Char}

/-- The same front with another value. -/
def map (f : α → β) (a : Front α text) : Front β text :=
  ⟨f a.value, a.rest, a.shorter⟩

/-- What was read behind a first front. -/
def later (a : Front α text) (b : Front β a.rest) : Front β text :=
  ⟨b.value, b.rest, Nat.lt_trans b.shorter a.shorter⟩

/-- A front that is read after a character. -/
def after (c : Char) (a : Front α text) : Front α (c :: text) :=
  ⟨a.value, a.rest, Nat.lt_succ_of_lt a.shorter⟩

/-- The front of a longer text that was read from a part of it. -/
def widen {part : List Char} (h : part.length < text.length) (a : Front α part) : Front α text :=
  ⟨a.value, a.rest, Nat.lt_trans a.shorter h⟩

/-- Reads on behind a front if a mark comes next. -/
def also (a : Front α text) (isMark : Char → Bool) (read : Reader β) :
    Except Fault (Front (α × Option β) text) :=
  match h : a.rest with
  | [] => .ok (a.map (·, none))
  | c :: rest =>
    if isMark c then do
      let b ← read rest
      return ⟨(a.value, some b.value), b.rest, by
        have := a.shorter; have := b.shorter; simp [h] at *; omega⟩
    else .ok (a.map (·, none))

end Front

/-- The blanks that may stand between the parts of a value. -/
def isBlank (c : Char) : Bool :=
  c == ' ' || c == '\n' || c == '\t' || c == '\r'

/-- A text without the blanks it starts with. -/
def skipBlanks (text : List Char) : List Char :=
  text.dropWhile isBlank

theorem length_skipBlanks_le (text : List Char) : (skipBlanks text).length ≤ text.length :=
  (List.dropWhile_suffix isBlank).length_le

theorem length_rest_lt_of_skipBlanks {text : List Char} {c : Char} {rest : List Char}
    (h : skipBlanks text = c :: rest) : rest.length < text.length :=
  Nat.lt_of_lt_of_le (h ▸ length_rest_lt c rest) (length_skipBlanks_le text)

/-- Reads behind the blanks that a text starts with. -/
def behindBlanks {α : Type} (read : Reader α) : Reader α := fun text => do
  let a ← read (skipBlanks text)
  return ⟨a.value, a.rest, Nat.lt_of_lt_of_le a.shorter (length_skipBlanks_le text)⟩

/-- One given character. -/
def char (expected : Char) : Reader Unit := fun text =>
  match text with
  | [] => .error .endOfText
  | c :: rest => if c = expected then .ok ⟨(), rest, length_rest_lt c rest⟩ else .error .malformed

/-- A run of decimal digits, of which there has to be at least one. -/
def digits : Reader (List Char) := fun text =>
  match text with
  | [] => .error .endOfText
  | c :: cs =>
    if c.isDigit then
      .ok ⟨c :: cs.takeWhile Char.isDigit, cs.dropWhile Char.isDigit,
        Nat.lt_succ_of_le (List.dropWhile_suffix Char.isDigit).length_le⟩
    else .error .malformed

end AnnotatedSql.Json
