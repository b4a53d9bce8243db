import AnnotatedSql.Json.Reader
import AnnotatedSql.Text
/-!
# Reading JSON strings

Surrogates have to come in pairs, and control characters have to be escaped.
-/

namespace AnnotatedSql.Json

open Text (hexValue?)

/-- The number that four hexadecimal digits write. -/
def hexNumber? (a b c d : Char) : Option Nat := do
  let a ← hexValue? a
  let b ← hexValue? b
  let c ← hexValue? c
  let d ← hexValue? d
  return ((a * 16 + b) * 16 + c) * 16 + d

/-- Four hexadecimal digits. A text of less than four bytes ends too early; otherwise the first
four bytes have to be digits. -/
def hexUnit : Reader Nat := fun text =>
  match text with
  | a :: b :: c :: d :: rest =>
    match hexNumber? a b c d with
    | some n => .ok ⟨n, rest, by simp; omega⟩
    | none => .error .malformed
  | text => .error (if Text.byteLength text < 4 then .endOfText else .malformed)

def isHighSurrogate (n : Nat) : Bool :=
  0xD800 ≤ n && n ≤ 0xDBFF

def isLowSurrogate (n : Nat) : Bool :=
  0xDC00 ≤ n && n ≤ 0xDFFF

/-- The character that two surrogates stand for. -/
def pair (high low : Nat) : Char :=
  Char.ofNat ((high - 0xD800) * 0x400 + (low - 0xDC00) + 0x10000)

/-- The low half of a pair, with the backslash and the letter in front of it. -/
def lowSurrogate : Reader Nat := fun text => do
  let backslash ← char '\\' text
  let letter ← char 'u' backslash.rest
  let low ← hexUnit letter.rest
  if isLowSurrogate low.value then return backslash.later (letter.later low)
  else .error .malformed

/-- A character given by its code, or by the two halves of a pair. -/
def codedChar : Reader Char := fun text => do
  let unit ← hexUnit text
  if isLowSurrogate unit.value then .error .malformed
  else if isHighSurrogate unit.value then
    let low ← lowSurrogate unit.rest
    return (unit.later low).map (pair unit.value)
  else return unit.map Char.ofNat

/-- The character that a letter behind a backslash stands for. -/
def letterEscape? : Char → Option Char
  | '"' => some '"'
  | '\\' => some '\\'
  | '/' => some '/'
  | 'b' => some '\x08'
  | 'f' => some '\x0c'
  | 'n' => some '\n'
  | 'r' => some '\r'
  | 't' => some '\t'
  | _ => none

/-- What follows a backslash in a string. -/
def escape : Reader Char := fun text =>
  match text with
  | [] => .error .endOfText
  | c :: rest =>
    if c = 'u' then (codedChar rest).map (·.after c)
    else
      match letterEscape? c with
      | none => .error .malformed
      | some meant => .ok ⟨meant, rest, length_rest_lt c rest⟩

/-- The rest of a string behind its opening quote or behind one of its characters. -/
def stringRest (text : List Char) : Except Fault (Front (List Char) text) :=
  match text with
  | [] => .error .endOfText
  | c :: rest =>
    if c = '"' then .ok ⟨[], rest, length_rest_lt c rest⟩
    else if c = '\\' then do
      let meant ← escape rest
      have := meant.shorter
      let more ← stringRest meant.rest
      return ((meant.later more).map (meant.value :: ·)).after c
    else if c.toNat < 0x20 then .error .malformed
    else do
      let more ← stringRest rest
      return (more.map (c :: ·)).after c
termination_by text.length

/-- A string with its quotes. -/
def stringLiteral : Reader String := fun text => do
  let quote ← char '"' text
  let s ← stringRest quote.rest
  return (quote.later s).map String.ofList

end AnnotatedSql.Json
