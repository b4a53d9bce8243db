import AnnotatedSql.Text
/-!
# Placeholders in a body

`scan` cuts a body into placeholders and the characters between them. A placeholder is `$` with
the longest run of digits behind it, a question mark, or `:` with the longest word behind it;
the leftmost one wins. No character is lost: the pieces put together are the body
(`flatMap_text_scan`).
-/

namespace AnnotatedSql

open Text (isWord)

/-- A reference from the body to a parameter. -/
inductive Placeholder
  /-- A dollar sign and digits. -/
  | position (digits : List Char)
  /-- A question mark. -/
  | question
  /-- A colon and a word. -/
  | name (word : List Char)
  deriving DecidableEq, Repr

namespace Placeholder

/-- A placeholder as it stands in the body. -/
def text : Placeholder → List Char
  | position digits => '$' :: digits
  | question => ['?']
  | name word => ':' :: word

/-- Whether a placeholder refers to its parameter by name. -/
def isName : Placeholder → Bool
  | name _ => true
  | _ => false

/-- The placeholder a text starts with, and the rest of the text. -/
def take? : List Char → Option (Placeholder × List Char)
  | '$' :: rest =>
    match rest.takeWhile Char.isDigit with
    | [] => none
    | digits => some (position digits, rest.dropWhile Char.isDigit)
  | '?' :: rest => some (question, rest)
  | ':' :: rest =>
    match rest.takeWhile isWord with
    | [] => none
    | word => some (name word, rest.dropWhile isWord)
  | _ => none

theorem eq_append_of_take? {text rest : List Char} {p : Placeholder}
    (h : take? text = some (p, rest)) : text = p.text ++ rest := by
  unfold take? at h
  split at h
  · rename_i cs
    split at h
    · simp at h
    · simp only [Option.some.injEq, Prod.mk.injEq] at h
      obtain ⟨rfl, rfl⟩ := h
      simp [Placeholder.text]
  · simp only [Option.some.injEq, Prod.mk.injEq] at h
    obtain ⟨rfl, rfl⟩ := h
    rfl
  · split at h
    · simp at h
    · simp only [Option.some.injEq, Prod.mk.injEq] at h
      obtain ⟨rfl, rfl⟩ := h
      simp [Placeholder.text]
  · simp at h

theorem length_lt_of_take? {text rest : List Char} {p : Placeholder}
    (h : take? text = some (p, rest)) : rest.length < text.length := by
  rw [eq_append_of_take? h]
  cases p <;> simp only [Placeholder.text, List.cons_append, List.nil_append, List.length_cons,
    List.length_append] <;> omega

end Placeholder

/-- A piece of a body: a character that is copied, or a placeholder. -/
inductive Piece
  | literal (c : Char)
  | hole (p : Placeholder)
  deriving DecidableEq, Repr

/-- A piece as it stands in the body. -/
def Piece.text : Piece → List Char
  | literal c => [c]
  | hole p => p.text

/-- The pieces of a body, in order. -/
def scan : List Char → List Piece
  | [] => []
  | c :: cs =>
    match h : Placeholder.take? (c :: cs) with
    | some (p, rest) =>
      have : rest.length < cs.length + 1 := Placeholder.length_lt_of_take? h
      .hole p :: scan rest
    | none => .literal c :: scan cs
termination_by body => body.length

/-- A placeholder and the bytes at which it stands. -/
structure Occurrence where
  placeholder : Placeholder
  span : Span
  deriving DecidableEq, Repr

/-- The placeholders among pieces, in order, where `start` is the byte at which the pieces start. -/
def occurrences (start : Nat) : List Piece → List Occurrence
  | [] => []
  | .literal c :: pieces => occurrences (start + c.utf8Size) pieces
  | .hole p :: pieces =>
    ⟨p, ⟨start, Text.byteLength p.text⟩⟩ :: occurrences (start + Text.byteLength p.text) pieces

theorem flatMap_text_scan (body : List Char) : (scan body).flatMap Piece.text = body := by
  fun_induction scan body with
  | case1 => rfl
  | case2 c cs p rest h _ ih =>
    rw [List.flatMap_cons, ih, Placeholder.eq_append_of_take? h]
    rfl
  | case3 c cs h ih => simp [ih, Piece.text]

end AnnotatedSql
