import AnnotatedSql.Text
/-!
# Templates

A template is a text with holes, each a name between double braces. Filling it is one pass from
left to right: what is put into a hole is not searched for holes again.
-/

namespace AnnotatedSql.Template

open Text (cut? eq_append_of_cut?)

/-- What opens a hole. -/
def opening : List Char := ['{', '{']

/-- What closes a hole. -/
def closing : List Char := ['}', '}']

/-- The value of a name: the first one given for it. -/
def value? (values : List (List Char × List Char)) (name : List Char) : Option (List Char) :=
  (values.find? fun (n, _) => n == name).map Prod.snd

/-- Fills the holes of a template. A hole whose name has no value stays as it is, and so does
everything behind an opening that is never closed. Of three braces in a row the first one is
plain text. -/
def fill (values : List (List Char × List Char)) : List Char → List Char
  | [] => []
  | '{' :: '{' :: '{' :: rest => '{' :: fill values ('{' :: '{' :: rest)
  | '{' :: '{' :: rest =>
    match h : cut? closing rest with
    | none => '{' :: '{' :: rest
    | some (name, after) =>
      have : after.length < rest.length + 2 := by
        have := congrArg List.length (eq_append_of_cut? h)
        simp [closing] at this
        omega
      (value? values name).getD (opening ++ name ++ closing) ++ fill values after
  | c :: rest => c :: fill values rest
termination_by template => template.length

/-- Fills the holes of a template with the values given by name. -/
def render (template : String) (values : List (String × String)) : String :=
  String.ofList <| fill (values.map fun (n, v) => (n.toList, v.toList)) template.toList

/-- A hole, to write templates with. -/
def hole (name : String) : String :=
  String.ofList opening ++ name ++ String.ofList closing

/-- A text in braces, to write templates with. -/
def braced (text : String) : String :=
  "\x7b" ++ text ++ "\x7d"

end AnnotatedSql.Template
