import AnnotatedSql.Entries
import AnnotatedSql.Text
/-!
# File trees

A tree is a file or a directory of named trees. A place in a tree is the list of names that
lead to it from the root.
-/

namespace AnnotatedSql.Disk

/-- A file with its bytes, or a directory with its entries. -/
inductive Tree
  | file (content : ByteArray)
  | dir (entries : List (String × Tree))
  deriving Inhabited

/-- The names from the root of a tree down to a place in it. -/
abbrev Place := List String

namespace Tree

/-- The entries of a directory; a file has none. -/
def entries : Tree → Entries Tree
  | file _ => []
  | dir es => es

def isDir : Tree → Bool
  | file _ => false
  | dir _ => true

/-- What stands at a place. -/
def at? : Tree → Place → Option Tree
  | t, [] => some t
  | t, name :: below => (t.entries.get? name).bind (at? · below)

/-- Puts a tree at a place. Directories are made on the way down where nothing stands; nothing
is put below a file. -/
def put : Tree → Place → Tree → Tree
  | _, [], new => new
  | file content, _ :: _, _ => file content
  | dir es, name :: below, new =>
    dir (Entries.put es name (put ((Entries.get? es name).getD (dir [])) below new))

/-- Takes away what stands at a place other than the root. -/
def remove : Tree → Place → Tree
  | t, [] => t
  | file content, _ :: _ => file content
  | dir es, [name] => dir (Entries.remove es name)
  | dir es, name :: below =>
    match Entries.get? es name with
    | none => dir es
    | some t => dir (Entries.put es name (remove t below))

@[simp] theorem at?_nil (t : Tree) : t.at? [] = some t := by
  cases t <;> rfl

theorem at?_cons (t : Tree) (name : String) (below : Place) :
    t.at? (name :: below) = (t.entries.get? name).bind (at? · below) := by
  cases t <;> rfl

/-- A file has nothing below it. -/
theorem at?_file (content : ByteArray) (name : String) (below : Place) :
    (file content).at? (name :: below) = none := by
  simp [at?_cons, entries]

/-- Where only directories or nothing stand on the way, what is put is there afterwards. -/
theorem at?_put_self (t new : Tree) (place : Place)
    (h : ∀ upTo c, upTo <+: place → upTo ≠ place → t.at? upTo ≠ some (file c)) :
    (t.put place new).at? place = some new := by
  induction place generalizing t with
  | nil => cases t <;> simp [put]
  | cons name below ih =>
    cases t with
    | file c => exact absurd (at?_nil (file c)) (h [] c List.nil_prefix (by simp))
    | dir es =>
      simp only [put, at?_cons, entries, Entries.get?_put_self, Option.bind_some]
      apply ih
      intro upTo c hp hne hat
      cases hg : Entries.get? es name with
      | none =>
        rw [hg] at hat
        cases upTo <;> simp [at?_cons, entries] at hat
      | some t' =>
        rw [hg] at hat
        exact h (name :: upTo) c (by simpa using hp) (by simpa using hne)
          (by simpa [at?_cons, entries, hg] using hat)

/-- A place that is neither above nor below the one that is changed keeps what it holds. -/
theorem at?_put_of_apart (t new : Tree) (place other : Place)
    (above : ¬ other <+: place) (below : ¬ place <+: other) :
    (t.put place new).at? other = t.at? other := by
  induction place generalizing t other with
  | nil => exact absurd List.nil_prefix below
  | cons name rest ih =>
    cases t with
    | file c => rfl
    | dir es =>
      cases other with
      | nil => exact absurd List.nil_prefix above
      | cons n rest' =>
        simp only [put, at?_cons, entries, Entries.get?_put]
        split
        · next h =>
          subst h
          simp only [List.cons_prefix_cons, true_and] at above below
          rw [Option.bind_some, ih _ _ above below]
          cases hg : Entries.get? es n with
          | some t' => simp
          | none =>
            cases rest' with
            | nil => exact absurd List.nil_prefix above
            | cons _ _ => simp [at?_cons, entries]
        · rfl

/-! ## Listings -/

/-- The names of a directory come in the order of their bytes. -/
def inOrder {α : Type} (entries : Entries α) : Entries α :=
  entries.mergeSort fun a b => Text.precedes a.1.toList b.1.toList

/-- One line of a listing: the path from the listed directory, and the bytes if it is a file. -/
structure Listed where
  path : String
  content : Option ByteArray

mutual

/-- Everything below a directory in order, each directory before what it holds. -/
def listing (above : String) : Tree → List Listed
  | file _ => []
  | dir es => (inOrder (listings above es)).flatMap Prod.snd

/-- What each entry of a directory adds to its listing. -/
def listings (above : String) : List (String × Tree) → List (String × List Listed)
  | [] => []
  | (name, file content) :: rest =>
    (name, [⟨above ++ name, some content⟩]) :: listings above rest
  | (name, dir es) :: rest =>
    let path := above ++ name ++ "/"
    (name, ⟨path, none⟩ :: listing path (dir es)) :: listings above rest

end

end Tree
end AnnotatedSql.Disk
