import AnnotatedSql.Toml.Value
/-!
# Building TOML tables

Keys and headers name tables by paths. Tables on the way are made when they are missing; a table
that was written in one way is not extended in another, and no key is given twice.
-/

namespace AnnotatedSql.Toml.Table

/-- The value of a key. -/
def get? (entries : Table) (name : String) : Option (Located Value) :=
  (List.find? (fun (key, _) => key.value == name) entries).map Prod.snd

/-- Puts a value in the place of that of the same key. -/
def replace (entries : Table) (name : String) (v : Located Value) : Table :=
  entries.map fun (key, old) => if key.value = name then (key, v) else (key, old)

/-- Drops a key. -/
def without (entries : Table) (name : String) : Table :=
  entries.filter fun (key, _) => key.value ≠ name

/-- A change of the entries of a table that came about in a given way, if it is allowed. -/
abbrev Change := Origin → Table → Option Table

/-- Makes a change inside a value that a path runs through. Of an array made by headers the last
element is meant. A dotted key does not run through a table that has a header. -/
def within (dotted : Bool) (change : Change) : Value → Option Value
  | .table .inline _ => none
  | .table .header entries =>
    if dotted then none else (change .header entries).map (.table .header)
  | .table origin entries => (change origin entries).map (.table origin)
  | .array true elements => do
    let last ← elements.getLast?
    match last.value with
    | .table origin entries =>
      let changed ← change origin entries
      return .array true (elements.dropLast ++ [⟨.table origin changed, last.span⟩])
    | _ => none
  | _ => none

/-- Makes a change in the table that a path leads to from a table. Missing tables are made: by
dotted keys as dotted ones, by headers as implied ones. -/
def modify (dotted : Bool) (change : Change) : List Key → Change
  | [] => change
  | key :: path => fun _ entries =>
    match get? entries key.value with
    | some old => do
      let new ← within dotted (modify dotted change path) old.value
      return replace entries key.value ⟨new, old.span⟩
    | none => do
      let origin := if dotted then .dotted else .implied
      let new ← modify dotted change path origin []
      return entries ++ [(key, ⟨.table origin new, key.span⟩)]

/-- Adds the value of a dotted key. Only a table that dotted keys made takes keys with a dotted
path, and the other way round. -/
def insert (entries : Table) (path : List Key) (key : Key) (v : Located Value) : Option Table :=
  let add : Change := fun origin entries =>
    if (origin == .dotted) == path.isEmpty || (get? entries key.value).isSome then none
    else some (entries ++ [(key, v)])
  modify true add path .header entries

/-- A dotted key with its value. -/
structure Entry where
  path : List Key
  key : Key
  value : Located Value

/-- Adds values in order. -/
def insertAll (entries : Table) : List Entry → Option Table
  | [] => some entries
  | e :: rest => do insertAll (← insert entries e.path e.key e.value) rest

/-- A header with the entries below it. -/
structure Section where
  /-- Whether the header adds an element to an array. -/
  element : Bool
  path : List Key
  key : Key
  span : Span
  entries : List Entry

/-- Adds the table of a section to the table that its header names it in. Only an implied table
of that name may be there already, and only an array made by headers takes an element. -/
def addSection (s : Section) : Change := fun _ entries =>
  match s.element, get? entries s.key.value with
  | false, none => do
    let filled ← insertAll [] s.entries
    return entries ++ [(s.key, ⟨.table .header filled, s.span⟩)]
  | false, some ⟨.table .implied below, _⟩ => do
    let filled ← insertAll below s.entries
    return without entries s.key.value ++ [(s.key, ⟨.table .header filled, s.span⟩)]
  | true, none => do
    let filled ← insertAll [] s.entries
    return entries ++ [(s.key, ⟨.array true [⟨.table .header filled, s.span⟩], s.span⟩)]
  | true, some ⟨.array true elements, span⟩ => do
    let filled ← insertAll [] s.entries
    return replace entries s.key.value
      ⟨.array true (elements ++ [⟨.table .header filled, s.span⟩]), span⟩
  | _, _ => none

/-- The table of a document: the entries in front of the first header, and the sections. -/
def ofDocument (entries : List Entry) (sections : List Section) : Option Table := do
  let root ← insertAll [] entries
  sections.foldlM (fun root s => modify false (addSection s) s.path .header root) root

end AnnotatedSql.Toml.Table
