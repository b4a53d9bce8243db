import AnnotatedSql.Config.Basic
import AnnotatedSql.Decimal.Shortest
import AnnotatedSql.Text.Quoted
import AnnotatedSql.Toml.Validity
/-!
# What a configuration file may hold

The keys of a table are visited in the order of their bytes, and the first one that does not fit
decides. A section may also be an array of the values of its keys in a fixed order; missing ones
have their defaults, and surplus ones are not looked at.
-/

namespace AnnotatedSql.Config

open Toml (Located Value Table)

/-- Why a value or a key does not fit. -/
inductive Mismatch
  | unknownField (name : String) (known : List String)
  | wrongType (found wanted : String)
  | unknownMode (name : String)
  /-- A mode is neither a string nor a table. -/
  | modeWanted
  | noMode
  | severalModes
  /-- What stands beside the name of a mode in a table is neither a table nor an array. -/
  | emptyTableWanted (found : String)
  | arrayNotEmpty
  | tableNotEmpty
  deriving DecidableEq, Repr

/-- A name as messages quote it. -/
def ticked (name : String) : String :=
  "\x60" ++ name ++ "\x60"

/-- The names that are possible, as messages list them. -/
def oneOf (names : List String) : String :=
  match names with
  | [a, b] => ticked a ++ " or " ++ ticked b
  | names => "one of " ++ ", ".intercalate (names.map ticked)

def Mismatch.message : Mismatch → String
  | unknownField name known => "unknown field " ++ ticked name ++ ", expected " ++ oneOf known
  | wrongType found wanted => "invalid type: " ++ found ++ ", expected " ++ wanted
  | unknownMode name =>
    "unknown variant " ++ ticked name ++ ", expected "
      ++ oneOf (([.execute, .compose] : List Mode).map Mode.name)
  | modeWanted => "wanted string or table"
  | noMode => "wanted exactly 1 element, found 0 elements"
  | severalModes => "wanted exactly 1 element, more than 1 element"
  | emptyTableWanted found => "expected table, found " ++ found
  | arrayNotEmpty => "expected empty array"
  | tableNotEmpty => "expected empty table"

/-- The result of looking at a part of a document. -/
abbrev Result (α : Type) := Except (Located Mismatch) α

/-! ## Describing what was found -/

/-- The style of numbers in messages: in full, and of two equally near decimals the larger
one. -/
def numberStyle : DecimalStyle :=
  ⟨.up, Decimal.positional⟩

/-- The text of a floating-point number in messages. -/
def floatText : Toml.Float → String
  | .finite x => x.text numberStyle
  | .infinite negative => if negative then "-inf" else "inf"
  | .notANumber => "NaN"

/-- What is wrong with a value that is not of the type that is wanted. -/
def unfit (wanted : String) : Value → Mismatch
  | .scalar (.string s) => .wrongType ("string " ++ Text.quoted s) wanted
  | .scalar (.integer n) => .wrongType ("integer " ++ ticked (toString n)) wanted
  | .scalar (.float f) => .wrongType ("floating point " ++ ticked (floatText f)) wanted
  | .scalar .invalidNumber => .wrongType "number" wanted
  | .scalar (.boolean b) => .wrongType ("boolean " ++ ticked (toString b)) wanted
  | .scalar .dateTime => .wrongType "map" wanted
  | .array _ _ => .wrongType "sequence" wanted
  | .table _ _ => .wrongType "map" wanted

/-- The type of a value that is neither a table nor an array. -/
def typeName : Value → String
  | .scalar (.string _) => "string"
  | .scalar (.integer _) => "integer"
  | .scalar (.float _) => "float"
  | .scalar .invalidNumber => "number"
  | .scalar (.boolean _) => "boolean"
  | .scalar .dateTime => "datetime"
  | .array _ _ => "array"
  | .table _ _ => "table"

/-! ## Values of fields -/

/-- The string that is wanted. -/
def readString (wanted : String) (v : Located Value) : Result String :=
  match v.value with
  | .scalar (.string s) => .ok s
  | other => .error ⟨unfit wanted other, v.span⟩

/-- The mode with a name that stands somewhere. -/
def modeNamed (name : Located String) : Result Mode :=
  match Mode.ofName? name.value with
  | some mode => .ok mode
  | none => .error ⟨.unknownMode name.value, name.span⟩

/-- What stands beside the name of a mode has to be empty. -/
def checkEmpty (v : Located Value) : Result Unit :=
  match v.value with
  | .array _ [] | .table _ [] => .ok ()
  | .array _ _ => .error ⟨.arrayNotEmpty, v.span⟩
  | .table _ _ => .error ⟨.tableNotEmpty, v.span⟩
  | other => .error ⟨.emptyTableWanted (typeName other), v.span⟩

/-- A mode is given by its name, or by a table with its name as the only key. -/
def readMode (v : Located Value) : Result Mode :=
  match v.value with
  | .scalar (.string s) => modeNamed ⟨s, v.span⟩
  | .table _ [] => .error ⟨.noMode, v.span⟩
  | .table _ [(key, content)] => do
    let mode ← modeNamed key
    checkEmpty content
    return mode
  | .table _ _ => .error ⟨.severalModes, v.span⟩
  | _ => .error ⟨.modeWanted, v.span⟩

/-! ## Sections -/

/-- A key and what its value sets. -/
structure Field where
  name : String
  set : Located Value → Config → Result Config

/-- The entries of a table in the order of their keys. -/
def inOrder (entries : Table) : Table :=
  entries.mergeSort fun a b => Text.precedes a.1.value.toList b.1.value.toList

/-- Sets the fields that the entries of a table name. -/
def setNamed (fields : List Field) : Table → Config → Result Config
  | [], c => .ok c
  | (key, v) :: rest, c =>
    match fields.find? fun f => f.name == key.value with
    | none => .error ⟨.unknownField key.value (fields.map (·.name)), key.span⟩
    | some field => do setNamed fields rest (← field.set v c)

/-- Sets fields in order. -/
def setInOrder : List Field → List (Located Value) → Config → Result Config
  | field :: fields, v :: vs, c => do setInOrder fields vs (← field.set v c)
  | _, _, c => .ok c

/-- Sets the fields of a section. -/
def setSection (wanted : String) (fields : List Field) (v : Located Value) (c : Config) :
    Result Config :=
  match v.value with
  | .table _ entries => setNamed fields (inOrder entries) c
  | .array _ elements => setInOrder fields elements c
  | .scalar .dateTime => .error ⟨.unknownField Toml.dateKey (fields.map (·.name)), v.span⟩
  | other => .error ⟨unfit wanted other, v.span⟩

/-- A field that holds a path. -/
def pathField (name : String) (set : String → Config → Config) : Field where
  name := name
  set v c := return set (← readString "path string" v) c

/-- The fields of the section about sources. -/
def generatorFields : List Field :=
  [pathField "input" fun path c => { c with input := path },
   { name := "mode"
     set := fun v c => return { c with mode := ← readMode v } }]

/-- The fields of the section about generated files. -/
def outputFields : List Field :=
  [pathField "client" fun path c => { c with layout.client := path },
   pathField "package" fun path c => { c with layout.package := path },
   { name := "export"
     set := fun v c => return { c with layout.exportPath := ← readString "a string" v } }]

/-- The sections. -/
def rootFields : List Field :=
  [{ name := "generator", set := setSection "struct GeneratorConfig" generatorFields },
   { name := "output", set := setSection "struct OutputConfig" outputFields }]

/-- The configuration that a document gives. -/
def ofTable (document : Table) : Result Config :=
  setNamed rootFields (inOrder document) .standard

end AnnotatedSql.Config
