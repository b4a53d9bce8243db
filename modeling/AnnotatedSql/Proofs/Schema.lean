import AnnotatedSql.Config.Load
import AnnotatedSql.Proofs.ByteOrder
import AnnotatedSql.Proofs.DocumentKeys
/-!
# Documents that fit

What a document says about a field is the value under its key in a section that is a table, or the one at its place in a
section that is an array, and its default where nothing is given. A document fits when it has no other keys and each
value that is given can be a value of its field (`Config.Fits`); it is then read as exactly the configuration that it
says (`Config.ofTable_eq_ok_iff`), and accepted if that is valid (`Config.parse_ok_iff_fits`).
-/

namespace AnnotatedSql

open Toml (Located Value Table)

namespace Config

variable {c c' : Config} {fields sorted : List Field} {entries document : Table} {α : Type} {name : String}
  {given : Option (Located Value)}

theorem bind_eq_ok_iff {β : Type} {r : Result α} {f : α → Result β} {b : β} :
    (r >>= f) = .ok b ↔ ∃ a, r = .ok a ∧ f a = .ok b := by
  cases r with
  | error e => simp [bind, Except.bind]
  | ok a => simp [bind, Except.bind]

/-! ## Setting what is given -/

/-- Sets a field if a value is given for it. -/
def Field.setGiven (field : Field) (given : Option (Located Value)) (c : Config) : Result Config :=
  match given with
  | none => .ok c
  | some v => field.set v c

/-- The entry of a table that names a field. -/
def entryOf? (entries : Table) (field : Field) : Option (Toml.Key × Located Value) :=
  entries.find? fun e => e.1.value == field.name

theorem map_entryOf? (entries : Table) (field : Field) : (entryOf? entries field).map Prod.snd = entries.get? field.name :=
  rfl

/-- Of things with different names each is found by its name. -/
theorem find?_name_eq_some_iff {key : α → String} {as : List α} (h : (as.map key).Nodup) {a : α} :
    as.find? (fun b => key b == name) = some a ↔ a ∈ as ∧ key a = name := by
  constructor
  · intro hfind
    exact ⟨List.mem_of_find?_eq_some hfind, by simpa using List.find?_some hfind⟩
  · rintro ⟨ha, rfl⟩
    cases hfind : as.find? (fun b => key b == key a) with
    | none => simpa using List.find?_eq_none.1 hfind a ha
    | some b =>
      have hname : key b = key a := by simpa using List.find?_some hfind
      rw [List.inj_on_of_nodup_map h (List.mem_of_find?_eq_some hfind) ha hname]

theorem entryOf?_eq_some_iff (h : entries.HasDistinctKeys) {field : Field} {e : Toml.Key × Located Value} :
    entryOf? entries field = some e ↔ e ∈ entries ∧ e.1.value = field.name :=
  find?_name_eq_some_iff h.names

/-- The fields in the order of their names, in which those of a table are set. -/
structure SortedFields (sorted fields : List Field) : Prop where
  perm : sorted.Perm fields
  lt : sorted.Pairwise fun f g => Text.bytes f.name < Text.bytes g.name

theorem SortedFields.find? (h : SortedFields sorted fields) {f : Field} (hf : f ∈ sorted) :
    fields.find? (fun g => g.name == f.name) = some f := by
  have hnames : (fields.map (·.name)).Nodup := (h.perm.map _).nodup_iff.1 (Text.nodup_map_of_pairwise_bytes_lt _ h.lt)
  exact (find?_name_eq_some_iff hnames).2 ⟨h.perm.mem_iff.1 hf, rfl⟩

/-- Entries whose keys are known, in the order of their keys, are the entries of the fields in that order. -/
theorem inOrder_eq_filterMap (hentries : entries.HasDistinctKeys) (hsorted : SortedFields sorted fields)
    (hknown : ∀ e ∈ entries, e.1.value ∈ fields.map (·.name)) :
    inOrder entries = sorted.filterMap (entryOf? entries) := by
  -- both sides are in strict order, so it is enough that they have the same entries
  have hleft : (inOrder entries).Pairwise fun a b => Text.bytes a.1.value < Text.bytes b.1.value :=
    Text.pairwise_mergeSort_bytes_lt (fun e : Toml.Key × Located Value => e.1.value) hentries.names
  have hright : (sorted.filterMap (entryOf? entries)).Pairwise fun a b =>
      Text.bytes a.1.value < Text.bytes b.1.value := by
    refine hsorted.lt.filterMap _ fun f g hlt a ha b hb => ?_
    rw [((entryOf?_eq_some_iff hentries).1 ha).2, ((entryOf?_eq_some_iff hentries).1 hb).2]
    exact hlt
  have hmem : ∀ e, e ∈ inOrder entries ↔ e ∈ sorted.filterMap (entryOf? entries) := by
    intro e
    have hsame : e ∈ inOrder entries ↔ e ∈ entries := (List.mergeSort_perm entries _).mem_iff
    rw [hsame, List.mem_filterMap]
    simp only [entryOf?_eq_some_iff hentries]
    constructor
    · intro he
      obtain ⟨f, hf, hname⟩ := List.mem_map.1 (hknown e he)
      exact ⟨f, hsorted.perm.mem_iff.2 hf, he, hname.symm⟩
    · rintro ⟨f, -, he, -⟩
      exact he
  have hperm := (List.perm_ext_iff_of_nodup (Text.nodup_map_of_pairwise_bytes_lt _ hleft).of_map
    (Text.nodup_map_of_pairwise_bytes_lt _ hright).of_map).2 hmem
  exact Text.eq_of_perm_of_pairwise_bytes_lt _ hperm hleft hright

theorem known_of_setNamed (h : setNamed fields entries c = .ok c') :
    ∀ e ∈ entries, e.1.value ∈ fields.map (·.name) := by
  induction entries generalizing c with
  | nil => simp
  | cons e entries ih =>
    obtain ⟨key, v⟩ := e
    rw [setNamed] at h
    split at h
    · cases h
    · rename_i field hfield
      obtain ⟨c₁, -, h⟩ := bind_eq_ok_iff.1 h
      have hname : field.name = key.value := by simpa using List.find?_some hfield
      exact List.forall_mem_cons.2 ⟨hname ▸ List.mem_map_of_mem (List.mem_of_find?_eq_some hfield), ih h⟩

theorem setNamed_filterMap (hfields : ∀ f ∈ sorted, fields.find? (fun g => g.name == f.name) = some f) (c : Config) :
    setNamed fields (sorted.filterMap (entryOf? entries)) c =
      sorted.foldlM (fun c f => f.setGiven (entries.get? f.name) c) c := by
  induction sorted generalizing c with
  | nil => rfl
  | cons f sorted ih =>
    rw [List.forall_mem_cons] at hfields
    rw [List.foldlM_cons, ← map_entryOf?]
    cases hentry : entryOf? entries f with
    | none =>
      rw [List.filterMap_cons_none hentry, ih hfields.2]
      rfl
    | some e =>
      have hname : e.1.value = f.name := by simpa using List.find?_some hentry
      rw [List.filterMap_cons_some hentry, setNamed, hname, hfields.1]
      simp only [ih hfields.2]
      rfl

/-- Setting the fields that a table names comes to setting each field to what is given for it, if there are no other
keys. -/
theorem setNamed_inOrder_eq_ok_iff (hentries : entries.HasDistinctKeys) (hsorted : SortedFields sorted fields) :
    setNamed fields (inOrder entries) c = .ok c' ↔
      (∀ e ∈ entries, e.1.value ∈ fields.map (·.name)) ∧
        sorted.foldlM (fun c f => f.setGiven (entries.get? f.name) c) c = .ok c' := by
  have heq : (∀ e ∈ entries, e.1.value ∈ fields.map (·.name)) →
      setNamed fields (inOrder entries) c = sorted.foldlM (fun c f => f.setGiven (entries.get? f.name) c) c := by
    intro hknown
    rw [inOrder_eq_filterMap hentries hsorted hknown, setNamed_filterMap fun f hf => hsorted.find? hf]
  constructor
  · intro h
    have hknown : ∀ e ∈ entries, e.1.value ∈ fields.map (·.name) := by
      intro e he
      exact known_of_setNamed h e ((List.mergeSort_perm entries _).mem_iff.2 he)
    exact ⟨hknown, heq hknown ▸ h⟩
  · rintro ⟨hknown, h⟩
    rw [heq hknown, h]

/-! ## Values of fields -/

/-- A value is the text. -/
def GivesText (s : String) (v : Value) : Prop :=
  v = .scalar (.string s)

/-- A value that may stand beside the name of a mode. -/
inductive HoldsNothing : Value → Prop
  | array (ofHeaders : Bool) : HoldsNothing (.array ofHeaders [])
  | table (origin : Toml.Origin) : HoldsNothing (.table origin [])

/-- A value is the name of the mode, or a table with this name as its only key and nothing beside it. -/
inductive GivesMode (mode : Mode) : Value → Prop
  | name : GivesMode mode (.scalar (.string mode.name))
  | key {origin : Toml.Origin} {key : Toml.Key} {content : Located Value} (hname : key.value = mode.name)
      (hcontent : HoldsNothing content.value) : GivesMode mode (.table origin [(key, content)])

theorem readString_eq_ok_iff {wanted s : String} {v : Located Value} :
    readString wanted v = .ok s ↔ GivesText s v.value := by
  unfold readString GivesText
  split
  · rename_i hvalue
    simp [hvalue]
  · rename_i hother
    exact iff_of_false (fun h => by cases h) (hother s)

theorem modeNamed_eq_ok_iff {name : Located String} {mode : Mode} :
    modeNamed name = .ok mode ↔ name.value = mode.name := by
  unfold modeNamed
  by_cases hexecute : name.value = "execute"
  · cases mode <;> simp [Mode.ofName?, Mode.name, hexecute]
  · by_cases hcompose : name.value = "compose"
    · cases mode <;> simp [Mode.ofName?, Mode.name, hcompose]
    · cases mode <;> simp [Mode.ofName?, Mode.name, hexecute, hcompose, Ne.symm]

theorem checkEmpty_eq_ok_iff {v : Located Value} : checkEmpty v = .ok () ↔ HoldsNothing v.value := by
  unfold checkEmpty
  constructor
  · intro h
    split at h
    · rename_i hvalue
      exact hvalue ▸ .array _
    · rename_i hvalue
      exact hvalue ▸ .table _
    all_goals cases h
  · intro h
    generalize v.value = w at h
    cases h <;> rfl

theorem readMode_eq_ok_iff {v : Located Value} {mode : Mode} : readMode v = .ok mode ↔ GivesMode mode v.value := by
  constructor
  · intro h
    unfold readMode at h
    split at h
    · rename_i s hvalue
      obtain rfl := modeNamed_eq_ok_iff.1 h
      exact hvalue ▸ .name
    · cases h
    · rename_i key content hvalue
      obtain ⟨found, hname, h⟩ := bind_eq_ok_iff.1 h
      obtain ⟨⟨⟩, hempty, h⟩ := bind_eq_ok_iff.1 h
      cases h
      exact hvalue ▸ .key (modeNamed_eq_ok_iff.1 hname) (checkEmpty_eq_ok_iff.1 hempty)
    all_goals cases h
  · intro h
    obtain ⟨w, span⟩ := v
    cases h with
    | name => exact modeNamed_eq_ok_iff.2 rfl
    | key hname hcontent =>
      simp only [readMode, modeNamed_eq_ok_iff.2 hname, checkEmpty_eq_ok_iff.2 hcontent]
      rfl

/-! ## Fields -/

/-- What is given for a field is a value of it, or nothing is given and the field keeps what it has. -/
def Settles (gives : α → Value → Prop) (given : Option (Located Value)) (old new : α) : Prop :=
  match given with
  | none => new = old
  | some v => gives new v.value

/-- A field that holds what is read from its value. -/
def Field.reading (name : String) (read : Located Value → Result α) (put : α → Config → Config) : Field where
  name := name
  set v c := return put (← read v) c

def inputField : Field :=
  .reading "input" (readString "path string") fun path c => { c with input := path }

def modeField : Field :=
  .reading "mode" readMode fun mode c => { c with mode }

def clientField : Field :=
  .reading "client" (readString "path string") fun path c => { c with layout.client := path }

def packageField : Field :=
  .reading "package" (readString "path string") fun path c => { c with layout.package := path }

def exportField : Field :=
  .reading "export" (readString "a string") fun path c => { c with layout.exportPath := path }

theorem generatorFields_eq : generatorFields = [inputField, modeField] :=
  rfl

theorem outputFields_eq : outputFields = [clientField, packageField, exportField] :=
  rfl

theorem Field.setGiven_reading_eq_ok_iff {read : Located Value → Result α} {put : α → Config → Config}
    {gives : α → Value → Prop} (get : Config → α) (hread : ∀ v a, read v = .ok a ↔ gives a v.value)
    (hput : ∀ c, put (get c) c = c) :
    (Field.reading name read put).setGiven given c = .ok c' ↔
      ∃ new, Settles gives given (get c) new ∧ put new c = c' := by
  cases given with
  | none => simp [setGiven, Settles, hput]
  | some v =>
    change (read v >>= fun a => .ok (put a c)) = .ok c' ↔ _
    rw [bind_eq_ok_iff]
    simp [Settles, hread]

theorem setGiven_inputField_eq_ok_iff :
    inputField.setGiven given c = .ok c' ↔
      ∃ path, Settles GivesText given c.input path ∧ { c with input := path } = c' :=
  Field.setGiven_reading_eq_ok_iff Config.input (fun _ _ => readString_eq_ok_iff) fun _ => rfl

theorem setGiven_modeField_eq_ok_iff :
    modeField.setGiven given c = .ok c' ↔ ∃ mode, Settles GivesMode given c.mode mode ∧ { c with mode } = c' :=
  Field.setGiven_reading_eq_ok_iff Config.mode (fun _ _ => readMode_eq_ok_iff) fun _ => rfl

theorem setGiven_clientField_eq_ok_iff :
    clientField.setGiven given c = .ok c' ↔
      ∃ path, Settles GivesText given c.layout.client path ∧ { c with layout.client := path } = c' :=
  Field.setGiven_reading_eq_ok_iff (·.layout.client) (fun _ _ => readString_eq_ok_iff) fun _ => rfl

theorem setGiven_packageField_eq_ok_iff :
    packageField.setGiven given c = .ok c' ↔
      ∃ path, Settles GivesText given c.layout.package path ∧ { c with layout.package := path } = c' :=
  Field.setGiven_reading_eq_ok_iff (·.layout.package) (fun _ _ => readString_eq_ok_iff) fun _ => rfl

theorem setGiven_exportField_eq_ok_iff :
    exportField.setGiven given c = .ok c' ↔
      ∃ path, Settles GivesText given c.layout.exportPath path ∧ { c with layout.exportPath := path } = c' :=
  Field.setGiven_reading_eq_ok_iff (·.layout.exportPath) (fun _ _ => readString_eq_ok_iff) fun _ => rfl

/-! ## Sections -/

/-- What is given for a field: the value under its key in a table, or the one at its place in an array. -/
def given? (name : String) (place : Nat) : Value → Option (Located Value)
  | .table _ entries => Table.get? entries name
  | .array _ elements => elements[place]?
  | .scalar _ => none

/-- A section is a table without other keys, or an array, of which only the elements at the places of fields count. -/
inductive IsSection (names : List String) : Value → Prop
  | table {origin : Toml.Origin} {entries : Table} (known : ∀ e ∈ entries, e.1.value ∈ names) :
      IsSection names (.table origin entries)
  | array {ofHeaders : Bool} {elements : List (Located Value)} : IsSection names (.array ofHeaders elements)

theorem setInOrder_nil (elements : List (Located Value)) : setInOrder [] elements = pure := by
  funext c
  cases elements <;> rfl

/-- Setting fields in order sets each to the element at its place. -/
theorem setInOrder_cons (field : Field) (fields : List Field) (elements : List (Located Value)) :
    setInOrder (field :: fields) elements =
      fun c => field.setGiven elements.head? c >>= setInOrder fields elements.tail := by
  funext c
  cases elements with
  | nil => cases fields <;> rfl
  | cons v elements => rfl

theorem isSection_table_iff {names : List String} {origin : Toml.Origin} :
    IsSection names (.table origin entries) ↔ ∀ e ∈ entries, e.1.value ∈ names := by
  constructor
  · intro h
    cases h with
    | table known => exact known
  · exact .table

/-- A section is set to something if its fields are, both in the order in which a table is visited and in that of an
array. -/
theorem setSection_eq_ok_iff {wanted : String} {v : Located Value} {sets : Prop} (hkeys : v.value.HasDistinctKeys)
    (hsorted : SortedFields sorted fields)
    (htable : ∀ origin entries, v.value = .table origin entries →
      (sorted.foldlM (fun c f => f.setGiven (Table.get? entries f.name) c) c = .ok c' ↔ sets))
    (harray : ∀ ofHeaders elements, v.value = .array ofHeaders elements →
      (setInOrder fields elements c = .ok c' ↔ sets)) :
    setSection wanted fields v c = .ok c' ↔ IsSection (fields.map (·.name)) v.value ∧ sets := by
  obtain ⟨w, span⟩ := v
  cases w with
  | scalar s =>
    refine iff_of_false ?_ ?_
    · intro h
      cases s <;> cases h
    · rintro ⟨h, -⟩
      cases h
  | array ofHeaders elements =>
    rw [and_iff_right .array]
    exact harray _ _ rfl
  | table origin entries =>
    rw [isSection_table_iff, ← htable _ _ rfl]
    exact setNamed_inOrder_eq_ok_iff (Value.hasDistinctKeys_table_iff.1 hkeys) hsorted

/-! ### The section about sources -/

theorem sortedFields_generatorFields : SortedFields generatorFields generatorFields :=
  ⟨.refl _, by decide⟩

theorem setGiven_input_mode_eq_ok_iff {input mode : Option (Located Value)} :
    (inputField.setGiven input c >>= modeField.setGiven mode) = .ok c' ↔
      Settles GivesText input c.input c'.input ∧ Settles GivesMode mode c.mode c'.mode ∧ c'.layout = c.layout := by
  simp only [bind_eq_ok_iff, setGiven_inputField_eq_ok_iff, setGiven_modeField_eq_ok_iff]
  constructor
  · rintro ⟨_, ⟨path, hpath, rfl⟩, mode, hmode, rfl⟩
    exact ⟨hpath, hmode, rfl⟩
  · rintro ⟨hpath, hmode, hlayout⟩
    refine ⟨_, ⟨_, hpath, rfl⟩, _, hmode, ?_⟩
    rw [← hlayout]

theorem setSection_generatorFields_eq_ok_iff {wanted : String} {v : Located Value} (hkeys : v.value.HasDistinctKeys) :
    setSection wanted generatorFields v c = .ok c' ↔ IsSection ["input", "mode"] v.value ∧
      Settles GivesText (given? "input" 0 v.value) c.input c'.input ∧
      Settles GivesMode (given? "mode" 1 v.value) c.mode c'.mode ∧ c'.layout = c.layout := by
  refine setSection_eq_ok_iff hkeys sortedFields_generatorFields ?_ ?_
  · intro origin entries hvalue
    rw [hvalue, ← setGiven_input_mode_eq_ok_iff]
    simp only [generatorFields_eq, List.foldlM_cons, List.foldlM_nil, bind_pure]
    rfl
  · intro ofHeaders elements hvalue
    rw [hvalue, ← setGiven_input_mode_eq_ok_iff]
    simp only [generatorFields_eq, setInOrder_cons, setInOrder_nil, bind_pure, given?, List.head?_eq_getElem?,
      List.getElem?_tail]

/-! ### The section about generated files -/

theorem sortedFields_outputFields : SortedFields [clientField, exportField, packageField] outputFields :=
  ⟨(List.Perm.swap _ _ _).cons _, by decide⟩

theorem setGiven_client_export_package_eq_ok_iff {client package path : Option (Located Value)} :
    (clientField.setGiven client c >>= fun c => exportField.setGiven path c >>= packageField.setGiven package) = .ok c' ↔
      Settles GivesText client c.layout.client c'.layout.client ∧
      Settles GivesText package c.layout.package c'.layout.package ∧
      Settles GivesText path c.layout.exportPath c'.layout.exportPath ∧ c'.input = c.input ∧ c'.mode = c.mode := by
  simp only [bind_eq_ok_iff, setGiven_clientField_eq_ok_iff, setGiven_packageField_eq_ok_iff,
    setGiven_exportField_eq_ok_iff]
  constructor
  · rintro ⟨_, ⟨client, hclient, rfl⟩, _, ⟨path, hpath, rfl⟩, package, hpackage, rfl⟩
    exact ⟨hclient, hpackage, hpath, rfl, rfl⟩
  · rintro ⟨hclient, hpackage, hpath, hinput, hmode⟩
    refine ⟨_, ⟨_, hclient, rfl⟩, _, ⟨_, hpath, rfl⟩, _, hpackage, ?_⟩
    rw [← hinput, ← hmode]

/-- It makes no difference which of the two is set first. -/
theorem setGiven_package_export_eq_ok_iff {package path : Option (Located Value)} :
    (packageField.setGiven package c >>= exportField.setGiven path) = .ok c' ↔
      (exportField.setGiven path c >>= packageField.setGiven package) = .ok c' := by
  simp only [bind_eq_ok_iff, setGiven_packageField_eq_ok_iff, setGiven_exportField_eq_ok_iff]
  constructor
  · rintro ⟨_, ⟨package, hpackage, rfl⟩, path, hpath, rfl⟩
    exact ⟨_, ⟨path, hpath, rfl⟩, package, hpackage, rfl⟩
  · rintro ⟨_, ⟨path, hpath, rfl⟩, package, hpackage, rfl⟩
    exact ⟨_, ⟨package, hpackage, rfl⟩, path, hpath, rfl⟩

theorem setSection_outputFields_eq_ok_iff {wanted : String} {v : Located Value} (hkeys : v.value.HasDistinctKeys) :
    setSection wanted outputFields v c = .ok c' ↔ IsSection ["client", "package", "export"] v.value ∧
      Settles GivesText (given? "client" 0 v.value) c.layout.client c'.layout.client ∧
      Settles GivesText (given? "package" 1 v.value) c.layout.package c'.layout.package ∧
      Settles GivesText (given? "export" 2 v.value) c.layout.exportPath c'.layout.exportPath ∧
      c'.input = c.input ∧ c'.mode = c.mode := by
  refine setSection_eq_ok_iff hkeys sortedFields_outputFields ?_ ?_
  · intro origin entries hvalue
    rw [hvalue, ← setGiven_client_export_package_eq_ok_iff]
    simp only [List.foldlM_cons, List.foldlM_nil, bind_pure]
    rfl
  · intro ofHeaders elements hvalue
    rw [hvalue, ← setGiven_client_export_package_eq_ok_iff]
    simp only [outputFields_eq, setInOrder_cons, setInOrder_nil, bind_pure, given?, List.head?_eq_getElem?,
      List.getElem?_tail]
    -- an array has the package in front of the export, and a table behind it
    rw [bind_eq_ok_iff, bind_eq_ok_iff]
    exact exists_congr fun c₁ => and_congr_right fun _ => setGiven_package_export_eq_ok_iff

/-! ## Documents -/

/-- What a document gives for a field of a section. -/
def givenIn? (document : Table) (table name : String) (place : Nat) : Option (Located Value) :=
  (document.get? table).bind fun v => given? name place v.value

/-- A document without unknown keys, whose sections are tables or arrays and whose values are of the types of their
fields, and the configuration that consists of these values and of the defaults of what is not given. -/
structure Fits (document : Table) (c : Config) : Prop where
  keys : ∀ e ∈ document, e.1.value ∈ ["generator", "output"]
  generator : ∀ v, document.get? "generator" = some v → IsSection ["input", "mode"] v.value
  output : ∀ v, document.get? "output" = some v → IsSection ["client", "package", "export"] v.value
  input : Settles GivesText (givenIn? document "generator" "input" 0) "prisma/procedures" c.input
  mode : Settles GivesMode (givenIn? document "generator" "mode" 1) .execute c.mode
  client : Settles GivesText (givenIn? document "output" "client" 0) "node_modules/.prisma/client" c.layout.client
  package : Settles GivesText (givenIn? document "output" "package" 1) "node_modules/@prisma/client" c.layout.package
  exportPath : Settles GivesText (givenIn? document "output" "export" 2) "./procedures" c.layout.exportPath

theorem setGiven_generator_eq_ok_iff {wanted : String} (hkeys : ∀ v, given = some v → v.value.HasDistinctKeys) :
    Field.setGiven ⟨"generator", setSection wanted generatorFields⟩ given c = .ok c' ↔
      (∀ v, given = some v → IsSection ["input", "mode"] v.value) ∧
      Settles GivesText (given.bind fun v => given? "input" 0 v.value) c.input c'.input ∧
      Settles GivesMode (given.bind fun v => given? "mode" 1 v.value) c.mode c'.mode ∧ c'.layout = c.layout := by
  cases given with
  | none =>
    constructor
    · intro h
      cases h
      exact ⟨nofun, rfl, rfl, rfl⟩
    · rintro ⟨-, hinput, hmode, hlayout⟩
      obtain ⟨input, mode, layout⟩ := c
      cases hinput
      cases hmode
      cases hlayout
      rfl
  | some v => simpa [Field.setGiven] using setSection_generatorFields_eq_ok_iff (hkeys v rfl)

theorem setGiven_output_eq_ok_iff {wanted : String} (hkeys : ∀ v, given = some v → v.value.HasDistinctKeys) :
    Field.setGiven ⟨"output", setSection wanted outputFields⟩ given c = .ok c' ↔
      (∀ v, given = some v → IsSection ["client", "package", "export"] v.value) ∧
      Settles GivesText (given.bind fun v => given? "client" 0 v.value) c.layout.client c'.layout.client ∧
      Settles GivesText (given.bind fun v => given? "package" 1 v.value) c.layout.package c'.layout.package ∧
      Settles GivesText (given.bind fun v => given? "export" 2 v.value) c.layout.exportPath c'.layout.exportPath ∧
      c'.input = c.input ∧ c'.mode = c.mode := by
  cases given with
  | none =>
    constructor
    · intro h
      cases h
      exact ⟨nofun, rfl, rfl, rfl, rfl, rfl⟩
    · rintro ⟨-, hclient, hpackage, hpath, hinput, hmode⟩
      obtain ⟨input, mode, client, package, path⟩ := c
      cases hclient
      cases hpackage
      cases hpath
      cases hinput
      cases hmode
      rfl
  | some v => simpa [Field.setGiven] using setSection_outputFields_eq_ok_iff (hkeys v rfl)

theorem sortedFields_rootFields : SortedFields rootFields rootFields :=
  ⟨.refl _, by decide⟩

/-- A document is read as the one configuration that it fits, if it fits any. -/
theorem ofTable_eq_ok_iff (h : document.HasDistinctKeys) : ofTable document = .ok c ↔ Fits document c := by
  have hgenerator : ∀ v, document.get? "generator" = some v → v.value.HasDistinctKeys := fun _ => h.of_get?
  have houtput : ∀ v, document.get? "output" = some v → v.value.HasDistinctKeys := fun _ => h.of_get?
  rw [ofTable, setNamed_inOrder_eq_ok_iff h sortedFields_rootFields]
  simp only [rootFields, List.foldlM_cons, List.foldlM_nil, bind_pure, bind_eq_ok_iff,
    setGiven_generator_eq_ok_iff hgenerator, setGiven_output_eq_ok_iff houtput]
  constructor
  · rintro ⟨hknown, c₁, ⟨hsources, hinput, hmode, hlayout⟩, hfiles, hclient, hpackage, hpath, hinput', hmode'⟩
    rw [hlayout] at hclient hpackage hpath
    exact ⟨hknown, hsources, hfiles, hinput' ▸ hinput, hmode' ▸ hmode, hclient, hpackage, hpath⟩
  · intro hfits
    refine ⟨hfits.keys, { standard with input := c.input, mode := c.mode }, ?_, ?_⟩
    · exact ⟨hfits.generator, hfits.input, hfits.mode, rfl⟩
    · exact ⟨hfits.output, hfits.client, hfits.package, hfits.exportPath, rfl, rfl⟩

/-! ## Texts -/

/-- A path that starts at the package and goes on. -/
def IsBelowPackage (path : String) : Prop :=
  ∃ rest, rest ≠ "" ∧ path = "./" ++ rest

theorem isExportPath_iff {path : String} : isExportPath path = true ↔ IsBelowPackage path := by
  unfold isExportPath
  constructor
  · intro h
    split at h
    · rename_i d rest hpath
      refine ⟨String.ofList (d :: rest), by simp, ?_⟩
      rw [← String.toList_inj, hpath]
      simp
    · cases h
  · rintro ⟨rest, hrest, rfl⟩
    obtain ⟨d, ds, hds⟩ := List.exists_cons_of_ne_nil (mt String.toList_eq_nil_iff.1 hrest)
    simp [hds]

theorem fault?_eq_none_iff : c.fault? = none ↔ c.input ≠ "" ∧ IsBelowPackage c.layout.exportPath := by
  rw [← isExportPath_iff, fault?]
  split
  · simp [*]
  · split <;> simp [*]

/-- A document in the order of its keys fits what its fields are set to. -/
theorem exists_fits_of_setNamed (text : String) (c : Config)
    (h : (Toml.parse? text).map (fun document =>
      (decide (document.Pairwise fun a b => Text.precedes a.1.value.toList b.1.value.toList),
        (setNamed rootFields document standard).toOption)) = some (true, some c)) :
    ∃ document, Toml.parse? text = some document ∧ Fits document c := by
  obtain ⟨document, hdocument, h⟩ := Option.map_eq_some_iff.1 h
  obtain ⟨hsorted, hset⟩ := Prod.mk.inj h
  have hordered : inOrder document = document := List.mergeSort_of_pairwise (of_decide_eq_true hsorted)
  refine ⟨document, hdocument, (ofTable_eq_ok_iff (Toml.hasDistinctKeys_of_parse? hdocument)).1 ?_⟩
  rw [ofTable, hordered]
  cases hresult : setNamed rootFields document standard with
  | error problem =>
    rw [hresult] at hset
    cases hset
  | ok config =>
    rw [hresult] at hset
    cases hset
    rfl

/-- A text is accepted with a configuration if it is a document that fits it, it has an input and its export is below
the package. Of a document that fits, a missing input is what is reported, whatever its export is. -/
theorem parse_ok_iff_fits (text file : String) :
    (∀ c, parse text file = .ok c ↔
      ∃ document, Toml.parse? text = some document ∧ Fits document c ∧ c.input ≠ "" ∧
        IsBelowPackage c.layout.exportPath) ∧
    ∀ document c, Toml.parse? text = some document → Fits document c → c.input = "" →
      ∃ e, parse text file = .error e ∧ e = .rejected file .emptyInput (place? "input" text) ∧
        e.message = "input directory cannot be empty" := by
  constructor
  · intro c
    simp only [← fault?_eq_none_iff]
    unfold parse
    cases hdocument : Toml.parse? text with
    | none => simp
    | some document =>
      have hkeys := Toml.hasDistinctKeys_of_parse? hdocument
      simp only [Option.some.injEq, exists_eq_left', ← ofTable_eq_ok_iff hkeys]
      cases hconfig : ofTable document with
      | error problem =>
        dsimp only
        split <;> simp
      | ok config =>
        dsimp only
        split
        · rename_i fault hfault
          simp only [reduceCtorEq, false_iff, not_and, Except.ok.injEq]
          rintro rfl hnone
          cases hfault.symm.trans hnone
        · rename_i hfault
          simp only [Except.ok.injEq]
          exact ⟨fun h => ⟨h, h ▸ hfault⟩, And.left⟩
  · intro document c hdocument hfits hinput
    have hconfig := (ofTable_eq_ok_iff (Toml.hasDistinctKeys_of_parse? hdocument)).2 hfits
    have hfault : c.fault? = some .emptyInput := by rw [fault?, if_pos hinput]
    refine ⟨_, ?_, rfl, rfl⟩
    simp only [parse, hdocument, hconfig, hfault]
    rfl

/-- The input is empty and the export is not below the package here. In the second text the section about sources is an
array, and its mode is a key with nothing beside it. -/
theorem parse_ok_iff_fits_both_wrong :
    parse "[generator]\ninput = ''\n\n[output]\nexport = 'x'\n" fileName =
        .error (.rejected fileName .emptyInput (some ⟨20, 2⟩)) ∧
      parse "generator = ['sql', \x7bcompose = []\x7d]\n\n[output]\nexport = './x'\n" fileName =
        .ok ⟨"sql", .compose, { Layout.standard with exportPath := "./x" }⟩ := by
  constructor
  · obtain ⟨document, hdocument, hfits⟩ := exists_fits_of_setNamed
      "[generator]\ninput = ''\n\n[output]\nexport = 'x'\n"
      ⟨"", .execute, { Layout.standard with exportPath := "x" }⟩ (by decide +kernel)
    have hplace : place? "input" "[generator]\ninput = ''\n\n[output]\nexport = 'x'\n" = some ⟨20, 2⟩ := by
      decide +kernel
    rw [← hplace]
    obtain ⟨_, herror, rfl, -⟩ := (parse_ok_iff_fits _ fileName).2 document _ hdocument hfits rfl
    exact herror
  · obtain ⟨document, hdocument, hfits⟩ := exists_fits_of_setNamed
      "generator = ['sql', \x7bcompose = []\x7d]\n\n[output]\nexport = './x'\n"
      ⟨"sql", .compose, { Layout.standard with exportPath := "./x" }⟩ (by decide +kernel)
    exact ((parse_ok_iff_fits _ _).1 _).2 ⟨document, hdocument, hfits, by decide, "x", by decide, rfl⟩

end Config
end AnnotatedSql
