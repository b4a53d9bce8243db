import AnnotatedSql.Toml.Read
import Mathlib.Data.List.Nodup
/-!
# Keys of a document

No table of a document that is read gives a key twice (`Toml.hasDistinctKeys_of_parse?`), because a table is only ever
built by changes that keep this (`Table.Keeps`): a new key is added where there is none, and an old one keeps its place.
-/

namespace AnnotatedSql.Toml

/-- A value in which no table gives a key twice. -/
inductive Value.HasDistinctKeys : Value → Prop
  | scalar (s : Scalar) : HasDistinctKeys (.scalar s)
  | array {ofHeaders : Bool} {elements : List (Located Value)} (values : ∀ v ∈ elements, HasDistinctKeys v.value) :
      HasDistinctKeys (.array ofHeaders elements)
  | table {origin : Origin} {entries : List (Located String × Located Value)}
      (names : (entries.map (·.1.value)).Nodup) (values : ∀ e ∈ entries, HasDistinctKeys e.2.value) :
      HasDistinctKeys (.table origin entries)

/-- A table that gives no key twice, and neither does a table inside it. -/
structure Table.HasDistinctKeys (entries : Table) : Prop where
  names : (entries.map (·.1.value)).Nodup
  values : ∀ e ∈ entries, e.2.value.HasDistinctKeys

theorem Value.hasDistinctKeys_table_iff {origin : Origin} {entries : Table} :
    (Value.table origin entries).HasDistinctKeys ↔ Table.HasDistinctKeys entries := by
  constructor
  · intro h
    cases h with
    | table names values => exact ⟨names, values⟩
  · rintro ⟨names, values⟩
    exact .table names values

namespace Table

variable {entries new : Table} {name : String} {key : Key} {v : Located Value} {origin : Origin} {change : Change}
  {dotted : Bool}

/-! ## Changes -/

theorem get?_eq_none_iff : get? entries name = none ↔ name ∉ entries.map (·.1.value) := by
  simp only [get?, Option.map_eq_none_iff, List.find?_eq_none, beq_iff_eq, List.mem_map, not_exists, not_and]

theorem exists_mem_of_get? (h : get? entries name = some v) : ∃ key, (key, v) ∈ entries ∧ key.value = name := by
  obtain ⟨⟨key, w⟩, hfind, rfl⟩ := Option.map_eq_some_iff.1 h
  exact ⟨key, List.mem_of_find?_eq_some hfind, by simpa using List.find?_some hfind⟩

namespace HasDistinctKeys

theorem nil : HasDistinctKeys [] :=
  ⟨List.nodup_nil, by simp⟩

theorem of_get? (h : HasDistinctKeys entries) (hget : get? entries name = some v) : v.value.HasDistinctKeys := by
  obtain ⟨key, hmem, -⟩ := exists_mem_of_get? hget
  exact h.values _ hmem

theorem concat (h : HasDistinctKeys entries) (hget : get? entries key.value = none) (hv : v.value.HasDistinctKeys) :
    HasDistinctKeys (entries ++ [(key, v)]) where
  names := by
    rw [List.map_append, List.nodup_append]
    refine ⟨h.names, by simp, ?_⟩
    rintro n hn m hm rfl
    rw [List.map_singleton, List.mem_singleton] at hm
    exact get?_eq_none_iff.1 hget (hm ▸ hn)
  values := List.forall_mem_append.2 ⟨h.values, List.forall_mem_singleton.2 hv⟩

theorem replace (h : HasDistinctKeys entries) (hv : v.value.HasDistinctKeys) (name : String) :
    HasDistinctKeys (Table.replace entries name v) where
  names := by
    have hnames : (Table.replace entries name v).map (·.1.value) = entries.map (·.1.value) := by
      unfold Table.replace
      rw [List.map_map]
      refine List.map_congr_left fun e _ => ?_
      dsimp only [Function.comp_apply]
      split <;> rfl
    rw [hnames]
    exact h.names
  values := by
    intro e he
    obtain ⟨⟨key, old⟩, hold, rfl⟩ := List.mem_map.1 he
    dsimp only
    split
    · exact hv
    · exact h.values _ hold

theorem without (h : HasDistinctKeys entries) (name : String) : HasDistinctKeys (Table.without entries name) where
  names := h.names.sublist (List.filter_sublist.map _)
  values e he := h.values e (List.mem_of_mem_filter he)

end HasDistinctKeys

/-- A change after which no key is given twice if none was before. -/
def Keeps (change : Change) : Prop :=
  ∀ origin entries new, HasDistinctKeys entries → change origin entries = some new → HasDistinctKeys new

theorem hasDistinctKeys_within (hchange : Keeps change) {old w : Value} (hold : old.HasDistinctKeys)
    (h : within dotted change old = some w) : w.HasDistinctKeys := by
  cases hold with
  | scalar s => cases h
  | @array ofHeaders elements values =>
    cases ofHeaders with
    | false => cases h
    | true =>
      simp only [within, Option.bind_eq_bind, Option.bind_eq_some_iff] at h
      obtain ⟨last, hlast, h⟩ := h
      have hmem := List.mem_of_getLast? hlast
      split at h
      · rename_i origin entries hvalue
        simp only [Option.bind_eq_some_iff, Option.pure_def, Option.some.injEq] at h
        obtain ⟨changed, hchanged, rfl⟩ := h
        have hentries := Value.hasDistinctKeys_table_iff.1 (hvalue ▸ values last hmem)
        refine .array (List.forall_mem_append.2 ⟨fun v hv => values v (List.dropLast_subset _ hv), ?_⟩)
        exact List.forall_mem_singleton.2 (Value.hasDistinctKeys_table_iff.2 (hchange _ _ _ hentries hchanged))
      · cases h
  | @table origin entries names values =>
    have hentries : HasDistinctKeys entries := ⟨names, values⟩
    have hmap : ∀ w : Value, (change origin entries).map (Value.table origin) = some w → w.HasDistinctKeys := by
      intro w hw
      obtain ⟨changed, hchanged, rfl⟩ := Option.map_eq_some_iff.1 hw
      exact Value.hasDistinctKeys_table_iff.2 (hchange _ _ _ hentries hchanged)
    cases origin with
    | inline => cases h
    | header =>
      rw [within] at h
      split at h
      · cases h
      · exact hmap _ h
    | implied | dotted => exact hmap _ h

theorem keeps_modify (hchange : Keeps change) (dotted : Bool) (path : List Key) : Keeps (modify dotted change path) := by
  induction path with
  | nil => exact hchange
  | cons key path ih =>
    intro origin entries new hentries h
    rw [modify] at h
    cases hget : get? entries key.value with
    | some old =>
      simp only [hget, Option.bind_eq_bind, Option.bind_eq_some_iff, Option.pure_def, Option.some.injEq] at h
      obtain ⟨w, hw, rfl⟩ := h
      exact hentries.replace (hasDistinctKeys_within ih (hentries.of_get? hget) hw) _
    | none =>
      simp only [hget, Option.bind_eq_bind, Option.bind_eq_some_iff, Option.pure_def, Option.some.injEq] at h
      obtain ⟨made, hmade, rfl⟩ := h
      exact hentries.concat hget (Value.hasDistinctKeys_table_iff.2 (ih _ _ _ .nil hmade))

theorem hasDistinctKeys_insert {path : List Key} (hentries : HasDistinctKeys entries) (hv : v.value.HasDistinctKeys)
    (h : insert entries path key v = some new) : HasDistinctKeys new := by
  refine keeps_modify ?_ true path _ _ _ hentries h
  intro origin entries new hentries h
  dsimp only at h
  split at h
  · cases h
  · rename_i hfree
    cases h
    rw [Bool.or_eq_true, not_or, Bool.not_eq_true, Bool.not_eq_true, Option.isSome_eq_false_iff,
      Option.isNone_iff_eq_none] at hfree
    exact hentries.concat hfree.2 hv

theorem hasDistinctKeys_insertAll {es : List Entry} (hentries : HasDistinctKeys entries)
    (hes : ∀ e ∈ es, e.value.value.HasDistinctKeys) (h : insertAll entries es = some new) : HasDistinctKeys new := by
  induction es generalizing entries with
  | nil =>
    cases h
    exact hentries
  | cons e es ih =>
    rw [List.forall_mem_cons] at hes
    simp only [insertAll, Option.bind_eq_bind, Option.bind_eq_some_iff] at h
    obtain ⟨made, hmade, h⟩ := h
    exact ih (hasDistinctKeys_insert hentries hes.1 hmade) hes.2 h

theorem get?_without_self (entries : Table) (name : String) : get? (without entries name) name = none := by
  rw [get?_eq_none_iff]
  intro hmem
  obtain ⟨e, he, hname⟩ := List.mem_map.1 hmem
  simpa [hname] using (List.mem_filter.1 he).2

theorem keeps_addSection {s : Section} (hs : ∀ e ∈ s.entries, e.value.value.HasDistinctKeys) : Keeps (addSection s) := by
  intro origin entries new hentries h
  have hfilled : ∀ filled, insertAll [] s.entries = some filled → (Value.table .header filled).HasDistinctKeys :=
    fun filled h => Value.hasDistinctKeys_table_iff.2 (hasDistinctKeys_insertAll .nil hs h)
  unfold addSection at h
  split at h
  · rename_i hget
    obtain ⟨filled, hmade, h⟩ := Option.bind_eq_some_iff.1 h
    cases h
    exact hentries.concat hget (hfilled _ hmade)
  · rename_i below span _ hget
    have hbelow := Value.hasDistinctKeys_table_iff.1 (hentries.of_get? hget)
    obtain ⟨filled, hmade, h⟩ := Option.bind_eq_some_iff.1 h
    cases h
    exact (hentries.without _).concat (get?_without_self _ _)
      (Value.hasDistinctKeys_table_iff.2 (hasDistinctKeys_insertAll hbelow hs hmade))
  · rename_i hget
    obtain ⟨filled, hmade, h⟩ := Option.bind_eq_some_iff.1 h
    cases h
    exact hentries.concat hget (.array (List.forall_mem_singleton.2 (hfilled _ hmade)))
  · rename_i elements span _ hget
    have helements : ∀ v ∈ elements, v.value.HasDistinctKeys := by
      cases hentries.of_get? hget with
      | array values => exact values
    obtain ⟨filled, hmade, h⟩ := Option.bind_eq_some_iff.1 h
    cases h
    refine hentries.replace (.array (List.forall_mem_append.2 ⟨helements, ?_⟩)) _
    exact List.forall_mem_singleton.2 (hfilled _ hmade)
  · cases h

theorem hasDistinctKeys_ofDocument {es : List Entry} {sections : List Section}
    (hes : ∀ e ∈ es, e.value.value.HasDistinctKeys)
    (hsections : ∀ s ∈ sections, ∀ e ∈ s.entries, e.value.value.HasDistinctKeys)
    (h : ofDocument es sections = some new) : HasDistinctKeys new := by
  obtain ⟨root, hroot, hfold⟩ := Option.bind_eq_some_iff.1 h
  have hkeys := hasDistinctKeys_insertAll .nil hes hroot
  clear h hroot
  induction sections generalizing root with
  | nil =>
    cases hfold
    exact hkeys
  | cons s sections ih =>
    rw [List.forall_mem_cons] at hsections
    rw [List.foldlM_cons] at hfold
    obtain ⟨made, hmade, hfold⟩ := Option.bind_eq_some_iff.1 hfold
    exact ih hsections.2 made hfold (keeps_modify (keeps_addSection hsections.1) _ _ _ _ _ hkeys hmade)

end Table

/-! ## Reading -/

section Reading

variable {size : Nat} {text rest : List Char}

/-- A reader of values in which no key is given twice. -/
def Distinct (reader : Reader (Located Value)) : Prop :=
  ∀ text v rest, reader text = some (v, rest) → v.value.HasDistinctKeys

/-- What holds of each thing that is read holds of all of a list of them. -/
theorem forall_mem_of_items? {α : Type} {item : Reader α} {close : Char} {holds : α → Prop}
    (hitem : ∀ text a rest, item text = some (a, rest) → holds a) {as : List α}
    (h : items? item close text = some (as, rest)) : ∀ a ∈ as, holds a := by
  fun_induction items? item close text generalizing as rest with
  | case1 text ih =>
    obtain ⟨start, -, h⟩ := Option.bind_eq_some_iff.1 h
    split at h
    · cases h
    · rename_i c behind
      split at h
      · cases h
        simp
      · obtain ⟨⟨a, afterItem⟩, hread, h⟩ := Option.bind_eq_some_iff.1 h
        have ha := hitem _ _ _ hread
        obtain ⟨next, -, h⟩ := Option.bind_eq_some_iff.1 h
        split at h
        · cases h
        · split at h
          · cases h
            simpa using ha
          · split at h
            · split at h
              · rename_i hshorter
                obtain ⟨⟨more, afterAll⟩, hmore, h⟩ := Option.bind_eq_some_iff.1 h
                cases h
                exact List.forall_mem_cons.2 ⟨ha, ih _ hshorter hmore⟩
              · cases h
            · cases h

theorem hasDistinctKeys_of_keyValue? {skip? : List Char → Option (List Char)} {value : Reader (Located Value)}
    (hvalue : Distinct value) {e : Table.Entry} (h : keyValue? size skip? value text = some (e, rest)) :
    e.value.value.HasDistinctKeys := by
  obtain ⟨⟨⟨path, key⟩, behind⟩, -, h⟩ := Option.bind_eq_some_iff.1 h
  obtain ⟨sign, -, h⟩ := Option.bind_eq_some_iff.1 h
  split at h
  · obtain ⟨start, -, h⟩ := Option.bind_eq_some_iff.1 h
    obtain ⟨⟨v, behind⟩, hread, h⟩ := Option.bind_eq_some_iff.1 h
    cases h
    exact hvalue _ _ _ hread
  · cases h

theorem hasDistinctKeys_of_valueHere? {nested : Option (Reader (Located Value))}
    (hnested : ∀ reader, nested = some reader → Distinct reader) {v : Value}
    (h : valueHere? size nested text = some (v, rest)) : v.HasDistinctKeys := by
  unfold valueHere? at h
  split at h
  · cases h
  · rename_i c behind
    split at h
    · obtain ⟨⟨s, behind⟩, -, h⟩ := Option.map_eq_some_iff.1 h
      cases h
      exact .scalar _
    · split at h
      · obtain ⟨reader, hreader, h⟩ := Option.bind_eq_some_iff.1 h
        obtain ⟨⟨vs, behind⟩, hread, h⟩ := Option.bind_eq_some_iff.1 h
        cases h
        exact .array (forall_mem_of_items? (hnested _ hreader) hread)
      · split at h
        · obtain ⟨reader, hreader, h⟩ := Option.bind_eq_some_iff.1 h
          obtain ⟨⟨es, behind⟩, hread, h⟩ := Option.bind_eq_some_iff.1 h
          obtain ⟨entries, hentries, h⟩ := Option.bind_eq_some_iff.1 h
          cases h
          have hes := forall_mem_of_items? (fun _ _ _ => hasDistinctKeys_of_keyValue? (hnested _ hreader)) hread
          exact Value.hasDistinctKeys_table_iff.2 (Table.hasDistinctKeys_insertAll .nil hes hentries)
        · obtain ⟨s, -, h⟩ := Option.bind_eq_some_iff.1 h
          cases h
          exact .scalar _

theorem distinct_value? (size depth : Nat) : Distinct (value? size depth) := by
  induction depth with
  | zero =>
    intro text v rest h
    obtain ⟨⟨w, behind⟩, hread, h⟩ := Option.bind_eq_some_iff.1 h
    cases h
    exact hasDistinctKeys_of_valueHere? (by simp) hread
  | succ depth ih =>
    intro text v rest h
    obtain ⟨⟨w, behind⟩, hread, h⟩ := Option.bind_eq_some_iff.1 h
    cases h
    refine hasDistinctKeys_of_valueHere? ?_ hread
    rintro reader hreader
    cases hreader
    exact ih

/-- A line that gives a key a value in which no key is given twice, or is a header. -/
def Line.Distinct : Line → Prop
  | .header _ _ _ _ => True
  | .entry e => e.value.value.HasDistinctKeys

theorem distinct_of_header? {line : Line} (h : header? size text = some (line, rest)) : line.Distinct := by
  obtain ⟨⟨⟨path, key⟩, behind⟩, -, h⟩ := Option.bind_eq_some_iff.1 h
  obtain ⟨behind, -, h⟩ := Option.bind_eq_some_iff.1 h
  cases h
  trivial

theorem distinct_of_entry? {line : Line} (h : entry? size text = some (line, rest)) : line.Distinct := by
  obtain ⟨⟨e, behind⟩, hread, h⟩ := Option.bind_eq_some_iff.1 h
  cases h
  exact hasDistinctKeys_of_keyValue? (distinct_value? _ _) hread

theorem distinct_of_lines? {lines : List Line} (h : lines? size text = some lines) : ∀ line ∈ lines, line.Distinct := by
  fun_induction lines? size text generalizing lines with
  | case1 text ih =>
    obtain ⟨start, -, h⟩ := Option.bind_eq_some_iff.1 h
    split at h
    · cases h
      simp
    · rename_i c behind
      extract_lets goOn at h
      have hline : ∃ r, r.1.Distinct ∧ goOn r = some lines := by
        split at h
        · obtain ⟨⟨line, afterLine⟩, hread, h⟩ := Option.bind_eq_some_iff.1 h
          exact ⟨(line, afterLine), distinct_of_header? hread, h⟩
        · obtain ⟨⟨line, afterLine⟩, hread, h⟩ := Option.bind_eq_some_iff.1 h
          exact ⟨(line, afterLine), distinct_of_entry? hread, h⟩
      obtain ⟨⟨line, afterLine⟩, hdistinct, h⟩ := hline
      obtain ⟨next, -, h⟩ := Option.bind_eq_some_iff.1 h
      split at h
      · rename_i hshorter
        obtain ⟨more, hmore, h⟩ := Option.bind_eq_some_iff.1 h
        cases h
        exact List.forall_mem_cons.2 ⟨hdistinct, ih _ hshorter hmore⟩
      · cases h

/-- Lines are sorted into entries and sections as they are. -/
theorem distinct_sections {lines : List Line} (h : ∀ line ∈ lines, line.Distinct) :
    (∀ e ∈ (sections lines).1, e.value.value.HasDistinctKeys) ∧
      ∀ s ∈ (sections lines).2, ∀ e ∈ s.entries, e.value.value.HasDistinctKeys := by
  induction lines with
  | nil => exact ⟨by simp [sections], by simp [sections]⟩
  | cons line lines ih =>
    rw [List.forall_mem_cons] at h
    obtain ⟨hentries, hsections⟩ := ih h.2
    cases line with
    | entry e => exact ⟨List.forall_mem_cons.2 ⟨h.1, hentries⟩, hsections⟩
    | header element path key span => exact ⟨by simp [sections], List.forall_mem_cons.2 ⟨hentries, hsections⟩⟩

end Reading

/-- No table of a document gives a key twice. -/
theorem hasDistinctKeys_of_parse? {text : String} {document : Table} (h : parse? text = some document) :
    document.HasDistinctKeys := by
  obtain ⟨lines, hlines, h⟩ := Option.bind_eq_some_iff.1 h
  obtain ⟨hentries, hsections⟩ := distinct_sections (distinct_of_lines? hlines)
  exact Table.hasDistinctKeys_ofDocument hentries hsections h

end AnnotatedSql.Toml
