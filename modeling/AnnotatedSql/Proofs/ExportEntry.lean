import AnnotatedSql.Proofs.WriteContract
/-!
# The entry of an export

Registering an export changes one entry of the manifest, in its place or as the last one, and nothing else on the disk
(`Manifest.SetsEntry`, `Manifest.register_contract`). Where there is no manifest, or none with an object of exports, the
disk stays as it is.
-/

namespace AnnotatedSql

namespace Entries

variable {α : Type} {name : String} {a : α} {front entries before after : Entries α}

/-- Entries with one of them set: in the place of the one of that name, or, if there is none, as the last. -/
inductive Sets (name : String) (a : α) : Entries α → Entries α → Prop
  | replaced {front behind : Entries α} (old : α) (first : name ∉ front.names) :
    Sets name a (front ++ (name, old) :: behind) (front ++ (name, a) :: behind)
  | appended {entries : Entries α} (new : name ∉ entries.names) : Sets name a entries (entries ++ [(name, a)])

theorem put_append_of_not_mem (h : name ∉ front.names) (rest : Entries α) (a : α) :
    put (front ++ rest) name a = front ++ put rest name a := by
  induction front with
  | nil => rfl
  | cons e front ih =>
    obtain ⟨n, b⟩ := e
    rw [names, List.map_cons, List.mem_cons, not_or] at h
    rw [List.cons_append, put, if_neg (Ne.symm h.1), ih h.2, List.cons_append]

theorem put_middle (h : name ∉ front.names) (old a : α) (behind : Entries α) :
    put (front ++ (name, old) :: behind) name a = front ++ (name, a) :: behind := by
  rw [put_append_of_not_mem h, put, if_pos rfl]

theorem sets_iff : Sets name a before after ↔ after = before.put name a := by
  constructor
  · intro h
    cases h with
    | replaced old first => exact (put_middle first old a _).symm
    | appended new => exact (put_of_not_mem a new).symm
  · rintro rfl
    by_cases h : name ∈ before.names
    · obtain ⟨fore, rest, hnames, hfirst⟩ := List.eq_append_cons_of_mem h
      obtain ⟨front, behind, rfl, rfl, hbehind⟩ := List.map_eq_append_iff.1 hnames
      obtain ⟨⟨n, old⟩, behind, rfl, rfl, -⟩ := List.map_eq_cons_iff.1 hbehind
      rw [put_middle hfirst]
      exact .replaced old hfirst
    · rw [put_of_not_mem a h]
      exact .appended h

theorem get?_eq_some_iff :
    entries.get? name = some a ↔ ∃ front behind, entries = front ++ (name, a) :: behind ∧ name ∉ front.names := by
  constructor
  · intro h
    induction entries with
    | nil => cases h
    | cons e rest ih =>
      obtain ⟨n, b⟩ := e
      by_cases hn : n = name
      · subst hn
        rw [get?, if_pos rfl, Option.some.injEq] at h
        exact ⟨[], rest, by rw [h]; rfl, List.not_mem_nil⟩
      · rw [get?, if_neg hn] at h
        obtain ⟨front, behind, rfl, hfirst⟩ := ih h
        exact ⟨(n, b) :: front, behind, rfl, by simpa [names, Ne.symm hn] using hfirst⟩
  · rintro ⟨front, behind, rfl, hfirst⟩
    rw [← put_middle hfirst a a behind]
    exact get?_put_self _ name a

end Entries

namespace Manifest

open Json (Value)

variable {d d' : Disk} {dir exportPath text : String} {manifest changed : Value}

/-! ## Statements -/

/-- A value has an object of exports. -/
def HasExports (manifest : Value) : Prop :=
  ∃ members exports, manifest = .object members ∧ Entries.get? members "exports" = some (.object exports)

/-- What is exported: the files that the two ways of loading a package find. -/
def modules : Value :=
  .object [
    ("require", .object [("types", .string "./procedures.d.ts"), ("node", .string "./procedures.js"),
      ("default", .string "./procedures.js")]),
    ("import", .object [("types", .string "./procedures.d.ts"), ("node", .string "./procedures.mjs"),
      ("default", .string "./procedures.mjs")]),
    ("default", .string "./procedures.js")]

theorem entry_eq_modules : entry = modules :=
  rfl

/-- From one value to another an export is set. All other members are the same, and so are all other exports. -/
inductive SetsEntry (exportPath : String) : Value → Value → Prop
  | intro {front behind exports exports' : Entries Value} (first : "exports" ∉ front.names)
    (set : Entries.Sets exportPath modules exports exports') :
    SetsEntry exportPath (.object (front ++ ("exports", .object exports) :: behind))
      (.object (front ++ ("exports", .object exports') :: behind))

/-- From one disk to another an export is set in the value that is read from the manifest of a directory. Nothing else
has changed, and nothing changes when it is registered again. -/
structure SetsIn (d d' : Disk) (dir exportPath : String) (manifest : Value) : Prop where
  value : ∃ text changed, d'.Has (path dir) text ∧ Value.parse text = .ok changed ∧ SetsEntry exportPath manifest changed
  workingDir : d'.workingDir = d.workingDir
  others : ∀ place ≠ d.denoted (path dir), d'.kindAt? place = d.kindAt? place
  again : register d' dir exportPath = (d', .ok .unchanged)

/-- What is promised about registering an export in a directory. -/
structure RegisterContract (d : Disk) (dir exportPath : String) : Prop where
  file : path dir = Path.join dir "package.json"
  missing : d.find (path dir) = .error .notFound → register d dir exportPath = (d, .ok .missing)
  unreadable : d.find (path dir) ≠ .error .notFound → (∀ text, ¬ d.Has (path dir) text) →
    ∃ cause, register d dir exportPath = (d, .error (.unreadable (path dir) cause))
  malformed : ∀ text cause, d.Has (path dir) text → Value.parse text = .error cause →
    register d dir exportPath = (d, .error (.malformed (path dir) cause))
  noExports : ∀ text manifest, d.Has (path dir) text → Value.parse text = .ok manifest → ¬ HasExports manifest →
    register d dir exportPath = (d, .ok .noExports)
  sets : ∀ text manifest, d.Has (path dir) text → Value.parse text = .ok manifest → HasExports manifest →
    manifest.IsWhole → ∃ d' outcome, register d dir exportPath = (d', .ok outcome) ∧
      (outcome = .registered ∨ outcome = .unchanged ∧ d' = d) ∧ SetsIn d d' dir exportPath manifest

/-! ## Values -/

theorem setsEntry_iff : SetsEntry exportPath manifest changed ↔ withExport? manifest exportPath = some changed := by
  rw [withExport?_eq_some_iff, entry_eq_modules]
  constructor
  · rintro ⟨first, set⟩
    rw [Entries.sets_iff] at set
    subst set
    exact ⟨_, _, rfl, Entries.get?_eq_some_iff.2 ⟨_, _, rfl, first⟩, by rw [Entries.put_middle first]⟩
  · rintro ⟨members, exports, rfl, hget, rfl⟩
    obtain ⟨front, behind, rfl, first⟩ := Entries.get?_eq_some_iff.1 hget
    rw [Entries.put_middle first]
    exact .intro first (Entries.sets_iff.2 rfl)

/-- An export that is there is replaced in its place. -/
example :
    withExport? (.object [("exports", .object [("./a", .null), ("./b", .null)]), ("name", .string "n")]) "./a" =
      some (.object [("exports", .object [("./a", entry), ("./b", .null)]), ("name", .string "n")]) := rfl

theorem hasExports_iff (exportPath : String) :
    HasExports manifest ↔ ∃ changed, withExport? manifest exportPath = some changed := by
  constructor
  · rintro ⟨members, exports, rfl, hget⟩
    exact ⟨_, withExport?_eq_some_iff.2 ⟨members, exports, rfl, hget, rfl⟩⟩
  · rintro ⟨changed, h⟩
    obtain ⟨members, exports, hmanifest, hget, -⟩ := withExport?_eq_some_iff.1 h
    exact ⟨members, exports, hmanifest, hget⟩

/-! ## Registering -/

theorem hasWholeNumbers_of_has (hhas : d.Has (path dir) text) (hparse : Value.parse text = .ok manifest)
    (hwhole : manifest.IsWhole) : HasWholeNumbers d dir := by
  intro content other read hfile htext hread
  obtain ⟨place, old, hplace, hold, hold'⟩ := Disk.readText_eq_ok_iff.1 (Disk.readText_eq_ok_iff_has.2 hhas)
  rw [Disk.eq_denoted_of_locate hplace, Disk.kindAt?_eq_file_iff, hfile] at hold
  cases hold
  rw [htext, Option.some.injEq] at hold'
  subst hold'
  rw [hparse, Except.ok.injEq] at hread
  rwa [← hread]

/-- Saving a manifest where one is comes to a change, or finds the text that is there. -/
theorem exists_save {file old : String} (h : d.Has file old) (changed : Value) :
    ∃ d' outcome, save d file changed = (d', .ok outcome) ∧ (outcome = .registered ∨ outcome = .unchanged ∧ d' = d) ∧
      d'.Has file changed.render ∧ d'.workingDir = d.workingDir ∧
      ∀ place ≠ d.denoted file, d'.kindAt? place = d.kindAt? place := by
  obtain ⟨d', outcome, hwrite⟩ := Disk.exists_writeText_of_has h changed.render
  have hkeeps := Disk.keeps_writeText d file changed.render
  rw [hwrite] at hkeeps
  have hhas := Disk.readText_eq_ok_iff_has.1 (Disk.readText_writeText hwrite)
  have hothers : ∀ place ≠ d.denoted file, d'.kindAt? place = d.kindAt? place := fun place hplace =>
    Disk.kindAt?_writeText_of_has h hwrite hplace
  unfold save
  rw [hwrite]
  rcases Disk.writeText_outcome hwrite with ⟨rfl, -, hsame⟩ | ⟨rfl, -⟩
  · exact ⟨d', .unchanged, rfl, .inr ⟨rfl, hsame⟩, hhas, hkeeps.workingDir, hothers⟩
  · exact ⟨d', .registered, rfl, .inl rfl, hhas, hkeeps.workingDir, hothers⟩

/-- Where a manifest is read, registering depends on whether it has exports. -/
theorem register_of_has (hhas : d.Has (path dir) text) (hparse : Value.parse text = .ok manifest) :
    register d dir exportPath =
      match withExport? manifest exportPath with
      | none => (d, .ok .noExports)
      | some changed => save d (path dir) changed := by
  unfold register
  dsimp only
  rw [Disk.readText_eq_ok_iff_has.2 hhas]
  dsimp only
  rewrite [hparse]
  rfl

theorem exists_setsIn (hhas : d.Has (path dir) text) (hparse : Value.parse text = .ok manifest)
    (hexports : HasExports manifest) (hwhole : manifest.IsWhole) :
    ∃ d' outcome, register d dir exportPath = (d', .ok outcome) ∧
      (outcome = .registered ∨ outcome = .unchanged ∧ d' = d) ∧ SetsIn d d' dir exportPath manifest := by
  obtain ⟨changed, hchanged⟩ := (hasExports_iff exportPath).1 hexports
  obtain ⟨d', outcome, hsave, houtcome, hsaved, hworkingDir, hothers⟩ := exists_save hhas changed
  have hregister : register d dir exportPath = (d', .ok outcome) := by
    rw [register_of_has hhas hparse, hchanged]
    exact hsave
  have hagain : outcome.again = .unchanged := by
    rcases houtcome with rfl | ⟨rfl, -⟩ <;> rfl
  refine ⟨d', outcome, hregister, houtcome, ⟨changed.render, changed, hsaved, ?_, ?_⟩, hworkingDir, hothers, ?_⟩
  · exact parse_render_withExport hparse hwhole hchanged
  · exact setsEntry_iff.2 hchanged
  · rw [← hagain]
    exact register_again hregister (hasWholeNumbers_of_has hhas hparse hwhole) rfl

/-- Whatever a disk holds, registering an export in any directory keeps the contract. -/
theorem register_contract (d : Disk) (dir exportPath : String) : RegisterContract d dir exportPath := by
  constructor
  · rfl
  · intro h
    unfold register
    dsimp only
    rw [Disk.readText_eq_notFound_iff.2 h]
  · intro hfound hnone
    cases hread : d.readText (path dir) with
    | ok text => exact absurd (Disk.readText_eq_ok_iff_has.1 hread) (hnone text)
    | error cause =>
      have hcause : cause ≠ .notFound := by
        rintro rfl
        exact hfound (Disk.readText_eq_notFound_iff.1 hread)
      refine ⟨cause, ?_⟩
      unfold register
      dsimp only
      rw [hread]
      cases cause with
      | notFound => exact absurd rfl hcause
      | _ => rfl
  · intro text cause hhas hparse
    unfold register
    dsimp only
    rw [Disk.readText_eq_ok_iff_has.2 hhas]
    dsimp only
    rw [hparse]
  · intro text manifest hhas hparse hexports
    rw [register_of_has hhas hparse]
    cases hchanged : withExport? manifest exportPath with
    | none => rfl
    | some changed => exact absurd ((hasExports_iff exportPath).2 ⟨changed, hchanged⟩) hexports
  · intro text manifest hhas hparse hexports hwhole
    exact exists_setsIn hhas hparse hexports hwhole

end Manifest
end AnnotatedSql
