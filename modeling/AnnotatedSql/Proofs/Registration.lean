import AnnotatedSql.Manifest
import AnnotatedSql.Proofs.Directories
import AnnotatedSql.Proofs.JsonValue
/-!
# Registering an export twice

A manifest in which an export is set already is not changed by setting it (`Manifest.withExport?_withExport?`), and
reading it from its text gives it back (`Manifest.parse_render_withExport`). So registering an export a second time
finds the text that it would write (`Manifest.register_again`).
-/

namespace AnnotatedSql.Manifest

open Disk (Keeps Place)
open Json (Value)

variable {d d' : Disk} {dir exportPath : String} {manifest changed : Value} {outcome : Outcome}

/-! ## Setting an export -/

theorem withExport?_eq_some_iff :
    withExport? manifest exportPath = some changed ↔
      ∃ members exports, manifest = .object members ∧ Entries.get? members "exports" = some (.object exports) ∧
        changed = .object (Entries.put members "exports" (.object (Entries.put exports exportPath entry))) := by
  unfold withExport?
  constructor
  · intro h
    cases manifest with
    | object members =>
      cases hget : Entries.get? members "exports" with
      | none => simp [Value.members?, hget] at h
      | some v =>
        cases v with
        | object exports => exact ⟨members, exports, rfl, hget, by simpa [Value.members?, hget] using h.symm⟩
        | _ => simp [Value.members?, hget] at h
    | _ => cases h
  · rintro ⟨members, exports, rfl, hget, rfl⟩
    simp [Value.members?, hget]

theorem withExport?_withExport? (h : withExport? manifest exportPath = some changed) :
    withExport? changed exportPath = some changed := by
  obtain ⟨members, exports, -, -, rfl⟩ := withExport?_eq_some_iff.1 h
  refine withExport?_eq_some_iff.2 ⟨_, _, rfl, Entries.get?_put_self .., ?_⟩
  rw [Entries.put_put, Entries.put_put]

theorem wellFormed_entry (depth : Nat) : entry.WellFormed (depth + 2) := by
  have htarget : ∀ kind, (target kind).WellFormed depth := fun kind => .string depth _
  have hconditions : ∀ kind, (conditions kind).WellFormed (depth + 1) := by
    intro kind
    refine .object (by simp [Entries.names]) ?_
    simp [htarget]
  refine .object (by simp [Entries.names]) ?_
  simp [hconditions]
  exact .string _ _

theorem isWhole_entry : entry.IsWhole := by
  have htarget : ∀ kind, (target kind).IsWhole := fun kind => .string _
  have hconditions : ∀ kind, (conditions kind).IsWhole := by
    intro kind
    refine .object ?_
    simp [htarget]
  refine .object ?_
  simp [hconditions, htarget]

theorem wellFormed_withExport {depth : Nat} (h : withExport? manifest exportPath = some changed)
    (hmanifest : manifest.WellFormed (depth + 4)) : changed.WellFormed (depth + 4) := by
  obtain ⟨members, exports, rfl, hget, rfl⟩ := withExport?_eq_some_iff.1 h
  cases hmanifest with
  | object hnames hmembers =>
    cases hmembers _ (Entries.mem_of_get? hget) with
    | object hexportNames hexports =>
      have hset : (Value.object (Entries.put exports exportPath entry)).WellFormed (depth + 3) :=
        .object (Entries.nodup_names_put hexportNames _ _) (Entries.forall_mem_put hexports (wellFormed_entry depth))
      exact .object (Entries.nodup_names_put hnames _ _) (Entries.forall_mem_put hmembers hset)

theorem isWhole_withExport (h : withExport? manifest exportPath = some changed) (hmanifest : manifest.IsWhole) :
    changed.IsWhole := by
  obtain ⟨members, exports, rfl, hget, rfl⟩ := withExport?_eq_some_iff.1 h
  cases hmanifest with
  | object hmembers =>
    cases hmembers _ (Entries.mem_of_get? hget) with
    | object hexports =>
      have hset : (Value.object (Entries.put exports exportPath entry)).IsWhole :=
        .object (Entries.forall_mem_put hexports isWhole_entry)
      exact .object (Entries.forall_mem_put hmembers hset)

/-- A manifest that was read is read back after an export was set in it. -/
theorem parse_render_withExport {text : String} (hparse : Value.parse text = .ok manifest) (hwhole : manifest.IsWhole)
    (h : withExport? manifest exportPath = some changed) : Value.parse changed.render = .ok changed := by
  have hchanged : changed.WellFormed (123 + 4) := wellFormed_withExport h (Json.wellFormed_of_parse hparse)
  exact Json.parse_render hchanged (isWhole_withExport h hwhole)

/-! ## Registering -/

/-- The manifest of a directory, if there is one that can be read, has no numbers but whole ones. -/
def HasWholeNumbers (d : Disk) (dir : String) : Prop :=
  ∀ content text manifest, d.at? (d.denoted (path dir)) = some (.file content) → String.fromUTF8? content = some text →
    Value.parse text = .ok manifest → manifest.IsWhole

theorem HasWholeNumbers.isWhole (h : HasWholeNumbers d dir) {text : String} (hread : d.readText (path dir) = .ok text)
    (hparse : Value.parse text = .ok manifest) : manifest.IsWhole := by
  obtain ⟨place, content, hplace, hfile, htext⟩ := Disk.readText_eq_ok_iff.1 hread
  rw [Disk.eq_denoted_of_locate hplace, Disk.kindAt?_eq_file_iff] at hfile
  exact h content text manifest hfile htext hparse

theorem HasWholeNumbers.of_keeps {places : Set Place} (h : HasWholeNumbers d dir) (hkeeps : Keeps places d d')
    (hplace : d.denoted (path dir) ∉ places) : HasWholeNumbers d' dir := by
  intro content text manifest hfile htext hparse
  rw [hkeeps.denoted_eq, ← Disk.kindAt?_eq_file_iff, hkeeps.file _ hplace, Disk.kindAt?_eq_file_iff] at hfile
  exact h content text manifest hfile htext hparse

/-- What registering an export comes to: either nothing is done, or the manifest is written with the export set. -/
theorem register_cases (h : register d dir exportPath = (d', .ok outcome)) :
    (d' = d ∧ outcome = .missing ∧ d.readText (path dir) = .error .notFound) ∨
      ∃ text manifest, d.readText (path dir) = .ok text ∧ Value.parse text = .ok manifest ∧
        ((d' = d ∧ outcome = .noExports ∧ withExport? manifest exportPath = none) ∨
          ∃ changed, withExport? manifest exportPath = some changed ∧
            ((outcome = .registered ∧ d.writeText (path dir) changed.render = (d', .ok .written)) ∨
              (outcome = .unchanged ∧ d.writeText (path dir) changed.render = (d', .ok .unchanged)))) := by
  unfold register at h
  dsimp only at h
  split at h
  · rename_i hread
    cases h
    exact .inl ⟨rfl, rfl, hread⟩
  · cases h
  · rename_i text hread
    split at h
    · cases h
    · rename_i manifest hparse
      refine .inr ⟨text, manifest, hread, hparse, ?_⟩
      split at h
      · rename_i hnone
        cases h
        exact .inl ⟨rfl, rfl, hnone⟩
      · rename_i changed hchanged
        refine .inr ⟨changed, hchanged, ?_⟩
        unfold save at h
        split at h
        · cases h
        · rename_i hwrite
          cases h
          exact .inl ⟨rfl, hwrite⟩
        · rename_i hwrite
          cases h
          exact .inr ⟨rfl, hwrite⟩

/-- What registering comes to if it is done once more. -/
def Outcome.again : Outcome → Outcome
  | .registered | .unchanged => .unchanged
  | .noExports => .noExports
  | .missing => .missing

/-- Registering comes to the same, without a change, wherever the manifest reads as it does after registering. -/
theorem register_again (h : register d dir exportPath = (d', .ok outcome)) (hwhole : HasWholeNumbers d dir) {d'' : Disk}
    (hsame : d''.readText (path dir) = d'.readText (path dir)) :
    register d'' dir exportPath = (d'', .ok outcome.again) := by
  rcases register_cases h with ⟨rfl, rfl, hread⟩ | ⟨text, manifest, hread, hparse, hcases⟩
  · unfold register
    simp only [hsame, hread]
    rfl
  · rcases hcases with ⟨rfl, rfl, hnone⟩ | ⟨changed, hchanged, hwritten⟩
    · unfold register
      simp only [hsame, hread, hparse, hnone]
      rfl
    · have hheld : d''.readText (path dir) = .ok changed.render ∧ outcome.again = .unchanged := by
        rw [hsame]
        rcases hwritten with ⟨rfl, hwrite⟩ | ⟨rfl, hwrite⟩ <;> exact ⟨Disk.readText_writeText hwrite, rfl⟩
      have hback := parse_render_withExport hparse (hwhole.isWhole hread hparse) hchanged
      rw [hheld.2]
      unfold register save
      simp only [hheld.1, hback, withExport?_withExport? hchanged, Disk.writeText_of_readText hheld.1]

/-- Registering changes what no path but that of the manifest reads as. -/
theorem readText_register (h : register d dir exportPath = (d', .ok outcome)) {other : String}
    (hother : d.denoted other ≠ d.denoted (path dir)) : d'.readText other = d.readText other := by
  rcases register_cases h with ⟨rfl, -, -⟩ | ⟨text, manifest, hread, -, hcases⟩
  · rfl
  · rcases hcases with ⟨rfl, -, -⟩ | ⟨changed, -, ⟨-, hwrite⟩ | ⟨-, hwrite⟩⟩
    · rfl
    · exact Disk.readText_writeText_of_ne hread hwrite hother
    · exact Disk.readText_writeText_of_ne hread hwrite hother

end AnnotatedSql.Manifest
