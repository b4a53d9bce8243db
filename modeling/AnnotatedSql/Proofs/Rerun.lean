import AnnotatedSql.Proofs.Preview
import AnnotatedSql.Proofs.Registration
/-!
# Running twice

A run leaves every planned file with its content and both manifests with the export set, so that a second run finds
everything done (`Generation.run_again`).
-/

namespace AnnotatedSql

open Disk (Keeps Place)

variable {d d' : Disk} {s s' : Summary}

namespace OutputStep

theorem performAll_append_eq_ok_iff {steps more : List OutputStep} :
    performAll d s (steps ++ more) = (d', .ok s') ↔
      ∃ d₁ s₁, performAll d s steps = (d₁, .ok s₁) ∧ performAll d₁ s₁ more = (d', .ok s') := by
  induction steps generalizing d s with
  | nil =>
    constructor
    · exact fun h => ⟨d, s, rfl, h⟩
    · rintro ⟨d₁, s₁, hnil, h⟩
      cases hnil
      exact h
  | cons step steps ih =>
    simp only [List.cons_append, performAll_cons_eq_ok_iff, ih]
    constructor
    · rintro ⟨d₁, s₁, hstep, d₂, s₂, hsteps, hmore⟩
      exact ⟨d₂, s₂, ⟨d₁, s₁, hstep, hsteps⟩, hmore⟩
    · rintro ⟨d₂, s₂, ⟨d₁, s₁, hstep, hsteps⟩, hmore⟩
      exact ⟨d₁, s₁, hstep, d₂, s₂, hsteps, hmore⟩

/-- Writing planned files registers nothing, and reports each of their paths once. -/
theorem summary_of_writes {files : List PlannedFile} (h : performAll d s (files.map .write) = (d', .ok s')) :
    s'.registered = s.registered ∧ s'.skipped = s.skipped ∧
      (s'.written ++ s'.unchanged).Perm (s.written ++ s.unchanged ++ files.map (·.path)) := by
  induction files generalizing d s with
  | nil =>
    cases h
    simp
  | cons file files ih =>
    obtain ⟨d₁, s₁, hstep, hsteps⟩ := performAll_cons_eq_ok_iff.1 h
    obtain ⟨hregistered, hskipped, hpaths⟩ := ih hsteps
    obtain ⟨outcome, -, rfl⟩ := perform_write_eq_ok_iff.1 hstep
    have hfirst : ((recordFile s file.path outcome).written ++ (recordFile s file.path outcome).unchanged).Perm
        (s.written ++ s.unchanged ++ [file.path]) := by
      cases outcome with
      | written =>
        have hswap : ([file.path] ++ s.unchanged).Perm (s.unchanged ++ [file.path]) := List.perm_append_comm
        simpa [recordFile] using hswap.append_left s.written
      | unchanged => simp [recordFile]
    refine ⟨?_, ?_, ?_⟩
    · rw [hregistered]
      cases outcome <;> rfl
    · rw [hskipped]
      cases outcome <;> rfl
    · rw [List.map_cons, ← List.singleton_append, ← List.append_assoc]
      exact hpaths.trans (hfirst.append_right _)

/-- Planned files that hold their contents are left alone. -/
theorem performAll_writes_of_held {files : List PlannedFile}
    (h : ∀ file ∈ files, d.readText file.path = .ok file.content) (s : Summary) :
    performAll d s (files.map .write) = (d, .ok { s with unchanged := s.unchanged ++ files.map (·.path) }) := by
  induction files generalizing s with
  | nil => simp [performAll]
  | cons file files ih =>
    rw [List.forall_mem_cons] at h
    have hstep : perform d s (.write file) = (d, .ok (recordFile s file.path .unchanged)) :=
      perform_write_eq_ok_iff.2 ⟨_, Disk.writeText_of_readText h.1, rfl⟩
    refine performAll_cons_eq_ok_iff.2 ⟨d, _, hstep, ?_⟩
    rw [ih h.2]
    simp [recordFile]

theorem written_recordManifest (s : Summary) (path : String) (outcome : Manifest.Outcome) :
    (recordManifest s path outcome).written = s.written := by
  cases outcome <;> rfl

theorem unchanged_recordManifest (s : Summary) (path : String) (outcome : Manifest.Outcome) :
    (recordManifest s path outcome).unchanged = s.unchanged := by
  cases outcome <;> rfl

/-- Recording a manifest is the same whatever files a summary lists. -/
theorem recordManifest_eq (s : Summary) (path : String) (outcome : Manifest.Outcome) (written unchanged : List String) :
    recordManifest ⟨written, unchanged, s.registered, s.skipped⟩ path outcome =
      ⟨written, unchanged, (recordManifest s path outcome).registered, (recordManifest s path outcome).skipped⟩ := by
  cases outcome <;> rfl

theorem recordManifest_again (s : Summary) (path : String) (outcome : Manifest.Outcome) :
    recordManifest s path outcome.again = recordManifest s path outcome := by
  cases outcome <;> rfl

end OutputStep

namespace Generation

variable {g : Generation} {l : Layout}

theorem keeps_writes (h : OutputStep.performAll d s ((g.files l).map .write) = (d', .ok s')) :
    Keeps {place | place ∈ (g.files l).map (d.denoted ·.path)} d d' := by
  have hkeeps := OutputStep.keeps_performAll h
  rw [List.map_map] at hkeeps
  exact hkeeps

/-- Both manifests come to what they came to before when they are registered after a run. -/
theorem register_again {exportPath : String} {d₁ d₂ : Disk} {first second : Manifest.Outcome}
    (hplaces : d₁.denoted l.client ≠ d₁.denoted l.package)
    (hclient : Manifest.register d₁ l.client exportPath = (d₂, .ok first))
    (hpackage : Manifest.register d₂ l.package exportPath = (d', .ok second))
    (hwhole : ∀ dir ∈ [l.client, l.package], Manifest.HasWholeNumbers d₁ dir) :
    Manifest.register d' l.client exportPath = (d', .ok first.again) ∧
      Manifest.register d' l.package exportPath = (d', .ok second.again) := by
  simp only [List.forall_mem_cons, List.not_mem_nil, false_imp_iff, implies_true, and_true] at hwhole
  have hkeeps := Manifest.keeps_register d₁ l.client exportPath
  rw [hclient] at hkeeps
  have hmanifests : d₁.denoted (Manifest.path l.client) ≠ d₁.denoted (Manifest.path l.package) := by
    rw [denoted_manifest, denoted_manifest]
    simpa using hplaces
  constructor
  · refine Manifest.register_again hclient hwhole.1 (Manifest.readText_register hpackage ?_)
    rwa [hkeeps.denoted_eq, hkeeps.denoted_eq]
  · exact Manifest.register_again hpackage (hwhole.2.of_keeps hkeeps hmanifests.symm) rfl

/-- A second run succeeds, changes nothing and reports every planned file as unchanged and the manifests as before, if
the planned files are different ones and both manifests have whole numbers only. -/
theorem run_again (h : g.run l d = (d', .ok s)) (hplaces : ((g.files l).map (d.denoted ·.path)).Nodup)
    (hwhole : ∀ dir ∈ [l.client, l.package], Manifest.HasWholeNumbers d dir) :
    g.run l d' = (d', .ok ⟨[], (g.files l).map (·.path), s.registered, s.skipped⟩) ∧
      (s.written ++ s.unchanged).Perm ((g.files l).map (·.path)) := by
  have hne := nodup_files_iff.1 hplaces
  have hheld : ∀ file ∈ g.files l, d'.readText file.path = .ok file.content := by
    intro file hfile
    exact OutputStep.readText_performAll h (nodup_steps hne g) (List.mem_append_left _ (List.mem_map_of_mem hfile))
  unfold run steps at h ⊢
  rw [OutputStep.performAll_append_eq_ok_iff] at h
  obtain ⟨d₁, s₁, hwrites, hregisters⟩ := h
  obtain ⟨d₂, s₂, hclient, hregisters⟩ := OutputStep.performAll_cons_eq_ok_iff.1 hregisters
  obtain ⟨d₃, s₃, hpackage, hend⟩ := OutputStep.performAll_cons_eq_ok_iff.1 hregisters
  cases hend
  obtain ⟨first, hfirst, rfl⟩ := OutputStep.perform_register_eq_ok_iff.1 hclient
  obtain ⟨second, hsecond, rfl⟩ := OutputStep.perform_register_eq_ok_iff.1 hpackage
  obtain ⟨hregistered, hskipped, hpaths⟩ := OutputStep.summary_of_writes hwrites
  have hkeeps := keeps_writes hwrites
  rw [← hkeeps.denoted_eq, ← hkeeps.denoted_eq] at hne
  obtain ⟨hfirstAgain, hsecondAgain⟩ := register_again hne hfirst hsecond fun dir hdir =>
    (hwhole dir hdir).of_keeps hkeeps (denoted_manifest_not_mem g l d dir)
  constructor
  · have hstart : ∀ paths, { Summary.empty with unchanged := Summary.empty.unchanged ++ paths } =
        ⟨[], paths, s₁.registered, s₁.skipped⟩ := by
      intro paths
      rw [hregistered, hskipped]
      rfl
    refine OutputStep.performAll_append_eq_ok_iff.2 ⟨d', _, OutputStep.performAll_writes_of_held hheld .empty, ?_⟩
    refine OutputStep.performAll_cons_eq_ok_iff.2
      ⟨d', _, OutputStep.perform_register_eq_ok_iff.2 ⟨_, hfirstAgain, rfl⟩, ?_⟩
    refine OutputStep.performAll_cons_eq_ok_iff.2
      ⟨d', _, OutputStep.perform_register_eq_ok_iff.2 ⟨_, hsecondAgain, rfl⟩, ?_⟩
    rw [hstart, OutputStep.recordManifest_again, OutputStep.recordManifest_again, OutputStep.recordManifest_eq s₁,
      OutputStep.recordManifest_eq (OutputStep.recordManifest s₁ _ _)]
    rfl
  · rw [OutputStep.written_recordManifest, OutputStep.written_recordManifest, OutputStep.unchanged_recordManifest,
      OutputStep.unchanged_recordManifest]
    exact hpaths

/-- Here the client has a manifest in which the first run sets the export, and a planned file with another content; the
directory of the package is missing. -/
theorem run_again_first_export :
    ∃ d d' s, (Generation.mk [] .compose).run ⟨"out", "lib", "./procedures"⟩ d = (d', .ok s) ∧
      s.written.length = 6 ∧ s.registered = ["out/package.json"] ∧
      (Generation.mk [] .compose).run ⟨"out", "lib", "./procedures"⟩ d' =
        (d', .ok ⟨[], ["out/procedures.js", "out/procedures.mjs", "out/procedures.d.ts",
          "lib/procedures.js", "lib/procedures.mjs", "lib/procedures.d.ts"],
          ["out/package.json"], ["lib/package.json"]⟩) := by
  let manifest : Json.Value := .object [("version", .number (.integer 2)), ("exports", .object []),
    ("main", .string "index.js")]
  let d : Disk := ⟨.dir [("out", .dir [("procedures.js", .file "old".toUTF8),
    ("package.json", .file manifest.render.toUTF8)])], []⟩
  have hsummary : ((Generation.mk [] .compose).run ⟨"out", "lib", "./procedures"⟩ d).2 =
      .ok ⟨["out/procedures.js", "out/procedures.mjs", "out/procedures.d.ts",
          "lib/procedures.js", "lib/procedures.mjs", "lib/procedures.d.ts"], [],
        ["out/package.json"], ["lib/package.json"]⟩ := by
    decide +kernel
  obtain ⟨d', hrun⟩ := exists_run_of_summary hsummary
  have hplaces : (((Generation.mk [] .compose).files ⟨"out", "lib", "./procedures"⟩).map (d.denoted ·.path)).Nodup :=
    nodup_files_iff.2 (by decide +kernel)
  have hmanifest : manifest.WellFormed Json.maxDepth := by
    refine .object (by decide) ?_
    simp only [List.forall_mem_cons, List.not_mem_nil, false_imp_iff, implies_true, and_true]
    exact ⟨.number _ _, .object (by decide) (by simp), .string _ _⟩
  have hwhole : manifest.IsWhole := by
    have hversion : (Json.Number.integer 2).IsWhole := .integer (by decide) (by decide)
    refine .object ?_
    simp only [List.forall_mem_cons, List.not_mem_nil, false_imp_iff, implies_true, and_true]
    exact ⟨.number hversion, .object (by simp), .string _⟩
  have hclient : Manifest.HasWholeNumbers d "out" := by
    intro content text read hfile htext hparse
    have hplace : d.denoted (Manifest.path "out") = ["out", "package.json"] := by decide +kernel
    rw [hplace] at hfile
    cases hfile
    rw [Disk.fromUTF8?_toUTF8] at htext
    cases htext
    rw [Json.parse_render hmanifest hwhole] at hparse
    cases hparse
    exact hwhole
  have hpackage : Manifest.HasWholeNumbers d "lib" := by
    intro content text read hfile
    have hnone : d.at? (d.denoted (Manifest.path "lib")) = none := by decide +kernel
    rw [hnone] at hfile
    cases hfile
  have hboth : ∀ dir ∈ ["out", "lib"], Manifest.HasWholeNumbers d dir :=
    List.forall_mem_cons.2 ⟨hclient, List.forall_mem_singleton.2 hpackage⟩
  exact ⟨d, d', _, hrun, rfl, rfl, (run_again hrun hplaces hboth).1⟩

end Generation
end AnnotatedSql
