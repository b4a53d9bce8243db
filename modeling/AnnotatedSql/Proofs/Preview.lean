import AnnotatedSql.Config.Load
import AnnotatedSql.Output.Run
import AnnotatedSql.Proofs.Writing
/-!
# Planned files and written files

The files of a generation can be told without a disk. Each step of a run changes one file at most
(`OutputStep.keeps_perform`), so what a step has written is there at the end unless a later step has the same place
(`OutputStep.readText_performAll`). Two steps of a generation have the same place only if the client and the package
are one directory, and then the shims are written over the modules (`Generation.files_held_iff`).
-/

namespace AnnotatedSql

open Disk (Keeps Place)

variable {d d' : Disk} {s s' : Summary}

/-! ## Steps -/

theorem Manifest.keeps_register (d : Disk) (dir exportPath : String) :
    Keeps {d.denoted (path dir)} d (register d dir exportPath).1 := by
  unfold register
  dsimp only
  split
  · exact .refl _ d
  · exact .refl _ d
  · split
    · exact .refl _ d
    · split
      · exact .refl _ d
      · rename_i manifest _
        have hwrite := d.keeps_writeText (path dir) manifest.render
        unfold save
        split <;> rename_i h <;> rw [h] at hwrite <;> exact hwrite

namespace OutputStep

/-- The path of the file that a step may change. -/
def path : OutputStep → String
  | write file => file.path
  | register dir _ => Manifest.path dir

theorem keeps_perform (d : Disk) (s : Summary) (step : OutputStep) :
    Keeps {d.denoted step.path} d (step.perform d s).1 := by
  cases step with
  | write file =>
    have hwrite := d.keeps_writeText file.path file.content
    unfold perform
    dsimp only
    split <;> rename_i h <;> rw [h] at hwrite <;> exact hwrite
  | register dir exportPath =>
    have hregister := Manifest.keeps_register d dir exportPath
    unfold perform
    dsimp only
    split <;> rename_i h <;> rw [h] at hregister <;> exact hregister

theorem perform_write_eq_ok_iff {file : PlannedFile} :
    perform d s (.write file) = (d', .ok s') ↔
      ∃ outcome, d.writeText file.path file.content = (d', .ok outcome) ∧ s' = recordFile s file.path outcome := by
  unfold perform
  dsimp only
  constructor
  · intro h
    split at h
    · cases h
    · rename_i outcome hwrite
      cases h
      exact ⟨outcome, hwrite, rfl⟩
  · rintro ⟨outcome, hwrite, rfl⟩
    rw [hwrite]

theorem perform_register_eq_ok_iff {dir exportPath : String} :
    perform d s (.register dir exportPath) = (d', .ok s') ↔
      ∃ outcome, Manifest.register d dir exportPath = (d', .ok outcome) ∧
        s' = recordManifest s (Manifest.path dir) outcome := by
  unfold perform
  dsimp only
  constructor
  · intro h
    split at h
    · cases h
    · rename_i outcome hregister
      cases h
      exact ⟨outcome, hregister, rfl⟩
  · rintro ⟨outcome, hregister, rfl⟩
    rw [hregister]

theorem performAll_cons_eq_ok_iff {step : OutputStep} {steps : List OutputStep} :
    performAll d s (step :: steps) = (d', .ok s') ↔
      ∃ d₁ s₁, step.perform d s = (d₁, .ok s₁) ∧ performAll d₁ s₁ steps = (d', .ok s') := by
  rw [performAll]
  constructor
  · intro h
    split at h
    · cases h
    · rename_i d₁ s₁ hstep
      exact ⟨d₁, s₁, hstep, h⟩
  · rintro ⟨d₁, s₁, hstep, h⟩
    rw [hstep]
    exact h

/-- A run changes files at the places of its steps only. -/
theorem keeps_performAll {steps : List OutputStep} (h : performAll d s steps = (d', .ok s')) :
    Keeps {place | place ∈ steps.map (d.denoted ·.path)} d d' := by
  induction steps generalizing d s with
  | nil =>
    cases h
    exact .refl _ _
  | cons step steps ih =>
    obtain ⟨d₁, s₁, hstep, hsteps⟩ := performAll_cons_eq_ok_iff.1 h
    have hfirst := keeps_perform d s step
    rw [hstep] at hfirst
    have hrest := ih hsteps
    simp only [hfirst.denoted_eq] at hrest
    exact (hfirst.mono fun _ hplace => by simp_all).trans (hrest.mono fun _ hplace => List.mem_cons_of_mem _ hplace)

/-- What a run writes is there at its end if its steps have different places. -/
theorem readText_performAll {steps : List OutputStep} (h : performAll d s steps = (d', .ok s'))
    (hnodup : (steps.map (d.denoted ·.path)).Nodup) {file : PlannedFile} (hfile : .write file ∈ steps) :
    d'.readText file.path = .ok file.content := by
  induction steps generalizing d s with
  | nil => cases hfile
  | cons step steps ih =>
    obtain ⟨d₁, s₁, hstep, hsteps⟩ := performAll_cons_eq_ok_iff.1 h
    have hfirst := keeps_perform d s step
    rw [hstep] at hfirst
    rw [List.map_cons, List.nodup_cons] at hnodup
    rcases List.mem_cons.1 hfile with rfl | hlater
    · -- the later steps have other places
      obtain ⟨outcome, hwrite, -⟩ := perform_write_eq_ok_iff.1 hstep
      refine (keeps_performAll hsteps).readText ?_ (Disk.readText_writeText hwrite)
      simp only [hfirst.denoted_eq]
      exact hnodup.1
    · refine ih hsteps ?_ hlater
      simp only [hfirst.denoted_eq]
      exact hnodup.2

end OutputStep

/-! ## Places of the planned files -/

theorem ModuleKind.isPlainName_fileName (kind : ModuleKind) : Disk.IsPlainName kind.fileName := by
  cases kind <;> decide

namespace Generation

variable {g : Generation} {l : Layout}

theorem map_denoted_files (g : Generation) (l : Layout) (d : Disk) :
    (g.files l).map (d.denoted ·.path) =
      (ModuleKind.all.map fun kind => d.denoted l.client ++ [kind.fileName]) ++
        (ModuleKind.all.map fun kind => d.denoted l.package ++ [kind.fileName]) := by
  simp [files, moduleFile, shimFile, ModuleKind.pathIn, Disk.denoted_join, ModuleKind.isPlainName_fileName,
    Function.comp_def]

/-- The planned files are different files exactly if the client and the package are different directories. -/
theorem nodup_files_iff :
    ((g.files l).map (d.denoted ·.path)).Nodup ↔ d.denoted l.client ≠ d.denoted l.package := by
  rw [map_denoted_files]
  constructor
  · intro hnodup hsame
    rw [hsame] at hnodup
    simp [ModuleKind.all] at hnodup
  · intro hne
    simp [ModuleKind.all, ModuleKind.fileName, hne]

theorem denoted_manifest (d : Disk) (dir : String) :
    d.denoted (Manifest.path dir) = d.denoted dir ++ ["package.json"] :=
  d.denoted_join dir (by decide)

theorem denoted_manifest_not_mem (g : Generation) (l : Layout) (d : Disk) (dir : String) :
    d.denoted (Manifest.path dir) ∉ (g.files l).map (d.denoted ·.path) := by
  rw [denoted_manifest, map_denoted_files]
  simp [ModuleKind.all, ModuleKind.fileName]

theorem map_denoted_steps (g : Generation) (l : Layout) (d : Disk) :
    (g.steps l).map (d.denoted ·.path) = (g.files l).map (d.denoted ·.path) ++
      [d.denoted l.client ++ ["package.json"], d.denoted l.package ++ ["package.json"]] := by
  simp [steps, OutputStep.path, denoted_manifest, Function.comp_def]

theorem nodup_steps (h : d.denoted l.client ≠ d.denoted l.package) (g : Generation) :
    ((g.steps l).map (d.denoted ·.path)).Nodup := by
  rw [map_denoted_steps, map_denoted_files]
  simp [ModuleKind.all, ModuleKind.fileName, h, h.symm]

theorem file_ne_shim (mode : Mode) (procedures : List Procedure) :
    ModuleKind.commonJs.file mode procedures ≠ ModuleKind.commonJs.shim := by
  have hmodule : (ModuleKind.commonJs.file mode procedures).toList.head? = some 'c' := by
    have hpreamble : (ModuleKind.commonJs.preamble mode).toList.head? = some 'c' := by
      cases mode <;> decide +kernel
    rw [ModuleKind.file, String.toList_append, String.toList_append, List.append_assoc, List.head?_append, hpreamble]
    rfl
  have hshim : ModuleKind.commonJs.shim.toList.head? = some '"' := by decide +kernel
  intro h
  rw [h, hshim] at hmodule
  exact absurd hmodule (by decide)

/-- In one directory a module and its shim would be one file with two contents. -/
theorem exists_not_held (h : g.run l d = (d', .ok s)) (hsame : d.denoted l.client = d.denoted l.package) :
    ∃ file ∈ g.files l, d'.readText file.path ≠ .ok file.content := by
  by_contra hheld
  push Not at hheld
  have hmodule := hheld (g.moduleFile l .commonJs) (by simp [files, ModuleKind.all])
  have hshim := hheld (shimFile l .commonJs) (by simp [files, ModuleKind.all])
  have hplaces : d.denoted (g.moduleFile l .commonJs).path = d.denoted (shimFile l .commonJs).path := by
    simp [moduleFile, shimFile, ModuleKind.pathIn, Disk.denoted_join, ModuleKind.isPlainName_fileName, hsame]
  refine file_ne_shim g.mode g.procedures (Disk.text_unique hmodule hshim ?_)
  have hkeeps := OutputStep.keeps_performAll h
  rw [hkeeps.denoted_eq, hkeeps.denoted_eq, hplaces]

/-- Every planned file holds its content after a run, unless the client and the package are one directory. -/
theorem files_held_iff (h : g.run l d = (d', .ok s)) :
    (∀ file ∈ g.files l, d'.readText file.path = .ok file.content) ↔ d.denoted l.client ≠ d.denoted l.package := by
  constructor
  · intro hheld hsame
    obtain ⟨file, hfile, hnot⟩ := exists_not_held h hsame
    exact hnot (hheld file hfile)
  · intro hplaces file hfile
    refine OutputStep.readText_performAll h (nodup_steps hplaces g) (List.mem_append_left _ ?_)
    exact List.mem_map_of_mem hfile

theorem exists_run_of_summary (h : (g.run l d).2 = .ok s) : ∃ d', g.run l d = (d', .ok s) :=
  ⟨_, Prod.ext rfl h⟩

/-- Here the path of the client goes through a directory that is missing at first, and one planned file is there with
another content. -/
theorem files_held_iff_detour :
    ∃ d d' s, (Generation.mk [] .compose).run ⟨"app/../out", "lib", "./procedures"⟩ d = (d', .ok s) ∧
      s.registered = ["app/../out/package.json"] ∧
      ∀ file ∈ (Generation.mk [] .compose).files ⟨"app/../out", "lib", "./procedures"⟩,
        d'.readText file.path = .ok file.content := by
  let d : Disk := ⟨.dir [("out", .dir [("procedures.js", .file "old".toUTF8),
    ("package.json", .file "\x7b\"exports\": \x7b\x7d\x7d".toUTF8)])], []⟩
  have hsummary : ((Generation.mk [] .compose).run ⟨"app/../out", "lib", "./procedures"⟩ d).2 =
      .ok ⟨["app/../out/procedures.js", "app/../out/procedures.mjs", "app/../out/procedures.d.ts",
          "lib/procedures.js", "lib/procedures.mjs", "lib/procedures.d.ts"], [],
        ["app/../out/package.json"], ["lib/package.json"]⟩ := by
    decide +kernel
  obtain ⟨d', hrun⟩ := exists_run_of_summary hsummary
  exact ⟨d, d', _, hrun, rfl, (files_held_iff hrun).2 (by decide +kernel)⟩

/-- The client may be configured to be the directory of the package, and a run then writes each shim over a module. -/
theorem not_files_held_same_directory :
    ∃ c d' s, Config.parse "[output]\nclient = \"node_modules/@prisma/client\"\n" = .ok c ∧
      (Generation.mk [] c.mode).run c.layout .empty = (d', .ok s) ∧
      s.written = ["node_modules/@prisma/client/procedures.js", "node_modules/@prisma/client/procedures.mjs",
        "node_modules/@prisma/client/procedures.d.ts", "node_modules/@prisma/client/procedures.js",
        "node_modules/@prisma/client/procedures.mjs", "node_modules/@prisma/client/procedures.d.ts"] ∧
      ∃ file ∈ (Generation.mk [] c.mode).files c.layout, d'.readText file.path ≠ .ok file.content := by
  have hparse : Config.parse "[output]\nclient = \"node_modules/@prisma/client\"\n" =
      .ok ⟨"prisma/procedures", .execute,
        ⟨"node_modules/@prisma/client", "node_modules/@prisma/client", "./procedures"⟩⟩ := by
    decide +kernel
  have hsummary : ((Generation.mk [] .execute).run
      ⟨"node_modules/@prisma/client", "node_modules/@prisma/client", "./procedures"⟩ .empty).2 =
      .ok ⟨["node_modules/@prisma/client/procedures.js", "node_modules/@prisma/client/procedures.mjs",
          "node_modules/@prisma/client/procedures.d.ts", "node_modules/@prisma/client/procedures.js",
          "node_modules/@prisma/client/procedures.mjs", "node_modules/@prisma/client/procedures.d.ts"], [], [],
        ["node_modules/@prisma/client/package.json", "node_modules/@prisma/client/package.json"]⟩ := by
    decide +kernel
  obtain ⟨d', hrun⟩ := exists_run_of_summary hsummary
  exact ⟨_, d', _, hparse, hrun, rfl, exists_not_held hrun rfl⟩

end Generation
end AnnotatedSql
