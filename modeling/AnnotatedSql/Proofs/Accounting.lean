import AnnotatedSql.Proofs.Preview
import AnnotatedSql.Proofs.Registration
/-!
# What a run reports

A run takes its steps in order up to the first that fails. A step that succeeds does one of four things and is entered
in the summary with the mark for it (`OutputStep.Succeeds`), and a step that fails leaves every file as it found it
(`OutputStep.perform_cases`). So the summary of a run has one entry for each of its steps, and a run that fails leaves
the files that the steps in front of the failing one left (`Generation.run_ends`).
-/

namespace AnnotatedSql

open Disk (Keeps Place)

variable {d d' : Disk} {s s' : Summary}

/-! ## Files -/

namespace Disk

/-- A path leads to a file that holds exactly a text. -/
def Has (d : Disk) (path text : String) : Prop :=
  d.find path = .ok (.file text.toUTF8)

/-- The files of two disks stand at the same places with the same contents. -/
def SameFiles (d d' : Disk) : Prop :=
  ∀ place content, d'.at? place = some (.file content) ↔ d.at? place = some (.file content)

theorem readText_eq_ok_iff_has {path text : String} : d.readText path = .ok text ↔ d.Has path text := by
  unfold readText Has
  constructor
  · intro h
    split at h
    · cases h
    · cases h
    · rename_i content hfind
      split at h
      · cases h
      · rename_i old htext
        cases h
        rw [hfind, eq_toUTF8_of_fromUTF8? htext]
  · intro h
    rw [h]
    dsimp only
    rw [fromUTF8?_toUTF8]

theorem readText_eq_notFound_iff {path : String} :
    d.readText path = .error .notFound ↔ d.find path = .error .notFound := by
  unfold readText
  constructor
  · intro h
    split at h
    · rename_i fault hfind
      cases h
      exact hfind
    · cases h
    · split at h <;> cases h
  · intro h
    rw [h]

theorem Keeps.sameFiles (h : Keeps ∅ d d') : SameFiles d d' := by
  intro place content
  rw [← kindAt?_eq_file_iff, ← kindAt?_eq_file_iff]
  exact h.file place (by simp) content

/-- Where a text cannot be written no file changes; directories that were made for it stay. -/
theorem keeps_of_writeText_error {path text : String} {e : WriteError} (h : d.writeText path text = (d', .error e)) :
    Keeps ∅ d d' := by
  unfold writeText at h
  split at h
  · cases h
  · rcases overwrite_cases d path text with ⟨e', h'⟩ | ⟨made, -, h'⟩
    · rw [h'] at h
      cases h
      exact keeps_withParent d path
    · rw [h'] at h
      cases h

/-- A text that is found is left alone, and any other is written. -/
theorem writeText_outcome {path text : String} {outcome : Outcome} (h : d.writeText path text = (d', .ok outcome)) :
    (outcome = .unchanged ∧ d.Has path text ∧ d' = d) ∨ (outcome = .written ∧ ¬ d.Has path text) := by
  rw [← readText_eq_ok_iff_has]
  rcases writeText_cases h with hunchanged | ⟨hwritten, hread, -⟩
  · exact .inl hunchanged
  · exact .inr ⟨hwritten, hread⟩

end Disk

/-! ## Manifests -/

namespace Manifest

open Json (Value)

/-- There is no export to be set in a directory: it has no manifest, or the value of its manifest has no object of
exports. -/
inductive Lacks (d : Disk) (dir : String) : Prop
  | missing (h : d.find (path dir) = .error .notFound)
  | noExports {text : String} {manifest : Value} (has : d.Has (path dir) text) (value : Value.parse text = .ok manifest)
    (none : ¬ ∃ members exports, manifest = .object members ∧ Entries.get? members "exports" = some (.object exports))

/-- From one disk to another an export is set in the manifest of a directory. -/
def Sets (d d' : Disk) (dir exportPath : String) : Prop :=
  ∃ text members exports, d.Has (path dir) text ∧ Value.parse text = .ok (.object members) ∧
    Entries.get? members "exports" = some (.object exports) ∧
    d'.Has (path dir)
      (Value.object (Entries.put members "exports" (.object (Entries.put exports exportPath entry)))).render

theorem keeps_of_register_error {dir exportPath : String} {e : Error}
    (h : register d dir exportPath = (d', .error e)) : Keeps ∅ d d' := by
  unfold register at h
  dsimp only at h
  split at h
  · cases h
  · cases h
    exact .refl _ d
  · split at h
    · cases h
      exact .refl _ d
    · split at h
      · cases h
      · unfold save at h
        split at h
        · rename_i hwrite
          cases h
          exact Disk.keeps_of_writeText_error hwrite
        · cases h
        · cases h

/-- Registering skips a manifest that lacks exports, and sets the export in every other. -/
theorem register_outcome {dir exportPath : String} {outcome : Outcome}
    (h : register d dir exportPath = (d', .ok outcome)) :
    ((outcome = .missing ∨ outcome = .noExports) ∧ Lacks d dir ∧ d' = d) ∨
      ((outcome = .registered ∨ outcome = .unchanged) ∧ ¬ Lacks d dir ∧ Sets d d' dir exportPath) := by
  rcases register_cases h with ⟨rfl, rfl, hread⟩ | ⟨text, manifest, hread, hparse, hcases⟩
  · exact .inl ⟨.inl rfl, .missing (Disk.readText_eq_notFound_iff.1 hread), rfl⟩
  · have hhas := Disk.readText_eq_ok_iff_has.1 hread
    rcases hcases with ⟨rfl, rfl, hnone⟩ | ⟨changed, hchanged, hwritten⟩
    · refine .inl ⟨.inr rfl, .noExports hhas hparse ?_, rfl⟩
      rintro ⟨members, exports, hmanifest, hget⟩
      have hsome : withExport? manifest exportPath = some _ :=
        withExport?_eq_some_iff.2 ⟨members, exports, hmanifest, hget, rfl⟩
      rw [hnone] at hsome
      cases hsome
    · obtain ⟨members, exports, rfl, hget, rfl⟩ := withExport?_eq_some_iff.1 hchanged
      refine .inr ⟨hwritten.imp And.left And.left, ?_, text, members, exports, hhas, hparse, hget, ?_⟩
      · intro hlacks
        cases hlacks with
        | missing hmissing =>
          rw [hhas] at hmissing
          cases hmissing
        | noExports hhas' hparse' hnone =>
          rw [← Disk.readText_eq_ok_iff_has, hread, Except.ok.injEq] at hhas'
          subst hhas'
          rw [hparse, Except.ok.injEq] at hparse'
          subst hparse'
          exact hnone ⟨members, exports, rfl, hget⟩
      · rw [← Disk.readText_eq_ok_iff_has]
        rcases hwritten with ⟨-, hwrite⟩ | ⟨-, hwrite⟩ <;> exact Disk.readText_writeText hwrite

end Manifest

/-! ## Single steps -/

namespace OutputStep

/-- The mark with which a step that succeeded is entered in a summary. -/
inductive Mark
  | written
  | unchanged
  | registered
  | skipped
  deriving DecidableEq, Repr

end OutputStep

open OutputStep (Mark)

namespace Summary

/-- The paths that a summary lists with a mark. -/
def listed (s : Summary) : Mark → List String
  | .written => s.written
  | .unchanged => s.unchanged
  | .registered => s.registered
  | .skipped => s.skipped

/-- A summary with one path more. -/
def enter (s : Summary) (path : String) : Mark → Summary
  | .written => { s with written := s.written ++ [path] }
  | .unchanged => { s with unchanged := s.unchanged ++ [path] }
  | .registered => { s with registered := s.registered ++ [path] }
  | .skipped => { s with skipped := s.skipped ++ [path] }

theorem listed_enter (s : Summary) (path : String) (mark other : Mark) :
    (s.enter path mark).listed other = s.listed other ++ if mark = other then [path] else [] := by
  cases mark <;> cases other <;> simp [enter, listed]

end Summary

namespace OutputStep

/-- Whether a step writes a planned file. -/
def isWrite : OutputStep → Bool
  | write _ => true
  | register _ _ => false

/-- The disk that a step leaves, whether it succeeds or not. -/
def after (step : OutputStep) (d : Disk) : Disk :=
  (step.perform d .empty).1

/-- What a step has done that succeeded. A planned file that is there is left alone, and a manifest where there is no
export to be set is skipped. -/
inductive Succeeds (d d' : Disk) : OutputStep → Mark → Prop
  | unchanged {file : PlannedFile} (before : d.Has file.path file.content) (same : d' = d) :
    Succeeds d d' (.write file) .unchanged
  | written {file : PlannedFile} (before : ¬ d.Has file.path file.content) (now : d'.Has file.path file.content)
    (others : Keeps {d.denoted file.path} d d') : Succeeds d d' (.write file) .written
  | skipped {dir exportPath : String} (before : Manifest.Lacks d dir) (same : d' = d) :
    Succeeds d d' (.register dir exportPath) .skipped
  | registered {dir exportPath : String} (before : ¬ Manifest.Lacks d dir) (now : Manifest.Sets d d' dir exportPath)
    (others : Keeps {d.denoted (Manifest.path dir)} d d') : Succeeds d d' (.register dir exportPath) .registered

/-- What a step does to a disk, and whether it succeeds, has nothing to do with the summary that it adds to. -/
theorem perform_cases (step : OutputStep) (d : Disk) :
    (∃ e, (∀ s, step.perform d s = (step.after d, .error e)) ∧ Keeps ∅ d (step.after d)) ∨
      ∃ mark, (∀ s, step.perform d s = (step.after d, .ok (s.enter step.path mark))) ∧
        step.Succeeds d (step.after d) mark := by
  have hothers := keeps_perform d .empty step
  unfold after
  cases step with
  | write file =>
    unfold perform at hothers ⊢
    dsimp only at hothers ⊢
    rcases hwrite : d.writeText file.path file.content with ⟨d', e | outcome⟩
    · exact .inl ⟨_, fun _ => rfl, Disk.keeps_of_writeText_error hwrite⟩
    · rw [hwrite] at hothers
      rcases Disk.writeText_outcome hwrite with ⟨rfl, hhas, rfl⟩ | ⟨rfl, hhas⟩
      · exact .inr ⟨.unchanged, fun _ => rfl, .unchanged hhas rfl⟩
      · have hnow := Disk.readText_eq_ok_iff_has.1 (Disk.readText_writeText hwrite)
        exact .inr ⟨.written, fun _ => rfl, .written hhas hnow hothers⟩
  | register dir exportPath =>
    unfold perform at hothers ⊢
    dsimp only at hothers ⊢
    rcases hregister : Manifest.register d dir exportPath with ⟨d', e | outcome⟩
    · exact .inl ⟨_, fun _ => rfl, Manifest.keeps_of_register_error hregister⟩
    · rw [hregister] at hothers
      rcases Manifest.register_outcome hregister with ⟨houtcome, hlacks, rfl⟩ | ⟨houtcome, hlacks, hsets⟩
      · refine .inr ⟨.skipped, fun _ => ?_, .skipped hlacks rfl⟩
        rcases houtcome with rfl | rfl <;> rfl
      · refine .inr ⟨.registered, fun _ => ?_, .registered hlacks hsets hothers⟩
        rcases houtcome with rfl | rfl <;> rfl

/-! ## Runs -/

/-- The disk that steps leave that are all taken. -/
def afterAll (d : Disk) (steps : List OutputStep) : Disk :=
  steps.foldl (fun d step => step.after d) d

/-- Steps that all succeed, with their marks. Each finds the disk that those in front of it leave. -/
inductive Marked : Disk → List OutputStep → List Mark → Prop
  | nil {d : Disk} : Marked d [] []
  | cons {d : Disk} {step : OutputStep} {steps : List OutputStep} {mark : Mark} {marks : List Mark}
    (reports : ∀ s, step.perform d s = (step.after d, .ok (s.enter step.path mark)))
    (first : step.Succeeds d (step.after d) mark) (rest : Marked (step.after d) steps marks) :
    Marked d (step :: steps) (mark :: marks)

/-- The paths of the steps that have a mark. -/
def pathsMarked (mark : Mark) (steps : List OutputStep) (marks : List Mark) : List String :=
  ((steps.zip marks).filter (·.2 = mark)).map (·.1.path)

/-- A summary with one entry for each step. Under each mark it lists the steps that have it, in their order. -/
structure Accounts (steps : List OutputStep) (marks : List Mark) (s : Summary) : Prop where
  listed : ∀ mark, s.listed mark = pathsMarked mark steps marks
  files : (s.written ++ s.unchanged).Perm ((steps.filter (·.isWrite)).map (·.path))
  manifests : (s.registered ++ s.skipped).Perm ((steps.filter (!·.isWrite)).map (·.path))

/-- How a run of steps ends: with a summary when all have succeeded, or else with the failure of the first that fails,
which leaves the files that it found. -/
inductive Ends (d : Disk) (steps : List OutputStep) : Disk × Except RunError Summary → Prop
  | done {marks : List Mark} {s : Summary} (marked : Marked d steps marks) (accounts : Accounts steps marks s) :
    Ends d steps (afterAll d steps, .ok s)
  | failed {before behind : List OutputStep} {step : OutputStep} {marks : List Mark} {d' : Disk} {e : RunError}
    (split : steps = before ++ step :: behind) (marked : Marked d before marks)
    (fails : ∀ s, step.perform (afterAll d before) s = (d', .error e)) (files : (afterAll d before).SameFiles d') :
    Ends d steps (d', .error e)

variable {step : OutputStep} {steps : List OutputStep} {marks : List Mark}

theorem pathsMarked_cons (mark other : Mark) (step : OutputStep) (steps : List OutputStep) (marks : List Mark) :
    pathsMarked other (step :: steps) (mark :: marks) =
      (if mark = other then [step.path] else []) ++ pathsMarked other steps marks := by
  unfold pathsMarked
  by_cases h : mark = other <;> simp [h]

/-- A planned file is written or unchanged, and a manifest registered or skipped. -/
theorem perm_pathsMarked (h : Marked d steps marks) :
    (pathsMarked .written steps marks ++ pathsMarked .unchanged steps marks).Perm
        ((steps.filter (·.isWrite)).map (·.path)) ∧
      (pathsMarked .registered steps marks ++ pathsMarked .skipped steps marks).Perm
        ((steps.filter (!·.isWrite)).map (·.path)) := by
  induction h with
  | nil => exact ⟨.nil, .nil⟩
  | cons _ first _ ih =>
    obtain ⟨hfiles, hmanifests⟩ := ih
    simp only [pathsMarked_cons]
    cases first with
    | unchanged => exact ⟨List.perm_middle.trans (hfiles.cons _), hmanifests⟩
    | written => exact ⟨hfiles.cons _, hmanifests⟩
    | skipped => exact ⟨hfiles, List.perm_middle.trans (hmanifests.cons _)⟩
    | registered => exact ⟨hfiles, hmanifests.cons _⟩

/-- Steps all succeed, or there is a first one that fails. -/
theorem performAll_cases (d : Disk) (s : Summary) (steps : List OutputStep) :
    (∃ marks s', Marked d steps marks ∧ performAll d s steps = (afterAll d steps, .ok s') ∧
        ∀ mark, s'.listed mark = s.listed mark ++ pathsMarked mark steps marks) ∨
      ∃ before step behind marks d' e, steps = before ++ step :: behind ∧ Marked d before marks ∧
        (∀ s, step.perform (afterAll d before) s = (d', .error e)) ∧ Keeps ∅ (afterAll d before) d' ∧
        performAll d s steps = (d', .error e) := by
  -- each step finds the disk and the summary that those in front of it leave, so both change with the induction
  induction steps generalizing d s with
  | nil => exact .inl ⟨[], s, .nil, rfl, fun mark => (List.append_nil _).symm⟩
  | cons step steps ih =>
    rcases perform_cases step d with ⟨e, hfails, hkeeps⟩ | ⟨mark, hreports, hsucceeds⟩
    · refine .inr ⟨[], step, steps, [], step.after d, e, rfl, .nil, hfails, hkeeps, ?_⟩
      rw [performAll, hfails]
    · have hrun : performAll d s (step :: steps) = performAll (step.after d) (s.enter step.path mark) steps := by
        rw [performAll, hreports]
      rw [hrun]
      rcases ih (step.after d) (s.enter step.path mark) with
        ⟨marks, s', hmarked, hdone, hlisted⟩ | ⟨before, next, behind, marks, d', e, rfl, hmarked, hfails, hkeeps, hrest⟩
      · refine .inl ⟨mark :: marks, s', .cons hreports hsucceeds hmarked, hdone, fun other => ?_⟩
        rw [hlisted, Summary.listed_enter, pathsMarked_cons, List.append_assoc]
      · exact .inr ⟨step :: before, next, behind, mark :: marks, d', e, rfl, .cons hreports hsucceeds hmarked, hfails,
          hkeeps, hrest⟩

theorem ends_performAll (d : Disk) (steps : List OutputStep) : Ends d steps (performAll d .empty steps) := by
  rcases performAll_cases d .empty steps with
    ⟨marks, s, hmarked, hdone, hlisted⟩ | ⟨before, step, behind, marks, d', e, rfl, hmarked, hfails, hkeeps, hrun⟩
  · have hempty : ∀ mark, Summary.empty.listed mark = [] := by
      intro mark
      cases mark <;> rfl
    simp only [hempty, List.nil_append] at hlisted
    obtain ⟨hfiles, hmanifests⟩ := perm_pathsMarked hmarked
    simp only [← hlisted] at hfiles hmanifests
    rw [hdone]
    exact .done hmarked ⟨hlisted, hfiles, hmanifests⟩
  · rw [hrun]
    exact .failed rfl hmarked hfails hkeeps.sameFiles

end OutputStep

/-- A generation is a run of eight steps: the three modules into the directory of the client, the three shims into that
of the package, and the manifests of the client and of the package. -/
theorem Generation.run_ends (g : Generation) (l : Layout) (d : Disk) :
    OutputStep.Ends d
      [.write (g.moduleFile l .commonJs), .write (g.moduleFile l .esModule), .write (g.moduleFile l .declarations),
        .write (shimFile l .commonJs), .write (shimFile l .esModule), .write (shimFile l .declarations),
        .register l.client l.exportPath, .register l.package l.exportPath] (g.run l d) :=
  OutputStep.ends_performAll d (g.steps l)

end AnnotatedSql
