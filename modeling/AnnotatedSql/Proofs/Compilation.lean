import AnnotatedSql.Batch
import Mathlib.Data.List.Forall2
/-!
# What comes of a compilation

A compilation ends in one of five ways (`Compilation.Outcome`): with names that cannot be used, a mistake in a
source, errors that lints found, a step that failed, or a finished batch. An earlier way goes before a later
one, and which of them it is can be told from the inputs.
-/

namespace AnnotatedSql

/-- What the lints of a compilation say about a statement: the built-in ones first, then those given. -/
def Lint.findings (lints : List Lint) (s : Statement) : List Diagnostic :=
  duplicatePosition.check s ++ positionGap.check s ++ duplicateAlias.check s ++ emptyBody.check s ++
    lints.flatMap (·.check s)

theorem Lint.flatMap_builtin_append (lints : List Lint) :
    (fun s => (builtin ++ lints).flatMap (·.check s)) = findings lints := by
  funext s
  simp [builtin, findings]

/-- A step that changes a batch in no other way than by adding diagnostics, whether it fails or not. -/
def Step.OnlyReports (step : Step) : Prop :=
  ∀ b, ∃ added, (step b).1 = b.report added

namespace Batch

variable {b c : Batch} {inputs : List SourceText} {statements : List Statement} {steps : List Step}
  {failure : StepFailure}

@[simp] theorem report_nil (b : Batch) : b.report [] = b := by
  simp [report]

@[simp] theorem report_report (b : Batch) (ds es : List Diagnostic) : (b.report ds).report es = b.report (ds ++ es) := by
  simp [report]

/-! ## Names -/

theorem rejected_eq_nil_iff : rejected inputs = [] ↔ ∀ i ∈ inputs, Identifier.fault? i.name = none := by
  simp [rejected, List.filterMap_eq_nil_iff]

/-- The names that are rejected stand in the order of the inputs, each as often as it occurs there and with the
reason for it. -/
theorem eq_rejected_iff {names : List (String × Identifier.Fault)} :
    names = rejected inputs ↔
      names.map Prod.fst = (inputs.map (·.name)).filter (fun name => (Identifier.fault? name).isSome) ∧
        ∀ x ∈ names, Identifier.fault? x.1 = some x.2 := by
  induction inputs generalizing names with
  | nil => cases names <;> simp [rejected]
  | cons input inputs ih =>
    cases hfault : Identifier.fault? input.name with
    | none => simpa [rejected, hfault] using ih
    | some reason =>
      -- the input stands first among those rejected, so the names cannot be empty
      cases names with
      | nil => simp [rejected, hfault]
      | cons x names =>
        have hrejected : rejected (input :: inputs) = (input.name, reason) :: rejected inputs := by
          simp [rejected, hfault]
        have hfilter : ((input :: inputs).map (·.name)).filter (fun name => (Identifier.fault? name).isSome) =
            input.name :: (inputs.map (·.name)).filter (fun name => (Identifier.fault? name).isSome) := by
          simp [hfault]
        rw [hrejected, hfilter, List.map_cons, List.cons.injEq, List.cons.injEq, List.forall_mem_cons, ih]
        constructor
        · rintro ⟨rfl, horder, hreasons⟩
          exact ⟨⟨rfl, horder⟩, hfault, hreasons⟩
        · rintro ⟨⟨hname, horder⟩, hreason, hreasons⟩
          rw [hname, hfault, Option.some.injEq] at hreason
          exact ⟨Prod.ext hname hreason.symm, horder, hreasons⟩

/-! ## Sources -/

theorem readAll_eq_ok_iff :
    readAll inputs = .ok statements ↔ List.Forall₂ (fun i s => Statement.ofSource i = .ok s) inputs statements := by
  induction inputs generalizing statements with
  | nil => simp [readAll, eq_comm]
  | cons input inputs ih =>
    rw [readAll, List.forall₂_cons_left_iff]
    simp only [← ih]
    cases Statement.ofSource input with
    | error m => simp
    | ok s => cases readAll inputs <;> simp [Except.map, eq_comm]

/-- The mistake is that of the first source that holds one. -/
theorem readAll_eq_error_iff {error : SourceError} :
    readAll inputs = .error error ↔
      ∃ before input after m, inputs = before ++ input :: after ∧ (∀ i ∈ before, ∃ s, Statement.ofSource i = .ok s) ∧
        Statement.ofSource input = .error m ∧ error = .mistake input.file m := by
  constructor
  · intro h
    induction inputs with
    | nil => cases h
    | cons input inputs ih =>
      rw [readAll] at h
      cases hinput : Statement.ofSource input with
      | error m =>
        rw [hinput] at h
        cases h
        exact ⟨[], input, inputs, m, rfl, by simp, hinput, rfl⟩
      | ok s =>
        rw [hinput] at h
        cases hrest : readAll inputs with
        | ok statements => simp [hrest, Except.map] at h
        | error e =>
          simp only [hrest, Except.map, Except.error.injEq] at h
          obtain ⟨before, input', after, m, rfl, hbefore, hm⟩ := ih (h ▸ hrest)
          exact ⟨input :: before, input', after, m, rfl, List.forall_mem_cons.2 ⟨⟨s, hinput⟩, hbefore⟩, hm⟩
  · rintro ⟨before, input, after, m, rfl, hbefore, hm, rfl⟩
    induction before with
    | nil => rw [List.nil_append, readAll, hm]
    | cons i before ih =>
      rw [List.forall_mem_cons] at hbefore
      obtain ⟨⟨s, hs⟩, hbefore⟩ := hbefore
      rw [List.cons_append, readAll, hs]
      dsimp only
      rw [ih hbefore]
      rfl

/-! ## Steps behind the built-in ones -/

/-- Steps that succeed one after another and add diagnostics, each behind those that it finds. -/
inductive Adds : List Step → Batch → List Diagnostic → Prop
  | nil {b : Batch} : Adds [] b []
  | cons {step : Step} {steps : List Step} {b : Batch} {ds es : List Diagnostic} (h : step b = (b.report ds, none))
    (rest : Adds steps (b.report ds) es) : Adds (step :: steps) b (ds ++ es)

theorem Adds.runSteps_append {added : List Diagnostic} (h : Adds steps b added) (after : List Step) :
    runSteps (steps ++ after) b = runSteps after (b.report added) := by
  induction h with
  | nil => simp
  | cons hstep _ ih =>
    rw [List.cons_append, runSteps, hstep]
    dsimp only
    rw [ih, report_report]

/-- Steps that only add diagnostics all succeed, or there is a first one that fails. -/
theorem adds_or_fails (h : ∀ step ∈ steps, Step.OnlyReports step) (b : Batch) :
    (∃ added, Adds steps b added) ∨
      ∃ before step after added failure, steps = before ++ step :: after ∧ Adds before b added ∧
        (step (b.report added)).2 = some failure := by
  -- each step sees what those in front of it have added, so the batch changes with the induction
  induction steps generalizing b with
  | nil => exact .inl ⟨[], .nil⟩
  | cons step steps ih =>
    rw [List.forall_mem_cons] at h
    obtain ⟨ds, hds⟩ := h.1 b
    cases hstep : (step b).2 with
    | some failure => exact .inr ⟨[], step, steps, [], failure, rfl, .nil, by rwa [report_nil]⟩
    | none =>
      have hadds : step b = (b.report ds, none) := Prod.ext hds hstep
      rcases ih h.2 (b.report ds) with ⟨es, hes⟩ | ⟨before, next, after, es, failure, rfl, hes, hfails⟩
      · exact .inl ⟨ds ++ es, .cons hadds hes⟩
      · exact .inr ⟨step :: before, next, after, ds ++ es, failure, rfl, .cons hadds hes, by rwa [← report_report]⟩

theorem runSteps_of_fails {step : Step} (h : (step b).2 = some failure) (after : List Step) :
    (runSteps (step :: after) b).2 = some failure := by
  rw [runSteps]
  rcases hstep : step b with ⟨c, - | f⟩
  · rw [hstep] at h
    cases h
  · rw [hstep] at h
    exact h

end Batch

namespace Compilation

open Batch (Adds)

variable {lints : List Lint} {steps : List Step} {inputs : List SourceText} {statements : List Statement}

/-- Inputs with names that can be used and sources without mistakes, and what is read from them. -/
structure Reads (inputs : List SourceText) (statements : List Statement) : Prop where
  names : ∀ i ∈ inputs, Identifier.fault? i.name = none
  sources : List.Forall₂ (fun i s => Statement.ofSource i = .ok s) inputs statements

theorem Reads.rejected_eq (h : Reads inputs statements) : Batch.rejected inputs = [] :=
  Batch.rejected_eq_nil_iff.2 h.names

theorem Reads.readAll_eq (h : Reads inputs statements) : Batch.readAll inputs = .ok statements :=
  Batch.readAll_eq_ok_iff.2 h.sources

/-- The errors that lints find in statements. -/
def errorCount (lints : List Lint) (statements : List Statement) : Nat :=
  (statements.flatMap (Lint.findings lints)).countP (·.isError)

/-- The batch that the built-in steps leave: a procedure for each source and what the lints say, in the order of
the sources. -/
def built (lints : List Lint) (inputs : List SourceText) (statements : List Statement) : Batch where
  inputs := inputs
  statements := []
  procedures := statements.map .ofStatement
  diagnostics := statements.flatMap (Lint.findings lints)

/-- The ways in which a compilation ends. Behind the built-in steps stand further ones. -/
inductive Outcome (lints : List Lint) (steps : List Step) (inputs : List SourceText) : Except StepFailure Batch → Prop
  | names {names : List (String × Identifier.Fault)} (nonempty : names ≠ [])
    (order : names.map Prod.fst = (inputs.map (·.name)).filter fun name => (Identifier.fault? name).isSome)
    (reasons : ∀ x ∈ names, Identifier.fault? x.1 = some x.2) :
    Outcome lints steps inputs (.error (.source (.rejectedNames names)))
  | mistake {before after : List SourceText} {input : SourceText} {m : Mistake}
    (valid : ∀ i ∈ inputs, Identifier.fault? i.name = none) (split : inputs = before ++ input :: after)
    (first : ∀ i ∈ before, ∃ s, Statement.ofSource i = .ok s) (found : Statement.ofSource input = .error m) :
    Outcome lints steps inputs (.error (.source (.mistake input.file m)))
  | lint {statements : List Statement} (reads : Reads inputs statements) (found : 0 < errorCount lints statements)
    (message : (StepFailure.lint (errorCount lints statements)).message =
      "Lint failed with " ++ (errorCount lints statements).repr ++ " error(s)") :
    Outcome lints steps inputs (.error (.lint (errorCount lints statements)))
  | step {statements : List Statement} {before after : List Step} {step : Step} {added : List Diagnostic}
    {failure : StepFailure} (reads : Reads inputs statements) (clean : errorCount lints statements = 0)
    (split : steps = before ++ step :: after) (first : Adds before (built lints inputs statements) added)
    (fails : (step ((built lints inputs statements).report added)).2 = some failure) :
    Outcome lints steps inputs (.error failure)
  | done {statements : List Statement} {added : List Diagnostic} (reads : Reads inputs statements)
    (clean : errorCount lints statements = 0) (succeed : Adds steps (built lints inputs statements) added) :
    Outcome lints steps inputs (.ok ((built lints inputs statements).report added))

theorem lint_eq (lints : List Lint) (inputs : List SourceText) (statements : List Statement) :
    Batch.lint (Lint.builtin ++ lints) ⟨inputs, statements, [], []⟩ =
      (⟨inputs, statements, [], statements.flatMap (Lint.findings lints)⟩,
        if errorCount lints statements = 0 then none else some (.lint (errorCount lints statements))) := by
  simp only [Batch.lint, Batch.report, Lint.flatMap_builtin_append, List.nil_append]
  rfl

/-- The built-in steps of a compilation run one inside the other. -/
theorem compile_eq (lints : List Lint) (steps : List Step) (inputs : List SourceText) :
    compile lints steps inputs =
      match Batch.rejected inputs with
      | [] =>
        match Batch.readAll inputs with
        | .error error => .error (.source error)
        | .ok statements =>
          if errorCount lints statements = 0 then
            match Batch.runSteps steps (built lints inputs statements) with
            | (b, none) => .ok b
            | (_, some failure) => .error failure
          else .error (.lint (errorCount lints statements))
      | names => .error (.source (.rejectedNames names)) := by
  unfold compile
  simp only [List.cons_append, List.nil_append, Batch.runSteps, Batch.checkNames, Batch.ofInputs]
  cases Batch.rejected inputs with
  | cons x names => rfl
  | nil =>
    dsimp only [Batch.parse]
    cases Batch.readAll inputs with
    | error error => rfl
    | ok statements =>
      dsimp only
      rw [lint_eq]
      split_ifs <;> rfl

/-- The ways exclude each other: what one of them says fixes the result. -/
theorem eq_of_outcome {r : Except StepFailure Batch} (h : Outcome lints steps inputs r) :
    compile lints steps inputs = r := by
  rw [compile_eq]
  cases h with
  | @names names nonempty order reasons =>
    rw [← Batch.eq_rejected_iff.2 ⟨order, reasons⟩]
    cases names with
    | nil => exact absurd rfl nonempty
    | cons x names => rfl
  | mistake valid split first found =>
    rw [Batch.rejected_eq_nil_iff.2 valid]
    dsimp only
    rw [Batch.readAll_eq_error_iff.2 ⟨_, _, _, _, split, first, found, rfl⟩]
  | lint reads found message =>
    rw [reads.rejected_eq, reads.readAll_eq]
    exact if_neg (Nat.ne_of_gt found)
  | @step statements before after step added failure reads clean split first fails =>
    rw [reads.rejected_eq, reads.readAll_eq]
    dsimp only
    -- the run gets through the steps in front of the failing one, with what they have added
    have hfails := Batch.runSteps_of_fails fails after
    rw [← first.runSteps_append, ← split] at hfails
    rw [if_pos clean]
    rcases hrun : Batch.runSteps steps (built lints inputs statements) with ⟨b, - | f⟩
    · rw [hrun] at hfails
      cases hfails
    · rw [hrun] at hfails
      cases hfails
      rfl
  | done reads clean succeed =>
    have hrun := succeed.runSteps_append []
    rw [List.append_nil, Batch.runSteps] at hrun
    rw [reads.rejected_eq, reads.readAll_eq]
    dsimp only
    rw [if_pos clean, hrun]

/-- A compilation ends in some way, whatever its inputs are. -/
theorem exists_outcome (lints : List Lint) (h : ∀ step ∈ steps, Step.OnlyReports step) (inputs : List SourceText) :
    ∃ r, Outcome lints steps inputs r := by
  cases hnames : Batch.rejected inputs with
  | cons x names =>
    obtain ⟨order, reasons⟩ := Batch.eq_rejected_iff.1 hnames.symm
    exact ⟨_, .names (by simp) order reasons⟩
  | nil =>
    have valid := Batch.rejected_eq_nil_iff.1 hnames
    cases hread : Batch.readAll inputs with
    | error error =>
      obtain ⟨before, input, after, m, split, first, found, -⟩ := Batch.readAll_eq_error_iff.1 hread
      exact ⟨_, .mistake valid split first found⟩
    | ok statements =>
      have reads : Reads inputs statements := ⟨valid, Batch.readAll_eq_ok_iff.1 hread⟩
      rcases Nat.eq_zero_or_pos (errorCount lints statements) with clean | found
      · rcases Batch.adds_or_fails h (built lints inputs statements) with
          ⟨added, succeed⟩ | ⟨before, step, after, added, failure, split, first, fails⟩
        · exact ⟨_, .done reads clean succeed⟩
        · exact ⟨_, .step reads clean split first fails⟩
      · exact ⟨_, .lint reads found rfl⟩

/-- A compilation behind whose built-in steps stand further ones that only add diagnostics ends in the one way
that its inputs, lints and steps lead to. -/
theorem compile_eq_iff_outcome (lints : List Lint) (h : ∀ step ∈ steps, Step.OnlyReports step)
    (inputs : List SourceText) (r : Except StepFailure Batch) :
    compile lints steps inputs = r ↔ Outcome lints steps inputs r := by
  constructor
  · rintro rfl
    -- an outcome settles the result, so the one that there is belongs to this result
    obtain ⟨r, hr⟩ := exists_outcome lints h inputs
    rwa [eq_of_outcome hr]
  · exact eq_of_outcome

/-- Here a lint warns of a skipped position, and the step behind the built-in ones adds a note. -/
theorem compile_eq_iff_outcome_note :
    (∀ step ∈ [fun b : Batch => (b.report [⟨.info, "count", "counted", none⟩], (none : Option StepFailure))],
      Step.OnlyReports step) ∧
      Outcome [] [fun b => (b.report [⟨.info, "count", "counted", none⟩], none)]
        [⟨"q", "q.sql", "-- @param {Int} $2\nselect $1"⟩]
        (.ok ⟨[⟨"q", "q.sql", "-- @param {Int} $2\nselect $1"⟩], [],
          [.ofStatement ⟨"q", "q.sql", [⟨2, .int, none, false, none⟩], [], "`select ${$1}`", true⟩],
          [⟨.warning, "lint", "'q' never declares $1, the argument will be untyped", some "q.sql"⟩,
            ⟨.info, "count", "counted", none⟩]⟩) := by
  have h : ∀ step ∈ [fun b : Batch => (b.report [⟨.info, "count", "counted", none⟩], (none : Option StepFailure))],
      Step.OnlyReports step := by
    simp only [List.mem_singleton, forall_eq]
    exact fun b => ⟨_, rfl⟩
  exact ⟨h, (compile_eq_iff_outcome [] h _ _).1 (by decide +kernel)⟩

end Compilation
end AnnotatedSql
