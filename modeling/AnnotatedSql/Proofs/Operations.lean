import AnnotatedSql.Proofs.Compilation
/-!
# Operations on a batch

Whoever holds a batch can check its names, read its sources, lint them, turn them into procedures, add
diagnostics, replace the inputs and take the procedures out, in any order and as often as they like, whatever has
failed before. `Operation.Effect` says all that one operation can do. Diagnostics are only ever added, and a failure
leaves everything else as it was (`Batch.orderly`).
-/

namespace AnnotatedSql

/-! ## Lints that look at what has been reported -/

/-- A check of a statement that sees the diagnostics reported before it, and gives those that it adds. -/
abbrev Check := Statement → List Diagnostic → List Diagnostic

/-- A lint takes no notice of what has been reported before it. -/
def Lint.toCheck (l : Lint) : Check := fun s _ => l.check s

namespace Batch

/-- Adds what checks say about a statement, one check after the other. -/
def inspect (checks : List Check) (b : Batch) (s : Statement) : Batch :=
  checks.foldl (fun b check => b.report (check s b.diagnostics)) b

/-- Adds what checks say about each statement, and fails if any diagnostic of the batch is an error. -/
def lintBy (checks : List Check) : Step := fun b =>
  let linted := b.statements.foldl (inspect checks) b
  (linted, if linted.errorCount = 0 then none else some (.lint linted.errorCount))

theorem inspect_toCheck (lints : List Lint) (b : Batch) (s : Statement) :
    inspect (lints.map Lint.toCheck) b s = b.report (lints.flatMap (·.check s)) := by
  induction lints generalizing b with
  | nil => simp [inspect]
  | cons l lints ih =>
    have hrest : inspect ((l :: lints).map Lint.toCheck) b s =
        inspect (lints.map Lint.toCheck) (b.report (l.check s)) s := rfl
    rw [hrest, ih, report_report, List.flatMap_cons]

/-- With checks that take no notice of what has been reported, this is how a batch is linted. -/
theorem lintBy_toCheck (lints : List Lint) : lintBy (lints.map Lint.toCheck) = lint lints := by
  have hall : ∀ (statements : List Statement) (b : Batch), statements.foldl (inspect (lints.map Lint.toCheck)) b =
      b.report (statements.flatMap fun s => lints.flatMap (·.check s)) := by
    intro statements
    induction statements with
    | nil => simp
    | cons s statements ih =>
      intro b
      rw [List.foldl_cons, ih, inspect_toCheck, report_report, List.flatMap_cons]
  funext b
  unfold lintBy lint
  rw [hall]

theorem inspect_onlyReports (checks : List Check) (b : Batch) (s : Statement) :
    ∃ added, inspect checks b s = b.report added := by
  induction checks generalizing b with
  | nil => exact ⟨[], by simp [inspect]⟩
  | cons check checks ih =>
    obtain ⟨added, hadded⟩ := ih (b.report (check s b.diagnostics))
    exact ⟨check s b.diagnostics ++ added, hadded.trans (report_report b _ _)⟩

theorem lintBy_onlyReports (checks : List Check) : Step.OnlyReports (lintBy checks) := by
  have hall : ∀ (statements : List Statement) (b : Batch), ∃ added,
      statements.foldl (inspect checks) b = b.report added := by
    intro statements
    induction statements with
    | nil => exact fun b => ⟨[], by simp⟩
    | cons s statements ih =>
      intro b
      obtain ⟨ds, hds⟩ := inspect_onlyReports checks b s
      obtain ⟨es, hes⟩ := ih (b.report ds)
      exact ⟨ds ++ es, by rw [List.foldl_cons, hds, hes, report_report]⟩
  exact fun b => hall b.statements b

end Batch

/-! ## One operation -/

/-- What can be done to a batch from outside. -/
inductive Operation
  | checkNames
  | parse
  | lint (checks : List Check)
  | finish
  /-- Adds an error, a warning or a remark that is about no file. -/
  | note (severity : Severity) (phase message : String)
  | report (d : Diagnostic)
  | replaceInputs (inputs : List SourceText)
  | takeProcedures

namespace Operation

/-- What an operation does to a batch. -/
def step : Operation → Step
  | checkNames => Batch.checkNames
  | parse => Batch.parse
  | lint checks => Batch.lintBy checks
  | finish => Batch.finish
  | note severity phase message => fun b => (b.report [⟨severity, phase, message, none⟩], none)
  | report d => fun b => (b.report [d], none)
  | replaceInputs inputs => fun b => ({ b with inputs }, none)
  | takeProcedures => fun b => (b.takeProcedures.2, none)

/-- The batch that an operation leaves, and its failure if it fails. -/
inductive Effect (b : Batch) : Operation → Batch × Option StepFailure → Prop
  | checkNames (failure : Option StepFailure) : Effect b checkNames (b, failure)
  | parsed {statements : List Statement} (h : Batch.readAll b.inputs = .ok statements) :
    Effect b parse ({ b with statements }, none)
  | unparsed {error : SourceError} (h : Batch.readAll b.inputs = .error error) :
    Effect b parse (b, some (.source error))
  | clean {checks : List Check} {added : List Diagnostic} (h : (b.report added).errorCount = 0) :
    Effect b (lint checks) (b.report added, none)
  | errors {checks : List Check} {added : List Diagnostic} (h : (b.report added).errorCount ≠ 0) :
    Effect b (lint checks) (b.report added, some (.lint (b.report added).errorCount))
  | finished : Effect b finish ({ b with statements := [], procedures := b.statements.map .ofStatement }, none)
  | noted {severity : Severity} {phase message : String} :
    Effect b (note severity phase message) (b.report [⟨severity, phase, message, none⟩], none)
  | reported {d : Diagnostic} : Effect b (report d) (b.report [d], none)
  | replaced {inputs : List SourceText} : Effect b (replaceInputs inputs) ({ b with inputs }, none)
  | taken : Effect b takeProcedures ({ b with procedures := [] }, none)

theorem effect (op : Operation) (b : Batch) : Effect b op (op.step b) := by
  cases op with
  | checkNames =>
    simp only [step, Batch.checkNames]
    split <;> exact .checkNames _
  | parse =>
    simp only [step, Batch.parse]
    cases hread : Batch.readAll b.inputs with
    | ok statements => exact .parsed hread
    | error error => exact .unparsed hread
  | lint checks =>
    obtain ⟨added, hadded⟩ := Batch.lintBy_onlyReports checks b
    have hstep : (lint checks).step b = (b.report added,
        if (b.report added).errorCount = 0 then none else some (.lint (b.report added).errorCount)) := by
      rw [← hadded]
      rfl
    rw [hstep]
    split
    · exact .clean ‹_›
    · exact .errors ‹_›
  | finish => exact .finished
  | note severity phase message => exact .noted
  | report d => exact .reported
  | replaceInputs inputs => exact .replaced
  | takeProcedures => exact .taken

/-- What an operation leaves alone, and when a lint fails. -/
structure Frame (b : Batch) (op : Operation) (r : Batch × Option StepFailure) : Prop where
  diagnostics : b.diagnostics <+: r.1.diagnostics
  checkNames : op = checkNames → r.1 = b
  parse : op = parse → r.2 ≠ none → r.1 = b
  lint : ∀ checks, op = lint checks → r.1 = { b with diagnostics := r.1.diagnostics }
  inputs : (∀ inputs, op ≠ replaceInputs inputs) → r.1.inputs = b.inputs
  /-- The errors that count are all those that the batch holds, whoever has added them. -/
  failure : ∀ checks, op = Operation.lint checks →
    (r.2 ≠ none ↔ ∃ d ∈ r.1.diagnostics, d.severity = .error) ∧
      ∀ f, r.2 = some f →
        f.message = "Lint failed with " ++ (r.1.diagnostics.countP (·.severity = .error)).repr ++ " error(s)"

end Operation

theorem Batch.errorCount_eq_zero_iff {b : Batch} : b.errorCount = 0 ↔ ¬ ∃ d ∈ b.diagnostics, d.severity = .error := by
  simp [errorCount, Diagnostic.isError]

namespace Operation

variable {b : Batch} {op : Operation} {r : Batch × Option StepFailure}

theorem Effect.diagnostics_mono (h : Effect b op r) : b.diagnostics <+: r.1.diagnostics := by
  cases h with
  | clean | errors | noted | reported => exact List.prefix_append _ _
  | checkNames | parsed | unparsed | finished | replaced | taken => exact List.prefix_rfl

theorem Effect.inputs_eq (h : Effect b op r) (hop : ∀ inputs, op ≠ replaceInputs inputs) : r.1.inputs = b.inputs := by
  cases h with
  | replaced => exact absurd rfl (hop _)
  | checkNames | parsed | unparsed | clean | errors | finished | noted | reported | taken => rfl

theorem Effect.frame (h : Effect b op r) : Frame b op r where
  diagnostics := h.diagnostics_mono
  checkNames := by
    rintro rfl
    cases h
    rfl
  parse := by
    rintro rfl hfails
    cases h with
    | parsed => exact absurd rfl hfails
    | unparsed => rfl
  lint := by
    rintro checks rfl
    cases h <;> rfl
  inputs := h.inputs_eq
  failure := by
    rintro checks rfl
    cases h with
    | clean h => exact ⟨by simpa using Batch.errorCount_eq_zero_iff.1 h, by simp⟩
    | errors h =>
      have hsome := not_not.1 (mt Batch.errorCount_eq_zero_iff.2 h)
      refine ⟨⟨fun _ => hsome, by simp⟩, ?_⟩
      rintro f ⟨⟩
      rfl

end Operation

/-! ## Sequences of operations -/

namespace Batch

/-- The batch that is left when operations are performed in turn, whether they fail or not. -/
def after (b : Batch) (ops : List Operation) : Batch :=
  ops.foldl (fun b op => (op.step b).1) b

variable {b : Batch}

@[simp] theorem after_nil (b : Batch) : b.after [] = b := rfl

theorem after_append (b : Batch) (ops more : List Operation) : b.after (ops ++ more) = (b.after ops).after more :=
  List.foldl_append

theorem after_concat (b : Batch) (ops : List Operation) (op : Operation) :
    b.after (ops ++ [op]) = (op.step (b.after ops)).1 := by
  rw [after_append]
  rfl

theorem diagnostics_mono_after (b : Batch) (ops : List Operation) : b.diagnostics <+: (b.after ops).diagnostics := by
  induction ops generalizing b with
  | nil => exact List.prefix_rfl
  | cons op ops ih => exact (op.effect b).diagnostics_mono.trans (ih _)

/-- No operation of a sequence takes a diagnostic away or changes what it has no business with, and an error that
has been recorded makes every lint fail from then on. -/
structure Orderly (b : Batch) (ops : List Operation) : Prop where
  frame : ∀ before op behind, ops = before ++ op :: behind →
    op.Frame (b.after before) (op.step (b.after before))
  grows : ∀ before between behind, ops = before ++ between ++ behind →
    (b.after before).diagnostics <+: (b.after (before ++ between)).diagnostics
  errors : ∀ before between checks behind, ops = before ++ between ++ .lint checks :: behind →
    (∃ d ∈ (b.after before).diagnostics, d.severity = .error) →
    ((Operation.lint checks).step (b.after (before ++ between))).2 ≠ none

/-- Every sequence of operations on any batch is orderly. -/
theorem orderly (b : Batch) (ops : List Operation) : Orderly b ops where
  frame before op _ _ := (op.effect _).frame
  grows before between _ _ := by
    rw [after_append]
    exact diagnostics_mono_after _ between
  errors before between checks _ _ := by
    rintro ⟨d, hd, herror⟩
    -- the error is still there when the lint starts, and also when it has added what it finds
    have hframe := ((Operation.lint checks).effect (b.after (before ++ between))).frame
    refine ((hframe.failure checks rfl).1).2 ⟨d, hframe.diagnostics.subset ?_, herror⟩
    rw [after_append]
    exact (diagnostics_mono_after _ between).subset hd

/-- An error that was noted before anything was read. -/
example :
    ((Operation.lint (Lint.builtin.map Lint.toCheck)).step
      ((ofInputs [⟨"q", "q.sql", "select 1"⟩]).after [.note .error "setup" "no schema", .parse])).2 = some (.lint 1) := by
  decide +kernel

end Batch
end AnnotatedSql
