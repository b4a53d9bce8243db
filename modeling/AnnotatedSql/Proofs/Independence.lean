import AnnotatedSql.Output.Module
import AnnotatedSql.Proofs.Compilation
import Mathlib.Data.List.Perm.Basic
/-!
# Sources that are compiled together

Without further steps the sources of a batch are independent of each other: each comes to the same procedure
and to the same text in every module as when it is compiled alone, whatever stands around it.
-/

namespace AnnotatedSql

/-- A module that is put together from the texts of its procedures. -/
def ModuleKind.ofTexts (kind : ModuleKind) (mode : Mode) (texts : List String) : String :=
  kind.preamble mode ++ "\n" ++ "\n".intercalate texts

namespace Compilation

variable {lints : List Lint} {inputs inputs' as bs : List SourceText} {input : SourceText} {s : Statement}
  {statements : List Statement} {c : Batch}

/-! ## One source at a time -/

/-- A source that no step refuses, and what is read from it. -/
structure Passes (lints : List Lint) (input : SourceText) (s : Statement) : Prop where
  name : Identifier.fault? input.name = none
  read : Statement.ofSource input = .ok s
  clean : ∀ d ∈ Lint.findings lints s, d.isError = false

theorem errorCount_eq_zero_iff :
    errorCount lints statements = 0 ↔ ∀ s ∈ statements, ∀ d ∈ Lint.findings lints s, d.isError = false := by
  simp only [errorCount, List.countP_eq_zero, List.mem_flatMap, Bool.not_eq_true]
  exact ⟨fun h s hs d hd => h d ⟨s, hs, hd⟩, fun h d ⟨s, hs, hd⟩ => h s hs d hd⟩

theorem forall₂_passes_iff :
    List.Forall₂ (Passes lints) inputs statements ↔ Reads inputs statements ∧ errorCount lints statements = 0 := by
  rw [errorCount_eq_zero_iff]
  constructor
  · intro h
    induction h with
    | nil => exact ⟨⟨by simp, .nil⟩, by simp⟩
    | cons hp _ ih =>
      refine ⟨⟨List.forall_mem_cons.2 ⟨hp.name, ih.1.names⟩, .cons hp.read ih.1.sources⟩, ?_⟩
      exact List.forall_mem_cons.2 ⟨hp.clean, ih.2⟩
  · rintro ⟨⟨names, sources⟩, clean⟩
    induction sources with
    | nil => exact .nil
    | cons hread _ ih =>
      rw [List.forall_mem_cons] at names clean
      exact .cons ⟨names.1, hread, clean.1⟩ (ih clean.2 names.2)

/-- Without further steps a compilation succeeds when it refuses none of its sources. -/
theorem compile_eq_ok_iff :
    compile lints [] inputs = .ok c ↔
      ∃ statements, List.Forall₂ (Passes lints) inputs statements ∧ c = built lints inputs statements := by
  simp only [forall₂_passes_iff]
  constructor
  · intro h
    -- the finished batch is the only success among the outcomes, and no further step adds to it
    have hsteps : ∀ step ∈ ([] : List Step), Step.OnlyReports step := by simp
    obtain ⟨r, hr⟩ := exists_outcome lints hsteps inputs
    rw [eq_of_outcome hr] at h
    subst h
    cases hr with
    | done reads clean succeed =>
      cases succeed
      exact ⟨_, ⟨reads, clean⟩, Batch.report_nil _⟩
  · rintro ⟨statements, ⟨reads, clean⟩, rfl⟩
    have hdone := eq_of_outcome (.done reads clean .nil)
    rwa [Batch.report_nil] at hdone

/-- The procedure that a source comes to when it is compiled alone. -/
def Alone (lints : List Lint) (input : SourceText) (p : Procedure) : Prop :=
  ∃ b, compile lints [] [input] = .ok b ∧ b.procedures = [p]

/-- The text that a source comes to in a module when it is compiled alone. -/
def TextAlone (lints : List Lint) (kind : ModuleKind) (mode : Mode) (input : SourceText) (text : String) : Prop :=
  ∃ b, compile lints [] [input] = .ok b ∧ kind.file mode b.procedures = kind.ofTexts mode [text]

theorem Passes.alone (h : Passes lints input s) : Alone lints input (.ofStatement s) :=
  ⟨_, compile_eq_ok_iff.2 ⟨[s], by simpa using h, rfl⟩, rfl⟩

theorem Alone.textAlone {p : Procedure} (h : Alone lints input p) (kind : ModuleKind) (mode : Mode) :
    TextAlone lints kind mode input (kind.render mode p) := by
  obtain ⟨b, hb, hp⟩ := h
  exact ⟨b, hb, by rw [hp]; rfl⟩

theorem forall₂_alone (h : compile lints [] inputs = .ok c) : List.Forall₂ (Alone lints) inputs c.procedures := by
  obtain ⟨statements, hpasses, rfl⟩ := compile_eq_ok_iff.1 h
  exact List.forall₂_map_right_iff.2 (hpasses.imp fun _ _ => Passes.alone)

theorem forall₂_textAlone (h : compile lints [] inputs = .ok c) (kind : ModuleKind) (mode : Mode) :
    List.Forall₂ (TextAlone lints kind mode) inputs (c.procedures.map (kind.render mode)) :=
  List.forall₂_map_right_iff.2 ((forall₂_alone h).imp fun _ _ hp => hp.textAlone kind mode)

/-! ## Batches put together and reordered -/

theorem forall₂_append_left_iff {α β : Type} {R : α → β → Prop} {xs ys : List α} {l : List β} :
    List.Forall₂ R (xs ++ ys) l ↔ ∃ u v, List.Forall₂ R xs u ∧ List.Forall₂ R ys v ∧ l = u ++ v := by
  constructor
  · intro h
    induction xs generalizing l with
    | nil => exact ⟨[], l, .nil, h, rfl⟩
    | cons x xs ih =>
      obtain ⟨b, rest, hb, hrest, rfl⟩ := List.forall₂_cons_left_iff.1 h
      obtain ⟨u, v, hu, hv, rfl⟩ := ih hrest
      exact ⟨b :: u, v, .cons hb hu, hv, rfl⟩
  · rintro ⟨u, v, hu, hv, rfl⟩
    exact List.rel_append hu hv

/-- Batches can be put together and reordered without a change to what each source comes to. -/
structure Independent (lints : List Lint) : Prop where
  succeeds : ∀ as bs, (∃ c, compile lints [] (as ++ bs) = .ok c) ↔
    (∃ a, compile lints [] as = .ok a) ∧ ∃ b, compile lints [] bs = .ok b
  appended : ∀ as bs a b c, compile lints [] as = .ok a → compile lints [] bs = .ok b →
    compile lints [] (as ++ bs) = .ok c →
    c.procedures = a.procedures ++ b.procedures ∧ c.diagnostics = a.diagnostics ++ b.diagnostics ∧
      ∀ kind mode, ∃ texts texts', List.Forall₂ (TextAlone lints kind mode) as texts ∧
        List.Forall₂ (TextAlone lints kind mode) bs texts' ∧ kind.file mode a.procedures = kind.ofTexts mode texts ∧
        kind.file mode b.procedures = kind.ofTexts mode texts' ∧
        kind.file mode c.procedures = kind.ofTexts mode (texts ++ texts')
  permuted : ∀ inputs inputs' c, inputs.Perm inputs' → compile lints [] inputs = .ok c →
    ∃ c', compile lints [] inputs' = .ok c' ∧ c.procedures.Perm c'.procedures ∧
      List.Forall₂ (Alone lints) inputs c.procedures ∧ List.Forall₂ (Alone lints) inputs' c'.procedures ∧
      ∀ kind mode, ∃ texts texts', List.Forall₂ (TextAlone lints kind mode) inputs texts ∧
        List.Forall₂ (TextAlone lints kind mode) inputs' texts' ∧ texts.Perm texts' ∧
        kind.file mode c.procedures = kind.ofTexts mode texts ∧
        kind.file mode c'.procedures = kind.ofTexts mode texts'

theorem compile_append {a b : Batch} (ha : compile lints [] as = .ok a) (hb : compile lints [] bs = .ok b) :
    compile lints [] (as ++ bs) = .ok ⟨as ++ bs, [], a.procedures ++ b.procedures, a.diagnostics ++ b.diagnostics⟩ := by
  obtain ⟨u, hu, rfl⟩ := compile_eq_ok_iff.1 ha
  obtain ⟨v, hv, rfl⟩ := compile_eq_ok_iff.1 hb
  refine compile_eq_ok_iff.2 ⟨u ++ v, List.rel_append hu hv, ?_⟩
  simp [built]

theorem exists_compile_of_append (h : compile lints [] (as ++ bs) = .ok c) :
    (∃ a, compile lints [] as = .ok a) ∧ ∃ b, compile lints [] bs = .ok b := by
  obtain ⟨statements, hpasses, -⟩ := compile_eq_ok_iff.1 h
  obtain ⟨u, v, hu, hv, -⟩ := forall₂_append_left_iff.1 hpasses
  exact ⟨⟨_, compile_eq_ok_iff.2 ⟨u, hu, rfl⟩⟩, ⟨_, compile_eq_ok_iff.2 ⟨v, hv, rfl⟩⟩⟩

theorem exists_compile_of_perm (hperm : inputs.Perm inputs') (h : compile lints [] inputs = .ok c) :
    ∃ c', compile lints [] inputs' = .ok c' ∧ c.procedures.Perm c'.procedures := by
  obtain ⟨statements, hpasses, rfl⟩ := compile_eq_ok_iff.1 h
  -- what is read from a source moves along with it
  obtain ⟨statements', hpasses', hstatements⟩ := List.perm_comp_forall₂ hperm.symm hpasses
  exact ⟨_, compile_eq_ok_iff.2 ⟨statements', hpasses', rfl⟩, (hstatements.map _).symm⟩

/-- Sources that are compiled together do not take part in what becomes of each other. -/
theorem independent (lints : List Lint) : Independent lints where
  succeeds as bs := by
    constructor
    · rintro ⟨c, hc⟩
      exact exists_compile_of_append hc
    · rintro ⟨⟨a, ha⟩, b, hb⟩
      exact ⟨_, compile_append ha hb⟩
  appended as bs a b c ha hb hc := by
    cases (compile_append ha hb).symm.trans hc
    refine ⟨rfl, rfl, fun kind mode => ⟨_, _, forall₂_textAlone ha kind mode, forall₂_textAlone hb kind mode, ?_⟩⟩
    rw [← List.map_append]
    exact ⟨rfl, rfl, rfl⟩
  permuted inputs inputs' c hperm hc := by
    obtain ⟨c', hc', hprocedures⟩ := exists_compile_of_perm hperm hc
    refine ⟨c', hc', hprocedures, forall₂_alone hc, forall₂_alone hc', fun kind mode => ?_⟩
    exact ⟨_, _, forall₂_textAlone hc kind mode, forall₂_textAlone hc' kind mode, hprocedures.map _, rfl, rfl⟩

/-- Here the second source brings a warning into the batch. -/
theorem independent_warning :
    ∃ a b c, compile [] [] [⟨"q", "q.sql", "select 1"⟩] = .ok a ∧
      compile [] [] [⟨"r", "r.sql", "-- @param {Int} $1"⟩] = .ok b ∧
      compile [] [] [⟨"q", "q.sql", "select 1"⟩, ⟨"r", "r.sql", "-- @param {Int} $1"⟩] = .ok c ∧
      b.diagnostics = [⟨.warning, "lint", "'r' has no SQL statement", some "r.sql"⟩] ∧
      c.procedures = a.procedures ++ b.procedures ∧ c.diagnostics = a.diagnostics ++ b.diagnostics := by
  have ha : compile [] [] [⟨"q", "q.sql", "select 1"⟩] =
      .ok ⟨[⟨"q", "q.sql", "select 1"⟩], [], [.ofStatement ⟨"q", "q.sql", [], [], "`select 1`", true⟩], []⟩ := by
    decide +kernel
  have hb : compile [] [] [⟨"r", "r.sql", "-- @param {Int} $1"⟩] =
      .ok ⟨[⟨"r", "r.sql", "-- @param {Int} $1"⟩], [],
        [.ofStatement ⟨"r", "r.sql", [⟨1, .int, none, false, none⟩], [], "``", false⟩],
        [⟨.warning, "lint", "'r' has no SQL statement", some "r.sql"⟩]⟩ := by
    decide +kernel
  obtain ⟨c, hc⟩ := ((independent []).succeeds _ _).2 ⟨⟨_, ha⟩, _, hb⟩
  obtain ⟨hprocedures, hdiagnostics, -⟩ := (independent []).appended _ _ _ _ _ ha hb hc
  exact ⟨_, _, c, ha, hb, hc, rfl, hprocedures, hdiagnostics⟩

end Compilation
end AnnotatedSql
