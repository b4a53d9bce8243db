import AnnotatedSql.Output.Module
import AnnotatedSql.Proofs.Compilation
import AnnotatedSql.Proofs.Scope
import AnnotatedSql.Proofs.Template
/-!
# The texts of a procedure

Every template is a skeleton (`ModuleKind.isSkeleton_skeleton`), so the text of a procedure is that of its
parts put together, whatever stands in them. Both kinds of module that hold functions agree behind the name
(`ModuleKind.functionText`), and a declaration is a comment of one line for each argument, in front of a line
of its own (`ModuleKind.linesOf_render_declarations`).
-/

namespace AnnotatedSql

open Identifier (IsScriptName)

/-! ## Procedures that come of a compilation -/

/-- A procedure that was made of a source with a usable name. -/
def Procedure.IsCompiled (p : Procedure) : Prop :=
  ∃ source s, Identifier.fault? source.name = none ∧ Statement.ofSource source = .ok s ∧ p = .ofStatement s

/-- A step that leaves no procedures but those made of sources. -/
def Step.KeepsCompiled (step : Step) : Prop :=
  ∀ b : Batch, (∀ p ∈ b.procedures, p.IsCompiled) → ∀ p ∈ (step b).1.procedures, p.IsCompiled

theorem Batch.isCompiled_runSteps {steps : List Step} (h : ∀ step ∈ steps, step.KeepsCompiled) {b : Batch}
    (hb : ∀ p ∈ b.procedures, p.IsCompiled) : ∀ p ∈ (runSteps steps b).1.procedures, p.IsCompiled := by
  induction steps generalizing b with
  | nil => exact hb
  | cons step steps ih =>
    rw [List.forall_mem_cons] at h
    have hleft := h.1 b hb
    rw [runSteps]
    rcases hstep : step b with ⟨c, - | failure⟩
    · rw [hstep] at hleft
      exact ih h.2 hleft
    · rw [hstep] at hleft
      exact hleft

namespace Compilation

variable {lints : List Lint} {steps : List Step} {inputs : List SourceText} {c : Batch}

/-- A compilation that succeeds runs the further steps on what the built-in ones leave. -/
theorem exists_runSteps (h : compile lints steps inputs = .ok c) :
    ∃ statements, Reads inputs statements ∧ Batch.runSteps steps (built lints inputs statements) = (c, none) := by
  rw [compile_eq] at h
  cases hnames : Batch.rejected inputs with
  | cons name names => simp [hnames] at h
  | nil =>
    cases hread : Batch.readAll inputs with
    | error error => simp [hnames, hread] at h
    | ok statements =>
      simp only [hnames, hread] at h
      split_ifs at h
      rcases hrun : Batch.runSteps steps (built lints inputs statements) with ⟨b, - | failure⟩
      · rw [hrun] at h
        cases h
        exact ⟨statements, ⟨Batch.rejected_eq_nil_iff.1 hnames, Batch.readAll_eq_ok_iff.1 hread⟩, hrun⟩
      · rw [hrun] at h
        cases h

theorem Reads.exists_input {statements : List Statement} {s : Statement} (h : Reads inputs statements)
    (hs : s ∈ statements) : ∃ i ∈ inputs, Identifier.fault? i.name = none ∧ Statement.ofSource i = .ok s := by
  obtain ⟨names, sources⟩ := h
  induction sources with
  | nil => cases hs
  | cons hread _ ih =>
    rw [List.forall_mem_cons] at names
    rcases List.mem_cons.1 hs with rfl | hs
    · exact ⟨_, List.mem_cons_self, names.1, hread⟩
    · obtain ⟨i, hi, hname, hsource⟩ := ih hs names.2
      exact ⟨i, List.mem_cons_of_mem _ hi, hname, hsource⟩

theorem isCompiled_of_mem (hsteps : ∀ step ∈ steps, step.KeepsCompiled) (h : compile lints steps inputs = .ok c)
    {p : Procedure} (hp : p ∈ c.procedures) : p.IsCompiled := by
  obtain ⟨statements, reads, hrun⟩ := exists_runSteps h
  have hbuilt : ∀ p ∈ (built lints inputs statements).procedures, p.IsCompiled := by
    intro p hp
    obtain ⟨s, hs, rfl⟩ := List.mem_map.1 hp
    obtain ⟨i, -, hname, hsource⟩ := reads.exists_input hs
    exact ⟨i, s, hname, hsource, rfl⟩
  have hleft := Batch.isCompiled_runSteps hsteps hbuilt p
  rw [hrun] at hleft
  exact hleft hp

end Compilation

/-! ## Parts of a text -/

namespace Procedure

variable {p : Procedure}

theorem IsCompiled.hygienic (h : p.IsCompiled) : p.signature.Hygienic := by
  obtain ⟨source, s, -, hs, rfl⟩ := h
  exact Signature.hygienic_of_ofSource hs

theorem IsCompiled.name_hasShape (h : p.IsCompiled) : Identifier.HasShape p.name.toList := by
  obtain ⟨source, s, hname, hs, rfl⟩ := h
  obtain ⟨-, -, hsame, -⟩ := Statement.ofSource_eq_ok_iff.1 hs
  have hshape := Identifier.hasShape_of_fault? hname
  rwa [← hsame] at hshape

/-- A description stands on one line. -/
theorem IsCompiled.newline_not_mem_description (h : p.IsCompiled) {a : Argument} (ha : a ∈ p.signature) {t : String}
    (ht : a.description = some t) : '\n' ∉ t.toList := by
  obtain ⟨source, s, -, hs, rfl⟩ := h
  have hwf := Statement.wellFormed_parameters hs
  rcases Signature.eq_of_mem_fill ha with ⟨-, heq⟩ | ⟨d, hat, heq⟩
  · rw [heq] at ht
    cases ht
  · rw [heq] at ht
    have hd := ((Parameters.at?_eq_some_iff hwf.distinct).1 hat).1
    exact ((hwf.declared d hd).description t ht).2.2

end Procedure

/-- The line of a comment that documents an argument. -/
def Argument.docLine (a : Argument) : String :=
  " * @param " ++ a.exposed ++ (match a.description with | some text => " " ++ text | none => "")

/-- The documentation is its lines, each behind a line feed. -/
theorem Signature.flatMap_docLines (s : Signature) (rest : List (List Char)) :
    (s.map (·.docLine.toList) ++ rest).flatMap ('\n' :: ·) = s.documentation.toList ++ rest.flatMap ('\n' :: ·) := by
  have hline : ∀ a : Argument, (match a.description with
      | some text => "\n * @param " ++ a.exposed ++ " " ++ text
      | none => "\n * @param " ++ a.exposed).toList = '\n' :: a.docLine.toList := by
    intro a
    cases h : a.description <;> simp [Argument.docLine, h]
  unfold documentation
  rw [List.flatMap_append, String.toList_join, List.flatMap_map, List.flatMap_map]
  exact congrArg (· ++ _) (List.flatMap_congr fun a _ => (hline a).symm)

theorem Argument.newline_not_mem_docLine {a : Argument} (hname : IsScriptName a.exposed.toList)
    (hdescription : ∀ t, a.description = some t → '\n' ∉ t.toList) : '\n' ∉ a.docLine.toList := by
  have hexposed : '\n' ∉ a.exposed.toList := hname.not_mem (by decide) (by decide)
  have hnote : '\n' ∉ (match a.description with | some text => " " ++ text | none => "").toList := by
    cases h : a.description with
    | none => simp
    | some t => simpa using hdescription t h
  unfold docLine
  simp only [String.toList_append, List.mem_append, not_or]
  exact ⟨⟨by decide +kernel, hexposed⟩, hnote⟩

theorem mem_clientType (type : Option ScalarType) (optional : Bool) :
    ∀ c ∈ (clientType type optional).toList, Text.isWord c = true ∨ c ∈ [' ', '|', '.'] := by
  cases optional <;> rcases type with - | (_ | _) <;> exact Text.forall_mem_of_all (by decide +kernel)

/-- A typed parameter consists of words and a few marks, none of which stands between parameters or lines. -/
theorem Argument.mem_typed {a : Argument} (hname : IsScriptName a.exposed.toList) :
    ∀ c ∈ a.typed.toList, Text.isWord c = true ∨ c ∈ ['$', ':', ' ', '|', '.'] := by
  intro c hc
  simp only [typed, String.toList_append, List.mem_append] at hc
  rcases hc with (hc | hc) | hc
  · rcases hname.mem c hc with hword | rfl
    · exact .inl hword
    · exact .inr (by decide)
  · revert c
    exact Text.forall_mem_of_all (by decide +kernel)
  · rcases mem_clientType a.type a.optional c hc with hword | hmark
    · exact .inl hword
    · exact .inr (List.mem_of_mem_drop (i := 2) hmark)

theorem Argument.comma_not_mem_typed {a : Argument} (hname : IsScriptName a.exposed.toList) :
    ',' ∉ a.typed.toList := by
  intro hmem
  rcases mem_typed hname _ hmem with hword | hmark
  · exact absurd hword (by decide)
  · exact absurd hmark (by decide)

/-! ## Texts put together -/

namespace ModuleKind

open Template (IsSkeleton filled mark)

/-- The literals and holes of a function, with what stands in front of its name and behind it. -/
def functionSkeleton (front behind : String) (mode : Mode) : Segments (List Char) where
  front := front.toList
  tail := [("name".toList, (behind ++ "(").toList), ("args".toList, ")\x7b".toList),
    ("init".toList, ("return " ++ call mode).toList), ("code".toList, ";\x7d".toList)]

/-- The literals and holes of a declaration. -/
def declarationSkeleton : Segments (List Char) where
  front := "/**".toList
  tail := [("docs".toList, "\n */\nexport const ".toList), ("name".toList, ": (".toList),
    ("params".toList, ") => ".toList), ("returns".toList, ";".toList)]

/-- The literals and holes of a template. -/
def skeleton : ModuleKind → Mode → Segments (List Char)
  | commonJs, mode => functionSkeleton "exports." "=async function" mode
  | esModule, mode => functionSkeleton "export async function " "" mode
  | declarations, _ => declarationSkeleton

theorem toList_functionTemplate (front behind : String) (mode : Mode) :
    (front ++ Template.hole "name" ++ behind ++ functionTail mode).toList =
      (functionSkeleton front behind mode).text mark := by
  simp [functionTail, functionSkeleton, Template.hole, Template.braced, Segments.text, mark]

theorem toList_template (kind : ModuleKind) (mode : Mode) :
    (kind.template mode).toList = (kind.skeleton mode).text mark := by
  cases kind with
  | commonJs => exact toList_functionTemplate _ _ mode
  | esModule =>
    have h := toList_functionTemplate "export async function " "" mode
    rwa [String.append_empty] at h
  | declarations =>
    change _ = declarationSkeleton.text mark
    unfold template
    simp [declarationSkeleton, Template.hole, Segments.text, mark]

theorem isSkeleton_skeleton (kind : ModuleKind) (mode : Mode) : IsSkeleton (kind.skeleton mode) := by
  cases kind <;> cases mode <;> decide +kernel

theorem toList_render (kind : ModuleKind) (mode : Mode) (p : Procedure) :
    (kind.render mode p).toList =
      (kind.skeleton mode).text (filled ((kind.values mode p).map fun (n, v) => (n.toList, v.toList))) :=
  Template.toList_render (kind.isSkeleton_skeleton mode) (kind.toList_template mode)

/-- The expression that stands in front of the code of a function. -/
def callText : Mode → String
  | .execute => "await prisma.$executeRaw"
  | .compose => "Prisma.sql"

theorem call_eq_callText (mode : Mode) : call mode = callText mode := by
  cases mode <;> rfl

/-- What stands behind the name of a function, the same in both kinds of module that hold functions. -/
def functionText (mode : Mode) (p : Procedure) : String :=
  "(" ++ p.signature.formals ++ ")\x7b" ++ p.signature.initializer ++ "return " ++ callText mode ++ p.code ++
    ";\x7d"

theorem text_functionSkeleton (front behind : String) (mode : Mode) (p : Procedure) :
    (functionSkeleton front behind mode).text
        (filled ((commonJs.values mode p).map fun (n, v) => (n.toList, v.toList))) =
      (front ++ p.name ++ behind ++ functionText mode p).toList := by
  simp [functionSkeleton, Segments.text, filled, Template.value?, values, functionText, call_eq_callText]

theorem render_commonJs (mode : Mode) (p : Procedure) :
    commonJs.render mode p = "exports." ++ p.name ++ "=async function" ++ functionText mode p :=
  String.toList_inj.1 ((toList_render commonJs mode p).trans (text_functionSkeleton _ _ mode p))

theorem render_esModule (mode : Mode) (p : Procedure) :
    esModule.render mode p = "export async function " ++ p.name ++ functionText mode p := by
  have h := String.toList_inj.1 ((toList_render esModule mode p).trans (text_functionSkeleton _ _ mode p))
  rwa [String.append_empty] at h

/-- The last line of a declaration. -/
def declarationLine (mode : Mode) (p : Procedure) : String :=
  "export const " ++ p.name ++ ": (" ++ p.signature.typed ++ ") => " ++ returnType mode ++ ";"

/-- The marks that stand between the words of a declaration. -/
def punctuation : List Char := "$: |.,()=><;".toList

/-- A declaration consists of words and marks between them. -/
theorem mem_declarationLine {p : Procedure} (h : p.IsCompiled) (mode : Mode) :
    ∀ c ∈ (declarationLine mode p).toList, Text.isWord c = true ∨ c ∈ punctuation := by
  have hname : ∀ c ∈ p.name.toList, Text.isWord c = true ∨ c ∈ punctuation :=
    fun c hc => .inl (h.name_hasShape.isWord c hc)
  have htyped : ∀ c ∈ p.signature.typed.toList, Text.isWord c = true ∨ c ∈ punctuation := by
    intro c hc
    rw [Signature.typed, String.toList_intercalate] at hc
    rcases Text.mem_of_mem_intercalate hc with hsep | ⟨part, hpart, hc⟩
    · have hseparator : ∀ c ∈ ", ".toList, c ∈ punctuation := Text.forall_mem_of_all (by decide +kernel)
      exact .inr (hseparator c hsep)
    · rw [List.map_map] at hpart
      obtain ⟨a, ha, rfl⟩ := List.mem_map.1 hpart
      have hmarks : ∀ c ∈ ['$', ':', ' ', '|', '.'], c ∈ punctuation := Text.forall_mem_of_all (by decide +kernel)
      exact (Argument.mem_typed (h.hygienic.names a ha).1 c hc).imp_right (hmarks c)
  have hreturn : ∀ c ∈ (returnType mode).toList, Text.isWord c = true ∨ c ∈ punctuation := by
    cases mode <;> exact Text.forall_mem_of_all (by decide +kernel)
  unfold declarationLine
  simp only [String.toList_append, List.forall_mem_append]
  refine ⟨⟨⟨⟨⟨⟨?_, hname⟩, ?_⟩, htyped⟩, ?_⟩, hreturn⟩, ?_⟩ <;> exact Text.forall_mem_of_all (by decide +kernel)

theorem newline_not_mem_declarationLine {p : Procedure} (h : p.IsCompiled) (mode : Mode) :
    '\n' ∉ (declarationLine mode p).toList := by
  intro hmem
  rcases mem_declarationLine h mode _ hmem with hword | hmark
  · exact absurd hword (by decide)
  · exact absurd hmark (by decide +kernel)

theorem render_declarations (mode : Mode) (p : Procedure) :
    declarations.render mode p = "/**" ++ p.signature.documentation ++ "\n */\n" ++ declarationLine mode p := by
  refine String.toList_inj.1 ((toList_render declarations mode p).trans ?_)
  change declarationSkeleton.text _ = _
  unfold declarationLine
  simp [declarationSkeleton, Segments.text, filled, Template.value?, values]

theorem toList_render_declarations (mode : Mode) (p : Procedure) :
    (declarations.render mode p).toList =
      "/**".toList ++ (p.signature.map (·.docLine.toList) ++ [" */".toList, (declarationLine mode p).toList]).flatMap
        ('\n' :: ·) := by
  rw [Signature.flatMap_docLines, render_declarations]
  simp

theorem linesOf_render_declarations {p : Procedure} (h : p.IsCompiled) (mode : Mode) :
    Header.linesOf (declarations.render mode p).toList =
      "/**".toList :: (p.signature.map (·.docLine.toList) ++ [" */".toList, (declarationLine mode p).toList]) := by
  have hnames := h.hygienic.names
  have hlines : ∀ line ∈ "/**".toList :: (p.signature.map (·.docLine.toList) ++
      [" */".toList, (declarationLine mode p).toList]), '\n' ∉ line := by
    simp only [List.forall_mem_cons, List.forall_mem_append, List.forall_mem_map, List.not_mem_nil, false_imp_iff,
      implies_true, and_true]
    refine ⟨by decide +kernel, fun a ha => ?_, by decide +kernel, newline_not_mem_declarationLine h mode⟩
    exact Argument.newline_not_mem_docLine (hnames a ha).1 fun t ht => h.newline_not_mem_description ha ht
  have hjoin := Text.intercalate_append_cons (c := '\n') [] "/**".toList
    (p.signature.map (·.docLine.toList) ++ [" */".toList, (declarationLine mode p).toList])
  rw [List.nil_append, List.flatMap_nil, List.nil_append, ← toList_render_declarations] at hjoin
  rw [← hjoin]
  exact List.splitOn_intercalate '\n' hlines (by simp)

end ModuleKind
end AnnotatedSql
