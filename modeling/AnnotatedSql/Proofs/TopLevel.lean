import AnnotatedSql.Proofs.Artifacts
import AnnotatedSql.Proofs.Collection
/-!
# The names of a module

A module is a list of statements (`ModuleKind.file_eq`): its preamble binds what the procedures use, and behind it
stands an exported statement for each procedure. The sources of a directory have different names, so no two
procedures bind the same name. A name of the preamble is usable for a procedure though, and a source that has it
is what makes a module bind a name twice (`Compilation.nodup_bound_iff`).
-/

namespace AnnotatedSql

open Template (braced)

/-- A statement at the top level of a module. -/
inductive TopLevel
  /-- Takes one name out of a CommonJS module. -/
  | required (name source : String)
  /-- Imports one name. -/
  | imported (name source : String)
  /-- Imports a whole module under a name. -/
  | importedAll (name source : String)
  | constant (name value : String)
  /-- Sets a property of what a CommonJS module exports. -/
  | property (name tail : String)
  /-- Exports a function. -/
  | function (name tail : String)
  /-- Exports the declaration of a function, behind its documentation. -/
  | declaration (documentation name parameters result : String)
  deriving DecidableEq, Repr

namespace TopLevel

def text : TopLevel → String
  | required name source => "const" ++ braced name ++ "=require(\"" ++ source ++ "\");"
  | imported name source => "import" ++ braced name ++ "from\"" ++ source ++ "\";"
  | importedAll name source => "import * as " ++ name ++ " from \"" ++ source ++ "\";"
  | constant name value => "const " ++ name ++ "=" ++ value ++ ";"
  | property name tail => "exports." ++ name ++ "=async function" ++ tail
  | function name tail => "export async function " ++ name ++ tail
  | declaration documentation name parameters result =>
    "/**" ++ documentation ++ "\n */\n" ++ ("export const " ++ name ++ ": (" ++ parameters ++ ") => " ++ result ++ ";")

/-- The names that a statement binds in its module. A property of the exports is no name of the module. -/
def bound : TopLevel → List String
  | required name _ | imported name _ | importedAll name _ | constant name _ | function name _
  | declaration _ name _ _ => [name]
  | property _ _ => []

end TopLevel

namespace ModuleKind

/-- The statements that make up a preamble. -/
def preambleStatements : ModuleKind → Mode → List TopLevel
  | commonJs, .execute => [.required "PrismaClient" "./index.js", .constant "prisma" "new PrismaClient()"]
  | esModule, .execute => [.imported "PrismaClient" "./index.js", .constant "prisma" "new PrismaClient()"]
  | commonJs, .compose => [.required "Prisma" "./index.js"]
  | esModule, .compose => [.imported "Prisma" "./index.js"]
  | declarations, _ => [.importedAll "runtime" "@prisma/client/runtime/library"]

/-- The statement that exports a procedure. -/
def exported (kind : ModuleKind) (mode : Mode) (p : Procedure) : TopLevel :=
  match kind with
  | commonJs => .property p.name (functionText mode p)
  | esModule => .function p.name (functionText mode p)
  | declarations => .declaration p.signature.documentation p.name p.signature.typed (returnType mode)

/-- The names that a preamble binds. -/
def preambleNames (kind : ModuleKind) (mode : Mode) : List String :=
  (kind.preambleStatements mode).flatMap TopLevel.bound

/-- The names that a module binds, in the order of its statements. -/
def boundNames (kind : ModuleKind) (mode : Mode) (procedures : List Procedure) : List String :=
  (kind.preambleStatements mode ++ procedures.map (kind.exported mode)).flatMap TopLevel.bound

theorem preamble_eq (kind : ModuleKind) (mode : Mode) :
    kind.preamble mode = String.join ((kind.preambleStatements mode).map TopLevel.text) := by
  cases kind <;> cases mode <;> decide +kernel

theorem render_eq (kind : ModuleKind) (mode : Mode) (p : Procedure) :
    kind.render mode p = (kind.exported mode p).text := by
  cases kind with
  | commonJs => exact render_commonJs mode p
  | esModule => exact render_esModule mode p
  | declarations => exact render_declarations mode p

/-- A module is its statements: those of the preamble on one line, and the exported ones behind it. -/
theorem file_eq (kind : ModuleKind) (mode : Mode) (procedures : List Procedure) :
    kind.file mode procedures = String.join ((kind.preambleStatements mode).map TopLevel.text) ++ "\n" ++
      "\n".intercalate ((procedures.map (kind.exported mode)).map TopLevel.text) := by
  have hrender : procedures.map (kind.render mode) = (procedures.map (kind.exported mode)).map TopLevel.text := by
    rw [List.map_map]
    exact List.map_congr_left fun p _ => kind.render_eq mode p
  rw [file, preamble_eq, hrender]

theorem boundNames_commonJs (mode : Mode) (procedures : List Procedure) :
    commonJs.boundNames mode procedures = commonJs.preambleNames mode := by
  simp [boundNames, preambleNames, exported, TopLevel.bound, List.flatMap_map]

theorem boundNames_eq {kind : ModuleKind} (h : kind ≠ commonJs) (mode : Mode) (procedures : List Procedure) :
    kind.boundNames mode procedures = kind.preambleNames mode ++ procedures.map (·.name) := by
  have hexported : ∀ p : Procedure, (kind.exported mode p).bound = [p.name] := by
    intro p
    cases kind with
    | commonJs => exact absurd rfl h
    | esModule | declarations => rfl
  simp [boundNames, preambleNames, List.flatMap_map, hexported, ← List.map_eq_flatMap]

theorem nodup_preambleNames (kind : ModuleKind) (mode : Mode) : (kind.preambleNames mode).Nodup := by
  cases kind <;> cases mode <;> decide

/-- Procedures with different names make a module bind a name twice only if one of them has a name of the
preamble. -/
theorem nodup_boundNames_iff (kind : ModuleKind) (mode : Mode) {procedures : List Procedure}
    (h : (procedures.map (·.name)).Nodup) :
    (kind.boundNames mode procedures).Nodup ↔
      (kind ≠ commonJs → ∀ name ∈ procedures.map (·.name), name ∉ kind.preambleNames mode) := by
  by_cases hkind : kind = commonJs
  · subst hkind
    simp [boundNames_commonJs, nodup_preambleNames]
  · have hapart : (∀ a ∈ kind.preambleNames mode, ∀ b ∈ procedures.map (·.name), a ≠ b) ↔
        ∀ name ∈ procedures.map (·.name), name ∉ kind.preambleNames mode :=
      ⟨fun hne name hname hmem => hne name hmem name hname rfl, fun hnot a ha b hb hab => hnot b hb (hab ▸ ha)⟩
    rw [boundNames_eq hkind, List.nodup_append, hapart]
    simp [nodup_preambleNames, h, hkind]

end ModuleKind

namespace Compilation

variable {lints : List Lint} {steps : List Step} {inputs : List SourceText} {statements : List Statement} {c : Batch}

theorem Reads.names_eq (h : Reads inputs statements) : statements.map (·.name) = inputs.map (·.name) := by
  obtain ⟨-, sources⟩ := h
  induction sources with
  | nil => rfl
  | cons hread _ ih =>
    obtain ⟨-, -, hname, -⟩ := Statement.ofSource_eq_ok_iff.1 hread
    rw [List.map_cons, List.map_cons, hname, ih]

/-- There is a procedure for each source, of the same name and in the same order. -/
theorem names_procedures (hsteps : ∀ step ∈ steps, Step.OnlyReports step) (h : compile lints steps inputs = .ok c) :
    c.procedures.map (·.name) = inputs.map (·.name) := by
  obtain ⟨r, hr⟩ := exists_outcome lints hsteps inputs
  rw [eq_of_outcome hr] at h
  subst h
  cases hr with
  | @done statements added reads clean succeed =>
    rw [← reads.names_eq]
    exact List.map_map.trans rfl

/-- What binds a name twice in a module whose sources come from one directory: procedures never clash with each
other, and those of functions or declarations clash with a preamble when a source has one of its names. -/
theorem nodup_bound_iff {d : Disk} {dir : String} (hd : d.root.WellFormed)
    (hsteps : ∀ step ∈ steps, Step.OnlyReports step) (hsources : Collect.sources d dir = .ok inputs)
    (h : compile lints steps inputs = .ok c) (kind : ModuleKind) (mode : Mode) :
    (c.procedures.map (·.name)).Nodup ∧
      kind.file mode c.procedures = String.join ((kind.preambleStatements mode).map TopLevel.text) ++ "\n" ++
        "\n".intercalate ((c.procedures.map (kind.exported mode)).map TopLevel.text) ∧
      ((kind.boundNames mode c.procedures).Nodup ↔
        (kind ≠ .commonJs → ∀ i ∈ inputs, i.name ∉ kind.preambleNames mode)) := by
  have hnames := names_procedures hsteps h
  have hnodup : (c.procedures.map (·.name)).Nodup := by
    rw [hnames]
    exact Collect.nodup_names hd hsources
  refine ⟨hnodup, kind.file_eq mode c.procedures, ?_⟩
  rw [kind.nodup_boundNames_iff mode hnodup, hnames, List.forall_mem_map]

/-- Here a source has a name of the other mode's preamble, and an entry with the extension is no file. -/
theorem nodup_bound_iff_other_mode :
    ∃ d c, d.root.WellFormed ∧
      Collect.sources d "sql" = .ok [⟨"Prisma", "Prisma.sql", "select 1"⟩, ⟨"find", "find.sql", "select 2"⟩] ∧
      compile [] [] [⟨"Prisma", "Prisma.sql", "select 1"⟩, ⟨"find", "find.sql", "select 2"⟩] = .ok c ∧
      ModuleKind.esModule.boundNames .execute c.procedures = ["PrismaClient", "prisma", "Prisma", "find"] ∧
      (ModuleKind.esModule.boundNames .execute c.procedures).Nodup := by
  let entries : Entries Disk.Tree :=
    [("Prisma.sql", .file "select 1".toUTF8), ("find.sql", .file "select 2".toUTF8), ("old.sql", .dir [])]
  have hd : (Disk.Tree.dir [("sql", .dir entries)]).WellFormed := by
    refine .dir (by decide) (List.forall_mem_singleton.2 (.dir (by decide) ?_))
    simp only [entries, List.forall_mem_cons, List.not_mem_nil, false_imp_iff, implies_true, and_true]
    exact ⟨.file _, .file _, .dir (by decide) (by simp)⟩
  have hsources : Collect.sources ⟨.dir [("sql", .dir entries)], []⟩ "sql" =
      .ok [⟨"Prisma", "Prisma.sql", "select 1"⟩, ⟨"find", "find.sql", "select 2"⟩] := by
    have hfind : Disk.find ⟨.dir [("sql", .dir entries)], []⟩ "sql" = .ok (.dir entries) := rfl
    have horder : Disk.Tree.inOrder entries = entries := List.mergeSort_of_pairwise (by decide +kernel)
    rw [Collect.sources, hfind]
    dsimp only
    rw [Collect.sourceFiles, horder]
    decide +kernel
  have h : compile [] [] [⟨"Prisma", "Prisma.sql", "select 1"⟩, ⟨"find", "find.sql", "select 2"⟩] =
      .ok ⟨[⟨"Prisma", "Prisma.sql", "select 1"⟩, ⟨"find", "find.sql", "select 2"⟩], [],
        [.ofStatement ⟨"Prisma", "Prisma.sql", [], [], "`select 1`", true⟩,
          .ofStatement ⟨"find", "find.sql", [], [], "`select 2`", true⟩], []⟩ := by
    decide +kernel
  refine ⟨_, _, hd, hsources, h, by decide +kernel, ?_⟩
  exact (nodup_bound_iff hd (by simp) hsources h .esModule .execute).2.2.2 (by decide)

/-- A source can be named for the client that the preamble makes, and the module then binds that name twice. -/
theorem prisma_bound_twice :
    ∃ d c, d.root.WellFormed ∧ Collect.sources d "." = .ok [⟨"prisma", "prisma.sql", "select 1"⟩] ∧
      compile [] [] [⟨"prisma", "prisma.sql", "select 1"⟩] = .ok c ∧
      ModuleKind.esModule.file .execute c.procedures =
        "import\x7bPrismaClient\x7dfrom\"./index.js\";const prisma=new PrismaClient();\n" ++
        "export async function prisma()\x7breturn await prisma.$executeRaw`select 1`;\x7d" ∧
      ModuleKind.esModule.boundNames .execute c.procedures = ["PrismaClient", "prisma", "prisma"] ∧
      ¬ (ModuleKind.esModule.boundNames .execute c.procedures).Nodup := by
  have hd : (Disk.Tree.dir [("prisma.sql", .file "select 1".toUTF8)]).WellFormed :=
    .dir (by decide) (List.forall_mem_singleton.2 (.file _))
  have hsources : Collect.sources ⟨.dir [("prisma.sql", .file "select 1".toUTF8)], []⟩ "." =
      .ok [⟨"prisma", "prisma.sql", "select 1"⟩] := by
    decide +kernel
  have h : compile [] [] [⟨"prisma", "prisma.sql", "select 1"⟩] =
      .ok ⟨[⟨"prisma", "prisma.sql", "select 1"⟩], [],
        [.ofStatement ⟨"prisma", "prisma.sql", [], [], "`select 1`", true⟩], []⟩ := by
    decide +kernel
  exact ⟨_, _, hd, hsources, h, by decide +kernel, by decide +kernel, by decide +kernel⟩

end Compilation
end AnnotatedSql
