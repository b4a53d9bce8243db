import AnnotatedSql.CommandLine.Execute
import AnnotatedSql.Proofs.Collection
import AnnotatedSql.Proofs.Independence
/-!
# What commands leave alone

A command loads the configuration, collects the sources and compiles all of them before anything is written. What
can stand in the way of that is a configuration that cannot be loaded, a source that is not text, a name that cannot
be used and a source with a mistake (`CommandLine.Obstacle`), for the built-in lints find no errors. With none of
these the sources are compiled (`CommandLine.compiles_iff`), and with any of them a command fails and leaves the disk
as it was (`CommandLine.run_cautious`).
-/

namespace AnnotatedSql

variable {d : Disk} {dir : String} {inputs : List SourceText} {b : Batch}

/-! ## Batches without errors -/

namespace Compilation

/-- The built-in lints only warn. -/
theorem isError_of_mem_findings {s : Statement} {diagnostic : Diagnostic} (h : diagnostic ∈ Lint.findings [] s) :
    diagnostic.isError = false := by
  simp only [Lint.findings, List.flatMap_nil, List.append_nil, List.mem_append] at h
  rcases h with ((hrepeated | hgap) | hshared) | hbody
  · obtain ⟨n, -, rfl⟩ := List.mem_map.1 hrepeated
    rfl
  · unfold Lint.positionGap at hgap
    dsimp only at hgap
    split at hgap
    · cases hgap
    · rw [List.mem_singleton.1 hgap]
      rfl
  · obtain ⟨⟨shadowed, aliasName, owner⟩, -, rfl⟩ := List.mem_map.1 hshared
    rfl
  · unfold Lint.emptyBody at hbody
    dsimp only at hbody
    split at hbody
    · cases hbody
    · rw [List.mem_singleton.1 hbody]
      rfl

/-- Without lints of one's own a source passes if its name can be used and it holds no mistake. -/
theorem exists_passes_iff {i : SourceText} :
    (∃ s, Passes [] i s) ↔ Identifier.fault? i.name = none ∧ ∃ s, Statement.ofSource i = .ok s := by
  constructor
  · rintro ⟨s, h⟩
    exact ⟨h.name, s, h.read⟩
  · rintro ⟨hname, s, hread⟩
    exact ⟨s, hname, hread, fun _ => isError_of_mem_findings⟩

theorem exists_compile_iff :
    (∃ b, compile [] [] inputs = .ok b) ↔
      ∀ i ∈ inputs, Identifier.fault? i.name = none ∧ ∃ s, Statement.ofSource i = .ok s := by
  simp only [← exists_passes_iff, ← exists_forall₂_iff, compile_eq_ok_iff]
  constructor
  · rintro ⟨b, statements, h, -⟩
    exact ⟨statements, h⟩
  · rintro ⟨statements, h⟩
    exact ⟨_, statements, h, rfl⟩

/-- A compilation that succeeds leaves no errors in its batch. -/
theorem errorCount_of_compile (h : compile [] [] inputs = .ok b) : b.errorCount = 0 := by
  obtain ⟨statements, hpasses, rfl⟩ := compile_eq_ok_iff.1 h
  exact (forall₂_passes_iff.1 hpasses).2

end Compilation

namespace CommandLine

variable {o o' : Options} {c : Config} {path : Option String}

/-! ## Configurations -/

/-- The configuration that a command works with: that of the file it is given, or else that of the project, which
is the standard one if there is no file for it. -/
inductive Configures (d : Disk) : Option String → Config → Prop
  | given {path text : String} {c : Config} (read : d.readText path = .ok text) (parsed : Config.parse text path = .ok c) :
    Configures d (some path) c
  | project {text : String} {c : Config} (present : d.isThere Config.fileName = true)
    (read : d.readText Config.fileName = .ok text) (parsed : Config.parse text = .ok c) : Configures d none c
  | standard (absent : d.isThere Config.fileName = false) : Configures d none .standard

theorem load_eq_ok_iff {path : String} {l : Config.Loaded} :
    Config.load d path = .ok l ↔
      l.path = path ∧ d.readText path = .ok l.text ∧ Config.parse l.text path = .ok l.config := by
  obtain ⟨path', text', c⟩ := l
  unfold Config.load
  cases hread : d.readText path with
  | error cause => simp
  | ok text =>
    constructor
    · intro h
      cases hparse : Config.parse text path with
      | error e => simp [hparse, Except.map] at h
      | ok config =>
        simp only [hparse, Except.map, Except.ok.injEq, Config.Loaded.mk.injEq] at h
        obtain ⟨rfl, rfl, rfl⟩ := h
        exact ⟨rfl, rfl, hparse⟩
    · rintro ⟨rfl, htext, hparse⟩
      cases htext
      dsimp only at hparse ⊢
      rw [hparse]
      rfl

theorem loadConfig_some_eq_ok_iff {path : String} :
    loadConfig d (some path) = .ok c ↔ ∃ text, d.readText path = .ok text ∧ Config.parse text path = .ok c := by
  have hload : loadConfig d (some path) = .ok c ↔ ∃ l, Config.load d path = .ok l ∧ l.config = c := by
    cases hload : Config.load d path <;> simp [loadConfig, hload]
  simp only [hload, load_eq_ok_iff]
  constructor
  · rintro ⟨l, ⟨-, hread, hparse⟩, rfl⟩
    exact ⟨l.text, hread, hparse⟩
  · rintro ⟨text, hread, hparse⟩
    exact ⟨⟨path, text, c⟩, ⟨rfl, hread, hparse⟩, rfl⟩

theorem loadConfig_none (d : Disk) :
    loadConfig d none = if d.isThere Config.fileName then loadConfig d (some Config.fileName) else .ok .standard := by
  unfold loadConfig Config.loadOrStandard
  cases d.isThere Config.fileName <;> rfl

theorem loadConfig_eq_ok_iff : loadConfig d path = .ok c ↔ Configures d path c := by
  cases path with
  | some path =>
    rw [loadConfig_some_eq_ok_iff]
    constructor
    · rintro ⟨text, hread, hparse⟩
      exact .given hread hparse
    · rintro ⟨hread, hparse⟩
      exact ⟨_, hread, hparse⟩
  | none =>
    rw [loadConfig_none]
    split
    · rename_i hpresent
      rw [loadConfig_some_eq_ok_iff]
      constructor
      · rintro ⟨text, hread, hparse⟩
        exact .project hpresent hread hparse
      · rintro (_ | ⟨-, hread, hparse⟩ | habsent)
        · exact ⟨_, hread, hparse⟩
        · simp [hpresent] at habsent
    · rename_i habsent
      rw [Bool.not_eq_true] at habsent
      constructor
      · rintro ⟨⟩
        exact .standard habsent
      · rintro (_ | ⟨hpresent, -, -⟩ | -)
        · simp [hpresent] at habsent
        · rfl

theorem Configures.unique {c' : Config} (h : Configures d path c) (h' : Configures d path c') : c = c' := by
  rw [← loadConfig_eq_ok_iff] at h h'
  exact Except.ok.inj (h.symm.trans h')

/-! ## Getting ready -/

/-- What the options ask for is configured, collected and compiled. -/
structure Compiles (d : Disk) (o : Options) (c : Config) (inputs : List SourceText) (b : Batch) : Prop where
  configured : Configures d o.config c
  collected : Collect.sources d (o.input.getD c.input) = .ok inputs
  compiled : compile [] [] inputs = .ok b

/-- What stands in the way of compiling what the options ask for. -/
inductive Obstacle (d : Disk) (o : Options) : Prop
  | config (h : ∀ c, ¬ Configures d o.config c)
  | unreadable {c : Config} {stem file : String} {content : ByteArray} (configured : Configures d o.config c)
    (offered : Collect.Offers d (o.input.getD c.input) stem file content) (h : String.fromUTF8? content = none)
  | name {c : Config} {stem file : String} {content : ByteArray} (configured : Configures d o.config c)
    (offered : Collect.Offers d (o.input.getD c.input) stem file content) (h : Identifier.fault? stem ≠ none)
  | mistake {c : Config} {stem file text : String} {content : ByteArray} {m : Mistake}
    (configured : Configures d o.config c) (offered : Collect.Offers d (o.input.getD c.input) stem file content)
    (read : String.fromUTF8? content = some text) (h : Statement.ofSource ⟨stem, file, text⟩ = .error m)

theorem compileIn_eq_ok_iff :
    compileIn d dir = .ok b ↔ ∃ inputs, Collect.sources d dir = .ok inputs ∧ compile [] [] inputs = .ok b := by
  unfold compileIn
  cases Collect.sources d dir with
  | error e => simp
  | ok inputs => cases hcompile : compile [] [] inputs <;> simp [hcompile]

theorem prepare_eq_ok_iff {config : Config} :
    prepare d o = .ok (config, b) ↔ ∃ c inputs, Compiles d o c inputs b ∧ config = override o c := by
  unfold prepare
  constructor
  · intro h
    cases hload : loadConfig d o.config with
    | error f => simp [hload] at h
    | ok c =>
      cases hcompile : compileIn d (override o c).input with
      | error f => simp [hload, hcompile] at h
      | ok batch =>
        simp only [hload, hcompile, Except.ok.injEq, Prod.mk.injEq] at h
        obtain ⟨rfl, rfl⟩ := h
        obtain ⟨inputs, hsources, hcompiled⟩ := compileIn_eq_ok_iff.1 hcompile
        exact ⟨c, inputs, ⟨loadConfig_eq_ok_iff.1 hload, hsources, hcompiled⟩, rfl⟩
  · rintro ⟨c, inputs, h, rfl⟩
    have hcompile : compileIn d (override o c).input = .ok b := compileIn_eq_ok_iff.2 ⟨inputs, h.collected, h.compiled⟩
    rw [loadConfig_eq_ok_iff.2 h.configured]
    dsimp only
    rw [hcompile]

/-- The files of a directory compile when each of them is text, has a name that can be used and holds no mistake. -/
theorem exists_compileIn_iff :
    (∃ b, compileIn d dir = .ok b) ↔
      ∀ stem file content, Collect.Offers d dir stem file content →
        ∃ text s, String.fromUTF8? content = some text ∧ Identifier.fault? stem = none ∧
          Statement.ofSource ⟨stem, file, text⟩ = .ok s := by
  simp only [compileIn_eq_ok_iff]
  constructor
  · rintro ⟨b, inputs, hsources, hcompiled⟩ stem file content hoffered
    obtain ⟨i, hi⟩ := Collect.exists_sources_iff.1 ⟨inputs, hsources⟩ stem file content hoffered
    have hmem := (Collect.mem_of_sources hsources).2 ⟨stem, file, content, hoffered, hi⟩
    obtain ⟨hname, s, hs⟩ := Compilation.exists_compile_iff.1 ⟨b, hcompiled⟩ i hmem
    obtain ⟨text, htext, rfl⟩ := Option.map_eq_some_iff.1 hi
    exact ⟨text, s, htext, hname, hs⟩
  · intro h
    have hreadable : ∀ stem file content, Collect.Offers d dir stem file content →
        ∃ i, Collect.source? stem file content = some i := by
      intro stem file content hoffered
      obtain ⟨text, -, htext, -⟩ := h stem file content hoffered
      exact ⟨_, Option.map_eq_some_iff.2 ⟨text, htext, rfl⟩⟩
    obtain ⟨inputs, hsources⟩ := Collect.exists_sources_iff.2 hreadable
    have hpass : ∀ i ∈ inputs, Identifier.fault? i.name = none ∧ ∃ s, Statement.ofSource i = .ok s := by
      intro i hi
      obtain ⟨stem, file, content, hoffered, hsource⟩ := (Collect.mem_of_sources hsources).1 hi
      obtain ⟨text, htext, rfl⟩ := Option.map_eq_some_iff.1 hsource
      obtain ⟨text', s, htext', hname, hs⟩ := h stem file content hoffered
      cases htext.symm.trans htext'
      exact ⟨hname, s, hs⟩
    obtain ⟨b, hb⟩ := Compilation.exists_compile_iff.2 hpass
    exact ⟨b, inputs, hsources, hb⟩

/-- Sources are compiled unless something stands in the way. -/
theorem compiles_iff : (∃ c inputs b, Compiles d o c inputs b) ↔ ¬ Obstacle d o := by
  constructor
  · rintro ⟨c, inputs, b, h⟩ hobstacle
    have haccepted := exists_compileIn_iff.1 ⟨b, compileIn_eq_ok_iff.2 ⟨inputs, h.collected, h.compiled⟩⟩
    cases hobstacle with
    | config hnone => exact hnone c h.configured
    | unreadable configured offered hnone =>
      cases configured.unique h.configured
      obtain ⟨text, -, htext, -⟩ := haccepted _ _ _ offered
      cases hnone.symm.trans htext
    | name configured offered hfault =>
      cases configured.unique h.configured
      obtain ⟨-, -, -, hname, -⟩ := haccepted _ _ _ offered
      exact hfault hname
    | mistake configured offered read hm =>
      cases configured.unique h.configured
      obtain ⟨text, s, htext, -, hs⟩ := haccepted _ _ _ offered
      cases read.symm.trans htext
      cases hm.symm.trans hs
  · intro h
    obtain ⟨c, hc⟩ : ∃ c, Configures d o.config c := by
      by_contra hnone
      exact h (.config (not_exists.1 hnone))
    have haccepted : ∃ b, compileIn d (o.input.getD c.input) = .ok b := by
      refine exists_compileIn_iff.2 fun stem file content hoffered => ?_
      cases htext : String.fromUTF8? content with
      | none => exact absurd (.unreadable hc hoffered htext) h
      | some text =>
        cases hs : Statement.ofSource ⟨stem, file, text⟩ with
        | error m => exact absurd (.mistake hc hoffered htext hs) h
        | ok s =>
          have hname : Identifier.fault? stem = none := by
            by_contra hfault
            exact h (.name hc hoffered hfault)
          exact ⟨text, s, rfl, hname, hs⟩
    obtain ⟨b, hb⟩ := haccepted
    obtain ⟨inputs, hsources, hcompiled⟩ := compileIn_eq_ok_iff.1 hb
    exact ⟨c, inputs, b, hc, hsources, hcompiled⟩

/-! ## Commands -/

/-- Two commands work with the same configuration and read the same directory. -/
def Options.Agree (d : Disk) (o o' : Options) : Prop :=
  ∀ c, Configures d o.config c → Configures d o'.config c ∧ o'.input.getD c.input = o.input.getD c.input

theorem Compiles.of_agree (h : Compiles d o c inputs b) (hagree : o.Agree d o') : Compiles d o' c inputs b := by
  obtain ⟨configured, hinput⟩ := hagree c h.configured
  exact ⟨configured, hinput ▸ h.collected, h.compiled⟩

/-- A command fails if something stands in its way, and goes on with the compiled sources if nothing does. -/
theorem prepare_cases (d : Disk) (o : Options) :
    (Obstacle d o ∧ ∃ f, prepare d o = .error f) ∨
      ∃ c inputs b, Compiles d o c inputs b ∧ prepare d o = .ok (override o c, b) := by
  by_cases h : Obstacle d o
  · refine .inl ⟨h, ?_⟩
    cases hprepare : prepare d o with
    | error f => exact ⟨f, rfl⟩
    | ok r =>
      obtain ⟨c, inputs, hcompiles, -⟩ := prepare_eq_ok_iff.1 hprepare
      exact absurd h (compiles_iff.1 ⟨c, inputs, _, hcompiles⟩)
  · obtain ⟨c, inputs, b, hcompiles⟩ := compiles_iff.2 h
    exact .inr ⟨c, inputs, b, hcompiles, prepare_eq_ok_iff.2 ⟨c, inputs, hcompiles, rfl⟩⟩

theorem disk_check (d : Disk) (o : Options) : (check d o).disk = d := by
  unfold check
  split
  · rfl
  · split <;> rfl

theorem exitCode_check_eq_zero_iff : (check d o).exitCode = 0 ↔ ∃ c inputs b, Compiles d o c inputs b := by
  unfold check
  rcases prepare_cases d o with ⟨hobstacle, f, hprepare⟩ | ⟨c, inputs, b, hcompiles, hprepare⟩
  · rw [hprepare, compiles_iff]
    simp [failed, hobstacle]
  · rw [hprepare]
    dsimp only
    rw [if_pos (Compilation.errorCount_of_compile hcompiles.compiled)]
    exact ⟨fun _ => ⟨c, inputs, b, hcompiles⟩, fun _ => rfl⟩

theorem generate_of_obstacle (h : Obstacle d o) : (generate d o).disk = d ∧ (generate d o).exitCode ≠ 0 := by
  rcases prepare_cases d o with ⟨-, f, hprepare⟩ | ⟨c, inputs, b, hcompiles, -⟩
  · unfold generate
    rw [hprepare]
    exact ⟨rfl, by simp [failed]⟩
  · exact absurd h (compiles_iff.1 ⟨c, inputs, b, hcompiles⟩)

theorem disk_generate_of_dryRun (h : o.dryRun = true) : (generate d o).disk = d := by
  unfold generate
  split
  · rfl
  · rw [if_pos h]
    rfl

theorem exitCode_generate_of_dryRun (h : o.dryRun = true) (hcompiles : Compiles d o c inputs b) :
    (generate d o).exitCode = 0 := by
  unfold generate
  rw [prepare_eq_ok_iff.2 ⟨c, inputs, hcompiles, rfl⟩]
  dsimp only
  rw [if_pos h]
  rfl

/-- What can be relied on when a command line is run on a disk. -/
structure Cautious (d : Disk) (args : List String) : Prop where
  /-- Only a generation that is not a dry run writes. -/
  looks : (∀ o, parse args = .ok (.generate o) → o.dryRun = true) → (run d args).disk = d
  stops : ∀ o, parse args = .ok (.generate o) → Obstacle d o → (run d args).disk = d ∧ (run d args).exitCode ≠ 0
  checks : ∀ o, parse args = .ok (.check o) → ((run d args).exitCode = 0 ↔ ∃ c inputs b, Compiles d o c inputs b)
  previews : ∀ o, parse args = .ok (.check o) → (run d args).exitCode = 0 →
    ∀ args' o', parse args' = .ok (.generate o') → o'.dryRun = true → o.Agree d o' → (run d args').exitCode = 0

/-- A command line that fails before anything is written, or that is not to write anything, leaves the disk as it
was. -/
theorem run_cautious (d : Disk) (args : List String) : Cautious d args where
  looks h := by
    unfold run
    cases hparse : parse args with
    | error stop => cases stop <;> rfl
    | ok command =>
      cases command with
      | generate o => exact disk_generate_of_dryRun (h o hparse)
      | check o => exact disk_check d o
      | completions shell => rfl
  stops o hparse hobstacle := by
    unfold run
    rw [hparse]
    exact generate_of_obstacle hobstacle
  checks o hparse := by
    unfold run
    rw [hparse]
    exact exitCode_check_eq_zero_iff
  previews o hparse hzero args' o' hparse' hdry hagree := by
    unfold run at hzero ⊢
    rw [hparse] at hzero
    rw [hparse']
    obtain ⟨c, inputs, b, hcompiles⟩ := exitCode_check_eq_zero_iff.1 hzero
    exact exitCode_generate_of_dryRun hdry (hcompiles.of_agree hagree)

/-- A project does without a configuration file, but one that is asked for has to be there. -/
example : (run .empty ["check"]).exitCode = 0 ∧ (run .empty ["generate", "--config", "other.toml"]).exitCode = 1 := by
  decide +kernel

end CommandLine
end AnnotatedSql
