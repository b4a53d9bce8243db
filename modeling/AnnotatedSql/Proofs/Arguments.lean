import AnnotatedSql.Proofs.Lints
/-!
# Arguments and declarations

The positions of declarations may come in any order and leave out numbers; a function has an argument for each
position up to the highest. So every declaration has its argument, and the arguments left over are the gaps
(`Signature.represents_ofParameters`). For an accepted source this holds together with what is known of its parameters
(`Statement.regular_of_ofSource`).
-/

namespace AnnotatedSql

/-- Arguments stand for declarations: the argument of each position is that of the declaration made for it, or else a
gap, and they go up to the highest position that was declared. -/
structure Signature.Represents (s : Signature) (parameters : Parameters) : Prop where
  length : s.length = parameters.maxPosition
  position : ∀ (i : Nat) (h : i < s.length), s[i].position = i + 1
  declared : ∀ a ∈ s, a.isDeclared = true ↔ ∃ d ∈ parameters, d.position = a.position
  carries : ∀ a ∈ s, ∀ d ∈ parameters, d.position = a.position →
    a.type = some d.type ∧ a.optional = d.optional ∧ a.description = d.description
  once : ∀ d ∈ parameters, ∃! i : Fin s.length, s[i].position = d.position
  length_le : parameters.length ≤ s.length
  gaps : s.gaps.length = s.length - parameters.length
  /-- There are no gaps exactly if the positions are the numbers from one up to some number. -/
  dense : s.length = parameters.length ↔ ∃ n, ∀ k, k ∈ parameters.map (·.position) ↔ 1 ≤ k ∧ k ≤ n

namespace Signature

variable {parameters : Parameters} {a : Argument} {d : Declaration}

theorem isDeclared_of_mem (ha : a ∈ ofParameters parameters) :
    a.isDeclared = parameters.any (·.position == a.position) := by
  rcases eq_of_mem_fill ha with ⟨hat, heq⟩ | ⟨d, hat, heq⟩
  · have hnone := List.find?_eq_none.1 hat
    rw [List.any_eq_false.2 hnone, heq]
    rfl
  · have hany := List.any_eq_true.2 ⟨d, List.mem_of_find?_eq_some hat, List.find?_some hat⟩
    rw [hany, heq]
    rfl

theorem carries_of_mem (hn : (parameters.map (·.position)).Nodup) (ha : a ∈ ofParameters parameters)
    (hd : d ∈ parameters) (hpos : d.position = a.position) :
    a.type = some d.type ∧ a.optional = d.optional ∧ a.description = d.description := by
  have hat := (Parameters.at?_eq_some_iff hn).2 ⟨hd, hpos⟩
  rcases eq_of_mem_fill ha with ⟨hnone, -⟩ | ⟨e, hsome, heq⟩
  · rw [hat] at hnone
    cases hnone
  · rw [hat, Option.some.injEq] at hsome
    subst hsome
    rw [heq]
    exact ⟨rfl, rfl, rfl⟩

theorem getElem_position {i : Nat} (h : i < (ofParameters parameters).length) :
    (ofParameters parameters)[i].position = i + 1 := by
  have hmap : i < ((ofParameters parameters).map (·.position)).length := by rwa [List.length_map]
  have hpositions := List.getElem_of_eq (positions_ofParameters parameters) hmap
  rw [List.getElem_map, List.getElem_range'] at hpositions
  omega

theorem existsUnique_position (hd : d ∈ parameters) (hone : 1 ≤ d.position) :
    ∃! i : Fin (ofParameters parameters).length, (ofParameters parameters)[i].position = d.position := by
  have hle := Parameters.le_maxPosition hd
  have hlt : d.position - 1 < (ofParameters parameters).length := by
    rw [length_ofParameters]
    omega
  refine ⟨⟨d.position - 1, hlt⟩, ?_, fun i hi => Fin.ext ?_⟩
  · simp only [Fin.getElem_fin, getElem_position]
    omega
  · simp only [Fin.getElem_fin, getElem_position] at hi
    simp only
    omega

/-- The gaps are the positions that the lint for them finds. -/
theorem gaps_ofParameters (parameters : Parameters) :
    (ofParameters parameters).gaps = Lint.skippedPositions parameters := by
  unfold gaps Lint.skippedPositions
  rw [← positions_ofParameters, List.filter_map]
  exact congrArg _ (List.filter_congr fun a ha => by rw [isDeclared_of_mem ha]; rfl)

/-- The positions up to the highest are those that are declared and those that are skipped. -/
theorem length_add_skippedPositions (h : parameters.WellFormed) :
    parameters.length + (Lint.skippedPositions parameters).length = parameters.maxPosition := by
  have hdeclared : (parameters.map (·.position)).Perm
      ((List.range' 1 parameters.maxPosition).filter fun n => parameters.any (·.position == n)) := by
    refine (List.perm_ext_iff_of_nodup h.distinct (List.Nodup.filter _ List.nodup_range')).2 fun n => ?_
    rw [List.mem_filter, List.mem_range'_1, List.any_eq_true, List.mem_map]
    simp only [beq_iff_eq]
    constructor
    · rintro ⟨d, hd, rfl⟩
      have := Parameters.le_maxPosition hd
      have := h.one_le_position d hd
      exact ⟨by omega, d, hd, rfl⟩
    · exact fun h => h.2
  calc parameters.length + (Lint.skippedPositions parameters).length
    _ = ((List.range' 1 parameters.maxPosition).filter fun n => parameters.any (·.position == n)).length +
        (Lint.skippedPositions parameters).length := by
      rw [← hdeclared.length_eq, List.length_map]
    _ = (List.range' 1 parameters.maxPosition).length := (List.length_eq_length_filter_add _).symm
    _ = parameters.maxPosition := List.length_range'

theorem represents_ofParameters (h : parameters.WellFormed) : (ofParameters parameters).Represents parameters := by
  have hsum := length_add_skippedPositions h
  rw [← length_ofParameters] at hsum
  refine ⟨length_ofParameters _, fun i => getElem_position, fun a ha => ?_,
    fun a ha d => carries_of_mem h.distinct ha, fun d hd => existsUnique_position hd (h.one_le_position d hd), ?_, ?_, ?_⟩
  · rw [isDeclared_of_mem ha]
    simp
  · omega
  · rw [gaps_ofParameters]
    omega
  · rw [← Lint.skippedPositions_eq_nil_iff h.one_le_position, ← List.length_eq_zero_iff]
    omega

end Signature

namespace Statement

/-- What holds of every accepted statement. Parameters are looked up by position, so each is found at its own and
nowhere else. -/
structure Regular (s : Statement) : Prop where
  parameters : s.parameters.WellFormed
  keys : ∀ n d, s.parameters.at? n = some d ↔ d ∈ s.parameters ∧ d.position = n
  nodup_repeated : s.repeated.Nodup
  repeated : ∀ n ∈ s.repeated, ∃ d ∈ s.parameters, d.position = n
  maxPosition : IsLeast {n | ∀ d ∈ s.parameters, d.position ≤ n} s.maxPosition
  signature : (Signature.ofParameters s.parameters).Represents s.parameters

theorem mem_repeatedNumbers_positions {declarations : List Declaration} {n : Nat}
    (h : n ∈ repeatedNumbers (declarations.map (·.position))) :
    ∃ d ∈ Parameters.ofDeclarations declarations, d.position = n := by
  have htwice := ((repeatedNumbers_spec _).mem_iff n).1 h
  have hmem : n ∈ declarations.map (·.position) := List.count_pos_iff.1 (by omega)
  exact List.mem_map.1 (Parameters.mem_positions_ofDeclarations.2 hmem)

/-- The parameters of an accepted source are in order, and its function has an argument for each of them. -/
theorem regular_of_ofSource {source : SourceText} {s : Statement} (h : ofSource source = .ok s) : s.Regular := by
  have hwf := wellFormed_parameters h
  obtain ⟨header, -, -, -, hparams, hrepeated, -⟩ := ofSource_eq_ok_iff.1 h
  refine ⟨hwf, fun n d => Parameters.at?_eq_some_iff hwf.distinct, ?_, fun n hn => ?_, ⟨?_, fun n hn => ?_⟩,
    Signature.represents_ofParameters hwf⟩
  · rw [hrepeated]
    exact (repeatedNumbers_spec _).nodup
  · rw [hrepeated] at hn
    rw [hparams]
    exact mem_repeatedNumbers_positions hn
  · exact fun d hd => Parameters.le_maxPosition hd
  · exact (Parameters.maxPosition_le_iff _ _).2 hn

/-- Here the first position is never declared, and the fourth is declared twice around the others. -/
theorem regular_of_ofSource_gaps :
    ∃ s, ofSource ⟨"q", "q.sql", "-- @param {Int} $4\n-- @param {Json} $2:id? the key\n-- @param {Float} $4:n\n$2"⟩ =
        .ok s ∧
      s.repeated = [4] ∧ (Signature.ofParameters s.parameters).gaps = [1, 3] ∧ s.Regular := by
  have h : ofSource
      ⟨"q", "q.sql", "-- @param {Int} $4\n-- @param {Json} $2:id? the key\n-- @param {Float} $4:n\n$2"⟩ =
      .ok ⟨"q", "q.sql", [⟨4, .float, some "n", false, none⟩, ⟨2, .json, some "id", true, some "the key"⟩], [4],
        "`${$2}`", true⟩ := by
    decide +kernel
  exact ⟨_, h, rfl, by decide, regular_of_ofSource h⟩

end Statement
end AnnotatedSql
