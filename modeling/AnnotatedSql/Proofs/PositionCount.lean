import AnnotatedSql.Proofs.Agreement
import AnnotatedSql.Proofs.Arguments
import AnnotatedSql.Proofs.Segments
/-!
# Positions and how many there are

A number behind a dollar sign is held against how many positions are declared, and not against which. Without gaps
the two come to the same. With a gap the highest position is one that a body cannot refer to, and some position that
it can refer to is none that was declared (`Statement.counted_of_read`). The lint for gaps then lists just the
arguments that the type declarations leave open.
-/

namespace AnnotatedSql

open Text (cut? decimal)

/-! ## Positions that a body can refer to -/

namespace Parameters

variable {parameters : Parameters} {k : Nat}

/-- A body whose placeholders all ask for the position is resolved. -/
def Accepts (parameters : Parameters) (k : Nat) : Prop :=
  ∀ start body, (∀ p, .hole p ∈ scan body → ∃ digits, p = .position digits ∧ decimal digits = k) →
    ∃ code, Code.ofBody parameters start body = .ok code

/-- No body with a placeholder that asks for the position is resolved. -/
def Rejects (parameters : Parameters) (k : Nat) : Prop :=
  ∀ start body digits, .hole (.position digits) ∈ scan body → decimal digits = k →
    ∃ m, Code.ofBody parameters start body = .error m

/-- A body that is nothing but a key. -/
theorem scan_key (k : Nat) : scan (Position.key k).toList = [.hole (.position (Nat.toDigits 10 k))] := by
  have hlongest : (Placeholder.position (Nat.toDigits 10 k)).IsLongest [] :=
    ⟨Nat.toDigits_ne_nil, fun c hc => Text.isDigit_of_mem_toDigits hc, by simp⟩
  have htake := Placeholder.take?_text_append hlongest
  rw [List.append_nil] at htake
  rw [Position.toList_key, ← Placeholder.text, scan_of_take? htake, scan]

theorem accepts_iff (hlen : parameters.length < 2 ^ 64) : parameters.Accepts k ↔ 1 ≤ k ∧ k ≤ parameters.length := by
  constructor
  · intro h
    -- the body that is the key of the position
    obtain ⟨code, hcode⟩ := h 0 (Position.key k).toList (by simp [scan_key, Text.decimal_toDigits])
    have hresolved := (Code.ofBody_eq_ok_iff.1 hcode).1 (.position (Nat.toDigits 10 k)) (by simp [scan_key])
    obtain ⟨t, ht⟩ := Option.isSome_iff_exists.1 hresolved
    obtain ⟨h₁, h₂, -, -⟩ := Placeholder.target?_position.1 ht
    rw [Text.decimal_toDigits] at h₁ h₂
    exact ⟨h₁, h₂⟩
  · rintro ⟨h₁, h₂⟩ start body hbody
    refine ⟨_, Code.ofBody_eq_ok_iff.2 ⟨fun p hp => ?_, rfl⟩⟩
    obtain ⟨digits, rfl, rfl⟩ := hbody p hp
    exact Option.isSome_iff_exists.2 ⟨_, Placeholder.target?_position.2 ⟨h₁, h₂, by omega, rfl⟩⟩

theorem rejects_iff (hlen : parameters.length < 2 ^ 64) :
    parameters.Rejects k ↔ ¬ (1 ≤ k ∧ k ≤ parameters.length) := by
  constructor
  · intro h hk
    obtain ⟨code, hcode⟩ := (accepts_iff hlen).2 hk 0 (Position.key k).toList
      (by simp [scan_key, Text.decimal_toDigits])
    obtain ⟨m, hm⟩ := h 0 (Position.key k).toList (Nat.toDigits 10 k) (by simp [scan_key]) (Text.decimal_toDigits k)
    rw [hcode] at hm
    cases hm
  · rintro hk start body digits hmem rfl
    cases hcode : Code.ofBody parameters start body with
    | error m => exact ⟨m, rfl⟩
    | ok code =>
      obtain ⟨t, ht⟩ := Option.isSome_iff_exists.1 ((Code.ofBody_eq_ok_iff.1 hcode).1 _ hmem)
      obtain ⟨h₁, h₂, -, -⟩ := Placeholder.target?_position.1 ht
      exact absurd ⟨h₁, h₂⟩ hk

/-! ## Counting declared positions -/

theorem length_lt_word (h : parameters.WellFormed) : parameters.length < 2 ^ 64 := by
  have hle := h.length_le
  have htop : parameters.maxPosition ≤ 65535 :=
    (maxPosition_le_iff _ _).2 fun d hd => (h.declared d hd).position.2
  omega

/-- The highest position is declared, unless there is none. -/
theorem exists_position_eq_maxPosition (h : 0 < parameters.maxPosition) :
    ∃ d ∈ parameters, d.position = parameters.maxPosition := by
  by_contra hnone
  push Not at hnone
  have hle : parameters.maxPosition ≤ parameters.maxPosition - 1 := by
    refine (maxPosition_le_iff _ _).2 fun d hd => ?_
    have := le_maxPosition hd
    have := hnone d hd
    omega
  omega

/-- Positions that include the numbers up to how many they are include no other. -/
theorem maxPosition_le_length (h : ∀ k, 1 ≤ k → k ≤ parameters.length → k ∈ parameters.map (·.position)) :
    parameters.maxPosition ≤ parameters.length := by
  have hsub : List.range' 1 parameters.length ⊆ parameters.map (·.position) := by
    intro k hk
    rw [List.mem_range'_1] at hk
    exact h k hk.1 (by omega)
  have hperm : (List.range' 1 parameters.length).Perm (parameters.map (·.position)) :=
    (List.subperm_of_subset List.nodup_range' hsub).perm_of_length_le (by simp)
  refine (maxPosition_le_iff _ _).2 fun d hd => ?_
  have hmem := hperm.mem_iff.2 (List.mem_map_of_mem hd)
  rw [List.mem_range'_1] at hmem
  omega

/-- Where a position is skipped, one of the numbers up to how many positions there are is not declared. -/
theorem exists_undeclared (h : parameters.WellFormed) (hskipped : Lint.skippedPositions parameters ≠ []) :
    parameters.length < parameters.maxPosition ∧
      ∃ k, 1 ≤ k ∧ k ≤ parameters.length ∧ k ∉ parameters.map (·.position) := by
  have hsum := Signature.length_add_skippedPositions h
  have hsome := List.length_pos_iff.2 hskipped
  refine ⟨by omega, ?_⟩
  by_contra hall
  push Not at hall
  have := maxPosition_le_length hall
  omega

end Parameters

/-! ## Arguments of unknown type -/

/-- The places, counted from one, of the typed parameters in a list that are of type `unknown`. -/
def Signature.unknownIn (typed : List Char) : List Nat :=
  (((Text.itemsAt ',' [' '] typed).zipIdx 1).filter fun (item, _) =>
    (cut? [':', ' '] item).map Prod.snd == some "unknown".toList).map Prod.snd

theorem clientType_eq_unknown_iff (type : Option ScalarType) (optional : Bool) :
    (clientType type optional).toList = "unknown".toList ↔ type = none ∧ optional = false := by
  cases type with
  | none => cases optional <;> decide +kernel
  | some t =>
    refine ⟨fun h => ?_, fun h => absurd h.1 (Option.some_ne_none t)⟩
    exact absurd (h ▸ List.infix_rfl) (t.clientType_known optional)

namespace Signature

variable {parameters : Parameters} {a : Argument}

/-- The type of a typed parameter is what stands behind the first colon and blank. -/
theorem cut?_typed (hname : Identifier.IsScriptName a.exposed.toList) :
    cut? [':', ' '] a.typed.toList = some (a.exposed.toList, (clientType a.type a.optional).toList) := by
  have htyped : a.typed.toList = a.exposed.toList ++ ([':', ' '] ++ (clientType a.type a.optional).toList) := by
    simp [Argument.typed]
  rw [htyped]
  exact Text.cut?_append [' '] (hname.not_mem (by decide) (by decide)) _

/-- An argument is of unknown type exactly if its position was not declared. -/
theorem clientType_eq_unknown_iff_of_mem (ha : a ∈ ofParameters parameters) :
    (clientType a.type a.optional).toList = "unknown".toList ↔ a.isDeclared = false := by
  rw [clientType_eq_unknown_iff]
  rcases eq_of_mem_fill ha with ⟨-, heq⟩ | ⟨d, -, heq⟩
  · rw [heq]
    exact ⟨fun _ => rfl, fun _ => ⟨rfl, rfl⟩⟩
  · rw [heq]
    simp [Argument.declared, Argument.isDeclared]

/-- The arguments of a signature with the places at which they stand. -/
theorem zipIdx_ofParameters (parameters : Parameters) :
    (ofParameters parameters).zipIdx 1 = (ofParameters parameters).map fun a => (a, a.position) := by
  refine List.ext_getElem (by simp) fun i h₁ h₂ => ?_
  rw [List.getElem_zipIdx, List.getElem_map, getElem_position, Nat.add_comm]

/-- The type declarations leave open just the gaps. -/
theorem unknownIn_typed (h : parameters.WellFormed) :
    unknownIn (ofParameters parameters).typed.toList = (ofParameters parameters).gaps := by
  have hhyg := hygienic_ofParameters h
  unfold unknownIn gaps
  rw [itemsAt_typed hhyg, List.zipIdx_map, zipIdx_ofParameters, List.map_map, List.filter_map, List.map_map]
  refine congrArg (List.map _) (List.filter_congr fun a ha => ?_)
  have hunknown := clientType_eq_unknown_iff_of_mem ha
  rw [Bool.eq_iff_iff, Bool.not_eq_true', ← hunknown]
  simp only [Function.comp_apply, Prod.map_apply, cut?_typed (hhyg.names a ha).1, Option.map_some, beq_iff_eq,
    Option.some.injEq]

theorem pairwise_gaps (parameters : Parameters) : (ofParameters parameters).gaps.Pairwise (· < ·) := by
  rw [gaps_ofParameters]
  exact List.Pairwise.filter _ List.pairwise_lt_range'

end Signature

/-! ## What the lint for gaps tells -/

/-- A header declares a position, maybe more than once. -/
def Header.Declares (header : Header) (k : Nat) : Prop :=
  ∃ d ∈ header.declarations, d.position = k

/-- What the lint for gaps tells of a statement with the parameters of a header: which of the positions that a body
can refer to are declared, and which arguments are of unknown type. -/
structure Statement.Counted (s : Statement) (header : Header) : Prop where
  silent : Lint.positionGap.check s = [] → ∀ k,
    (s.parameters.Accepts k ↔ header.Declares k) ∧ (s.parameters.Rejects k ↔ ¬ header.Declares k)
  highest : Lint.positionGap.check s ≠ [] → ∃ k, IsGreatest {k | header.Declares k} k ∧ s.parameters.Rejects k
  undeclared : Lint.positionGap.check s ≠ [] → ∃ k, ¬ header.Declares k ∧ s.parameters.Accepts k
  listed : Lint.positionGap.check s =
    if (Signature.ofParameters s.parameters).gaps = [] then []
    else [⟨.warning, "lint", "'" ++ s.name ++ "' never declares " ++
      ", ".intercalate ((Signature.ofParameters s.parameters).gaps.map Position.key) ++
      ", the argument will be untyped", some s.file⟩]
  ascending : (Signature.ofParameters s.parameters).gaps.Pairwise (· < ·)
  rendered : ∀ mode, ModuleKind.declarations.render mode (.ofStatement s) =
    "/**" ++ (Signature.ofParameters s.parameters).documentation ++ "\n */\n" ++
      ("export const " ++ s.name ++ ": (" ++ (Signature.ofParameters s.parameters).typed ++ ") => " ++
        ModuleKind.returnType mode ++ ";")
  /-- The places at which the rendered parameters are of type `unknown`. -/
  unknown : Signature.unknownIn (Signature.ofParameters s.parameters).typed.toList =
    (Signature.ofParameters s.parameters).gaps

theorem Lint.check_positionGap (s : Statement) :
    positionGap.check s =
      if (Signature.ofParameters s.parameters).gaps = [] then []
      else [⟨.warning, "lint", "'" ++ s.name ++ "' never declares " ++
        ", ".intercalate ((Signature.ofParameters s.parameters).gaps.map Position.key) ++
        ", the argument will be untyped", some s.file⟩] := by
  rw [Signature.gaps_ofParameters]
  unfold positionGap
  dsimp only
  cases skippedPositions s.parameters with
  | nil => rfl
  | cons n skipped => rfl

namespace Statement

variable {source : List Char} {header : Header} {s : Statement}

/-- Whatever positions a header declares and in whatever order, the lint for gaps is silent exactly if a body can refer
to all of them, and to no other. -/
theorem counted_of_read (h : Header.read source = .ok header)
    (hs : s.parameters = Parameters.ofDeclarations header.declarations) : s.Counted header := by
  have hwf : s.parameters.WellFormed := hs ▸ Parameters.wellFormed_ofDeclarations (Header.wellFormed_of_read h)
  have hlen := Parameters.length_lt_word hwf
  have hdeclares : ∀ k, header.Declares k ↔ k ∈ s.parameters.map (·.position) := by
    intro k
    rw [hs, Parameters.mem_positions_ofDeclarations, List.mem_map]
    rfl
  refine ⟨fun hsilent k => ?_, fun hfires => ?_, fun hfires => ?_, Lint.check_positionGap s,
    Signature.pairwise_gaps _, fun mode => ModuleKind.render_declarations mode _, Signature.unknownIn_typed hwf⟩
  · -- without gaps the positions are the numbers up to the highest, and as many as that
    have hskipped := Lint.check_positionGap_eq_nil_iff.1 hsilent
    have hsum := Signature.length_add_skippedPositions hwf
    rw [hskipped, List.length_nil, Nat.add_zero] at hsum
    have hdense : header.Declares k ↔ 1 ≤ k ∧ k ≤ s.parameters.length := by
      rw [hdeclares, hsum]
      refine ⟨fun hk => ?_, fun ⟨h₁, h₂⟩ => Lint.mem_positions hskipped h₁ h₂⟩
      obtain ⟨d, hd, rfl⟩ := List.mem_map.1 hk
      exact ⟨hwf.one_le_position d hd, Parameters.le_maxPosition hd⟩
    rw [Parameters.accepts_iff hlen, Parameters.rejects_iff hlen, hdense]
    exact ⟨Iff.rfl, Iff.rfl⟩
  · obtain ⟨hlt, -⟩ := Parameters.exists_undeclared hwf (mt Lint.check_positionGap_eq_nil_iff.2 hfires)
    obtain ⟨d, hd, hpos⟩ := Parameters.exists_position_eq_maxPosition (Nat.zero_lt_of_lt hlt)
    refine ⟨s.parameters.maxPosition, ⟨?_, fun k hk => ?_⟩, (Parameters.rejects_iff hlen).2 (by omega)⟩
    · exact (hdeclares _).2 (hpos ▸ List.mem_map_of_mem hd)
    · obtain ⟨e, he, rfl⟩ := List.mem_map.1 ((hdeclares k).1 hk)
      exact Parameters.le_maxPosition he
  · obtain ⟨-, k, h₁, h₂, hk⟩ := Parameters.exists_undeclared hwf (mt Lint.check_positionGap_eq_nil_iff.2 hfires)
    exact ⟨k, mt (hdeclares k).1 hk, (Parameters.accepts_iff hlen).2 ⟨h₁, h₂⟩⟩

/-- Here two positions are declared and two are skipped, and the body asks for the highest. -/
theorem counted_of_read_gaps :
    ∃ header, Header.read "-- @param {Int} $4\n-- @param {Json} $1:id\n\nselect $4".toList = .ok header ∧
      (∃ m, Code.ofBody (Parameters.ofDeclarations header.declarations) header.bodyOffset header.body = .error m) ∧
      ∀ code, Counted ⟨"q", "q.sql", Parameters.ofDeclarations header.declarations, [], code, true⟩ header ∧
        (Signature.ofParameters (Parameters.ofDeclarations header.declarations)).gaps = [2, 3] := by
  have h : Header.read "-- @param {Int} $4\n-- @param {Json} $1:id\n\nselect $4".toList =
      .ok ⟨[⟨4, .int, none, false, none⟩, ⟨1, .json, some "id", false, none⟩], "select $4".toList, 43⟩ := by
    decide +kernel
  exact ⟨_, h, ⟨⟨.unknownPosition "4", ⟨50, 2⟩⟩, by decide +kernel⟩, fun code =>
    ⟨counted_of_read h rfl, by decide⟩⟩

end Statement
end AnnotatedSql
