import AnnotatedSql.Lint
import AnnotatedSql.Proofs.DeclarationOrder
import AnnotatedSql.Proofs.Scope
import Mathlib.Data.List.Pairwise
/-!
# When the lints are silent

The built-in lints look at four things that reading a source leaves: the positions it repeats, those it
skips, the aliases that belong to a lower position, and whether there is a body. Each of them is empty
exactly when one condition on the header as it was written holds (`Header.Clean`), although the lints see
no declaration that was replaced. In a statement without findings every placeholder that names a
parameter stands for exactly one declaration (`Statement.Definite`).
-/

namespace AnnotatedSql

open Text (decimal isBlank)

variable {parameters : Parameters}

/-! ## Numbers and aliases that are distinct -/

theorem repeatedNumbers_eq_nil_iff {numbers : List Nat} : repeatedNumbers numbers = [] ↔ numbers.Nodup := by
  rw [List.eq_nil_iff_forall_not_mem, List.nodup_iff_count_le_one]
  refine forall_congr' fun n => ?_
  rw [(repeatedNumbers_spec numbers).mem_iff]
  omega

/-- Distinct aliases are those that no two positions share. -/
theorem Parameters.nodup_aliases_iff (hn : (parameters.map (·.position)).Nodup) :
    (parameters.filterMap (·.aliasName)).Nodup ↔
      ∀ d ∈ parameters, ∀ e ∈ parameters, ∀ x, d.aliasName = some x → e.aliasName = some x → d.position = e.position := by
  unfold List.Nodup at hn ⊢
  rw [List.pairwise_map] at hn
  rw [List.pairwise_filterMap]
  constructor
  · intro h d hd e he x hx hy
    have : Std.Symm fun d e : Declaration => ∀ x, d.aliasName = some x → ∀ y, e.aliasName = some y → x ≠ y :=
      ⟨fun _ _ hde x hx y hy hxy => hde y hy x hx hxy.symm⟩
    by_contra hne
    exact h.forall hd he (fun hde => hne (congrArg _ hde)) x hx x hy rfl
  · intro h
    refine hn.imp_of_mem fun {d e} hd he hne x hx y hy => ?_
    rintro rfl
    exact hne (h d hd e he x hx hy)

namespace Lint

/-! ## Positions that are skipped -/

theorem mem_skippedPositions {n : Nat} :
    n ∈ skippedPositions parameters ↔ 1 ≤ n ∧ n ≤ parameters.maxPosition ∧ n ∉ parameters.map (·.position) := by
  simp only [skippedPositions, List.mem_filter, List.mem_range'_1, Bool.not_eq_true', List.any_eq_false, beq_iff_eq,
    List.mem_map, not_exists, not_and]
  constructor
  · rintro ⟨⟨h₁, h₂⟩, h⟩
    exact ⟨h₁, by omega, h⟩
  · rintro ⟨h₁, h₂, h⟩
    exact ⟨⟨h₁, by omega⟩, h⟩

theorem mem_positions (h : skippedPositions parameters = []) {n : Nat} (h₁ : 1 ≤ n) (h₂ : n ≤ parameters.maxPosition) :
    n ∈ parameters.map (·.position) := by
  by_contra hnot
  have hmem := mem_skippedPositions.2 ⟨h₁, h₂, hnot⟩
  simp [h] at hmem

/-- No position is skipped when the positions are the numbers from one up to some number. -/
theorem skippedPositions_eq_nil_iff (h : ∀ d ∈ parameters, 1 ≤ d.position) :
    skippedPositions parameters = [] ↔ ∃ n, ∀ k, k ∈ parameters.map (·.position) ↔ 1 ≤ k ∧ k ≤ n := by
  rw [List.eq_nil_iff_forall_not_mem]
  simp only [mem_skippedPositions]
  constructor
  · intro hskipped
    refine ⟨parameters.maxPosition, fun k => ⟨fun hk => ?_, fun ⟨h₁, h₂⟩ => ?_⟩⟩
    · obtain ⟨d, hd, rfl⟩ := List.mem_map.1 hk
      exact ⟨h d hd, Parameters.le_maxPosition hd⟩
    · by_contra hk
      exact hskipped k ⟨h₁, h₂, hk⟩
  · rintro ⟨n, hn⟩ k ⟨h₁, h₂, hk⟩
    have htop : parameters.maxPosition ≤ n :=
      (Parameters.maxPosition_le_iff _ _).2 fun d hd => ((hn d.position).1 (List.mem_map_of_mem hd)).2
    exact hk ((hn k).2 ⟨h₁, by omega⟩)

/-! ## Aliases that several parameters share -/

theorem owner?_eq_some_iff {x : String} {n : Nat} : owner? parameters x = some n ↔ parameters.IsOwner x n := by
  have hmem : ∀ m, m ∈ (parameters.filter (·.aliasName == some x)).map (·.position) ↔
      ∃ d ∈ parameters, d.position = m ∧ d.aliasName = some x := by
    intro m
    simp only [List.mem_map, List.mem_filter, beq_iff_eq]
    exact exists_congr fun d => by rw [and_assoc, and_comm (a := _ = m)]
  unfold owner? Parameters.IsOwner
  rw [List.min?_eq_some_iff]
  simp only [hmem]
  rfl

/-- What the list of shadowed declarations holds: those with an alias that belongs to another position. -/
theorem mem_shadowed {d : Declaration} {x : String} {n : Nat} :
    (d, x, n) ∈ shadowed parameters ↔
      d ∈ parameters ∧ d.aliasName = some x ∧ parameters.IsOwner x n ∧ n ≠ d.position := by
  simp only [shadowed, List.mem_filterMap, Option.bind_eq_bind, Option.bind_eq_some_iff, owner?_eq_some_iff,
    Option.ite_none_left_eq_some, Option.some.injEq, Prod.mk.injEq]
  constructor
  · rintro ⟨_, hd, x, hx, n, hn, hne, rfl, rfl, rfl⟩
    exact ⟨hd, hx, hn, hne⟩
  · rintro ⟨hd, hx, hn, hne⟩
    exact ⟨d, hd, x, hx, n, hn, hne, rfl, rfl, rfl⟩

/-- No declaration is shadowed when the aliases are distinct. -/
theorem shadowed_eq_nil_iff (hn : (parameters.map (·.position)).Nodup) :
    shadowed parameters = [] ↔ (parameters.filterMap (·.aliasName)).Nodup := by
  rw [Parameters.nodup_aliases_iff hn, List.eq_nil_iff_forall_not_mem]
  constructor
  · intro h d hd e he x hx hy
    -- both are at the position that the alias belongs to, or else one of them is shadowed
    obtain ⟨n, hn⟩ := Parameters.exists_isOwner hd hx
    have hown : ∀ f ∈ parameters, f.aliasName = some x → f.position = n := by
      intro f hf hfx
      by_contra hne
      exact h _ (mem_shadowed.2 ⟨hf, hfx, hn, Ne.symm hne⟩)
    rw [hown d hd hx, hown e he hy]
  · rintro h ⟨d, x, n⟩ hmem
    obtain ⟨hd, hx, ⟨⟨e, he, rfl, hy⟩, -⟩, hne⟩ := mem_shadowed.1 hmem
    exact hne (h e he d hd x hy hx)

/-! ## All four -/

theorem check_positionGap_eq_nil_iff {s : Statement} :
    positionGap.check s = [] ↔ skippedPositions s.parameters = [] := by
  unfold positionGap
  dsimp only
  cases skippedPositions s.parameters <;> simp

theorem check_builtin_eq_nil_iff {s : Statement} :
    builtin.flatMap (·.check s) = [] ↔
      s.repeated = [] ∧ skippedPositions s.parameters = [] ∧ shadowed s.parameters = [] ∧ s.hasBody = true := by
  simp [builtin, duplicatePosition, check_positionGap_eq_nil_iff, duplicateAlias, emptyBody]

end Lint

/-- A header with nothing to warn of: each position is declared once, they go from one upwards without a
gap, no alias is written twice, and something that is not blank follows. -/
structure Header.Clean (header : Header) : Prop where
  distinct : (header.declarations.map (·.position)).Nodup
  dense : ∃ n, ∀ k, k ∈ header.declarations.map (·.position) ↔ 1 ≤ k ∧ k ≤ n
  aliases : (header.declarations.filterMap (·.aliasName)).Nodup
  body : ∃ c ∈ header.body, isBlank c = false

theorem Header.body_ne_nil_iff {source : List Char} {header : Header} (h : read source = .ok header) :
    header.body ≠ [] ↔ ∃ c ∈ header.body, isBlank c = false := by
  obtain ⟨-, hbody, -⟩ := read_eq_ok_iff.1 h
  -- a body is trimmed already
  have htrim : Text.trim header.body = header.body := by rw [hbody, Text.trim_trim]
  rw [← htrim, Ne, Text.trim_eq_nil_iff, htrim]
  simp

/-! ## What placeholders stand for -/

/-- A placeholder asks for a declaration by its position or by its alias. A question mark asks for none. -/
def Placeholder.AsksFor : Placeholder → Declaration → Prop
  | position digits, d => d.position = decimal digits
  | name word, d => d.aliasName = some (String.ofList word)
  | question, _ => False

/-- Where a name leads: it is the formal argument of a position, or a local name that stands for it. -/
def Scope.LeadsTo (scope : Scope) (x : List Char) (n : Nat) : Prop :=
  x ∈ scope.formals ∧ x = (Position.key n).toList ∨ (x, (Position.key n).toList) ∈ scope.locals

/-- In a statement with this header each placeholder that asks for a declaration asks for exactly one, and
its substitution reads the argument of that one. All arguments are declared, so none is of unknown type. -/
structure Statement.Definite (s : Statement) (header : Header) : Prop where
  unique : ∀ p, p ≠ .question → .hole p ∈ scan header.body → ∃! d, d ∈ header.declarations ∧ p.AsksFor d
  reads : ∀ p, .hole p ∈ scan header.body → ∀ d ∈ header.declarations, p.AsksFor d →
    ∃ x, Code.ofPiece s.parameters (.hole p) = ['$', '{'] ++ x ++ ['}'] ∧
      (Signature.ofParameters s.parameters).scope.LeadsTo x d.position
  declared : ∀ a ∈ Signature.ofParameters s.parameters, a.isDeclared = true
  known : ∀ a ∈ Signature.ofParameters s.parameters, ¬ "unknown".toList <:+: (clientType a.type a.optional).toList

theorem ScalarType.clientType_known (t : ScalarType) (optional : Bool) :
    ¬ "unknown".toList <:+: (clientType (some t) optional).toList := by
  cases t <;> cases optional <;> decide +kernel

/-- Where no position is skipped every argument is declared. -/
theorem Signature.isDeclared_of_skippedPositions (h : Lint.skippedPositions parameters = []) {a : Argument}
    (ha : a ∈ ofParameters parameters) : a.isDeclared = true := by
  have hrange : a.position ∈ List.range' 1 parameters.maxPosition := by
    rw [← positions_ofParameters]
    exact List.mem_map_of_mem ha
  rw [List.mem_range'_1] at hrange
  have hdeclared := Lint.mem_positions h hrange.1 (by omega)
  rcases eq_of_mem_fill ha with ⟨hat, -⟩ | ⟨d, -, heq⟩
  · obtain ⟨d, hd, hpos⟩ := List.mem_map.1 hdeclared
    unfold Parameters.at? at hat
    exact absurd (List.find?_eq_none.1 hat d hd) (by simp [hpos])
  · rw [heq]
    rfl

namespace Placeholder

variable {p : Placeholder} {t : Target} {d : Declaration}

/-- With distinct aliases and no position skipped, a placeholder that refers to something asks for one
declaration, unless it is a question mark. -/
theorem existsUnique_asksFor (h : parameters.WellFormed) (hskipped : Lint.skippedPositions parameters = [])
    (haliases : (parameters.filterMap (·.aliasName)).Nodup) (hp : p ≠ question) (ht : p.target? parameters = some t) :
    ∃! d, d ∈ parameters ∧ p.AsksFor d := by
  have hposition : ∀ d ∈ parameters, ∀ e ∈ parameters, d.position = e.position → d = e :=
    fun d hd e he => List.inj_on_of_nodup_map h.distinct hd he
  cases p with
  | question => exact absurd rfl hp
  | position digits =>
    obtain ⟨h₁, h₂, -, -⟩ := target?_position.1 ht
    have hmax := h.length_le
    obtain ⟨d, hd, hpos⟩ := List.mem_map.1 (Lint.mem_positions hskipped h₁ (by omega))
    exact ⟨d, ⟨hd, hpos⟩, fun e ⟨he, hasks⟩ => hposition e he d hd (hasks.trans hpos.symm)⟩
  | name word =>
    obtain ⟨⟨d, hd, hx⟩, -⟩ := target?_name.1 ht
    have hshared := (Parameters.nodup_aliases_iff h.distinct).1 haliases
    exact ⟨d, ⟨hd, hx⟩, fun e ⟨he, hasks⟩ => hposition e he d hd (hshared e he d hd _ hasks hx)⟩

/-- With distinct aliases the substitution for a placeholder reads what the placeholder asks for. -/
theorem leadsTo_of_asksFor (h : parameters.WellFormed) (haliases : (parameters.filterMap (·.aliasName)).Nodup)
    (ht : p.target? parameters = some t) (hd : d ∈ parameters) (hasks : p.AsksFor d) :
    (Signature.ofParameters parameters).scope.LeadsTo t.name d.position := by
  obtain ⟨-, hrefers⟩ := refersTo_of_target? h ht
  cases p with
  | question => exact absurd hasks id
  | position digits =>
    obtain ⟨h₁, h₂, hname⟩ := hrefers
    have hpos : d.position = decimal digits := hasks
    have hhyg := Signature.hygienic_ofParameters h
    rw [hname, hpos]
    exact .inl ⟨Signature.mem_formals_scope hhyg h₁ (by simpa [Signature.scope] using h₂), rfl⟩
  | name word =>
    -- the alias belongs to one declaration only, so its owner is the one that is asked for
    obtain ⟨n, ⟨⟨e, he, rfl, hx⟩, -⟩, hlocal⟩ := hrefers
    rw [(Parameters.nodup_aliases_iff h.distinct).1 haliases e he d hd _ hx hasks] at hlocal
    exact .inr hlocal

end Placeholder

namespace Statement

variable {source : SourceText} {s : Statement} {header : Header}

theorem silent_iff (h : ofSource source = .ok s) (hread : Header.read source.content.toList = .ok header) :
    Lint.builtin.flatMap (·.check s) = [] ↔ header.Clean := by
  obtain ⟨header', hread', -, -, hparams, hrepeated, hbody, -⟩ := ofSource_eq_ok_iff.1 h
  rw [hread, Except.ok.injEq] at hread'
  subst hread'
  have hone : ∀ d ∈ header.declarations, 1 ≤ d.position := fun d hd => (Header.wellFormed_of_read hread d hd).position.1
  have hsome : s.hasBody = true ↔ ∃ c ∈ header.body, isBlank c = false := by
    rw [← Header.body_ne_nil_iff hread, hbody, bne_iff_ne]
  rw [Lint.check_builtin_eq_nil_iff, hsome, hrepeated, repeatedNumbers_eq_nil_iff, hparams]
  constructor
  · -- nothing was replaced, so the parameters are the declarations as they were written
    rintro ⟨hn, hskipped, hshadowed, hb⟩
    rw [Parameters.ofDeclarations_eq_self hn] at hskipped hshadowed
    exact ⟨hn, (Lint.skippedPositions_eq_nil_iff hone).1 hskipped, (Lint.shadowed_eq_nil_iff hn).1 hshadowed, hb⟩
  · rintro ⟨hn, hdense, haliases, hb⟩
    rw [Parameters.ofDeclarations_eq_self hn]
    exact ⟨hn, (Lint.skippedPositions_eq_nil_iff hone).2 hdense, (Lint.shadowed_eq_nil_iff hn).2 haliases, hb⟩

theorem definite_of_clean (h : ofSource source = .ok s) (hread : Header.read source.content.toList = .ok header)
    (hclean : header.Clean) : s.Definite header := by
  have hwf := wellFormed_parameters h
  obtain ⟨header', hread', -, -, hparams, -, -, hcode⟩ := ofSource_eq_ok_iff.1 h
  rw [hread, Except.ok.injEq] at hread'
  subst hread'
  rw [Parameters.ofDeclarations_eq_self hclean.distinct] at hparams
  obtain ⟨hn, hdense, haliases, -⟩ := hclean
  rw [← hparams] at hn hdense haliases
  have hskipped := (Lint.skippedPositions_eq_nil_iff hwf.one_le_position).2 hdense
  have hresolved : ∀ p, .hole p ∈ scan header.body → ∃ t, p.target? s.parameters = some t := fun p hp =>
    Option.isSome_iff_exists.1 ((Code.ofBody_eq_ok_iff.1 hcode).1 p hp)
  have hdeclared : ∀ a ∈ Signature.ofParameters s.parameters, a.isDeclared = true := fun a ha =>
    Signature.isDeclared_of_skippedPositions hskipped ha
  refine ⟨fun p hp hmem => ?_, fun p hmem d hd hasks => ?_, hdeclared, fun a ha => ?_⟩
  · obtain ⟨t, ht⟩ := hresolved p hmem
    rw [← hparams]
    exact Placeholder.existsUnique_asksFor hwf hskipped haliases hp ht
  · obtain ⟨t, ht⟩ := hresolved p hmem
    rw [← hparams] at hd
    exact ⟨t.name, Code.ofPiece_hole ht, Placeholder.leadsTo_of_asksFor hwf haliases ht hd hasks⟩
  · obtain ⟨t, ht⟩ := Option.isSome_iff_exists.1 (hdeclared a ha)
    rw [ht]
    exact t.clientType_known a.optional

/-- The built-in lints find nothing in a statement exactly when its header as it was written is clean, and then
every placeholder that names a parameter stands for exactly one of the declarations. -/
theorem silent_iff_clean (h : ofSource source = .ok s) :
    ∃ header, Header.read source.content.toList = .ok header ∧
      (Lint.builtin.flatMap (·.check s) = [] ↔ header.Clean) ∧
      (Lint.builtin.flatMap (·.check s) = [] → s.Definite header) := by
  obtain ⟨header, hread, -⟩ := ofSource_eq_ok_iff.1 h
  have hiff := silent_iff h hread
  exact ⟨header, hread, hiff, fun hsilent => definite_of_clean h hread (hiff.1 hsilent)⟩

/-- Here the second position is declared first, under an alias. -/
theorem silent_iff_clean_alias :
    ∃ s header,
      ofSource ⟨"q", "q.sql", "-- @param {Int} $2:n\n-- @param {Json} $1?\nselect $1, :n"⟩ = .ok s ∧
      Lint.builtin.flatMap (·.check s) = [] ∧
      Header.read "-- @param {Int} $2:n\n-- @param {Json} $1?\nselect $1, :n".toList = .ok header ∧
      header.Clean ∧ s.Definite header := by
  have h : ofSource ⟨"q", "q.sql", "-- @param {Int} $2:n\n-- @param {Json} $1?\nselect $1, :n"⟩ =
      .ok ⟨"q", "q.sql", [⟨2, .int, some "n", false, none⟩, ⟨1, .json, none, true, none⟩], [],
        "`select ${$1}, ${$n}`", true⟩ := by
    decide +kernel
  obtain ⟨header, hread, hiff, hdefinite⟩ := silent_iff_clean h
  refine ⟨_, header, h, ?_, hread, hiff.1 ?_, hdefinite ?_⟩ <;> decide +kernel

end Statement
end AnnotatedSql
