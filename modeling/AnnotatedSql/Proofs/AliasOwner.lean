import AnnotatedSql.Proofs.Lints
/-!
# Whom a shared alias belongs to

Declarations may share an alias. The lint for them takes the lowest of their positions, shaping the arguments gives the
alias to the first of them that comes up, and a placeholder looks for any of them. All three mean the same one: the
lint finds the declarations whose argument is not exposed under their alias, and names the argument that a placeholder
with the alias reads (`Lint.reports_duplicateAlias`).
-/

namespace AnnotatedSql

/-- The argument at the position of a declaration is exposed under the key of the position. -/
def Signature.ShowsKeyOf (s : Signature) (d : Declaration) : Prop :=
  ∃ a ∈ s, a.position = d.position ∧ a.exposed = Position.key d.position

instance (s : Signature) (d : Declaration) : Decidable (s.ShowsKeyOf d) :=
  inferInstanceAs (Decidable (∃ _ ∈ _, _))

/-- A declaration with an alias that its argument is not exposed under. -/
def Statement.Displaces (s : Statement) (d : Declaration) : Prop :=
  d.aliasName.isSome = true ∧ (Signature.ofParameters s.parameters).ShowsKeyOf d

instance (s : Statement) (d : Declaration) : Decidable (s.Displaces d) :=
  inferInstanceAs (Decidable (_ ∧ _))

/-- An alias belongs to a position: the argument there is the one that is exposed under it, and the substitution for a
placeholder with the alias is a local name, unlike every other name in scope, that is bound to this argument. -/
structure Statement.BelongsTo (s : Statement) (scope : Scope) (aliasName : String) (owner : Nat) : Prop where
  argument : ∃ a ∈ Signature.ofParameters s.parameters, a.exposed = aliasName ∧ a.position = owner
  only : ∀ a ∈ Signature.ofParameters s.parameters, a.exposed = aliasName → a.position = owner
  code : Code.ofPiece s.parameters (.hole (.name aliasName.toList)) = ['$', '{'] ++ ("$" ++ aliasName).toList ++ ['}']
  bound : (("$" ++ aliasName).toList, (Position.key owner).toList) ∈ scope.locals
  once : scope.names.count ("$" ++ aliasName).toList = 1

/-! ## Owners and arguments -/

namespace Signature

variable {parameters : Parameters} {d : Declaration} {x : String} {n : Nat}

theorem exists_of_mem (hd : d ∈ parameters) (hone : 1 ≤ d.position) :
    ∃ a ∈ ofParameters parameters, a.position = d.position := by
  have hmem : d.position ∈ (ofParameters parameters).map (·.position) := by
    rw [positions_ofParameters, List.mem_range'_1]
    have := Parameters.le_maxPosition hd
    omega
  exact List.mem_map.1 hmem

/-- What is exposed under an alias is the argument of its owner. -/
theorem position_of_exposed (h : parameters.WellFormed) (hn : parameters.IsOwner x n) {a : Argument}
    (ha : a ∈ ofParameters parameters) (hx : a.exposed = x) : a.position = n := by
  obtain ⟨b, hb, hpos, hy⟩ := exists_exposed_of_isOwner h hn
  rw [← hpos, List.inj_on_of_nodup_map (nodup_exposed h) ha hb (hx.trans hy.symm)]

/-- Only the owner of an alias has an argument that is exposed under it. -/
theorem showsKeyOf_iff (h : parameters.WellFormed) (hd : d ∈ parameters) (hx : d.aliasName = some x)
    (hn : parameters.IsOwner x n) : (ofParameters parameters).ShowsKeyOf d ↔ n ≠ d.position := by
  have hpositions : ((ofParameters parameters).map (·.position)).Nodup := by
    rw [positions_ofParameters]
    exact List.nodup_range'
  constructor
  · rintro ⟨a, ha, hpos, hkey⟩ hsame
    obtain ⟨b, hb, hbpos, hexposed⟩ := exists_exposed_of_isOwner h hn
    have hab : a = b := List.inj_on_of_nodup_map hpositions ha hb (hpos.trans (hsame.symm.trans hbpos.symm))
    rw [← hab, hkey] at hexposed
    exact Identifier.ne_key_of_fault? ((h.declared d hd).aliasName x hx) d.position hexposed.symm
  · intro hne
    obtain ⟨a, ha, hpos⟩ := exists_of_mem hd (h.one_le_position d hd)
    refine ⟨a, ha, hpos, ?_⟩
    rcases exposed_of_mem_fill ha with hkey | ⟨-, e, hat, he⟩
    · rw [hkey, hpos]
    · -- it would be exposed under the alias, and so it would be the owner's
      obtain ⟨hemem, hepos⟩ := (Parameters.at?_eq_some_iff h.distinct).1 hat
      have hde : e = d := List.inj_on_of_nodup_map h.distinct hemem hd (hepos.trans hpos)
      rw [hde, hx, Option.some.injEq] at he
      exact absurd ((position_of_exposed h hn ha he.symm).symm.trans hpos) hne

theorem displaces_iff {s : Statement} (h : s.parameters.WellFormed) (hd : d ∈ s.parameters) :
    s.Displaces d ↔ ∃ x n, d.aliasName = some x ∧ s.parameters.IsOwner x n ∧ n ≠ d.position := by
  unfold Statement.Displaces
  cases hx : d.aliasName with
  | none => simp
  | some x =>
    obtain ⟨n, hn⟩ := Parameters.exists_isOwner hd hx
    rw [showsKeyOf_iff h hd hx hn]
    constructor
    · rintro ⟨-, hne⟩
      exact ⟨x, n, rfl, hn, hne⟩
    · rintro ⟨y, m, hy, hm, hne⟩
      cases hy
      rw [Parameters.isOwner_unique hn hm]
      exact ⟨rfl, hne⟩

end Signature

theorem Statement.belongsTo_of_isOwner {s : Statement} (h : s.parameters.WellFormed) {x : String} {n : Nat}
    (hn : s.parameters.IsOwner x n) : s.BelongsTo (Signature.ofParameters s.parameters).scope x n := by
  have htarget : (Placeholder.name x.toList).target? s.parameters = some (.binding x.toList) := by
    obtain ⟨d, hd, -, hx⟩ := hn.1
    exact Placeholder.target?_name.2 ⟨⟨d, hd, by rw [hx, String.ofList_toList]⟩, rfl⟩
  obtain ⟨a, ha, hpos, hexposed⟩ := Signature.exists_exposed_of_isOwner h hn
  have hbinding : a.binding = "$" ++ x := by rw [Argument.binding, hexposed]
  have hlocal : (("$" ++ x).toList, (Position.key n).toList) ∈ (Signature.ofParameters s.parameters).scope.locals :=
    List.mem_map.2 ⟨a, ha, by rw [hbinding, Argument.formal, hpos]⟩
  refine ⟨⟨a, ha, hexposed, hpos⟩, fun b hb => Signature.position_of_exposed h hn hb, ?_, hlocal, ?_⟩
  · rw [Code.ofPiece_hole htarget, String.toList_append]
    rfl
  · have hnames := Signature.nodup_names_scope (Signature.hygienic_ofParameters h)
    exact List.count_eq_one_of_mem hnames (List.mem_append_right _ (List.mem_map_of_mem hlocal))

/-! ## The lint -/

/-- What is found in a list comes from the items with a finding, in their order. -/
theorem forall₂_filterMap_filter {α β : Type} (f : α → Option β) (p : α → Bool) (l : List α)
    (h : ∀ a ∈ l, p a = (f a).isSome) : List.Forall₂ (fun a b => f a = some b) (l.filter p) (l.filterMap f) := by
  induction l with
  | nil => exact .nil
  | cons a l ih =>
    rw [List.forall_mem_cons] at h
    cases hf : f a with
    | none =>
      rw [List.filter_cons_of_neg (by simp [h.1, hf]), List.filterMap_cons_none hf]
      exact ih h.2
    | some b =>
      rw [List.filter_cons_of_pos (by simp [h.1, hf]), List.filterMap_cons_some hf]
      exact .cons hf (ih h.2)

namespace Lint

theorem shadowed_of_displaces {s : Statement} (h : s.parameters.WellFormed) :
    List.Forall₂ (fun d x => x.1 = d ∧ d.aliasName = some x.2.1 ∧ s.parameters.IsOwner x.2.1 x.2.2)
      (s.parameters.filter (s.Displaces ·)) (shadowed s.parameters) := by
  unfold shadowed
  refine (forall₂_filterMap_filter _ _ _ fun d hd => ?_).imp fun d x hx => ?_
  · rw [Bool.eq_iff_iff, decide_eq_true_eq, Signature.displaces_iff h hd, Option.isSome_iff_exists]
    simp only [Option.bind_eq_bind, Option.bind_eq_some_iff, owner?_eq_some_iff, Option.ite_none_left_eq_some]
    constructor
    · rintro ⟨x, n, hx, hn, hne⟩
      exact ⟨(d, x, n), x, hx, n, hn, hne, rfl⟩
    · rintro ⟨-, x, hx, n, hn, hne, -⟩
      exact ⟨x, n, hx, hn, hne⟩
  · simp only [Option.bind_eq_bind, Option.bind_eq_some_iff, owner?_eq_some_iff, Option.ite_none_left_eq_some,
      Option.some.injEq] at hx
    obtain ⟨y, hy, n, hn, -, rfl⟩ := hx
    exact ⟨rfl, hy, hn⟩

/-- The lint reports the declarations whose argument is not exposed under their alias, once each and in their order,
and names the argument that the alias belongs to. -/
theorem reports_duplicateAlias {source : SourceText} {s : Statement} (h : Statement.ofSource source = .ok s) :
    ∃ scope, Scope.read? (Signature.ofParameters s.parameters).formals
        (Signature.ofParameters s.parameters).initializer = some scope ∧
      List.Forall₂ (fun d diagnostic => ∃ x owner, d.aliasName = some x ∧ s.BelongsTo scope x owner ∧
          diagnostic = ⟨.warning, "lint", "alias '" ++ x ++ "' of " ++ Position.key d.position ++ " is already used by " ++
            Position.key owner ++ ", ':" ++ x ++ "' refers to " ++ Position.key owner, some s.file⟩)
        (s.parameters.filter (s.Displaces ·)) (duplicateAlias.check s) := by
  have hwf := Statement.wellFormed_parameters h
  refine ⟨_, Signature.read?_scope (Signature.hygienic_ofParameters hwf), ?_⟩
  refine List.forall₂_map_right_iff.2 ((shadowed_of_displaces hwf).imp ?_)
  rintro d ⟨_, x, owner⟩ ⟨rfl, hx, hn⟩
  exact ⟨x, owner, hx, Statement.belongsTo_of_isOwner hwf hn, rfl⟩

/-- Here three positions share an alias, which the lowest of them has although it is not declared first. -/
theorem reports_duplicateAlias_three :
    ∃ s scope, Statement.ofSource ⟨"q", "q.sql",
        "-- @param {Int} $5:id\n-- @param {Int} $2:id\n-- @param {Int} $4:id\n-- @param {Int} $1:n\n:id"⟩ = .ok s ∧
      Scope.read? (Signature.ofParameters s.parameters).formals
        (Signature.ofParameters s.parameters).initializer = some scope ∧
      (s.parameters.filter (s.Displaces ·)).map (·.position) = [5, 4] ∧
      (duplicateAlias.check s).map (·.message) =
        ["alias 'id' of $5 is already used by $2, ':id' refers to $2",
          "alias 'id' of $4 is already used by $2, ':id' refers to $2"] ∧
      s.BelongsTo scope "id" 2 := by
  have h : Statement.ofSource ⟨"q", "q.sql",
      "-- @param {Int} $5:id\n-- @param {Int} $2:id\n-- @param {Int} $4:id\n-- @param {Int} $1:n\n:id"⟩ =
      .ok ⟨"q", "q.sql", [⟨5, .int, some "id", false, none⟩, ⟨2, .int, some "id", false, none⟩,
        ⟨4, .int, some "id", false, none⟩, ⟨1, .int, some "n", false, none⟩], [], "`${$id}`", true⟩ := by
    decide +kernel
  obtain ⟨scope, hscope, hreports⟩ := reports_duplicateAlias h
  refine ⟨_, scope, h, hscope, by decide, by decide +kernel, ?_⟩
  cases hreports with
  | cons first _ =>
    obtain ⟨x, owner, hx, hbelongs, -⟩ := first
    cases hx
    have howner : 2 = owner := hbelongs.only ⟨2, "id", some .int, false, none⟩ (by decide) rfl
    subst howner
    exact hbelongs

end Lint
end AnnotatedSql
