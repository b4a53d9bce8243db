import AnnotatedSql.Proofs.Scope
/-!
# What a question mark reads

A question mark stands for the argument after as many as there are declarations in front of the first one with an
alias. The alias itself stands for the argument of the lowest position that has it. The two are the same argument
exactly if that position is the place of the declaration in the header (`Statement.questionReads_of_ofSource`), as it
is where positions are declared in order.
-/

namespace AnnotatedSql

/-! ## Names and the arguments that they read -/

namespace Scope

variable {scope : Scope} {x v : List Char}

/-- The formal argument that a name reads: the one that the initializer binds it to, or else the one of this name. -/
def argument? (scope : Scope) (x : List Char) : Option (List Char) :=
  match scope.locals.lookup x with
  | some v => some v
  | none => if x ∈ scope.formals then some x else none

theorem argument?_of_mem_locals (hn : scope.names.Nodup) (h : (x, v) ∈ scope.locals) :
    scope.argument? x = some v := by
  obtain ⟨front, rest, hlocals⟩ := List.append_of_mem h
  have hlookup : scope.locals.lookup x = some v := by
    refine List.lookup_eq_some_iff.2 ⟨front, rest, hlocals, fun p hp => ?_⟩
    -- a local in front would be found first, but it has another name
    have hlocal := (List.nodup_append.1 hn).2.1
    rw [hlocals, List.map_append, List.nodup_append] at hlocal
    exact bne_iff_ne.2 (hlocal.2.2 p.1 (List.mem_map_of_mem hp) x List.mem_cons_self).symm
  unfold argument?
  rw [hlookup]

theorem argument?_of_mem_formals (hn : scope.names.Nodup) (h : x ∈ scope.formals) : scope.argument? x = some x := by
  have hlookup : scope.locals.lookup x = none := by
    rw [List.lookup_eq_none_iff]
    intro p hp
    exact bne_iff_ne.2 ((List.nodup_append.1 hn).2.2 x h p.1 (List.mem_map_of_mem hp))
  unfold argument?
  rw [hlookup]
  exact if_pos h

end Scope

namespace Signature

variable {parameters : Parameters} {a : String} {n : Nat}

/-- The name of a formal argument reads this argument. -/
theorem argument?_argument (h : parameters.WellFormed) (h₁ : 1 ≤ n) (h₂ : n ≤ parameters.length) :
    (ofParameters parameters).scope.argument? (Target.argument n).name = some (Position.key n).toList := by
  rw [Scope.argument?_of_mem_formals (nodup_names_scope (hygienic_ofParameters h)) (mem_formals_argument h h₁ h₂),
    Target.name_argument]

/-- The local name of an alias reads the argument of the lowest position that has the alias. -/
theorem argument?_binding (h : parameters.WellFormed) (hn : parameters.IsOwner a n) :
    (ofParameters parameters).scope.argument? (Target.binding a.toList).name = some (Position.key n).toList := by
  obtain ⟨b, hb, hpos, hexposed⟩ := exists_exposed_of_isOwner h hn
  refine Scope.argument?_of_mem_locals (nodup_names_scope (hygienic_ofParameters h)) (List.mem_map.2 ⟨b, hb, ?_⟩)
  rw [toList_binding, hexposed, Argument.formal, hpos]
  rfl

end Signature

/-! ## The first declaration with an alias -/

namespace Parameters

variable {parameters before after : List Declaration} {d : Declaration} {a : String} {n : Nat}

theorem isFirstAliased_of_append (hbefore : ∀ e ∈ before, e.aliasName = none) (ha : d.aliasName = some a) :
    IsFirstAliased (before ++ d :: after) before.length := by
  refine ⟨⟨d, by simp, by simp [ha]⟩, fun j hj e he => hbefore e ?_⟩
  rw [List.getElem?_append_left hj] at he
  exact List.mem_of_getElem? he

/-- Where positions are declared in order, the first alias belongs to the place of its declaration. -/
theorem isOwner_of_inOrder (hbefore : ∀ e ∈ before, e.aliasName = none) (ha : d.aliasName = some a)
    (horder : (before ++ d :: after).map (·.position) = List.range' 1 n) :
    IsOwner (before ++ d :: after) a (before.length + 1) := by
  have hposition : ∀ i e, (before ++ d :: after)[i]? = some e → e.position = i + 1 := by
    intro i e he
    have hmap : (List.range' 1 n)[i]? = some e.position := by
      rw [← horder, List.getElem?_map, he, Option.map_some]
    obtain ⟨hi, hvalue⟩ := List.getElem?_eq_some_iff.1 hmap
    rw [List.getElem_range'] at hvalue
    omega
  refine ⟨⟨d, by simp, hposition _ d (by simp), ha⟩, ?_⟩
  rintro n ⟨e, he, rfl, hea⟩
  obtain ⟨i, hi⟩ := List.mem_iff_getElem?.1 he
  rw [hposition i e hi]
  by_contra hlt
  -- it would be one of the declarations in front, which have no alias
  rw [List.getElem?_append_left (by omega)] at hi
  have hnone := hbefore e (List.mem_of_getElem? hi)
  rw [hea] at hnone
  cases hnone

end Parameters

/-! ## Question marks and aliases -/

namespace Placeholder

variable {parameters : Parameters} {scope : Scope} {p : Placeholder} {argument : List Char}

/-- In a scope, the substitution for a placeholder reads an argument through the name in it. -/
def Reads (parameters : Parameters) (scope : Scope) (p : Placeholder) (argument : List Char) : Prop :=
  ∃ x, Code.ofPiece parameters (.hole p) = ['$', '{'] ++ x ++ ['}'] ∧ scope.argument? x = some argument

theorem reads_iff_of_target? {t : Target} (ht : p.target? parameters = some t) :
    p.Reads parameters scope argument ↔ scope.argument? t.name = some argument := by
  unfold Reads
  rw [Code.ofPiece_hole ht]
  constructor
  · rintro ⟨x, heq, hx⟩
    rwa [List.append_cancel_left (List.append_cancel_right heq)]
  · exact fun h => ⟨t.name, rfl, h⟩

/-- A question mark reads the argument after as many as there are declarations in front of the first alias. -/
theorem reads_question_iff (h : parameters.WellFormed) {k : Nat} (hk : parameters.IsFirstAliased k) :
    question.Reads parameters (Signature.ofParameters parameters).scope argument ↔
      argument = (Position.key (k + 1)).toList := by
  obtain ⟨d, hd, -⟩ := hk.1
  have hlength := (List.getElem?_eq_some_iff.1 hd).1
  rw [reads_iff_of_target? (target?_question.2 ⟨k, hk, rfl⟩), Signature.argument?_argument h (by omega) hlength,
    Option.some.injEq, eq_comm]

/-- A name reads the argument of the lowest position that has it as an alias. -/
theorem reads_name_iff (h : parameters.WellFormed) {a : String} {n : Nat} (hn : parameters.IsOwner a n) :
    (name a.toList).Reads parameters (Signature.ofParameters parameters).scope argument ↔
      argument = (Position.key n).toList := by
  obtain ⟨d, hd, -, ha⟩ := hn.1
  have htarget : (name a.toList).target? parameters = some (.binding a.toList) :=
    target?_name.2 ⟨⟨d, hd, by rw [ha, String.ofList_toList]⟩, rfl⟩
  rw [reads_iff_of_target? htarget, Signature.argument?_binding h hn, Option.some.injEq, eq_comm]

end Placeholder

/-- What the question marks of a body read and what the alias `a` reads, where `k` declarations stand in front of the
first one with an alias, and this alias is `a`. -/
structure Statement.QuestionReads (s : Statement) (body : List Char) (scope : Scope) (a : String) (k : Nat) :
    Prop where
  code : s.code.toList =
    Code.backtick :: Code.escapeFirst ((scan body).flatMap (Code.ofPiece s.parameters)) ++ [Code.backtick]
  question : ∀ argument, Placeholder.question.Reads s.parameters scope argument ↔
    argument = (Position.key (k + 1)).toList
  named : ∀ argument, (Placeholder.name a.toList).Reads s.parameters scope argument ↔
    ∃ n, s.parameters.IsOwner a n ∧ argument = (Position.key n).toList
  /-- Both read one argument exactly if the lowest position with the alias is the one after `k`. -/
  same : (∃ argument, Placeholder.question.Reads s.parameters scope argument ∧
    (Placeholder.name a.toList).Reads s.parameters scope argument) ↔ s.parameters.IsOwner a (k + 1)
  inOrder : ∀ n, s.parameters.map (·.position) = List.range' 1 n →
    ∃ argument, Placeholder.question.Reads s.parameters scope argument ∧
      (Placeholder.name a.toList).Reads s.parameters scope argument

namespace Statement

/-- A question mark reads what the first alias of the header reads exactly if the lowest position with this alias is
the place, counted from one, of the first declaration with an alias. -/
theorem questionReads_of_ofSource {source : SourceText} {s : Statement} (h : ofSource source = .ok s)
    {before after : List Declaration} {d : Declaration} {a : String} (hfirst : s.parameters = before ++ d :: after)
    (hbefore : ∀ e ∈ before, e.aliasName = none) (ha : d.aliasName = some a) :
    ∃ header scope, Header.read source.content.toList = .ok header ∧
      Scope.read? (Signature.ofParameters s.parameters).formals
        (Signature.ofParameters s.parameters).initializer = some scope ∧
      s.QuestionReads header.body scope a before.length := by
  obtain ⟨header, hread, -, -, -, -, -, hcode⟩ := ofSource_eq_ok_iff.1 h
  have hwf := wellFormed_parameters h
  have hd : d ∈ s.parameters := by simp [hfirst]
  obtain ⟨n, hn⟩ := Parameters.exists_isOwner hd ha
  have hk : s.parameters.IsFirstAliased before.length := hfirst ▸ Parameters.isFirstAliased_of_append hbefore ha
  have hsame : (∃ argument,
      Placeholder.question.Reads s.parameters (Signature.ofParameters s.parameters).scope argument ∧
      (Placeholder.name a.toList).Reads s.parameters (Signature.ofParameters s.parameters).scope argument) ↔
      s.parameters.IsOwner a (before.length + 1) := by
    simp only [Placeholder.reads_question_iff hwf hk, Placeholder.reads_name_iff hwf hn, exists_eq_left,
      String.toList_inj, Position.key_inj]
    constructor
    · intro heq
      rwa [heq]
    · exact fun howner => Parameters.isOwner_unique howner hn
  refine ⟨header, _, hread, Signature.read?_scope (Signature.hygienic_ofParameters hwf),
    (Code.ofBody_eq_ok_iff.1 hcode).2, fun argument => Placeholder.reads_question_iff hwf hk, fun argument => ?_,
    hsame, fun m horder => hsame.2 ?_⟩
  · rw [Placeholder.reads_name_iff hwf hn]
    constructor
    · exact fun heq => ⟨n, hn, heq⟩
    · rintro ⟨m, hm, rfl⟩
      rw [Parameters.isOwner_unique hm hn]
  · rw [hfirst] at horder ⊢
    exact Parameters.isOwner_of_inOrder hbefore ha horder

/-- Here the alias is shared: the question mark reads the second argument, where the first declaration with the alias
stands, and the alias the first. -/
theorem questionReads_shared_alias :
    ∃ s header scope, ofSource ⟨"q", "q.sql", "-- @param {Int} $3\n-- @param {Int} $2:id\n-- @param {Int} $1:id\n? :id"⟩ =
        .ok s ∧
      s.parameters = [⟨3, .int, none, false, none⟩] ++ ⟨2, .int, some "id", false, none⟩ ::
        [⟨1, .int, some "id", false, none⟩] ∧
      s.code = "`${$2} ${$id}`" ∧
      Header.read "-- @param {Int} $3\n-- @param {Int} $2:id\n-- @param {Int} $1:id\n? :id".toList = .ok header ∧
      s.QuestionReads header.body scope "id" 1 ∧
      ¬ ∃ argument, Placeholder.question.Reads s.parameters scope argument ∧
        (Placeholder.name "id".toList).Reads s.parameters scope argument := by
  have h : ofSource ⟨"q", "q.sql", "-- @param {Int} $3\n-- @param {Int} $2:id\n-- @param {Int} $1:id\n? :id"⟩ =
      .ok ⟨"q", "q.sql", [⟨3, .int, none, false, none⟩, ⟨2, .int, some "id", false, none⟩,
        ⟨1, .int, some "id", false, none⟩], [], "`${$2} ${$id}`", true⟩ := by
    decide +kernel
  have hfirst : ([⟨3, .int, none, false, none⟩, ⟨2, .int, some "id", false, none⟩,
      ⟨1, .int, some "id", false, none⟩] : Parameters) =
      [⟨3, .int, none, false, none⟩] ++ ⟨2, .int, some "id", false, none⟩ :: [⟨1, .int, some "id", false, none⟩] := rfl
  obtain ⟨header, scope, hread, -, hreads⟩ := questionReads_of_ofSource h hfirst (by simp) rfl
  refine ⟨_, header, scope, h, hfirst, rfl, hread, hreads, fun hsame => ?_⟩
  -- the alias belongs to the first position
  have howner := hreads.same.1 hsame
  have hle := howner.2 ⟨⟨1, .int, some "id", false, none⟩, by simp, rfl, rfl⟩
  simp at hle

end Statement
end AnnotatedSql
