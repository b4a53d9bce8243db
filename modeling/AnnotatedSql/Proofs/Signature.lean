import AnnotatedSql.Procedure
import AnnotatedSql.Proofs.Header
import AnnotatedSql.Proofs.Parameters
import AnnotatedSql.Proofs.Resolution
import Mathlib.Data.List.Nodup
import Mathlib.Order.Bounds.Defs
import Mathlib.Order.WellFounded
/-!
# The names in a generated function

`fill_cons` is the one step of the shaping of arguments: a position is exposed under its alias if no
lower position has taken that alias, and under its key otherwise. So an alias belongs to the lowest
position that has it, and the names of a function are distinct.
-/

namespace AnnotatedSql

open Identifier (IsScriptName)

/-! ## Keys -/

namespace Position

theorem isScriptName_key (n : Nat) : IsScriptName (key n).toList := by
  rw [toList_key]
  refine Identifier.isScriptName_dollar fun c hc => .inl ?_
  exact Text.isWord_of_isDigit (Text.isDigit_of_mem_toDigits hc)

end Position

/-- An alias is no key: it has no dollar sign. -/
theorem Identifier.ne_key_of_fault? {a : String} (h : fault? a = none) (n : Nat) : a ≠ Position.key n := by
  rintro rfl
  have hw := (hasShape_of_fault? h).isWord '$' (by simp [Position.toList_key])
  exact absurd hw (by decide)

/-! ## Parameters of a source -/

/-- What holds of the parameters of every accepted source. -/
structure Parameters.WellFormed (parameters : Parameters) : Prop where
  distinct : (parameters.map (·.position)).Nodup
  declared : ∀ d ∈ parameters, d.WellFormed

theorem Parameters.wellFormed_ofDeclarations {ds : List Declaration} (h : ∀ d ∈ ds, d.WellFormed) :
    (ofDeclarations ds).WellFormed where
  distinct := nodup_positions ds
  declared d hd := h d (mem_of_mem_ofDeclarations hd)

theorem Parameters.WellFormed.one_le_position {parameters : Parameters} (h : parameters.WellFormed) :
    ∀ d ∈ parameters, 1 ≤ d.position :=
  fun d hd => (h.declared d hd).position.1

theorem Parameters.WellFormed.length_le {parameters : Parameters} (h : parameters.WellFormed) :
    parameters.length ≤ parameters.maxPosition :=
  length_le_maxPosition h.distinct h.one_le_position

theorem Statement.wellFormed_parameters {source : SourceText} {statement : Statement}
    (h : ofSource source = .ok statement) : statement.parameters.WellFormed := by
  obtain ⟨header, hread, -, -, hparams, -⟩ := ofSource_eq_ok_iff.1 h
  rw [hparams]
  exact Parameters.wellFormed_ofDeclarations (Header.wellFormed_of_read hread)

/-- The lowest position declared with an alias. -/
def Parameters.IsOwner (parameters : Parameters) (aliasName : String) (n : Nat) : Prop :=
  IsLeast {n | ∃ d ∈ parameters, d.position = n ∧ d.aliasName = some aliasName} n

theorem Parameters.exists_isOwner {parameters : Parameters} {d : Declaration} {a : String} (hd : d ∈ parameters)
    (ha : d.aliasName = some a) : ∃ n, parameters.IsOwner a n := by
  obtain ⟨n, hn, hmin⟩ := WellFounded.has_min Nat.lt_wfRel.wf
    {n | ∃ d ∈ parameters, d.position = n ∧ d.aliasName = some a} ⟨d.position, d, hd, rfl, ha⟩
  exact ⟨n, hn, fun m hm => Nat.not_lt.1 (hmin m hm)⟩

theorem Parameters.isOwner_unique {parameters : Parameters} {a : String} {m n : Nat} (hm : parameters.IsOwner a m)
    (hn : parameters.IsOwner a n) : m = n :=
  Nat.le_antisymm (hm.2 hn.1) (hn.2 hm.1)

namespace Signature

variable {parameters : Parameters} {taken : List String} {positions : List Nat} {a : Argument} {n : Nat}

/-! ## One position after another -/

/-- What the next position becomes: it is exposed under its key and takes no name, or else it is
exposed under its alias, which was not taken and is from then on. -/
theorem fill_cons (parameters : Parameters) (taken : List String) (n : Nat) (rest : List Nat) :
    ∃ a taken', fill parameters taken (n :: rest) = a :: fill parameters taken' rest ∧ a.position = n ∧
      ((a.exposed = Position.key n ∧ taken' = taken ∧
          ∀ d x, parameters.at? n = some d → d.aliasName = some x → x ∈ taken) ∨
        ∃ d x, parameters.at? n = some d ∧ d.aliasName = some x ∧ x ∉ taken ∧ a = .declared n x d ∧
          taken' = x :: taken) := by
  simp only [fill]
  cases hat : parameters.at? n with
  | none => exact ⟨_, taken, rfl, rfl, .inl ⟨rfl, rfl, by simp⟩⟩
  | some d =>
    dsimp only
    cases ha : d.aliasName with
    | none =>
      refine ⟨_, taken, rfl, rfl, .inl ⟨rfl, rfl, ?_⟩⟩
      rintro _ x ⟨⟩ hx
      rw [ha] at hx
      cases hx
    | some x =>
      dsimp only
      by_cases hx : x ∈ taken
      · rw [if_pos (by simpa using hx)]
        refine ⟨_, taken, rfl, rfl, .inl ⟨rfl, rfl, ?_⟩⟩
        rintro _ y ⟨⟩ hy
        rw [ha] at hy
        cases hy
        exact hx
      · rw [if_neg (by simpa using hx)]
        exact ⟨_, x :: taken, rfl, rfl, .inr ⟨d, x, rfl, ha, hx, rfl, rfl⟩⟩

theorem positions_fill (parameters : Parameters) (taken : List String) (positions : List Nat) :
    (fill parameters taken positions).map (·.position) = positions := by
  induction positions generalizing taken with
  | nil => rfl
  | cons n rest ih =>
    obtain ⟨a, taken', he, ha, -⟩ := fill_cons parameters taken n rest
    rw [he, List.map_cons, ih, ha]

/-- An argument is exposed under its key or under its alias, unless that was taken before. -/
theorem exposed_of_mem_fill (h : a ∈ fill parameters taken positions) :
    a.exposed = Position.key a.position ∨
      (a.exposed ∉ taken ∧ ∃ d, parameters.at? a.position = some d ∧ d.aliasName = some a.exposed) := by
  induction positions generalizing taken with
  | nil => cases h
  | cons n rest ih =>
    obtain ⟨b, taken', he, hb, hstep⟩ := fill_cons parameters taken n rest
    rw [he] at h
    rcases List.mem_cons.1 h with rfl | h
    · rcases hstep with ⟨hkey, -, -⟩ | ⟨d, x, hat, hx, hfree, rfl, -⟩
      · exact .inl (hb ▸ hkey)
      · exact .inr ⟨hfree, d, hat, hx⟩
    · rcases ih h with hkey | ⟨hfree, hd⟩
      · exact .inl hkey
      · refine .inr ⟨fun hmem => hfree ?_, hd⟩
        rcases hstep with ⟨-, rfl, -⟩ | ⟨d, x, -, -, -, -, rfl⟩
        · exact hmem
        · exact List.mem_cons_of_mem _ hmem

/-- An argument is that of its position, under the name it is exposed by. -/
theorem eq_of_mem_fill (h : a ∈ fill parameters taken positions) :
    (parameters.at? a.position = none ∧ a = .skipped a.position) ∨
      ∃ d, parameters.at? a.position = some d ∧ a = .declared a.position a.exposed d := by
  fun_induction fill parameters taken positions with
  | case1 => cases h
  | case2 taken n rest hat ih =>
    rcases List.mem_cons.1 h with rfl | h
    · exact .inl ⟨hat, rfl⟩
    · exact ih h
  | case3 taken n rest d hat _ ih | case4 taken n rest d hat _ _ _ ih | case5 taken n rest d hat _ _ _ ih =>
    rcases List.mem_cons.1 h with rfl | h
    · exact .inr ⟨d, hat, rfl⟩
    · exact ih h

/-- An alias that is free goes to the first position that has it. -/
theorem mem_fill_of_first {d : Declaration} {x : String} {pre post : List Nat} (hfree : x ∉ taken)
    (hpre : ∀ m ∈ pre, ∀ e, parameters.at? m = some e → e.aliasName ≠ some x)
    (hat : parameters.at? n = some d) (hx : d.aliasName = some x) :
    Argument.declared n x d ∈ fill parameters taken (pre ++ n :: post) := by
  induction pre generalizing taken with
  | nil =>
    obtain ⟨a, taken', he, -, hstep⟩ := fill_cons parameters taken n post
    rw [List.nil_append, he]
    rcases hstep with ⟨-, -, htaken⟩ | ⟨d', x', hat', hx', -, rfl, -⟩
    · exact absurd (htaken d x hat hx) hfree
    · rw [hat] at hat'
      cases hat'
      rw [hx] at hx'
      cases hx'
      exact List.mem_cons_self
  | cons m pre ih =>
    -- the position in front does not have the alias, so it leaves the alias free
    obtain ⟨a, taken', he, -, hstep⟩ := fill_cons parameters taken m (pre ++ n :: post)
    rw [List.cons_append, he]
    refine List.mem_cons_of_mem _ (ih ?_ fun k hk => hpre k (List.mem_cons_of_mem _ hk))
    rcases hstep with ⟨-, rfl, -⟩ | ⟨e, y, hat', hy, -, -, rfl⟩
    · exact hfree
    · refine fun hmem => hfree ?_
      rcases List.mem_cons.1 hmem with rfl | hmem
      · exact absurd hy (hpre m List.mem_cons_self e hat')
      · exact hmem

/-- Names are distinct as long as no alias looks like a key. -/
theorem nodup_exposed_fill (hkeys : ∀ n d x, parameters.at? n = some d → d.aliasName = some x → ∀ m, x ≠ Position.key m)
    (hpos : positions.Nodup) : ((fill parameters taken positions).map (·.exposed)).Nodup := by
  induction positions generalizing taken with
  | nil => simp [fill]
  | cons n rest ih =>
    rw [List.nodup_cons] at hpos
    obtain ⟨a, taken', he, ha, hstep⟩ := fill_cons parameters taken n rest
    rw [he, List.map_cons, List.nodup_cons]
    refine ⟨fun hmem => ?_, ih hpos.2⟩
    obtain ⟨b, hb, heq⟩ := List.mem_map.1 hmem
    -- `b` comes later under the same name: both names are keys, or one is and the other is not, or
    -- both are aliases and the first of them was taken when `b` was reached
    have hbrest : b.position ∈ rest := by
      rw [← positions_fill parameters taken' rest]
      exact List.mem_map.2 ⟨b, hb, rfl⟩
    rcases exposed_of_mem_fill hb with hbkey | ⟨hbfree, d', hat', hx'⟩
    · rcases hstep with ⟨hkey, -, -⟩ | ⟨d, x, hat, hx, -, rfl, -⟩
      · rw [hbkey, hkey, Position.key_inj] at heq
        exact hpos.1 (heq ▸ hbrest)
      · exact hkeys n d x hat hx b.position (heq.symm.trans hbkey)
    · rcases hstep with ⟨hkey, -, -⟩ | ⟨d, x, -, -, -, rfl, rfl⟩
      · exact hkeys _ d' _ hat' hx' n (heq.trans hkey)
      · exact hbfree (heq ▸ List.mem_cons_self)

/-! ## The arguments of declared parameters -/

theorem positions_ofParameters (parameters : Parameters) :
    (ofParameters parameters).map (·.position) = List.range' 1 parameters.maxPosition :=
  positions_fill _ _ _

theorem length_ofParameters (parameters : Parameters) :
    (ofParameters parameters).length = parameters.maxPosition := by
  have := congrArg List.length (positions_ofParameters parameters)
  rwa [List.length_map, List.length_range'] at this

/-- The formal arguments are the keys from the first to the last. -/
theorem formals_ofParameters (parameters : Parameters) :
    (ofParameters parameters).map Argument.formal =
      (List.range' 1 (ofParameters parameters).length).map Position.key := by
  rw [length_ofParameters, ← positions_ofParameters, List.map_map]
  rfl

theorem exposed_cases (h : parameters.WellFormed) (ha : a ∈ ofParameters parameters) :
    a.exposed = Position.key a.position ∨ Identifier.fault? a.exposed = none := by
  rcases exposed_of_mem_fill ha with hkey | ⟨-, d, hat, hx⟩
  · exact .inl hkey
  · obtain ⟨hd, -⟩ := (Parameters.at?_eq_some_iff h.distinct).1 hat
    exact .inr ((h.declared d hd).aliasName _ hx)

theorem nodup_exposed (h : parameters.WellFormed) : ((ofParameters parameters).map (·.exposed)).Nodup := by
  refine nodup_exposed_fill (fun n d x hat hx m => ?_) List.nodup_range'
  obtain ⟨hd, -⟩ := (Parameters.at?_eq_some_iff h.distinct).1 hat
  exact Identifier.ne_key_of_fault? ((h.declared d hd).aliasName x hx) m

/-- An alias is exposed at the position that owns it. -/
theorem exists_exposed_of_isOwner (h : parameters.WellFormed) {x : String} (hn : parameters.IsOwner x n) :
    ∃ a ∈ ofParameters parameters, a.position = n ∧ a.exposed = x := by
  obtain ⟨⟨d, hd, hpos, hx⟩, hleast⟩ := hn
  have hone : 1 ≤ n := hpos ▸ h.one_le_position d hd
  have htop : n ≤ parameters.maxPosition := hpos ▸ Parameters.le_maxPosition hd
  have hrange : List.range' 1 parameters.maxPosition =
      List.range' 1 (n - 1) ++ n :: List.range' (n + 1) (parameters.maxPosition - n) := by
    have hsplit := List.range'_append_1 (s := 1) (m := n - 1) (n := parameters.maxPosition - n + 1)
    rw [List.range'_succ] at hsplit
    rw [show 1 + (n - 1) = n by omega, show n - 1 + (parameters.maxPosition - n + 1) = parameters.maxPosition by omega]
      at hsplit
    exact hsplit.symm
  refine ⟨.declared n x d, ?_, rfl, rfl⟩
  unfold ofParameters
  rw [hrange]
  refine mem_fill_of_first (by simp) (fun m hm e hat hy => ?_)
    ((Parameters.at?_eq_some_iff h.distinct).2 ⟨hd, hpos⟩) hx
  obtain ⟨he, hm'⟩ := (Parameters.at?_eq_some_iff h.distinct).1 hat
  have hle := hleast ⟨e, he, hm', hy⟩
  rw [List.mem_range'_1] at hm
  omega

/-! ## Local names -/

theorem toList_binding (a : Argument) : a.binding.toList = '$' :: a.exposed.toList := by
  simp [Argument.binding]

theorem nodup_bindings (h : parameters.WellFormed) : ((ofParameters parameters).map Argument.binding).Nodup := by
  have heq : (ofParameters parameters).map Argument.binding =
      ((ofParameters parameters).map (·.exposed)).map ("$" ++ ·) := by
    rw [List.map_map]
    rfl
  rw [heq]
  exact List.Nodup.map (fun x y hxy => (String.append_right_inj "$").1 hxy) (nodup_exposed h)

/-- Behind its first dollar sign a local name goes on with a dollar sign or a letter, and a key with
a digit. -/
theorem binding_ne_key (h : parameters.WellFormed) (ha : a ∈ ofParameters parameters) (m : Nat) :
    a.binding ≠ Position.key m := by
  intro heq
  have hlist := congrArg String.toList heq
  rw [toList_binding, Position.toList_key, List.cons.injEq] at hlist
  have hdigits : ∀ c ∈ a.exposed.toList, c.isDigit = true := by
    rw [hlist.2]
    exact fun c hc => Text.isDigit_of_mem_toDigits hc
  rcases exposed_cases h ha with hkey | hvalid
  · rw [hkey, Position.toList_key] at hdigits
    exact absurd (hdigits '$' List.mem_cons_self) (by decide)
  · have hshape := Identifier.hasShape_of_fault? hvalid
    cases hcs : a.exposed.toList with
    | nil => exact hshape.ne_nil hcs
    | cons c cs =>
      rw [hcs] at hshape hdigits
      exact absurd (hdigits c List.mem_cons_self) (by simp [hshape.head_not_isDigit])

theorem isScriptName_exposed (h : parameters.WellFormed) (ha : a ∈ ofParameters parameters) :
    IsScriptName a.exposed.toList := by
  rcases exposed_cases h ha with hkey | hvalid
  · rw [hkey]
    exact Position.isScriptName_key _
  · exact (Identifier.hasShape_of_fault? hvalid).isScriptName

theorem isScriptName_binding (h : parameters.WellFormed) (ha : a ∈ ofParameters parameters) :
    IsScriptName a.binding.toList := by
  rw [toList_binding]
  exact Identifier.isScriptName_dollar (isScriptName_exposed h ha).mem

end Signature
end AnnotatedSql
