import AnnotatedSql.Proofs.Signature
/-!
# What the names in generated code refer to

A generated function names things in three ways: it lists formal arguments, its initializer binds
local names to them, and the substitutions in its code refer to one or the other. No two of the names
are equal (`Signature.Hygienic`). `Scope.read?` reads the formal arguments and the local names back
from the rendered texts, and each substitution refers to exactly one of them (`Statement.Bound`).
-/

namespace AnnotatedSql

open Identifier (IsScriptName)
open Text (after? after?_eq_some_iff cut? decimal)

/-! ## Names that do not clash -/

/-- The names of a generated function are distinct, and each has the shape of a name. -/
structure Signature.Hygienic (s : Signature) : Prop where
  formals : s.map Argument.formal = (List.range' 1 s.length).map Position.key
  exposed : (s.map (·.exposed)).Nodup
  bindings : (s.map Argument.binding).Nodup
  apart : ∀ a ∈ s, ∀ n, 1 ≤ n → n ≤ s.length → a.binding ≠ Position.key n
  names : ∀ a ∈ s, IsScriptName a.exposed.toList ∧ IsScriptName a.binding.toList ∧ IsScriptName a.formal.toList

namespace Signature

theorem hygienic_ofParameters {parameters : Parameters} (h : parameters.WellFormed) :
    (ofParameters parameters).Hygienic where
  formals := formals_ofParameters parameters
  exposed := nodup_exposed h
  bindings := nodup_bindings h
  apart _ ha n _ _ := binding_ne_key h ha n
  names a ha := ⟨isScriptName_exposed h ha, isScriptName_binding h ha, Position.isScriptName_key a.position⟩

/-- The names that an accepted source gives its function do not clash. -/
theorem hygienic_of_ofSource {source : SourceText} {statement : Statement} (h : Statement.ofSource source = .ok statement) :
    (ofParameters statement.parameters).Hygienic :=
  hygienic_ofParameters (Statement.wellFormed_parameters h)

/-- Here one position and one alias are declared twice, and the positions are out of order. -/
theorem hygienic_shared_alias :
    ∃ statement,
      Statement.ofSource ⟨"q", "q.sql", "-- @param {Int} $4\n-- @param {Json} $2:id?\n-- @param {Int} $4:id\n:id"⟩ =
        .ok statement ∧
      (ofParameters statement.parameters).map Argument.binding = ["$$1", "$id", "$$3", "$$4"] ∧
      (ofParameters statement.parameters).Hygienic := by
  have h : Statement.ofSource
      ⟨"q", "q.sql", "-- @param {Int} $4\n-- @param {Json} $2:id?\n-- @param {Int} $4:id\n:id"⟩ =
      .ok ⟨"q", "q.sql", [⟨4, .int, some "id", false, none⟩, ⟨2, .json, some "id", true, none⟩], [4], "`${$id}`", true⟩ := by
    decide +kernel
  exact ⟨_, h, by decide, hygienic_of_ofSource h⟩

end Signature

/-! ## Reading the names back -/

/-- The formal arguments of a function, and its local names with the values that they take. -/
structure Scope where
  formals : List (List Char)
  locals : List (List Char × List Char)
  deriving DecidableEq, Repr

namespace Scope

/-- All names that a function knows. -/
def names (s : Scope) : List (List Char) :=
  s.formals ++ s.locals.map Prod.fst

/-- The names in a list with commas between them. -/
def namesIn (text : List Char) : List (List Char) :=
  if text = [] then [] else text.splitOn ','

/-- The names that a statement like `const[a,b]=[x,y];` binds, each with its value. -/
def localsIn? (text : List Char) : Option (List (List Char × List Char)) :=
  if text = [] then some []
  else do
    let rest ← after? "const[".toList text
    let (left, rest) ← cut? "]=[".toList rest
    let (right, rest) ← cut? "];".toList rest
    if rest = [] ∧ (namesIn left).length = (namesIn right).length then some ((namesIn left).zip (namesIn right))
    else none

/-- The scope that a list of formal arguments and an initializer make. -/
def read? (formals initializer : String) : Option Scope :=
  (localsIn? initializer.toList).map fun locals => ⟨namesIn formals.toList, locals⟩

/-- A list of names reads back as these names. -/
theorem namesIn_intercalate {names : List String} (h : ∀ name ∈ names, IsScriptName name.toList) :
    namesIn (",".intercalate names).toList = names.map String.toList := by
  have hlist : (",".intercalate names).toList = [','].intercalate (names.map String.toList) :=
    String.toList_intercalate
  have hcomma : ∀ part ∈ names.map String.toList, ',' ∉ part := by
    intro part hpart
    obtain ⟨name, hname, rfl⟩ := List.mem_map.1 hpart
    exact (h name hname).not_mem (by decide) (by decide)
  rw [hlist]
  cases names with
  | nil => rfl
  | cons name names =>
    have hne : [','].intercalate ((name :: names).map String.toList) ≠ [] := by
      intro hnil
      have hsplit := List.splitOn_intercalate ',' hcomma (by simp)
      rw [hnil, List.splitOn_nil] at hsplit
      have hhead : name.toList = [] := by simpa using (congrArg List.head? hsplit).symm
      exact (h name List.mem_cons_self).ne_nil hhead
    unfold namesIn
    rw [if_neg hne, List.splitOn_intercalate ',' hcomma (by simp)]

theorem not_mem_intercalate {names : List String} (h : ∀ name ∈ names, IsScriptName name.toList) :
    ']' ∉ (",".intercalate names).toList := by
  rw [String.toList_intercalate]
  intro hmem
  rcases Text.mem_of_mem_intercalate hmem with hc | ⟨part, hpart, hc⟩
  · exact absurd hc (by decide)
  · obtain ⟨name, hname, rfl⟩ := List.mem_map.1 hpart
    exact (h name hname).not_mem (by decide) (by decide) hc

theorem localsIn?_eq {left right : List Char} (hl : ']' ∉ left) (hr : ']' ∉ right)
    (hlen : (namesIn left).length = (namesIn right).length) :
    localsIn? ("const[".toList ++ (left ++ ("]=[".toList ++ (right ++ "];".toList)))) =
      some ((namesIn left).zip (namesIn right)) := by
  have hcut₁ : cut? "]=[".toList (left ++ ("]=[".toList ++ (right ++ "];".toList))) =
      some (left, right ++ "];".toList) :=
    Text.cut?_append ['=', '['] hl _
  have hcut₂ : cut? "];".toList (right ++ "];".toList) = some (right, []) := by
    simpa using Text.cut?_append [';'] hr []
  unfold localsIn?
  rw [if_neg (by simp), after?_eq_some_iff.2 rfl]
  simp only [Option.bind_eq_bind, Option.bind_some, hcut₁, hcut₂]
  rw [if_pos ⟨trivial, hlen⟩]

end Scope

namespace Signature

/-- The formal arguments of a signature, and its local names with the arguments that they stand for. -/
def scope (s : Signature) : Scope where
  formals := s.map (·.formal.toList)
  locals := s.map fun a => (a.binding.toList, a.formal.toList)

theorem toList_initializer {s : Signature} (h : s ≠ []) :
    s.initializer.toList = "const[".toList ++
      ((",".intercalate (s.map Argument.binding)).toList ++ ("]=[".toList ++ (s.formals.toList ++ "];".toList))) := by
  unfold initializer
  rw [if_neg (by simpa using h)]
  simp only [String.toList_append, List.append_assoc]

theorem isScriptName_of_mem_formals {s : Signature} (h : s.Hygienic) :
    ∀ name ∈ s.map Argument.formal, IsScriptName name.toList :=
  List.forall_mem_map.2 fun a ha => (h.names a ha).2.2

theorem isScriptName_of_mem_bindings {s : Signature} (h : s.Hygienic) :
    ∀ name ∈ s.map Argument.binding, IsScriptName name.toList :=
  List.forall_mem_map.2 fun a ha => (h.names a ha).2.1

theorem namesIn_formals {s : Signature} (h : s.Hygienic) :
    Scope.namesIn s.formals.toList = s.map (·.formal.toList) := by
  unfold formals
  rw [Scope.namesIn_intercalate (isScriptName_of_mem_formals h), List.map_map]
  rfl

theorem namesIn_bindings {s : Signature} (h : s.Hygienic) :
    Scope.namesIn (",".intercalate (s.map Argument.binding)).toList = s.map (·.binding.toList) := by
  rw [Scope.namesIn_intercalate (isScriptName_of_mem_bindings h), List.map_map]
  rfl

/-- The rendered texts of a signature with well-shaped names read back as its scope. -/
theorem read?_scope {s : Signature} (h : s.Hygienic) : Scope.read? s.formals s.initializer = some s.scope := by
  have hlocals : Scope.localsIn? s.initializer.toList = some s.scope.locals := by
    by_cases hs : s = []
    · subst hs
      rfl
    · have hright : ']' ∉ s.formals.toList := Scope.not_mem_intercalate (isScriptName_of_mem_formals h)
      have hleft := Scope.not_mem_intercalate (isScriptName_of_mem_bindings h)
      rw [toList_initializer hs, Scope.localsIn?_eq hleft hright, namesIn_bindings h, namesIn_formals h]
      · rw [List.zip_map']
        rfl
      · rw [namesIn_bindings h, namesIn_formals h, List.length_map, List.length_map]
  unfold Scope.read?
  rw [hlocals, namesIn_formals h]
  rfl

theorem mem_formals_scope {s : Signature} (h : s.Hygienic) {n : Nat} (h₁ : 1 ≤ n) (h₂ : n ≤ s.length) :
    (Position.key n).toList ∈ s.scope.formals := by
  have hmem : Position.key n ∈ s.map Argument.formal := by
    rw [h.formals]
    exact List.mem_map_of_mem (List.mem_range'_1.2 ⟨h₁, by omega⟩)
  obtain ⟨a, ha, heq⟩ := List.mem_map.1 hmem
  exact List.mem_map.2 ⟨a, ha, congrArg String.toList heq⟩

/-- No name of a scope stands for two things. -/
theorem nodup_names_scope {s : Signature} (h : s.Hygienic) : s.scope.names.Nodup := by
  have hnames : s.scope.names = (s.map Argument.formal ++ s.map Argument.binding).map String.toList := by
    simp [Scope.names, scope, Function.comp_def]
  have hkeys : (s.map Argument.formal).Nodup := by
    rw [h.formals]
    exact List.Nodup.map (fun m n hmn => Position.key_inj.1 hmn) List.nodup_range'
  rw [hnames]
  refine List.Nodup.map (fun x y hxy => String.toList_inj.1 hxy) (List.nodup_append.2 ⟨hkeys, h.bindings, ?_⟩)
  intro x hx y hy hxy
  rw [h.formals] at hx
  obtain ⟨n, hn, rfl⟩ := List.mem_map.1 hx
  obtain ⟨a, ha, rfl⟩ := List.mem_map.1 hy
  rw [List.mem_range'_1] at hn
  exact h.apart a ha n hn.1 (by omega) hxy.symm

end Signature

/-! ## What substitutions refer to -/

/-- What the name in the substitution for a placeholder has to be. A number stands for the argument of
that position, and a question mark for the argument after as many as there are declarations in front
of the first one with an alias. An alias stands for the local name of the lowest position that has it. -/
def Placeholder.RefersTo (parameters : Parameters) (scope : Scope) : Placeholder → List Char → Prop
  | position digits, x =>
    1 ≤ decimal digits ∧ decimal digits ≤ scope.formals.length ∧ x = (Position.key (decimal digits)).toList
  | question, x =>
    ∃ k, parameters.IsFirstAliased k ∧ k + 1 ≤ scope.formals.length ∧ x = (Position.key (k + 1)).toList
  | name word, x =>
    ∃ n, parameters.IsOwner (String.ofList word) n ∧ (x, (Position.key n).toList) ∈ scope.locals

theorem Target.name_argument (n : Nat) : (argument n).name = (Position.key n).toList :=
  (Position.toList_key n).symm

/-- Numbers are held against how many declarations there are; arguments reach to the highest position. -/
theorem Signature.mem_formals_argument {parameters : Parameters} (h : parameters.WellFormed) {n : Nat} (h₁ : 1 ≤ n)
    (h₂ : n ≤ parameters.length) : (Target.argument n).name ∈ (ofParameters parameters).scope.formals := by
  have hlength : n ≤ (ofParameters parameters).length := by
    rw [length_ofParameters]
    exact Nat.le_trans h₂ h.length_le
  rw [Target.name_argument]
  exact mem_formals_scope (hygienic_ofParameters h) h₁ hlength

namespace Placeholder

variable {parameters : Parameters} {p : Placeholder} {t : Target}

/-- What a placeholder refers to is known to the function, and is what the placeholder stands for. -/
theorem refersTo_of_target? (h : parameters.WellFormed) (ht : p.target? parameters = some t) :
    t.name ∈ (Signature.ofParameters parameters).scope.names ∧
      p.RefersTo parameters (Signature.ofParameters parameters).scope t.name := by
  have hlen : (Signature.ofParameters parameters).scope.formals.length = parameters.maxPosition := by
    rw [← Signature.length_ofParameters]
    exact List.length_map _
  have hmax := h.length_le
  have hargument : ∀ n, 1 ≤ n → n ≤ parameters.length →
      (Target.argument n).name ∈ (Signature.ofParameters parameters).scope.names :=
    fun n h₁ h₂ => List.mem_append_left _ (Signature.mem_formals_argument h h₁ h₂)
  cases p with
  | position digits =>
    obtain ⟨h₁, h₂, -, rfl⟩ := target?_position.1 ht
    exact ⟨hargument _ h₁ h₂, h₁, by omega, Target.name_argument _⟩
  | question =>
    obtain ⟨k, hk, rfl⟩ := target?_question.1 ht
    obtain ⟨d, hd, -⟩ := hk.1
    have hlt : k < parameters.length := (List.getElem?_eq_some_iff.1 hd).1
    exact ⟨hargument _ (by omega) hlt, k, hk, by omega, Target.name_argument _⟩
  | name word =>
    obtain ⟨⟨d, hd, hx⟩, rfl⟩ := target?_name.1 ht
    obtain ⟨n, hn⟩ := Parameters.exists_isOwner hd hx
    obtain ⟨a, ha, rfl, hexposed⟩ := Signature.exists_exposed_of_isOwner h hn
    have hlocal : ((Target.binding word).name, a.formal.toList) ∈ (Signature.ofParameters parameters).scope.locals := by
      refine List.mem_map.2 ⟨a, ha, ?_⟩
      rw [Signature.toList_binding, hexposed, String.toList_ofList]
      rfl
    exact ⟨List.mem_append_right _ (List.mem_map_of_mem hlocal), a.position, hn, hlocal⟩

end Placeholder

namespace Statement

/-- The code of a statement is that of its body, and in the scope of its function each substitution
for a placeholder refers to one thing, which is what the placeholder stands for. -/
structure Bound (statement : Statement) (body : List Char) (scope : Scope) : Prop where
  formals : scope.formals = (List.range' 1 statement.maxPosition).map fun n => (Position.key n).toList
  values : scope.locals.map Prod.snd = scope.formals
  code : statement.code.toList =
    Code.backtick :: Code.escapeFirst ((scan body).flatMap (Code.ofPiece statement.parameters)) ++ [Code.backtick]
  holes : ∀ p, .hole p ∈ scan body →
    ∃ x, Code.ofPiece statement.parameters (.hole p) = ['$', '{'] ++ x ++ ['}'] ∧ scope.names.count x = 1 ∧
      p.RefersTo statement.parameters scope x

/-- In the function of an accepted source no substitution is unbound, and each reads what its
placeholder stands for. -/
theorem exists_bound {source : SourceText} {statement : Statement} (h : ofSource source = .ok statement) :
    ∃ header scope, Header.read source.content.toList = .ok header ∧
      Scope.read? (Signature.ofParameters statement.parameters).formals
        (Signature.ofParameters statement.parameters).initializer = some scope ∧
      statement.Bound header.body scope := by
  obtain ⟨header, hread, -, -, -, -, -, hcode⟩ := ofSource_eq_ok_iff.1 h
  obtain ⟨hresolved, hcode⟩ := Code.ofBody_eq_ok_iff.1 hcode
  have hwf := wellFormed_parameters h
  have hhyg := Signature.hygienic_ofParameters hwf
  refine ⟨header, _, hread, Signature.read?_scope hhyg, ?_, ?_, hcode, fun p hp => ?_⟩
  · have hformals := congrArg (List.map String.toList) hhyg.formals
    rw [List.map_map, List.map_map, Signature.length_ofParameters] at hformals
    exact hformals
  · simp [Signature.scope]
  · obtain ⟨t, ht⟩ := Option.isSome_iff_exists.1 (hresolved p hp)
    obtain ⟨hmem, hrefers⟩ := Placeholder.refersTo_of_target? hwf ht
    exact ⟨t.name, Code.ofPiece_hole ht, List.count_eq_one_of_mem (Signature.nodup_names_scope hhyg) hmem, hrefers⟩

/-- Here both positions have the alias, which the lower one keeps although it is declared later, and
the question mark stands for an argument that was not declared. -/
theorem exists_bound_shared_alias :
    ∃ statement,
      ofSource ⟨"q", "q.sql", "-- @param {Int} $4:id\n-- @param {Int} $2:id\nselect $2, ?, :id"⟩ = .ok statement ∧
      statement.code = "`select ${$2}, ${$1}, ${$id}`" ∧
      (Signature.ofParameters statement.parameters).initializer = "const[$$1,$id,$$3,$$4]=[$1,$2,$3,$4];" ∧
      ∃ header scope,
        Header.read "-- @param {Int} $4:id\n-- @param {Int} $2:id\nselect $2, ?, :id".toList = .ok header ∧
        Scope.read? (Signature.ofParameters statement.parameters).formals
          (Signature.ofParameters statement.parameters).initializer = some scope ∧
        statement.Bound header.body scope := by
  have h : ofSource ⟨"q", "q.sql", "-- @param {Int} $4:id\n-- @param {Int} $2:id\nselect $2, ?, :id"⟩ =
      .ok ⟨"q", "q.sql", [⟨4, .int, some "id", false, none⟩, ⟨2, .int, some "id", false, none⟩], [],
        "`select ${$2}, ${$1}, ${$id}`", true⟩ := by
    decide +kernel
  obtain ⟨header, scope, hread, hscope, hbound⟩ := exists_bound h
  exact ⟨_, h, rfl, by decide +kernel, header, scope, hread, hscope, hbound⟩

end Statement
end AnnotatedSql
