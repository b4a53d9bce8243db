import AnnotatedSql.Declaration
import AnnotatedSql.Proofs.Text
import Mathlib.Data.List.Induction
import Mathlib.Data.List.Perm.Subperm
/-!
# What a sequence of declarations leaves

Each position keeps the place at which it came up first and the declaration that was made for it
last. Positions are therefore distinct, and since they start at one there are at most as many of
them as the highest one says.
-/

namespace AnnotatedSql

/-! ## Keys -/

namespace Position

theorem toList_key (n : Nat) : (key n).toList = '$' :: Nat.toDigits 10 n := by
  simp [key, String.toList_append]

theorem key_inj {m n : Nat} : key m = key n ↔ m = n := by
  refine ⟨fun h => ?_, congrArg key⟩
  have h := congrArg String.toList h
  rw [toList_key, toList_key, List.cons.injEq] at h
  rw [← Text.decimal_toDigits m, h.2, Text.decimal_toDigits]

end Position

/-! ## Lists of numbers -/

section Numbers
variable {numbers listed : List Nat} {n : Nat}

theorem eraseDups_concat (numbers : List Nat) (n : Nat) :
    (numbers ++ [n]).eraseDups = if n ∈ numbers then numbers.eraseDups else numbers.eraseDups ++ [n] := by
  rw [List.eraseDups_append]
  by_cases h : n ∈ numbers
  · simp [List.cons_removeAll, h]
  · simp [List.cons_removeAll, h, List.eraseDups_cons]

theorem nodup_eraseDups (numbers : List Nat) : numbers.eraseDups.Nodup := by
  induction numbers using List.reverseRecOn with
  | nil => simp
  | append_singleton numbers n ih =>
    rw [eraseDups_concat]
    split
    · exact ih
    · rename_i h
      refine List.nodup_append.2 ⟨ih, by simp, ?_⟩
      rintro m hm _ hn rfl
      rw [List.mem_singleton] at hn
      exact h (hn ▸ List.mem_eraseDups.1 hm)

/-- `listed` holds the numbers that occur at least twice in `numbers`, once each, in the order of
their second occurrences: where a number occurs for the second time, all numbers listed before it
have occurred twice. -/
structure ListsRepeated (numbers listed : List Nat) : Prop where
  nodup : listed.Nodup
  mem_iff : ∀ n, n ∈ listed ↔ 2 ≤ numbers.count n
  inOrder : listed.Pairwise fun m n =>
    ∃ before after, numbers = before ++ n :: after ∧ before.count n = 1 ∧ 2 ≤ before.count m

namespace ListsRepeated

theorem nil : ListsRepeated [] [] := ⟨by simp, by simp, by simp⟩

/-- A further number leaves the order of the numbers listed so far. -/
theorem inOrder_concat (h : ListsRepeated numbers listed) (n : Nat) :
    listed.Pairwise fun m k =>
      ∃ before after, numbers ++ [n] = before ++ k :: after ∧ before.count k = 1 ∧ 2 ≤ before.count m := by
  refine h.inOrder.imp ?_
  rintro m k ⟨before, after, rfl, hk, hm⟩
  exact ⟨before, after ++ [n], by simp, hk, hm⟩

/-- A number met for the first time is not listed. -/
theorem first (h : ListsRepeated numbers listed) (hn : n ∉ numbers) : ListsRepeated (numbers ++ [n]) listed where
  nodup := h.nodup
  mem_iff m := by
    rw [h.mem_iff, List.count_append, List.count_singleton]
    by_cases hm : n = m
    · subst hm
      simp [List.count_eq_zero.2 hn]
    · simp [hm]
  inOrder := h.inOrder_concat n

/-- A number met for the second time is listed now. -/
theorem second (h : ListsRepeated numbers listed) (hn : n ∈ numbers) (hl : n ∉ listed) :
    ListsRepeated (numbers ++ [n]) (listed ++ [n]) := by
  have hone : numbers.count n = 1 := by
    have hpos := List.count_pos_iff.2 hn
    have hlt : ¬ 2 ≤ numbers.count n := fun h2 => hl ((h.mem_iff n).2 h2)
    omega
  refine ⟨?_, fun m => ?_, ?_⟩
  · refine List.nodup_append.2 ⟨h.nodup, by simp, ?_⟩
    rintro m hm _ hk rfl
    rw [List.mem_singleton] at hk
    exact hl (hk ▸ hm)
  · rw [List.mem_append, h.mem_iff, List.count_append, List.count_singleton, List.mem_singleton]
    by_cases hm : n = m
    · subst hm
      simp [hone]
    · simp [hm, Ne.symm hm]
  · refine List.pairwise_append.2 ⟨h.inOrder_concat n, by simp, ?_⟩
    intro m hm k hk
    rw [List.mem_singleton] at hk
    subst hk
    exact ⟨numbers, [], rfl, hone, (h.mem_iff m).1 hm⟩

/-- A number met again after that changes nothing. -/
theorem later (h : ListsRepeated numbers listed) (hl : n ∈ listed) : ListsRepeated (numbers ++ [n]) listed where
  nodup := h.nodup
  mem_iff m := by
    rw [h.mem_iff, List.count_append, List.count_singleton]
    by_cases hm : n = m
    · subst hm
      have := (h.mem_iff n).1 hl
      simp only [beq_self_eq_true, if_true]
      omega
    · simp [hm]
  inOrder := h.inOrder_concat n

end ListsRepeated

theorem listsRepeated_go (seen listed rest before : List Nat) (hseen : ∀ n, n ∈ seen ↔ n ∈ before)
    (h : ListsRepeated before listed) : ListsRepeated (before ++ rest) (repeatedNumbers.go seen listed rest) := by
  -- `before` is what has been read, `rest` what is left of it
  induction rest generalizing seen listed before with
  | nil => simpa [repeatedNumbers.go] using h
  | cons n rest ih =>
    rw [List.append_cons]
    unfold repeatedNumbers.go
    by_cases hs : n ∈ seen
    · have hseen' : ∀ m, m ∈ seen ↔ m ∈ before ++ [n] := by
        intro m
        rw [hseen, List.mem_append, List.mem_singleton]
        refine ⟨.inl, ?_⟩
        rintro (hm | rfl)
        · exact hm
        · exact (hseen m).1 hs
      rw [if_pos (by simpa using hs)]
      by_cases hl : n ∈ listed
      · rw [if_pos (by simpa using hl)]
        exact ih _ _ _ hseen' (h.later hl)
      · rw [if_neg (by simpa using hl)]
        exact ih _ _ _ hseen' (h.second ((hseen n).1 hs) hl)
    · rw [if_neg (by simpa using hs)]
      refine ih _ _ _ (fun m => ?_) (h.first fun hn => hs ((hseen n).2 hn))
      simp [hseen, or_comm]

/-- Repeated numbers are listed once each, in the order in which they turn out to be repeated. -/
theorem repeatedNumbers_spec (numbers : List Nat) : ListsRepeated numbers (repeatedNumbers numbers) :=
  listsRepeated_go [] [] numbers [] (by simp) .nil

end Numbers

namespace Parameters

/-! ## Adding a declaration -/

theorem positions_declare (parameters : Parameters) (d : Declaration) :
    (parameters.declare d).map (·.position) =
      if d.position ∈ parameters.map (·.position) then parameters.map (·.position)
      else parameters.map (·.position) ++ [d.position] := by
  unfold declare
  by_cases h : ∃ e ∈ parameters, e.position = d.position
  · rw [if_pos (by simpa using h), if_pos (by simpa using h), List.map_map]
    refine List.map_congr_left fun e _ => ?_
    simp only [Function.comp_apply]
    split
    · rename_i he
      exact he.symm
    · rfl
  · rw [if_neg (by simpa using h), if_neg (by simpa using h)]
    simp

theorem mem_declare {parameters : Parameters} {d e : Declaration} :
    e ∈ parameters.declare d ↔ e = d ∨ (e ∈ parameters ∧ e.position ≠ d.position) := by
  unfold declare
  by_cases h : ∃ e ∈ parameters, e.position = d.position
  · rw [if_pos (by simpa using h), List.mem_map]
    constructor
    · rintro ⟨old, hold, rfl⟩
      split
      · exact .inl rfl
      · rename_i hne
        exact .inr ⟨hold, hne⟩
    · rintro (rfl | ⟨he, hne⟩)
      · obtain ⟨old, hold, hp⟩ := h
        exact ⟨old, hold, if_pos hp⟩
      · exact ⟨e, he, if_neg hne⟩
  · rw [if_neg (by simpa using h), List.mem_append, List.mem_singleton]
    constructor
    · rintro (he | rfl)
      · exact .inr ⟨he, fun hp => h ⟨e, he, hp⟩⟩
      · exact .inl rfl
    · rintro (rfl | ⟨he, -⟩)
      · exact .inr rfl
      · exact .inl he

/-! ## Adding all of them -/

/-- `parameters` holds one declaration for each position of `declarations`, in the order in which
the positions come up first, and each is the last one made for its position. -/
structure Keeps (declarations : List Declaration) (parameters : Parameters) : Prop where
  positions : parameters.map (·.position) = (declarations.map (·.position)).eraseDups
  last : ∀ d ∈ parameters, ∃ before after,
    declarations = before ++ d :: after ∧ ∀ e ∈ after, e.position ≠ d.position

theorem Keeps.declare {declarations : List Declaration} {parameters : Parameters}
    (h : Keeps declarations parameters) (d : Declaration) :
    Keeps (declarations ++ [d]) (parameters.declare d) := by
  constructor
  · rw [positions_declare, List.map_append, List.map_cons, List.map_nil, eraseDups_concat, h.positions]
    simp only [List.mem_eraseDups]
  · intro e he
    rcases mem_declare.1 he with rfl | ⟨he, hne⟩
    · exact ⟨declarations, [], rfl, by simp⟩
    · obtain ⟨before, after, rfl, hafter⟩ := h.last e he
      refine ⟨before, after ++ [d], by simp, fun f hf => ?_⟩
      rcases List.mem_append.1 hf with hf | hf
      · exact hafter f hf
      · rw [List.mem_singleton.1 hf]
        exact hne.symm

theorem ofDeclarations_concat (declarations : List Declaration) (d : Declaration) :
    ofDeclarations (declarations ++ [d]) = (ofDeclarations declarations).declare d := by
  simp [ofDeclarations]

/-- The last declaration of a position stands where the position came up first. -/
theorem keeps_ofDeclarations (declarations : List Declaration) :
    Keeps declarations (ofDeclarations declarations) := by
  induction declarations using List.reverseRecOn with
  | nil => exact ⟨rfl, by simp [ofDeclarations]⟩
  | append_singleton declarations d ih =>
    rw [ofDeclarations_concat]
    exact ih.declare d

theorem mem_positions_ofDeclarations {declarations : List Declaration} {n : Nat} :
    n ∈ (ofDeclarations declarations).map (·.position) ↔ n ∈ declarations.map (·.position) := by
  rw [(keeps_ofDeclarations declarations).positions, List.mem_eraseDups]

theorem nodup_positions (declarations : List Declaration) :
    ((ofDeclarations declarations).map (·.position)).Nodup := by
  rw [(keeps_ofDeclarations declarations).positions]
  exact nodup_eraseDups _

theorem mem_of_mem_ofDeclarations {declarations : List Declaration} {d : Declaration}
    (h : d ∈ ofDeclarations declarations) : d ∈ declarations := by
  obtain ⟨before, after, rfl, -⟩ := (keeps_ofDeclarations declarations).last d h
  simp

/-! ## Looking parameters up -/

/-- With distinct positions, a declaration is found exactly at its own position. -/
theorem at?_eq_some_iff {parameters : Parameters} (hn : (parameters.map (·.position)).Nodup) {n : Nat}
    {d : Declaration} : parameters.at? n = some d ↔ d ∈ parameters ∧ d.position = n := by
  induction parameters with
  | nil => simp [at?]
  | cons e parameters ih =>
    rw [List.map_cons, List.nodup_cons] at hn
    unfold at? at ih ⊢
    by_cases he : e.position = n
    · rw [List.find?_cons_of_pos (by simpa using he), Option.some.injEq, List.mem_cons]
      constructor
      · rintro rfl
        exact ⟨.inl rfl, he⟩
      · rintro ⟨rfl | hd, hp⟩
        · rfl
        · exact absurd (List.mem_map.2 ⟨d, hd, hp.trans he.symm⟩) hn.1
    · rw [List.find?_cons_of_neg (by simpa using he), ih hn.2, List.mem_cons]
      refine and_congr_left fun hp => ⟨.inr, ?_⟩
      rintro (rfl | hd)
      · exact absurd hp he
      · exact hd

/-! ## The highest position -/

theorem maxPosition_le_iff (parameters : Parameters) (n : Nat) :
    parameters.maxPosition ≤ n ↔ ∀ d ∈ parameters, d.position ≤ n := by
  have main : ∀ (l : Parameters) (top : Nat),
      l.foldl (fun top d => max top d.position) top ≤ n ↔ top ≤ n ∧ ∀ d ∈ l, d.position ≤ n := by
    intro l
    induction l with
    | nil => simp
    | cons d l ih =>
      intro top
      rw [List.foldl_cons, ih, Nat.max_le, List.forall_mem_cons, and_assoc]
  simpa [maxPosition] using main parameters 0

theorem le_maxPosition {parameters : Parameters} {d : Declaration} (h : d ∈ parameters) :
    d.position ≤ parameters.maxPosition :=
  (maxPosition_le_iff parameters _).1 (Nat.le_refl _) d h

/-- Distinct positions from one upwards are at most as many as the highest of them. -/
theorem length_le_maxPosition {parameters : Parameters} (hn : (parameters.map (·.position)).Nodup)
    (hpos : ∀ d ∈ parameters, 1 ≤ d.position) : parameters.length ≤ parameters.maxPosition := by
  have hsub : parameters.map (·.position) ⊆ List.range' 1 parameters.maxPosition := by
    intro n hmem
    obtain ⟨d, hd, rfl⟩ := List.mem_map.1 hmem
    rw [List.mem_range'_1]
    have := le_maxPosition hd
    have := hpos d hd
    omega
  -- distinct numbers out of a range are no more than the range holds
  have hlen := (List.subperm_of_subset hn hsub).length_le
  rwa [List.length_map, List.length_range'] at hlen

end Parameters
end AnnotatedSql
