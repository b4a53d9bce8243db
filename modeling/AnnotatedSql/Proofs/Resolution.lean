import AnnotatedSql.Statement
import AnnotatedSql.Proofs.Text
/-!
# Resolving placeholders

A body is resolved when each of its placeholders refers to something. Otherwise the mistake is that
of one placeholder that refers to nothing, at the byte at which it stands.
-/

namespace AnnotatedSql

open Text (byteLength)

/-- `k` is the place of the first declaration with an alias. -/
def Parameters.IsFirstAliased (parameters : Parameters) (k : Nat) : Prop :=
  (∃ d, parameters[k]? = some d ∧ d.aliasName ≠ none) ∧ ∀ j < k, ∀ e, parameters[j]? = some e → e.aliasName = none

namespace Placeholder

variable {parameters : Parameters} {digits word : List Char} {t : Target}

theorem argument?_eq_some_iff {index : Option Nat} :
    argument? parameters index = some t ↔ ∃ i, index = some i ∧ i < parameters.length ∧ t = .argument (i + 1) := by
  simp only [argument?, Option.map_eq_some_iff, Option.filter_eq_some_iff, decide_eq_true_eq, and_assoc,
    eq_comm (b := t)]

theorem index?_eq_some_iff {i : Nat} : index? digits = some i ↔ Text.decimal digits = i + 1 ∧ i + 1 < 2 ^ 64 := by
  simp only [index?, Option.bind_eq_some_iff, Text.decimal64?_eq_some_iff, Option.ite_none_left_eq_some,
    Option.some.injEq]
  constructor
  · rintro ⟨n, ⟨rfl, hlt⟩, hne, rfl⟩
    omega
  · rintro ⟨heq, hlt⟩
    exact ⟨i + 1, ⟨heq, hlt⟩, by omega, rfl⟩

theorem target?_position :
    (position digits).target? parameters = some t ↔
      1 ≤ Text.decimal digits ∧ Text.decimal digits ≤ parameters.length ∧ Text.decimal digits < 2 ^ 64 ∧
        t = .argument (Text.decimal digits) := by
  simp only [target?, argument?_eq_some_iff, index?_eq_some_iff]
  constructor
  · rintro ⟨i, ⟨heq, hlt⟩, hlen, rfl⟩
    rw [heq]
    exact ⟨by omega, hlen, hlt, rfl⟩
  · rintro ⟨hpos, hlen, hlt, rfl⟩
    exact ⟨Text.decimal digits - 1, ⟨by omega, by omega⟩, by omega, by congr 1; omega⟩

/-- A question mark refers to the argument after as many as there are declarations in front of the
first one with an alias. -/
theorem target?_question :
    question.target? parameters = some t ↔ ∃ k, parameters.IsFirstAliased k ∧ t = .argument (k + 1) := by
  simp only [target?, argument?_eq_some_iff, List.findIdx?_eq_some_iff_getElem]
  constructor
  · rintro ⟨k, ⟨hk, hd, hbefore⟩, -, rfl⟩
    refine ⟨k, ⟨⟨parameters[k], List.getElem?_eq_getElem hk, by simpa [Option.isSome_iff_ne_none] using hd⟩,
      fun j hj e he => ?_⟩, rfl⟩
    obtain ⟨hlt, rfl⟩ := List.getElem?_eq_some_iff.1 he
    simpa using hbefore j hj
  · rintro ⟨k, ⟨⟨d, hd, hne⟩, hbefore⟩, rfl⟩
    obtain ⟨hlt, rfl⟩ := List.getElem?_eq_some_iff.1 hd
    refine ⟨k, ⟨hlt, Option.isSome_iff_ne_none.2 hne, fun j hj => ?_⟩, hlt, rfl⟩
    simp [hbefore j hj _ (List.getElem?_eq_getElem (Nat.lt_trans hj hlt))]

theorem exists_isFirstAliased_iff :
    (∃ k, parameters.IsFirstAliased k) ↔ ∃ d ∈ parameters, d.aliasName ≠ none := by
  constructor
  · rintro ⟨k, ⟨d, hd, hne⟩, -⟩
    exact ⟨d, List.mem_of_getElem? hd, hne⟩
  · rintro ⟨d, hd, hne⟩
    induction parameters with
    | nil => cases hd
    | cons e rest ih =>
      by_cases he : e.aliasName = none
      · have hrest : d ∈ rest := by
          rcases List.mem_cons.1 hd with rfl | hd
          · exact absurd he hne
          · exact hd
        obtain ⟨k, hfirst, hbefore⟩ := ih hrest
        refine ⟨k + 1, hfirst, fun j hj => ?_⟩
        cases j with
        | zero => simpa using he
        | succ j => simpa using hbefore j (by omega)
      · exact ⟨0, ⟨e, rfl, he⟩, fun j hj => absurd hj (by omega)⟩

theorem isSome_target?_question :
    (question.target? parameters).isSome = true ↔ ∃ d ∈ parameters, d.aliasName ≠ none := by
  simp only [Option.isSome_iff_exists, target?_question, ← exists_isFirstAliased_iff]
  constructor
  · rintro ⟨t, k, hk, -⟩
    exact ⟨k, hk⟩
  · rintro ⟨k, hk⟩
    exact ⟨_, k, hk, rfl⟩

theorem target?_name :
    (name word).target? parameters = some t ↔
      (∃ d ∈ parameters, d.aliasName = some (String.ofList word)) ∧ t = .binding word := by
  simp only [target?, Option.ite_none_right_eq_some, Option.some.injEq, List.any_eq_true, beq_iff_eq,
    eq_comm (a := t)]

end Placeholder

/-! ## Occurrences -/

section Occurrences

variable {start : Nat} {pieces : List Piece} {p : Placeholder} {o : Occurrence}

theorem exists_mem_occurrences (start : Nat) (h : .hole p ∈ pieces) :
    ∃ o ∈ occurrences start pieces, o.placeholder = p := by
  induction pieces generalizing start with
  | nil => cases h
  | cons piece pieces ih =>
    cases piece with
    | literal c =>
      rcases List.mem_cons.1 h with h | h
      · cases h
      · exact ih _ h
    | hole q =>
      rcases List.mem_cons.1 h with h | h
      · cases h
        exact ⟨_, List.mem_cons_self, rfl⟩
      · obtain ⟨o, ho, hp⟩ := ih (start + byteLength q.text) h
        exact ⟨o, List.mem_cons_of_mem _ ho, hp⟩

/-- A placeholder stands at the byte behind those of the pieces in front of it. -/
theorem exists_append_of_mem_occurrences (h : o ∈ occurrences start pieces) :
    ∃ before after, pieces = before ++ .hole o.placeholder :: after ∧
      o.span = ⟨start + byteLength (before.flatMap Piece.text), byteLength o.placeholder.text⟩ := by
  induction pieces generalizing start with
  | nil => cases h
  | cons piece pieces ih =>
    cases piece with
    | literal c =>
      obtain ⟨before, after, rfl, hspan⟩ := ih h
      refine ⟨.literal c :: before, after, rfl, ?_⟩
      simp [hspan, Piece.text, Nat.add_assoc]
    | hole q =>
      rcases List.mem_cons.1 h with rfl | h
      · exact ⟨[], pieces, rfl, by simp⟩
      · obtain ⟨before, after, rfl, hspan⟩ := ih h
        refine ⟨.hole q :: before, after, rfl, ?_⟩
        simp [hspan, Piece.text, Nat.add_assoc]

theorem forall_mem_occurrences (start : Nat) {P : Placeholder → Prop} :
    (∀ o ∈ occurrences start pieces, P o.placeholder) ↔ ∀ p, .hole p ∈ pieces → P p := by
  constructor
  · intro h p hp
    obtain ⟨o, ho, rfl⟩ := exists_mem_occurrences start hp
    exact h o ho
  · intro h o ho
    obtain ⟨before, after, rfl, -⟩ := exists_append_of_mem_occurrences ho
    exact h _ (by simp)

theorem occurrences_append (start : Nat) (before after : List Piece) :
    occurrences start (before ++ after) =
      occurrences start before ++ occurrences (start + byteLength (before.flatMap Piece.text)) after := by
  induction before generalizing start with
  | nil => rfl
  | cons piece before ih =>
    cases piece <;> simp [occurrences, ih, Piece.text, Nat.add_assoc]

end Occurrences

namespace Code

variable {parameters : Parameters} {kind : Placeholder → Bool} {start : Nat} {pieces : List Piece} {body : List Char}
  {m : Mistake}

/-- A placeholder of the kind that refers to nothing. -/
def IsBad (parameters : Parameters) (kind : Placeholder → Bool) (p : Placeholder) : Prop :=
  kind p = true ∧ p.target? parameters = none

theorem findMistake_eq_none_iff :
    findMistake parameters kind start pieces = none ↔
      ∀ o ∈ occurrences start pieces, ¬ IsBad parameters kind o.placeholder := by
  simp [findMistake, IsBad]

/-- The mistake that is found is that of the first bad placeholder. -/
theorem findMistake_eq_some_iff :
    findMistake parameters kind start pieces = some m ↔
      ∃ before o after, occurrences start pieces = before ++ o :: after ∧ IsBad parameters kind o.placeholder ∧
        (∀ b ∈ before, ¬ IsBad parameters kind b.placeholder) ∧ m = ⟨o.placeholder.fault, o.span⟩ := by
  simp only [findMistake, Option.map_eq_some_iff, List.find?_eq_some_iff_append, IsBad, Bool.and_eq_true,
    Option.isNone_iff_eq_none, Bool.not_eq_true', ← Bool.not_eq_true]
  constructor
  · rintro ⟨o, ⟨hbad, before, after, hos, hbefore⟩, rfl⟩
    exact ⟨before, o, after, hos, hbad, hbefore, rfl⟩
  · rintro ⟨before, o, after, hos, hbad, hbefore, rfl⟩
    exact ⟨o, ⟨hbad, before, after, hos, hbefore⟩, rfl⟩

/-- The mistake is that of the first bad placeholder, at the byte behind those of the pieces in front of it. -/
theorem findMistake_eq_some_iff_hole :
    findMistake parameters kind start pieces = some m ↔
      ∃ before p after, pieces = before ++ .hole p :: after ∧ IsBad parameters kind p ∧
        (∀ q, .hole q ∈ before → ¬ IsBad parameters kind q) ∧
        m = ⟨p.fault, ⟨start + byteLength (before.flatMap Piece.text), byteLength p.text⟩⟩ := by
  constructor
  · intro h
    induction pieces generalizing start with
    | nil => cases h
    | cons piece pieces ih =>
      cases piece with
      | literal c =>
        have hrest : findMistake parameters kind (start + c.utf8Size) pieces = some m := h
        obtain ⟨before, p, after, rfl, hbad, hbefore, rfl⟩ := ih hrest
        exact ⟨.literal c :: before, p, after, rfl, hbad, by simpa using hbefore, by simp [Piece.text, Nat.add_assoc]⟩
      | hole q =>
        by_cases hq : IsBad parameters kind q
        · refine ⟨[], q, pieces, rfl, hq, by simp, ?_⟩
          unfold findMistake at h
          rw [occurrences, List.find?_cons_of_pos (by simpa [IsBad] using hq)] at h
          exact (Option.some.inj h).symm
        · have hrest : findMistake parameters kind (start + byteLength q.text) pieces = some m := by
            unfold findMistake at h ⊢
            rwa [occurrences, List.find?_cons_of_neg (by simpa [IsBad] using hq)] at h
          obtain ⟨before, p, after, rfl, hbad, hbefore, rfl⟩ := ih hrest
          refine ⟨.hole q :: before, p, after, rfl, hbad, ?_, by simp [Piece.text, Nat.add_assoc]⟩
          simpa using ⟨hq, hbefore⟩
  · rintro ⟨before, p, after, rfl, hbad, hbefore, rfl⟩
    refine findMistake_eq_some_iff.2 ⟨_, _, _, occurrences_append start before _, hbad, ?_, rfl⟩
    exact (forall_mem_occurrences start).2 hbefore

theorem findMistake_eq_none_iff_hole :
    findMistake parameters kind start pieces = none ↔ ∀ p, .hole p ∈ pieces → ¬ IsBad parameters kind p := by
  rw [findMistake_eq_none_iff]
  exact forall_mem_occurrences start (P := fun p => ¬ IsBad parameters kind p)

/-- Numbered placeholders come before named ones. -/
theorem ofBody_eq_error_iff :
    ofBody parameters start body = .error m ↔
      findMistake parameters (!·.isName) start (scan body) = some m ∨
      findMistake parameters (!·.isName) start (scan body) = none ∧
        findMistake parameters Placeholder.isName start (scan body) = some m := by
  unfold ofBody
  dsimp only
  cases findMistake parameters (!·.isName) start (scan body) with
  | some m' => simp
  | none => cases findMistake parameters Placeholder.isName start (scan body) <;> simp

/-- The mistake of a body is that of a placeholder that refers to nothing, where it stands. -/
theorem exists_hole_of_error (h : ofBody parameters start body = .error m) :
    ∃ before p after, scan body = before ++ .hole p :: after ∧ p.target? parameters = none ∧
      m = ⟨p.fault, ⟨start + byteLength (before.flatMap Piece.text), byteLength p.text⟩⟩ := by
  have hfound : ∃ kind, findMistake parameters kind start (scan body) = some m := by
    rcases ofBody_eq_error_iff.1 h with h | ⟨-, h⟩
    · exact ⟨_, h⟩
    · exact ⟨_, h⟩
  obtain ⟨kind, hfound⟩ := hfound
  obtain ⟨before, p, after, hscan, hbad, -, hm⟩ := findMistake_eq_some_iff_hole.1 hfound
  exact ⟨before, p, after, hscan, hbad.2, hm⟩

/-- A body is resolved when all its placeholders refer to something. -/
theorem ofBody_eq_ok_iff {code : List Char} :
    ofBody parameters start body = .ok code ↔
      (∀ p, .hole p ∈ scan body → (p.target? parameters).isSome = true) ∧
      code = backtick :: escapeFirst ((scan body).flatMap (ofPiece parameters)) ++ [backtick] := by
  have hresolved : (∀ p, .hole p ∈ scan body → (p.target? parameters).isSome = true) ↔
      findMistake parameters (!·.isName) start (scan body) = none ∧
        findMistake parameters Placeholder.isName start (scan body) = none := by
    rw [findMistake_eq_none_iff, findMistake_eq_none_iff, ← forall₂_and, ← forall_mem_occurrences start]
    refine forall₂_congr fun o _ => ?_
    cases hkind : o.placeholder.isName <;> simp [IsBad, hkind, Option.isSome_iff_ne_none]
  rw [hresolved]
  unfold ofBody
  dsimp only
  cases findMistake parameters (!·.isName) start (scan body) with
  | some m => simp
  | none =>
    cases findMistake parameters Placeholder.isName start (scan body) with
    | some m => simp
    | none => simp [eq_comm]

theorem ofPiece_hole {p : Placeholder} {t : Target} (h : p.target? parameters = some t) :
    ofPiece parameters (.hole p) = ['$', '{'] ++ t.name ++ ['}'] := by
  simp [ofPiece, h, Target.substitution]

end Code

namespace Statement

/-- A source is accepted when its header is read and its body is resolved. -/
theorem ofSource_eq_ok_iff {source : SourceText} {statement : Statement} :
    ofSource source = .ok statement ↔
      ∃ header, Header.read source.content.toList = .ok header ∧
        statement.name = source.name ∧ statement.file = source.file ∧
        statement.parameters = Parameters.ofDeclarations header.declarations ∧
        statement.repeated = repeatedNumbers (header.declarations.map (·.position)) ∧
        statement.hasBody = (header.body != []) ∧
        Code.ofBody statement.parameters header.bodyOffset header.body = .ok statement.code.toList := by
  obtain ⟨name, file, parameters, repeated, code, hasBody⟩ := statement
  unfold ofSource
  cases Header.read source.content.toList with
  | error m => simp
  | ok header =>
    dsimp only
    simp only [Except.ok.injEq, exists_eq_left']
    cases hcode : Code.ofBody (Parameters.ofDeclarations header.declarations) header.bodyOffset header.body with
    | error m =>
      simp only [Except.map, reduceCtorEq, false_iff]
      rintro ⟨-, -, rfl, -, -, hok⟩
      rw [hcode] at hok
      cases hok
    | ok cs =>
      simp only [Except.map, Except.ok.injEq, Statement.mk.injEq]
      constructor
      · rintro ⟨rfl, rfl, rfl, rfl, rfl, rfl⟩
        exact ⟨rfl, rfl, rfl, rfl, rfl, by rw [hcode, String.toList_ofList]⟩
      · rintro ⟨rfl, rfl, rfl, rfl, rfl, hok⟩
        rw [hcode] at hok
        cases hok
        simp

end Statement
end AnnotatedSql
