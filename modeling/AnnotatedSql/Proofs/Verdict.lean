import AnnotatedSql.Proofs.Resolution
/-!
# Which bodies are resolved

A body is resolved exactly when its placeholders ask for what is declared, where the number behind a
dollar sign is taken at its value however many digits write it. Otherwise the mistake is that of the
first bad number or question mark, and only without one that of the first bad name.
-/

namespace AnnotatedSql

open Text (decimal)

namespace Placeholder

variable {parameters : Parameters} {p : Placeholder}

/-- What a placeholder asks for is declared. -/
def IsDeclared (parameters : Parameters) : Placeholder → Prop
  | position digits => 1 ≤ decimal digits ∧ decimal digits ≤ parameters.length
  | question => ∃ d ∈ parameters, d.aliasName ≠ none
  | name word => ∃ d ∈ parameters, d.aliasName = some (String.ofList word)

/-- How a message gives a placeholder that is not declared. -/
def complaint : Placeholder → String
  | position digits => "unknown positional parameter: $" ++ String.ofList digits
  | question => "unknown positional parameter: $0"
  | name word => "unknown named parameter: :" ++ String.ofList word

theorem message_fault (p : Placeholder) : p.fault.message = p.complaint := by
  cases p <;> rfl

/-- A list that a word of 64 bits can count is as long as any number that the word can hold. -/
theorem isSome_target?_iff (hlen : parameters.length < 2 ^ 64) :
    (p.target? parameters).isSome = true ↔ p.IsDeclared parameters := by
  cases p with
  | position digits =>
    simp only [Option.isSome_iff_exists, target?_position, IsDeclared]
    constructor
    · rintro ⟨t, hpos, hle, -, -⟩
      exact ⟨hpos, hle⟩
    · rintro ⟨hpos, hle⟩
      exact ⟨_, hpos, hle, by omega, rfl⟩
  | question => exact isSome_target?_question
  | name word => simp only [Option.isSome_iff_exists, target?_name, IsDeclared, exists_and_left, exists_eq, and_true]

end Placeholder

namespace Code

variable {parameters : Parameters} {start : Nat} {pieces : List Piece} {body : List Char}

theorem isBad_iff (hlen : parameters.length < 2 ^ 64) (kind : Placeholder → Bool) (p : Placeholder) :
    IsBad parameters kind p ↔ kind p = true ∧ ¬ p.IsDeclared parameters := by
  simp [IsBad, ← Placeholder.isSome_target?_iff hlen]

/-- What comes of a body that starts at byte `start` of its source. -/
structure Verdict (parameters : Parameters) (start : Nat) (body : List Char) : Prop where
  resolved : (∃ code, ofBody parameters start body = .ok code) ↔
    ∀ o ∈ occurrences start (scan body), o.placeholder.IsDeclared parameters
  /-- Names in front of a bad number or question mark do not matter. -/
  numbered : ∀ before o after, occurrences start (scan body) = before ++ o :: after →
    o.placeholder.isName = false → ¬ o.placeholder.IsDeclared parameters →
    (∀ b ∈ before, b.placeholder.isName = false → b.placeholder.IsDeclared parameters) →
    ∃ m, ofBody parameters start body = .error m ∧ m.span = o.span ∧ m.fault = o.placeholder.fault ∧
      m.fault.message = o.placeholder.complaint
  named : ∀ before o after, occurrences start (scan body) = before ++ o :: after →
    o.placeholder.isName = true → ¬ o.placeholder.IsDeclared parameters →
    (∀ b ∈ occurrences start (scan body), b.placeholder.isName = false → b.placeholder.IsDeclared parameters) →
    (∀ b ∈ before, b.placeholder.IsDeclared parameters) →
    ∃ m, ofBody parameters start body = .error m ∧ m.span = o.span ∧ m.fault = o.placeholder.fault ∧
      m.fault.message = o.placeholder.complaint
  /-- The code holds the value of a number in decimal digits without leading zeros. -/
  emitted : ∀ code, ofBody parameters start body = .ok code →
    code = backtick :: escapeFirst ((scan body).flatMap (ofPiece parameters)) ++ [backtick] ∧
    ∀ digits, .hole (.position digits) ∈ scan body →
      ofPiece parameters (.hole (.position digits)) =
        ['$', '{', '$'] ++ (Nat.repr (decimal digits)).toList ++ ['}']

/-- Resolving a body against declarations that a word of 64 bits can count. -/
theorem verdict_ofBody (parameters : Parameters) (hlen : parameters.length < 2 ^ 64) (start : Nat) (body : List Char) :
    Verdict parameters start body := by
  constructor
  · simp only [ofBody_eq_ok_iff, exists_and_left, exists_eq, and_true, Placeholder.isSome_target?_iff hlen,
      forall_mem_occurrences]
  · intro before o after hos hkind hbad hbefore
    have hfound : findMistake parameters (!·.isName) start (scan body) = some ⟨o.placeholder.fault, o.span⟩ := by
      simp only [findMistake_eq_some_iff, isBad_iff hlen, Bool.not_eq_true']
      refine ⟨before, o, after, hos, ⟨hkind, hbad⟩, fun b hb hfault => ?_, rfl⟩
      exact hfault.2 (hbefore b hb hfault.1)
    exact ⟨_, ofBody_eq_error_iff.2 (.inl hfound), rfl, rfl, Placeholder.message_fault _⟩
  · intro before o after hos hkind hbad hnumbered hbefore
    have hnone : findMistake parameters (!·.isName) start (scan body) = none := by
      simp only [findMistake_eq_none_iff, isBad_iff hlen, Bool.not_eq_true']
      intro b hb hfault
      exact hfault.2 (hnumbered b hb hfault.1)
    have hfound : findMistake parameters Placeholder.isName start (scan body) =
        some ⟨o.placeholder.fault, o.span⟩ := by
      simp only [findMistake_eq_some_iff, isBad_iff hlen]
      refine ⟨before, o, after, hos, ⟨hkind, hbad⟩, fun b hb hfault => ?_, rfl⟩
      exact hfault.2 (hbefore b hb)
    exact ⟨_, ofBody_eq_error_iff.2 (.inr ⟨hnone, hfound⟩), rfl, rfl, Placeholder.message_fault _⟩
  · intro code hcode
    obtain ⟨hall, hcode⟩ := ofBody_eq_ok_iff.1 hcode
    refine ⟨hcode, fun digits hmem => ?_⟩
    obtain ⟨t, ht⟩ := Option.isSome_iff_exists.1 (hall _ hmem)
    rw [ofPiece_hole ht]
    obtain ⟨-, -, -, rfl⟩ := Placeholder.target?_position.1 ht
    simp [Target.name, Nat.repr]

/-- Here a name that is not declared stands first, and the digits behind the last dollar sign do not fit in
a word. -/
theorem verdict_ofBody_oversized :
    [(⟨1, .int, some "a", false, none⟩ : Declaration)].length < 2 ^ 64 ∧
      Verdict [⟨1, .int, some "a", false, none⟩] 0 ":b $001 ? $99999999999999999999".toList ∧
      ofBody [⟨1, .int, some "a", false, none⟩] 0 ":b $001 ? $99999999999999999999".toList =
        .error ⟨.unknownPosition "99999999999999999999", ⟨10, 21⟩⟩ :=
  ⟨by decide, verdict_ofBody _ (by decide) 0 _, by decide +kernel⟩

end Code
end AnnotatedSql
