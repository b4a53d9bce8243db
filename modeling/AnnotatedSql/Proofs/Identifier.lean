import AnnotatedSql.Identifier
import AnnotatedSql.Proofs.Text
/-!
# The shape of names

A name is usable when it has the shape `[A-Za-z_][A-Za-z0-9_]*` and is not reserved. Generated code
also holds names with dollar signs, of the shape `[A-Za-z_$][A-Za-z0-9_$]*`.
-/

namespace AnnotatedSql.Identifier

/-- The shape `[A-Za-z_][A-Za-z0-9_]*`. -/
def HasShape : List Char → Prop
  | [] => False
  | c :: cs => (c.isAlpha = true ∨ c = '_') ∧ ∀ d ∈ cs, d.isAlphanum = true ∨ d = '_'

/-- The shape `[A-Za-z_$][A-Za-z0-9_$]*` of a name in generated code. -/
def IsScriptName : List Char → Prop
  | [] => False
  | c :: cs => (c.isAlpha = true ∨ c = '_' ∨ c = '$') ∧ ∀ d ∈ cs, Text.isWord d = true ∨ d = '$'

theorem laterFault?_eq_none_iff (cs : List Char) : laterFault? cs = none ↔ ∀ c ∈ cs, Text.isWord c = true := by
  induction cs with
  | nil => simp [laterFault?]
  | cons c cs ih =>
    unfold laterFault?
    by_cases hd : c = '$'
    · subst hd
      simp [show Text.isWord '$' = false by decide]
    · by_cases hw : Text.isWord c = true
      · simp [hd, hw, ih]
      · simp [hd, hw]

theorem shapeFault?_eq_none_iff (cs : List Char) : shapeFault? cs = none ↔ HasShape cs := by
  cases cs with
  | nil => simp [shapeFault?, HasShape]
  | cons c cs =>
    unfold shapeFault? HasShape
    by_cases hd : c = '$'
    · subst hd
      simp [show '$'.isAlpha = false by decide]
    · by_cases ha : c.isAlpha = true ∨ c = '_'
      · simp [hd, ha, laterFault?_eq_none_iff, Text.isWord_iff_isAlphanum]
      · simp [hd, ha]

/-- The names without a fault are those of the right shape that are not reserved. -/
theorem fault?_eq_none_iff (name : String) :
    fault? name = none ↔ HasShape name.toList ∧ isReserved name = false := by
  rw [← shapeFault?_eq_none_iff]
  unfold fault?
  cases shapeFault? name.toList with
  | some fault => simp
  | none => simp

theorem hasShape_of_fault? {name : String} (h : fault? name = none) : HasShape name.toList :=
  ((fault?_eq_none_iff name).1 h).1

theorem HasShape.ne_nil {cs : List Char} (h : HasShape cs) : cs ≠ [] := by
  rintro rfl
  exact h

theorem HasShape.isWord {cs : List Char} (h : HasShape cs) : ∀ c ∈ cs, Text.isWord c = true := by
  cases cs with
  | nil => simp
  | cons c cs =>
    intro d hd
    rcases List.mem_cons.1 hd with rfl | hd
    · rcases h.1 with ha | rfl
      · exact Text.isWord_iff.2 (.inl ha)
      · decide
    · exact Text.isWord_iff_isAlphanum.2 (h.2 d hd)

/-- A name does not start with a digit. -/
theorem HasShape.head_not_isDigit {c : Char} {cs : List Char} (h : HasShape (c :: cs)) : c.isDigit = false := by
  rcases h.1 with ha | rfl
  · by_contra hd
    have halpha := Text.isAlpha_iff.1 ha
    have hdigit := Text.isDigit_iff.1 (by simpa using hd)
    omega
  · decide

theorem HasShape.isScriptName {cs : List Char} (h : HasShape cs) : IsScriptName cs := by
  cases cs with
  | nil => exact h
  | cons c cs =>
    refine ⟨?_, fun d hd => .inl (h.isWord d (List.mem_cons_of_mem c hd))⟩
    rcases h.1 with ha | hu
    · exact .inl ha
    · exact .inr (.inl hu)

/-- A dollar sign in front of word characters and dollar signs makes a name. -/
theorem isScriptName_dollar {cs : List Char} (h : ∀ c ∈ cs, Text.isWord c = true ∨ c = '$') :
    IsScriptName ('$' :: cs) :=
  ⟨.inr (.inr rfl), h⟩

theorem IsScriptName.mem {cs : List Char} (h : IsScriptName cs) : ∀ c ∈ cs, Text.isWord c = true ∨ c = '$' := by
  cases cs with
  | nil => simp
  | cons c cs =>
    intro d hd
    rcases List.mem_cons.1 hd with rfl | hd
    · rcases h.1 with ha | rfl | rfl
      · exact .inl (Text.isWord_iff.2 (.inl ha))
      · exact .inl (by decide)
      · exact .inr rfl
    · exact h.2 d hd

theorem IsScriptName.ne_nil {cs : List Char} (h : IsScriptName cs) : cs ≠ [] := by
  rintro rfl
  exact h

/-- No punctuation but the dollar sign stands in a name. -/
theorem IsScriptName.not_mem {cs : List Char} (h : IsScriptName cs) {c : Char} (hw : Text.isWord c = false)
    (hd : c ≠ '$') : c ∉ cs := by
  intro hc
  rcases h.mem c hc with hw' | rfl
  · rw [hw] at hw'
    cases hw'
  · exact hd rfl

end AnnotatedSql.Identifier
