import AnnotatedSql.Proofs.Compilation
import AnnotatedSql.Proofs.Identifier
/-!
# The gate for names

A name offends by its leftmost character that does not belong there, and a name of the right shape by being reserved
(`Identifier.fault?_eq_some_iff`). The names of a batch pass together when none of them offends. Otherwise all that do
are rejected at once, each with the reason of its own leftmost offence (`Batch.checkNames_eq_iff_gate`).
-/

namespace AnnotatedSql

namespace Identifier

/-- The reason that is given for an offence. -/
def Fault.reason : Fault → String
  | .empty => "name cannot be empty"
  | .dollar => "name cannot contain '$'"
  | .badStart => "name must start with a letter or underscore"
  | .badCharacter => "name must contain only letters, numbers, and underscores"
  | .reserved => "name is a JavaScript reserved word"

theorem Fault.message_eq_reason (fault : Fault) : fault.message = fault.reason := by
  cases fault <;> rfl

/-- The words that the language reserves. -/
def keywords : List String :=
  ["break", "case", "catch", "class", "const", "continue", "debugger", "default", "delete", "do", "else", "enum",
    "export", "extends", "false", "finally", "for", "function", "if", "import", "in", "instanceof", "new", "null",
    "return", "super", "switch", "this", "throw", "true", "try", "typeof", "var", "void", "while", "with", "yield"]

/-- The words that strict code and modules reserve besides. -/
def strictWords : List String :=
  ["let", "static", "implements", "interface", "package", "private", "protected", "public", "await"]

/-- The words that have a meaning of their own in some places only. -/
def contextualWords : List String :=
  ["as", "async", "from", "get", "of", "set"]

/-- A word that cannot be a name. -/
def IsReservedWord (name : String) : Prop :=
  name ∈ keywords ∨ name ∈ strictWords ∨ name ∈ contextualWords

theorem isReserved_iff {name : String} : isReserved name = true ↔ IsReservedWord name := by
  have hwords : reservedWords = keywords ++ (strictWords ++ contextualWords) := rfl
  rw [isReserved, List.contains_iff_mem, hwords, List.mem_append, List.mem_append, IsReservedWord]

variable {name : String} {cs : List Char} {reason : Fault}

/-- A name of the shape `[A-Za-z_][A-Za-z0-9_]*` that is not reserved. -/
structure IsUsable (name : String) : Prop where
  shape : HasShape name.toList
  free : ¬ IsReservedWord name

/-- The leftmost offence of a text against the shape of names. -/
inductive Offends : List Char → Fault → Prop
  | empty : Offends [] .empty
  /-- A dollar sign comes first, or behind characters that would make a name. -/
  | dollar {front rest : List Char} (hfront : front = [] ∨ HasShape front) : Offends (front ++ '$' :: rest) .dollar
  | badStart {c : Char} {rest : List Char} (hc : ¬ (c.isAlpha = true ∨ c = '_')) (hdollar : c ≠ '$') :
      Offends (c :: rest) .badStart
  | badCharacter {front : List Char} {c : Char} {rest : List Char} (hfront : HasShape front)
      (hc : ¬ (c.isAlphanum = true ∨ c = '_')) (hdollar : c ≠ '$') : Offends (front ++ c :: rest) .badCharacter

/-- The offence of a name. Whether it is reserved only matters if its shape is right. -/
inductive Offence (name : String) : Fault → Prop
  | shape {reason : Fault} (h : Offends name.toList reason) : Offence name reason
  | reserved (h : HasShape name.toList) (hname : IsReservedWord name) : Offence name .reserved

theorem fault?_eq_none_iff_isUsable : fault? name = none ↔ IsUsable name := by
  rw [fault?_eq_none_iff, ← Bool.not_eq_true, isReserved_iff]
  exact ⟨fun ⟨shape, free⟩ => ⟨shape, free⟩, fun h => ⟨h.shape, h.free⟩⟩

instance : DecidablePred IsUsable := fun _ => decidable_of_iff _ fault?_eq_none_iff_isUsable

/-! ## Leftmost offences -/

/-- Behind the first character the leftmost one that belongs in no word decides. -/
theorem laterFault?_eq_some_iff :
    laterFault? cs = some reason ↔ ∃ front c rest, cs = front ++ c :: rest ∧ (∀ d ∈ front, Text.isWord d = true) ∧
      Text.isWord c = false ∧ reason = if c = '$' then .dollar else .badCharacter := by
  induction cs with
  | nil => simp [laterFault?]
  | cons c cs ih =>
    constructor
    · intro h
      rw [laterFault?] at h
      split at h
      · rename_i hdollar
        cases h
        exact ⟨[], c, cs, rfl, by simp, by rw [hdollar]; decide, by rw [if_pos hdollar]⟩
      · rename_i hdollar
        split at h
        · rename_i hword
          obtain ⟨front, d, rest, rfl, hfront, hd, hreason⟩ := ih.1 h
          exact ⟨c :: front, d, rest, rfl, List.forall_mem_cons.2 ⟨hword, hfront⟩, hd, hreason⟩
        · rename_i hword
          cases h
          exact ⟨[], c, cs, rfl, by simp, by simpa using hword, by rw [if_neg hdollar]⟩
    · rintro ⟨front, d, rest, hcs, hfront, hd, hreason⟩
      rw [laterFault?]
      cases front with
      | nil =>
        cases hcs
        rw [hreason, hd]
        split <;> rfl
      | cons _ front =>
        cases hcs
        rw [List.forall_mem_cons] at hfront
        have hdollar : c ≠ '$' := by
          rintro rfl
          exact absurd hfront.1 (by decide)
        rw [if_neg hdollar, if_pos hfront.1]
        exact ih.2 ⟨front, d, rest, rfl, hfront.2, hd, hreason⟩

theorem offends_of_shapeFault? (h : shapeFault? cs = some reason) : Offends cs reason := by
  cases cs with
  | nil =>
    cases h
    exact .empty
  | cons c cs =>
    rw [shapeFault?] at h
    split at h
    · rename_i hdollar
      cases h
      subst hdollar
      exact @Offends.dollar [] _ (.inl rfl)
    · rename_i hdollar
      split at h
      · rename_i hstart
        obtain ⟨front, d, rest, rfl, hfront, hd, rfl⟩ := laterFault?_eq_some_iff.1 h
        have hshape : HasShape (c :: front) :=
          ⟨by simpa using hstart, fun e he => Text.isWord_iff_isAlphanum.1 (hfront e he)⟩
        split
        · rename_i hd'
          subst hd'
          exact @Offends.dollar (c :: front) _ (.inr hshape)
        · rename_i hd'
          exact @Offends.badCharacter (c :: front) _ _ hshape (Text.isWord_eq_false_iff.1 hd) hd'
      · rename_i hstart
        cases h
        exact .badStart (by simpa using hstart) hdollar

theorem shapeFault?_cons_append {c d : Char} {front rest : List Char} (h : HasShape (c :: front))
    (hd : Text.isWord d = false) :
    shapeFault? (c :: front ++ d :: rest) = some (if d = '$' then .dollar else .badCharacter) := by
  have hdollar : c ≠ '$' := by
    rintro rfl
    exact absurd h.1 (by decide)
  have hlater : laterFault? (front ++ d :: rest) = some (if d = '$' then .dollar else .badCharacter) :=
    laterFault?_eq_some_iff.2 ⟨front, d, rest, rfl, fun e he => Text.isWord_iff_isAlphanum.2 (h.2 e he), hd, rfl⟩
  rw [List.cons_append, shapeFault?, if_neg hdollar, if_pos (by simpa using h.1), hlater]

theorem Offends.shapeFault?_eq (h : Offends cs reason) : shapeFault? cs = some reason := by
  cases h with
  | empty => rfl
  | @dollar front rest hfront =>
    cases front with
    | nil => rfl
    | cons c front =>
      have hshape : HasShape (c :: front) := hfront.resolve_left (by simp)
      exact shapeFault?_cons_append hshape (by decide)
  | badStart hc hdollar =>
    rw [shapeFault?, if_neg hdollar, if_neg (by simpa using hc)]
  | @badCharacter front c rest hfront hc hdollar =>
    cases front with
    | nil => exact absurd rfl hfront.ne_nil
    | cons d front => rw [shapeFault?_cons_append hfront (Text.isWord_eq_false_iff.2 hc), if_neg hdollar]

theorem shapeFault?_eq_some_iff : shapeFault? cs = some reason ↔ Offends cs reason :=
  ⟨offends_of_shapeFault?, Offends.shapeFault?_eq⟩

/-- The fault of a name is its offence. -/
theorem fault?_eq_some_iff : fault? name = some reason ↔ Offence name reason := by
  constructor
  · intro h
    unfold fault? at h
    split at h
    · rename_i hshape
      cases h
      exact .shape (shapeFault?_eq_some_iff.1 hshape)
    · rename_i hshape
      split at h
      · rename_i hname
        cases h
        exact .reserved ((shapeFault?_eq_none_iff _).1 hshape) (isReserved_iff.1 hname)
      · cases h
  · intro h
    unfold fault?
    cases h with
    | shape h => rw [h.shapeFault?_eq]
    | reserved h hname =>
      rw [(shapeFault?_eq_none_iff _).2 h]
      exact if_pos (isReserved_iff.2 hname)

end Identifier

namespace Batch

variable {b : Batch} {r : Batch × Option StepFailure}

/-- What the gate says about the names of a batch, which it leaves as it is. -/
inductive Gate (b : Batch) : Batch × Option StepFailure → Prop
  | passed (usable : ∀ i ∈ b.inputs, Identifier.IsUsable i.name) : Gate b (b, none)
  | rejected {names : List (String × Identifier.Fault)} (found : ∃ i ∈ b.inputs, ¬ Identifier.IsUsable i.name)
      (order : names.map Prod.fst = (b.inputs.map (·.name)).filter fun name => ¬ Identifier.IsUsable name)
      (reasons : ∀ x ∈ names, Identifier.Offence x.1 x.2)
      (help : (SourceError.rejectedNames names).help? =
        some ("\n".intercalate (names.map fun x => x.1 ++ ": " ++ x.2.reason))) :
      Gate b (b, some (.source (.rejectedNames names)))

/-- The rejected names in terms of what names offend against. -/
theorem eq_rejected_iff_offence {inputs : List SourceText} {names : List (String × Identifier.Fault)} :
    names = rejected inputs ↔
      names.map Prod.fst = (inputs.map (·.name)).filter (fun name => ¬ Identifier.IsUsable name) ∧
        ∀ x ∈ names, Identifier.Offence x.1 x.2 := by
  have hfilter : (fun name => decide (¬ Identifier.IsUsable name)) = fun name => (Identifier.fault? name).isSome := by
    funext name
    rw [Bool.eq_iff_iff, decide_eq_true_iff, ← Identifier.fault?_eq_none_iff_isUsable, Option.isSome_iff_ne_none]
  rw [eq_rejected_iff, hfilter]
  simp only [Identifier.fault?_eq_some_iff]

theorem rejected_eq_nil_iff_usable {inputs : List SourceText} :
    rejected inputs = [] ↔ ∀ i ∈ inputs, Identifier.IsUsable i.name := by
  simp only [rejected_eq_nil_iff, Identifier.fault?_eq_none_iff_isUsable]

/-- Rejected names are listed on a line each, with the reason. -/
theorem help?_rejectedNames (names : List (String × Identifier.Fault)) :
    (SourceError.rejectedNames names).help? =
      some ("\n".intercalate (names.map fun x => x.1 ++ ": " ++ x.2.reason)) := by
  simp only [SourceError.help?, Identifier.Fault.message_eq_reason]

theorem gate_checkNames (b : Batch) : Gate b (checkNames b) := by
  unfold checkNames
  split
  · rename_i hnil
    exact .passed (rejected_eq_nil_iff_usable.1 hnil)
  · rename_i names hne
    obtain ⟨order, reasons⟩ := eq_rejected_iff_offence.1 (rfl : rejected b.inputs = rejected b.inputs)
    refine .rejected ?_ order reasons (help?_rejectedNames _)
    have hsome : ¬ ∀ i ∈ b.inputs, Identifier.IsUsable i.name := fun h => hne (rejected_eq_nil_iff_usable.2 h)
    simpa using hsome

/-- The gate passes a batch exactly if all of its names can be used. Otherwise it rejects all names that cannot, in
their order and as often as they occur, and gives a line with the leftmost offence of each. -/
theorem checkNames_eq_iff_gate : checkNames b = r ↔ Gate b r := by
  refine ⟨fun h => h ▸ gate_checkNames b, fun h => ?_⟩
  unfold checkNames
  cases h with
  | passed usable => rw [rejected_eq_nil_iff_usable.2 usable]
  | @rejected names found order reasons help =>
    rw [← eq_rejected_iff_offence.2 ⟨order, reasons⟩]
    split
    · -- a name that cannot be used is among those rejected
      obtain ⟨i, hi, hunusable⟩ := found
      have hmem : i.name ∈ (b.inputs.map (·.name)).filter fun name => ¬ Identifier.IsUsable name :=
        List.mem_filter.2 ⟨List.mem_map_of_mem hi, by simpa using hunusable⟩
      rw [← order] at hmem
      cases hmem
    · rfl

/-- Of the names here the first and the last can be used. The dollar sign comes in front of the hyphen. -/
example :
    (checkNames (.ofInputs [⟨"_1", "", ""⟩, ⟨"a$-b", "", ""⟩, ⟨"1$", "", ""⟩, ⟨"of", "", ""⟩, ⟨"1$", "", ""⟩,
        ⟨"classes", "", ""⟩])).2 =
      some (.source (.rejectedNames [("a$-b", .dollar), ("1$", .badStart), ("of", .reserved), ("1$", .badStart)])) := by
  decide +kernel

end Batch
end AnnotatedSql
