import AnnotatedSql.Source.Header
import AnnotatedSql.Proofs.Identifier
import AnnotatedSql.Proofs.ParamLine
/-!
# Lines of a header

Every declaration that a parameter line makes is well formed. What a line declares does not depend on where
it stands, and the span of a mistake in it moves with the line.
-/

namespace AnnotatedSql

open Text

/-! ## Lines of a header -/

namespace SourceLine

theorem read_eq (line : List Char) :
    read line = if trim line = [] then .blank else
      match ParamLine.read? (trim line) with
      | some p => .param (indent line) p
      | none => .other := by
  unfold read
  split
  · rename_i h
    rw [if_pos h]
  · rename_i h
    exact (if_neg h).symm

theorem read_eq_blank_iff {line : List Char} : read line = .blank ↔ ∀ c ∈ line, isBlank c = true := by
  rw [← trim_eq_nil_iff, read_eq]
  by_cases h : trim line = []
  · simp [h]
  · rw [if_neg h]
    cases ParamLine.read? (trim line) <;> simp [h]

theorem read_eq_param_iff {line margin : List Char} {p : ParamLine} :
    read line = .param margin p ↔ margin = indent line ∧ ParamLine.read? (trim line) = some p := by
  rw [read_eq]
  by_cases h : trim line = []
  · rw [h]
    simp [ParamLine.read?, after?]
  · rw [if_neg h]
    cases ParamLine.read? (trim line) with
    | none => simp
    | some q => simp [eq_comm]

theorem read_eq_other_iff {line : List Char} :
    read line = .other ↔ trim line ≠ [] ∧ ParamLine.read? (trim line) = none := by
  rw [read_eq]
  by_cases h : trim line = []
  · simp [h]
  · rw [if_neg h]
    cases ParamLine.read? (trim line) <;> simp [h]

/-- A parameter line is its margin, its pieces and blanks. -/
theorem exists_text_of_param {line margin : List Char} {p : ParamLine} (h : read line = .param margin p) :
    ∃ behind, (∀ c ∈ behind, isBlank c = true) ∧ line = margin ++ p.text ++ behind := by
  obtain ⟨rfl, hp⟩ := read_eq_param_iff.1 h
  rw [ParamLine.text_of_read? hp]
  exact exists_indent_append_trim line

end SourceLine

/-! ## What a parameter line declares -/

/-- What holds of every declaration that a header makes. -/
structure Declaration.WellFormed (d : Declaration) : Prop where
  position : 1 ≤ d.position ∧ d.position ≤ 65535
  aliasName : ∀ a, d.aliasName = some a → Identifier.fault? a = none
  description : ∀ t, d.description = some t → t ≠ "" ∧ trim t.toList = t.toList ∧ '\n' ∉ t.toList

instance (d : Declaration) : Decidable d.WellFormed :=
  decidable_of_iff ((1 ≤ d.position ∧ d.position ≤ 65535) ∧ (∀ a ∈ d.aliasName, Identifier.fault? a = none) ∧
      ∀ t ∈ d.description, t ≠ "" ∧ trim t.toList = t.toList ∧ '\n' ∉ t.toList)
    ⟨fun h => ⟨h.1, h.2.1, h.2.2⟩, fun h => ⟨h.position, h.aliasName, h.description⟩⟩

theorem Position.ofDigits?_eq_some_iff {digits : List Char} {n : Nat} :
    ofDigits? digits = some n ↔ decimal digits = n ∧ 1 ≤ n ∧ n ≤ 65535 := by
  unfold ofDigits? inRange highest
  simp only [Bool.and_eq_true, decide_eq_true_eq, Option.ite_none_right_eq_some, Option.some.injEq]
  constructor
  · rintro ⟨h, rfl⟩
    exact ⟨rfl, h⟩
  · rintro ⟨rfl, h⟩
    exact ⟨h, rfl⟩

namespace ParamLine

/-- The description that a line gives, if it gives one. -/
def description (line : ParamLine) : Option String :=
  if line.note = [] then none else some (String.ofList line.note)

/-- A line declares something when its tag names a type, its digits a position, and its alias, if it
has one, is usable. -/
theorem declaration_eq_ok_iff {p : ParamLine} {start : Nat} {d : Declaration} :
    p.declaration start = .ok d ↔
      ScalarType.ofTag? (String.ofList p.tag) = some d.type ∧
      Position.ofDigits? p.digits = some d.position ∧
      (∀ word, p.aliasName = some word → Identifier.fault? (String.ofList word) = none) ∧
      d.aliasName = p.aliasName.map String.ofList ∧ d.optional = p.optional ∧ d.description = p.description := by
  obtain ⟨position, type, aliasName, optional, description⟩ := d
  unfold declaration ParamLine.description
  dsimp only
  cases ScalarType.ofTag? (String.ofList p.tag) with
  | none => simp
  | some type =>
    cases Position.ofDigits? p.digits with
    | none => simp
    | some n =>
      cases p.aliasName with
      | none =>
        simp only [Except.ok.injEq, Declaration.mk.injEq, Option.some.injEq, Option.map_none, reduceCtorEq,
          false_implies, implies_true, true_and]
        grind
      | some word =>
        cases hf : Identifier.fault? (String.ofList word) with
        | some reason => simp [hf]
        | none =>
          simp only [Except.ok.injEq, Declaration.mk.injEq, Option.some.injEq, Option.map_some, forall_eq', hf,
            true_and]
          grind

/-- A line makes a mistake when its tag names no type, or else its digits no position, or else its alias is
not usable. The mistake marks the tag, the key or the alias. -/
theorem declaration_eq_error_iff {p : ParamLine} {start : Nat} {m : Mistake} :
    p.declaration start = .error m ↔
      (ScalarType.ofTag? (String.ofList p.tag) = none ∧
        m = ⟨.unknownType (String.ofList p.tag), ⟨start + byteLength p.beforeTag, byteLength p.tag⟩⟩) ∨
      (ScalarType.ofTag? (String.ofList p.tag) ≠ none ∧ Position.ofDigits? p.digits = none ∧
        m = ⟨.positionOutOfRange (String.ofList p.key), ⟨start + byteLength p.beforeDollar, byteLength p.key⟩⟩) ∨
      (ScalarType.ofTag? (String.ofList p.tag) ≠ none ∧ Position.ofDigits? p.digits ≠ none ∧
        ∃ word reason, p.aliasName = some word ∧ Identifier.fault? (String.ofList word) = some reason ∧
          m = ⟨.unusableAlias (String.ofList word) reason, ⟨start + byteLength p.beforeAlias, byteLength word⟩⟩) := by
  unfold declaration
  dsimp only
  cases ScalarType.ofTag? (String.ofList p.tag) with
  | none => simp [eq_comm]
  | some type =>
    cases Position.ofDigits? p.digits with
    | none => simp [eq_comm]
    | some n =>
      cases p.aliasName with
      | none => simp
      | some word =>
        cases hf : Identifier.fault? (String.ofList word) with
        | none => simp [hf]
        | some reason => simp [hf, eq_comm]

/-- The note of a line that is trimmed starts and ends with no blank. -/
theorem trim_note {line : List Char} {p : ParamLine} (h : read? line = some p) (hl : trim line = line) :
    trim p.note = p.note := by
  obtain ⟨w₁, w₂, tag, w₃, digits, rest, -, -, hp⟩ := read?_eq_some_iff.1 h
  refine trim_eq_self_iff.2 ⟨fun c hc => ?_, fun c hc => (trim_eq_self_iff.1 hl).2 c ?_⟩
  · rw [hp] at hc
    exact head?_dropWhile _ c hc
  · rw [← text_of_read? h, text_eq, List.getLast?_append, hc]
    rfl

theorem mem_of_mem_note {line : List Char} {p : ParamLine} (h : read? line = some p) {c : Char} (hc : c ∈ p.note) :
    c ∈ line := by
  rw [← text_of_read? h, text_eq]
  exact List.mem_append_right _ hc

end ParamLine

/-- What a parameter line declares is well formed. -/
theorem ParamLine.wellFormed_of_declaration {line : List Char} {p : ParamLine} {start : Nat} {d : Declaration}
    (hline : '\n' ∉ line) (hp : read? (trim line) = some p) (hd : p.declaration start = .ok d) : d.WellFormed := by
  obtain ⟨-, hn, ha, hda, -, hdd⟩ := declaration_eq_ok_iff.1 hd
  refine ⟨(Position.ofDigits?_eq_some_iff.1 hn).2, fun a h => ?_, fun t h => ?_⟩
  · rw [hda, Option.map_eq_some_iff] at h
    obtain ⟨word, hw, rfl⟩ := h
    exact ha word hw
  · rw [hdd] at h
    unfold description at h
    split at h
    · cases h
    · rename_i hne
      cases h
      rw [String.toList_ofList]
      refine ⟨fun he => hne ?_, trim_note hp (trim_trim line), fun hc => hline ?_⟩
      · rw [← String.toList_ofList (l := p.note), he]
        rfl
      · exact mem_of_mem_trim (mem_of_mem_note hp hc)

/-- The same mistake where `n` more bytes stand in front of it. -/
def Mistake.shift (m : Mistake) (n : Nat) : Mistake :=
  ⟨m.fault, ⟨m.span.offset + n, m.span.length⟩⟩

theorem ParamLine.declaration_add (p : ParamLine) (start n : Nat) :
    p.declaration (start + n) = (p.declaration start).mapError (·.shift n) := by
  have hplace : ∀ k, start + n + k = start + k + n := fun k => by omega
  unfold declaration
  dsimp only
  cases ScalarType.ofTag? (String.ofList p.tag) with
  | none => simp [Except.mapError, Mistake.shift, hplace]
  | some type =>
    cases Position.ofDigits? p.digits with
    | none => simp [Except.mapError, Mistake.shift, hplace]
    | some position =>
      cases p.aliasName with
      | none => rfl
      | some word =>
        cases hf : Identifier.fault? (String.ofList word) with
        | none => simp [hf, Except.mapError]
        | some reason => simp [hf, Except.mapError, Mistake.shift, hplace]

/-! ## One line -/

namespace SourceLine

variable {line : List Char} {start : Nat}

/-- What a line declares, if it declares anything, where `start` is the byte at which the line starts. -/
def declared (start : Nat) (line : List Char) : Except Mistake (Option Declaration) :=
  match read line with
  | .param margin p => (p.declaration (start + byteLength margin)).map some
  | _ => .ok none

/-- The declaration that a line makes wherever it stands. -/
def declaration? (line : List Char) : Option Declaration :=
  (declared 0 line).toOption.join

theorem declaration?_eq_some_iff {d : Declaration} : declaration? line = some d ↔ declared 0 line = .ok (some d) := by
  unfold declaration?
  rcases declared 0 line with m | - | e <;> simp [Except.toOption]

/-- Whether no part of a line is mistaken. -/
def Faultless (line : List Char) : Prop :=
  declared 0 line = .ok (declaration? line)

theorem declared_add (line : List Char) (start n : Nat) :
    declared (start + n) line = (declared start line).mapError (·.shift n) := by
  unfold declared
  cases read line with
  | blank => rfl
  | other => rfl
  | param margin p =>
    dsimp only
    rw [show start + n + byteLength margin = start + byteLength margin + n by omega, ParamLine.declaration_add]
    cases p.declaration (start + byteLength margin) <;> rfl

theorem Faultless.declared_eq (h : Faultless line) (start : Nat) : declared start line = .ok (declaration? line) := by
  rw [← Nat.zero_add start, declared_add, h]
  rfl

/-- A line holds a mistake, or what it declares does not depend on where it stands. -/
theorem faultless_or_error (line : List Char) : Faultless line ∨ ∀ start, ∃ m, declared start line = .error m := by
  unfold Faultless declaration?
  cases h : declared 0 line with
  | ok d => exact .inl rfl
  | error m =>
    refine .inr fun start => ⟨m.shift start, ?_⟩
    rw [← Nat.zero_add start, declared_add, h, Nat.zero_add]
    rfl

theorem faultless_iff : Faultless line ↔ ∃ d, declared 0 line = .ok d := by
  refine ⟨fun h => ⟨_, h⟩, ?_⟩
  rintro ⟨d, h⟩
  unfold Faultless declaration?
  rw [h]
  rfl

theorem faultless_of_isSome (h : (declaration? line).isSome = true) : Faultless line := by
  obtain ⟨d, hd⟩ := Option.isSome_iff_exists.1 h
  exact faultless_iff.2 ⟨_, declaration?_eq_some_iff.1 hd⟩

/-- What a line declares is what its pieces declare. -/
theorem exists_param_of_declaration? {d : Declaration} (h : declaration? line = some d) :
    ∃ margin p place, read line = .param margin p ∧ p.declaration place = .ok d := by
  rw [declaration?_eq_some_iff, declared] at h
  cases hread : read line with
  | blank => simp [hread] at h
  | other => simp [hread] at h
  | param margin p =>
    refine ⟨margin, p, 0 + byteLength margin, rfl, ?_⟩
    rw [hread] at h
    cases hd : p.declaration (0 + byteLength margin) <;> simp_all [Except.map]

theorem declared_param {margin : List Char} {p : ParamLine} {d : Declaration} (h : read line = .param margin p)
    (hd : ∀ start, p.declaration start = .ok d) (start : Nat) : declared start line = .ok (some d) := by
  unfold declared
  rw [h]
  dsimp only
  rw [hd]
  rfl

theorem declared_of_not_param (h : ∀ margin p, read line ≠ .param margin p) (start : Nat) :
    declared start line = .ok none := by
  unfold declared
  split
  · rename_i hread
    exact absurd hread (h _ _)
  · rfl

theorem isHeader_of_error {m : Mistake} (h : declared start line = .error m) : isHeader line = true := by
  unfold isHeader
  unfold declared at h
  split at h
  · rename_i hread
    rw [hread]
    rfl
  · cases h

theorem isHeader_of_isSome (h : (declaration? line).isSome = true) : isHeader line = true := by
  obtain ⟨d, hd⟩ := Option.isSome_iff_exists.1 h
  obtain ⟨margin, p, -, hread, -⟩ := exists_param_of_declaration? hd
  unfold isHeader
  rw [hread]
  rfl

/-- Blanks at the end of a line are no part of what it says. -/
theorem read_append_blank {behind : List Char} (h : ∀ c ∈ behind, isBlank c = true) : read (line ++ behind) = read line := by
  rw [read_eq, read_eq, trim_append_right h]
  split
  · rfl
  · rename_i hne
    rw [indent_append hne]

end SourceLine

end AnnotatedSql
