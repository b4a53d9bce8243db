import AnnotatedSql.Proofs.Header
import AnnotatedSql.Proofs.LineGrammar
import AnnotatedSql.Statement
/-!
# Whether a header is accepted

A header is what stands in front of the first line that is neither blank nor a parameter line (`Header.IsTop`). It is
refused exactly if one of its parameter lines has a fault, and the mistake is that of the first such line
(`Header.exists_decides`). On one line the type is judged first, then the position, then the alias
(`ParamLine.Judged`). What follows the header has no say in this.
-/

namespace AnnotatedSql

open Text

/-- The tags that stand for types. -/
def ScalarType.tags : List String :=
  ["Int", "BigInt", "Float", "Boolean", "String", "DateTime", "Json", "Bytes", "Decimal"]

theorem ScalarType.ofTag?_eq_none_iff {t : String} : ofTag? t = none ↔ t ∉ tags := by
  have htags : tags = all.map tag := rfl
  rw [ofTag?, List.find?_eq_none, htags, List.mem_map]
  simp only [beq_iff_eq, not_exists, not_and]

/-- The number that digits write, however many they are, is a position. -/
def Position.IsWritten (digits : List Char) : Prop :=
  1 ≤ Nat.ofDigitChars 10 digits 0 ∧ Nat.ofDigitChars 10 digits 0 ≤ 65535

theorem Position.ofDigits?_eq_none_iff {digits : List Char} : ofDigits? digits = none ↔ ¬ IsWritten digits := by
  unfold ofDigits? inRange highest decimal IsWritten
  simp only [Bool.and_eq_true, decide_eq_true_eq, ite_eq_right_iff, reduceCtorEq, imp_false]

/-! ## One line -/

namespace ParamLine

variable {p : ParamLine} {start : Nat} {m : Mistake}

/-- A part of a line is not to be used: its tag is that of no type, its digits write no number in range, or its alias is
not usable. -/
def Offends (p : ParamLine) : Prop :=
  String.ofList p.tag ∉ ScalarType.tags ∨ ¬ Position.IsWritten p.digits ∨
    ∃ word reason, p.aliasName = some word ∧ Identifier.fault? (String.ofList word) = some reason

/-- The fault for which a line is refused, what stands in front of the faulty part, and the part. -/
inductive Judged (p : ParamLine) : Fault → List Char → List Char → Prop
  | type (unknown : String.ofList p.tag ∉ ScalarType.tags) :
    Judged p (.unknownType (String.ofList p.tag)) p.beforeTag p.tag
  | position (known : String.ofList p.tag ∈ ScalarType.tags) (outOfRange : ¬ Position.IsWritten p.digits) :
    Judged p (.positionOutOfRange (String.ofList p.key)) p.beforeDollar p.key
  | aliasName (known : String.ofList p.tag ∈ ScalarType.tags) (inRange : Position.IsWritten p.digits)
    {word : List Char} {reason : Identifier.Fault} (word_eq : p.aliasName = some word)
    (unusable : Identifier.fault? (String.ofList word) = some reason) :
    Judged p (.unusableAlias (String.ofList word) reason) p.beforeAlias word

theorem exists_judged_iff : (∃ fault before part, p.Judged fault before part) ↔ p.Offends := by
  constructor
  · rintro ⟨fault, before, part, h⟩
    cases h with
    | type unknown => exact .inl unknown
    | position _ outOfRange => exact .inr (.inl outOfRange)
    | aliasName _ _ word_eq unusable => exact .inr (.inr ⟨_, _, word_eq, unusable⟩)
  · intro h
    by_cases hknown : String.ofList p.tag ∈ ScalarType.tags
    · by_cases hrange : Position.IsWritten p.digits
      · rcases h with h | h | ⟨word, reason, hword, hreason⟩
        · exact absurd hknown h
        · exact absurd hrange h
        · exact ⟨_, _, _, .aliasName hknown hrange hword hreason⟩
      · exact ⟨_, _, _, .position hknown hrange⟩
    · exact ⟨_, _, _, .type hknown⟩

/-- The mistake of a line marks the part for which the line is refused. -/
theorem declaration_eq_error_iff_judged :
    p.declaration start = .error m ↔
      ∃ fault before part, p.Judged fault before part ∧
        m = ⟨fault, ⟨start + byteLength before, byteLength part⟩⟩ := by
  rw [declaration_eq_error_iff, ne_eq, ScalarType.ofTag?_eq_none_iff, ne_eq, Position.ofDigits?_eq_none_iff, not_not,
    not_not]
  constructor
  · rintro (⟨hunknown, rfl⟩ | ⟨hknown, hrange, rfl⟩ | ⟨hknown, hrange, word, reason, hword, hreason, rfl⟩)
    · exact ⟨_, _, _, .type hunknown, rfl⟩
    · exact ⟨_, _, _, .position hknown hrange, rfl⟩
    · exact ⟨_, _, _, .aliasName hknown hrange hword hreason, rfl⟩
  · rintro ⟨fault, before, part, h, rfl⟩
    cases h with
    | type unknown => exact .inl ⟨unknown, rfl⟩
    | position known outOfRange => exact .inr (.inl ⟨known, outOfRange, rfl⟩)
    | aliasName known inRange word_eq unusable =>
      exact .inr (.inr ⟨known, inRange, _, _, word_eq, unusable, rfl⟩)

end ParamLine

namespace SourceLine

variable {line : List Char} {start : Nat} {m : Mistake}

/-- A line is a parameter line with a part that is not to be used. -/
def Offends (line : List Char) : Prop :=
  ∃ p, ParamLine.read? (trim line) = some p ∧ p.Offends

theorem declared_eq_error_iff :
    declared start line = .error m ↔
      ∃ p fault before part, ParamLine.read? (trim line) = some p ∧ p.Judged fault before part ∧
        m = ⟨fault, ⟨start + byteLength (indent line) + byteLength before, byteLength part⟩⟩ := by
  cases hread : read line with
  | blank =>
    have hnone : ∀ p, ParamLine.read? (trim line) ≠ some p := by
      rw [trim_eq_nil_iff.2 (read_eq_blank_iff.1 hread)]
      simp [ParamLine.read?, after?]
    simp [declared, hread, hnone]
  | other => simp [declared, hread, (read_eq_other_iff.1 hread).2]
  | param margin p =>
    obtain ⟨rfl, hp⟩ := read_eq_param_iff.1 hread
    have hdeclared : declared start line = .error m ↔ p.declaration (start + byteLength (indent line)) = .error m := by
      rw [declared, hread]
      dsimp only
      cases p.declaration (start + byteLength (indent line)) <;> simp [Except.map]
    rw [hdeclared, ParamLine.declaration_eq_error_iff_judged, hp]
    simp

theorem exists_declared_eq_error_iff : (∃ m, declared start line = .error m) ↔ Offends line := by
  simp only [declared_eq_error_iff, Offends, ← ParamLine.exists_judged_iff]
  constructor
  · rintro ⟨m, p, fault, before, part, hp, hjudged, -⟩
    exact ⟨p, hp, fault, before, part, hjudged⟩
  · rintro ⟨p, hp, fault, before, part, hjudged⟩
    exact ⟨_, p, fault, before, part, hp, hjudged, rfl⟩

theorem faultless_iff_not_offends : Faultless line ↔ ¬ Offends line := by
  rcases faultless_or_error line with h | h
  · refine iff_of_true h fun hoffends => ?_
    obtain ⟨m, hm⟩ : ∃ m, declared 0 line = .error m := exists_declared_eq_error_iff.2 hoffends
    rw [h.declared_eq] at hm
    cases hm
  · obtain ⟨m, hm⟩ := h 0
    refine iff_of_false (fun hfaultless => ?_) (not_not.2 (exists_declared_eq_error_iff.1 ⟨m, hm⟩))
    rw [hfaultless.declared_eq] at hm
    cases hm

end SourceLine

/-! ## The whole header -/

namespace Header

variable {source : List Char} {top : List (List Char)} {m : Mistake}

/-- These are the lines in front of the first line that is neither blank nor a parameter line. -/
structure IsTop (source : List Char) (top : List (List Char)) : Prop where
  lines : ∀ line ∈ top, SourceLine.BlankOrParam line
  ends : ∃ rest, linesOf source = top ++ rest ∧ ∀ line, rest.head? = some line → ¬ SourceLine.BlankOrParam line

theorem isTop_iff : IsTop source top ↔ top = (linesOf source).takeWhile SourceLine.isHeader := by
  constructor
  · rintro ⟨hlines, rest, hsource, hrest⟩
    rw [hsource, List.takeWhile_append_of_pos fun line hline => SourceLine.isHeader_iff.2 (hlines line hline)]
    cases rest with
    | nil => simp
    | cons line rest =>
      rw [List.takeWhile_cons_of_neg fun h => hrest line rfl (SourceLine.isHeader_iff.1 h), List.append_nil]
  · rintro rfl
    refine ⟨fun line hline => SourceLine.isHeader_iff.1 (List.mem_takeWhile_imp hline), _,
      List.takeWhile_append_dropWhile.symm, fun line hline => ?_⟩
    have hhead := List.head?_dropWhile_not SourceLine.isHeader (linesOf source)
    rw [hline] at hhead
    rw [← SourceLine.isHeader_iff]
    simpa using hhead

/-- A header is refused for the first of its lines that has a fault. -/
theorem read_eq_error_iff_judged :
    read source = .error m ↔
      ∃ pre line post p fault before part, (linesOf source).takeWhile SourceLine.isHeader = pre ++ line :: post ∧
        (∀ l ∈ pre, ¬ SourceLine.Offends l) ∧ ParamLine.read? (trim line) = some p ∧ p.Judged fault before part ∧
        m = ⟨fault, ⟨lengthOf pre + byteLength (indent line) + byteLength before, byteLength part⟩⟩ := by
  simp only [read_eq_error_iff, declarationsFrom_eq_error_iff, SourceLine.faultless_iff_not_offends,
    SourceLine.declared_eq_error_iff, Nat.zero_add]
  constructor
  · rintro ⟨pre, line, post, hlines, hpre, p, fault, before, part, h⟩
    exact ⟨pre, line, post, p, fault, before, part, hlines, hpre, h⟩
  · rintro ⟨pre, line, post, p, fault, before, part, hlines, hpre, h⟩
    exact ⟨pre, line, post, hlines, hpre, p, fault, before, part, h⟩

theorem exists_read_eq_error_iff :
    (∃ m, read source = .error m) ↔
      ∃ line ∈ (linesOf source).takeWhile SourceLine.isHeader, SourceLine.Offends line := by
  constructor
  · rintro ⟨m, hm⟩
    obtain ⟨pre, line, post, p, fault, before, part, hlines, -, hp, hjudged, -⟩ := read_eq_error_iff_judged.1 hm
    refine ⟨line, ?_, p, hp, ParamLine.exists_judged_iff.1 ⟨fault, before, part, hjudged⟩⟩
    rw [hlines]
    exact List.mem_append_right _ List.mem_cons_self
  · rintro ⟨line, hline, hoffends⟩
    cases hread : read source with
    | error m => exact ⟨m, rfl⟩
    | ok header =>
      have hfaultless := faultless_of_declarationsFrom (read_eq_ok_iff.1 hread).1 line hline
      exact absurd hoffends (SourceLine.faultless_iff_not_offends.1 hfaultless)

/-- The parameters that a header declares and the positions that it declares more than once. -/
def declared (header : Header) : Parameters × List Nat :=
  (Parameters.ofDeclarations header.declarations, repeatedNumbers (header.declarations.map (·.position)))

theorem map_declared_read (source : List Char) :
    (read source).map declared =
      (declarationsFrom 0 ((linesOf source).takeWhile SourceLine.isHeader)).map fun ds =>
        (Parameters.ofDeclarations ds, repeatedNumbers (ds.map (·.position))) := by
  rw [read]
  cases declarationsFrom 0 ((linesOf source).takeWhile SourceLine.isHeader) <;> rfl

/-- How the lines in front of the body decide what comes of a header. -/
structure Decides (content : String) (top : List (List Char)) : Prop where
  isTop : ∀ lines, IsTop content.toList lines ↔ lines = top
  refused : (∃ m, read content.toList = .error m) ↔ ∃ line ∈ top, SourceLine.Offends line
  /-- The mistake is that of the first line with a fault. -/
  mistake : ∀ m, read content.toList = .error m ↔
    ∃ pre line post p fault before part, top = pre ++ line :: post ∧ (∀ l ∈ pre, ¬ SourceLine.Offends l) ∧
      ParamLine.read? (trim line) = some p ∧ p.Judged fault before part ∧
      m = ⟨fault, ⟨lengthOf pre + byteLength (indent line) + byteLength before, byteLength part⟩⟩
  /-- Every other source with these lines in front of its body comes to the same. -/
  same : ∀ other : String, IsTop other.toList top →
    (read other.toList).map declared = (read content.toList).map declared
  /-- A mistake in the header comes before any in the body. -/
  first : ∀ name file m, read content.toList = .error m → Statement.ofSource ⟨name, file, content⟩ = .error m

/-- The lines in front of the body decide what comes of a header. -/
theorem exists_decides (content : String) : ∃ top, Decides content top := by
  refine ⟨_, fun lines => isTop_iff, exists_read_eq_error_iff, fun m => read_eq_error_iff_judged,
    fun other hother => ?_, fun name file m hm => ?_⟩
  · rw [map_declared_read, map_declared_read, isTop_iff.1 hother]
  · rw [Statement.ofSource, hm]

/-- Here the second parameter line is refused for its type, although its position and its alias are not to be used
either. The one behind it is mistaken too, the placeholders refer to nothing, and with another body it comes to the
same. -/
theorem exists_decides_unknown_type :
    let header := "\u3000-- @param {Int} $007:id\n\n\u00a0--@param{Text} $0:if\r\n-- @param {Int} $99999999999999999999"
    let m : Mistake := ⟨.unknownType "Text", ⟨39, 4⟩⟩
    Statement.ofSource ⟨"q", "q.sql", header ++ "\nselect $9, :none\n-- @param {Text} $1"⟩ = .error m ∧
      (Header.read header.toList).map declared = .error m := by
  intro header m
  let content := header ++ "\nselect $9, :none\n-- @param {Text} $1"
  let pre := ["\u3000-- @param {Int} $007:id".toList, []]
  let line := "\u00a0--@param{Text} $0:if\r".toList
  let post := ["-- @param {Int} $99999999999999999999".toList]
  let p : ParamLine := ⟨[], [], "Text".toList, [' '], ['0'], some ['i', 'f'], false, [], []⟩
  obtain ⟨top, h⟩ := exists_decides content
  have htop : pre ++ line :: post = top := (h.isTop _).1 (isTop_iff.2 (by decide +kernel))
  have hpre : ∀ l ∈ pre, ¬ SourceLine.Offends l := by
    have hfaultless : ∀ l ∈ pre, SourceLine.declared 0 l = .ok (SourceLine.declaration? l) := by decide +kernel
    exact fun l hl => SourceLine.faultless_iff_not_offends.1 (hfaultless l hl)
  have hread : read content.toList = .error m := by
    have hunknown : String.ofList p.tag ∉ ScalarType.tags := by decide +kernel
    exact (h.mistake m).2
      ⟨pre, line, post, p, _, _, _, htop.symm, hpre, by decide +kernel, .type hunknown, by decide +kernel⟩
  refine ⟨h.first _ _ _ hread, ?_⟩
  rw [h.same header (isTop_iff.2 (htop ▸ by decide +kernel)), hread]
  rfl

end Header
end AnnotatedSql
