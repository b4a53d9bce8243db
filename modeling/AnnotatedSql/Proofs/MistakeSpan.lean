import AnnotatedSql.Proofs.Header
import AnnotatedSql.Proofs.Resolution
/-!
# Where a mistake is

The place of a mistake is counted within a trimmed line or the trimmed body, and then from the start of
the source. `Mistake.Marks` says that a mistake marks the text that it is about; it is shown for a line
and for a body, and kept when more text stands in front or behind.
-/

namespace AnnotatedSql

open Text

namespace Fault

/-- The text of the source that a fault is about. -/
def text : Fault → String
  | unknownType tag => tag
  | positionOutOfRange key => key
  | unusableAlias aliasName _ => aliasName
  | unknownPosition digits => "$" ++ digits
  | unboundQuestion => "?"
  | unknownName name => ":" ++ name

/-- The key that a fault is about, if it is about one, is a dollar sign and digits. -/
def HasKey : Fault → Prop
  | positionOutOfRange key => ∃ digits, digits ≠ [] ∧ (∀ c ∈ digits, c.isDigit = true) ∧ key.toList = '$' :: digits
  | _ => True

end Fault

namespace Mistake

variable {m : Mistake} {s t : List Char} {start : Nat}

/-- In a text that starts at byte `start`, the mistake marks the text that its fault is about. -/
def Marks (m : Mistake) (start : Nat) (s : List Char) : Prop :=
  ∃ before behind, s = before ++ m.fault.text.toList ++ behind ∧
    m.span = ⟨start + byteLength before, byteLength m.fault.text.toList⟩

theorem Marks.append_left (h : m.Marks (start + byteLength s) t) : m.Marks start (s ++ t) := by
  obtain ⟨before, behind, rfl, hspan⟩ := h
  refine ⟨s ++ before, behind, by simp, ?_⟩
  rw [hspan, byteLength_append, Nat.add_assoc]

theorem Marks.append_right (h : m.Marks start s) : m.Marks start (s ++ t) := by
  obtain ⟨before, behind, rfl, hspan⟩ := h
  exact ⟨before, behind ++ t, by simp, hspan⟩

end Mistake

/-! ## Mistakes in the header -/

namespace ParamLine

variable {p : ParamLine} {m : Mistake} {start : Nat}

/-- A mistake of a parameter line marks its tag, its key or its alias. -/
theorem marks_text (h : p.declaration start = .error m) : m.Marks start p.text := by
  rw [text_eq]
  rcases declaration_eq_error_iff.1 h with ⟨-, rfl⟩ | ⟨-, -, rfl⟩ | ⟨-, -, word, reason, hword, -, rfl⟩
  · refine ⟨p.beforeTag, ['}'] ++ p.beforeKey ++ p.key ++ aliasText p.aliasName ++ markText p.optional
      ++ p.beforeNote ++ p.note, ?_, ?_⟩ <;> simp [Fault.text, beforeDollar]
  · refine ⟨p.beforeDollar, aliasText p.aliasName ++ markText p.optional ++ p.beforeNote ++ p.note, ?_, ?_⟩ <;>
      simp [Fault.text]
  · refine ⟨p.beforeAlias, markText p.optional ++ p.beforeNote ++ p.note, ?_, ?_⟩ <;>
      simp [Fault.text, beforeAlias, hword, aliasText]

theorem hasKey_of_declaration {line : List Char} (hp : read? line = some p) (h : p.declaration start = .error m) :
    m.fault.HasKey := by
  rcases declaration_eq_error_iff.1 h with ⟨-, rfl⟩ | ⟨-, -, rfl⟩ | ⟨-, -, word, reason, -, -, rfl⟩
  · trivial
  · obtain ⟨w₁, w₂, tag, w₃, digits, rest, hparts, -, rfl⟩ := read?_eq_some_iff.1 hp
    exact ⟨digits, hparts.digits_ne, hparts.digits, String.toList_ofList⟩
  · trivial

end ParamLine

/-- A mistake of a line marks a part of the line. -/
theorem SourceLine.marks_of_declared {line : List Char} {m : Mistake} {start : Nat}
    (h : declared start line = .error m) : m.Marks start line ∧ m.fault.HasKey := by
  unfold declared at h
  split at h
  · rename_i margin p hread
    have hdecl : p.declaration (start + byteLength margin) = .error m := by
      cases hd : p.declaration (start + byteLength margin) <;> simp_all [Except.map]
    obtain ⟨behind, -, hline⟩ := exists_text_of_param hread
    refine ⟨?_, ParamLine.hasKey_of_declaration (read_eq_param_iff.1 hread).2 hdecl⟩
    rw [hline]
    exact (ParamLine.marks_text hdecl).append_left.append_right
  · cases h

/-- A mistake in a header marks a part of one of its lines. -/
theorem Header.marks_of_read {source : List Char} {m : Mistake} (h : read source = .error m) :
    m.Marks 0 source ∧ m.fault.HasKey := by
  obtain ⟨pre, line, post, hlines, -, hm⟩ := read_eq_error_iff_first.1 h
  obtain ⟨hmarks, hkey⟩ := SourceLine.marks_of_declared hm
  refine ⟨?_, hkey⟩
  rw [← Nat.zero_add (lengthOf pre)] at hmarks
  rw [source_eq_of_linesOf hlines]
  exact hmarks.append_left.append_right

/-! ## Mistakes in the body -/

theorem Placeholder.text_fault (p : Placeholder) : p.fault.text.toList = p.text := by
  cases p <;> simp [fault, Fault.text, text]

/-- A mistake in a body marks a placeholder. -/
theorem Code.marks_of_ofBody {parameters : Parameters} {start : Nat} {body : List Char} {m : Mistake}
    (h : ofBody parameters start body = .error m) : m.Marks start body ∧ m.fault.HasKey := by
  obtain ⟨before, p, after, hscan, -, rfl⟩ := exists_hole_of_error h
  refine ⟨⟨before.flatMap Piece.text, after.flatMap Piece.text, ?_, ?_⟩, ?_⟩
  · rw [Placeholder.text_fault]
    conv_lhs => rw [← flatMap_text_scan body, hscan]
    simp [Piece.text]
  · rw [Placeholder.text_fault]
  · cases p <;> trivial

/-! ## Mistakes in a source -/

namespace Statement

theorem ofSource_eq_error_iff {source : SourceText} {m : Mistake} :
    ofSource source = .error m ↔
      Header.read source.content.toList = .error m ∨
      ∃ header, Header.read source.content.toList = .ok header ∧
        Code.ofBody (Parameters.ofDeclarations header.declarations) header.bodyOffset header.body = .error m := by
  unfold ofSource
  cases Header.read source.content.toList with
  | error m' => simp
  | ok header =>
    dsimp only
    cases hbody : Code.ofBody (Parameters.ofDeclarations header.declarations) header.bodyOffset header.body with
    | error m' => simp [Except.map, hbody]
    | ok code => simp [Except.map, hbody]

theorem marks_of_ofSource {source : SourceText} {m : Mistake} (h : ofSource source = .error m) :
    m.Marks 0 source.content.toList ∧ m.fault.HasKey := by
  rcases ofSource_eq_error_iff.1 h with hread | ⟨header, hread, hbody⟩
  · exact Header.marks_of_read hread
  · obtain ⟨hmarks, hkey⟩ := Code.marks_of_ofBody hbody
    obtain ⟨before, behind, hsource, hoffset, -⟩ := Header.exists_append_body hread
    refine ⟨?_, hkey⟩
    rw [hsource]
    rw [← hoffset, ← Nat.zero_add (byteLength before)] at hmarks
    exact hmarks.append_left.append_right

end Statement

/-- The span of a mistake lies in the source, starts and ends between two characters, and holds the
text that the fault is about. A question mark is reported as position zero. -/
structure Mistake.Exact (m : Mistake) (content : String) : Prop where
  inside : m.span.offset + m.span.length ≤ content.utf8ByteSize
  starts : String.Pos.Raw.IsValid content ⟨m.span.offset⟩
  ends : String.Pos.Raw.IsValid content ⟨m.span.offset + m.span.length⟩
  bytes : content.toByteArray.extract m.span.offset (m.span.offset + m.span.length) = m.fault.text.toByteArray
  key : m.fault.HasKey
  bare : m.fault = .unboundQuestion → m.fault.message = "unknown positional parameter: $0"

/-- What is marked in a source is marked in its bytes. -/
theorem Mistake.exact_of_marks {m : Mistake} {content : String} (h : m.Marks 0 content.toList)
    (hkey : m.fault.HasKey) : m.Exact content := by
  obtain ⟨before, behind, hcontent, hspan⟩ := h
  have hcovers := covers_of_append hcontent
  rw [← Nat.zero_add (byteLength before), ← hspan, String.ofList_toList] at hcovers
  refine ⟨hcovers.inside, hcovers.starts, hcovers.ends, hcovers.bytes, hkey, fun hfault => ?_⟩
  rw [hfault]
  rfl

/-- Every mistake is reported at the very text that it is about. -/
theorem Statement.exact_of_ofSource {source : SourceText} {m : Mistake} (h : ofSource source = .error m) :
    m.Exact source.content := by
  obtain ⟨hmarks, hkey⟩ := marks_of_ofSource h
  exact Mistake.exact_of_marks hmarks hkey

/-- Here blanks of several bytes stand in front of the body, and a line ends with a carriage return. -/
theorem Statement.exact_of_ofSource_wide_blanks :
    ofSource ⟨"q", "q.sql", "\r\n\u3000-- @param {Int} $1\n\u2003\n\u3000select :x"⟩ =
        .error ⟨.unknownName "x", ⟨38, 2⟩⟩ ∧
      Mistake.Exact ⟨.unknownName "x", ⟨38, 2⟩⟩ "\r\n\u3000-- @param {Int} $1\n\u2003\n\u3000select :x" := by
  have h : ofSource ⟨"q", "q.sql", "\r\n\u3000-- @param {Int} $1\n\u2003\n\u3000select :x"⟩ =
      .error ⟨.unknownName "x", ⟨38, 2⟩⟩ := by
    decide +kernel
  exact ⟨h, exact_of_ofSource h⟩

end AnnotatedSql
