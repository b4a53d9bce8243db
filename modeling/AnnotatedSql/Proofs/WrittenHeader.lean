import AnnotatedSql.Proofs.Header
import AnnotatedSql.Proofs.Parameters
/-!
# Headers that are written out

Well-formed declarations are written one on a line, with blanks around each and blank lines anywhere
between them. Reading such a header gives each declaration as it was, and the body behind them.
-/

namespace AnnotatedSql

open Text

/-! ## The line of a declaration -/

namespace Declaration

/-- A declaration as a parameter line. -/
def line (d : Declaration) : String :=
  "-- @param \x7b" ++ d.type.tag ++ "\x7d " ++ Position.key d.position
    ++ (match d.aliasName with | some a => ":" ++ a | none => "")
    ++ (if d.optional then "?" else "")
    ++ (match d.description with | some t => " " ++ t | none => "")

/-- The description of a line as it is written, the blank in front of it included. -/
def noteText : Option String → List Char
  | some t => ' ' :: t.toList
  | none => []

/-- What stands behind the digits in the line of a declaration. -/
def behindDigits (d : Declaration) : List Char :=
  ParamLine.aliasText (d.aliasName.map String.toList) ++ (ParamLine.markText d.optional ++ noteText d.description)

theorem toList_line (d : Declaration) :
    d.line.toList =
      ParamLine.lineOf [' '] [' '] d.type.tag.toList [' '] (Nat.toDigits 10 d.position) d.behindDigits := by
  obtain ⟨position, type, aliasName, optional, description⟩ := d
  unfold line behindDigits
  simp only [String.toList_append, Position.toList_key]
  cases aliasName <;> cases optional <;> cases description <;>
    simp [ParamLine.lineOf, ParamLine.aliasText, ParamLine.markText, noteText]

theorem head?_noteText (note : Option String) (c : Char) (h : (noteText note).head? = some c) : c = ' ' := by
  cases note with
  | none => cases h
  | some t => exact (Option.some.inj h).symm

theorem head?_markText (d : Declaration) (c : Char)
    (h : (ParamLine.markText d.optional ++ noteText d.description).head? = some c) : c = '?' ∨ c = ' ' := by
  unfold ParamLine.markText at h
  cases hopt : d.optional with
  | true =>
    rw [hopt] at h
    exact .inl (Option.some.inj h).symm
  | false =>
    rw [hopt] at h
    exact .inr (head?_noteText d.description c h)

theorem head?_behindDigits (d : Declaration) (c : Char) (h : d.behindDigits.head? = some c) :
    c = ':' ∨ c = '?' ∨ c = ' ' := by
  unfold behindDigits at h
  cases ha : d.aliasName with
  | some a =>
    rw [ha] at h
    exact .inl (Option.some.inj h).symm
  | none =>
    rw [ha] at h
    exact .inr (head?_markText d c h)

theorem takeAlias_behindDigits {d : Declaration} (h : d.WellFormed) :
    ParamLine.takeAlias d.behindDigits =
      (d.aliasName.map String.toList, ParamLine.markText d.optional ++ noteText d.description) := by
  unfold behindDigits
  cases ha : d.aliasName with
  | none =>
    refine ParamLine.takeAlias_of_head fun hcolon => ?_
    rcases head?_markText d ':' hcolon with h | h <;> exact absurd h (by decide)
  | some a =>
    have hshape := Identifier.hasShape_of_fault? (h.aliasName a ha)
    -- a question mark, a space or the end of the line stops the word
    refine ParamLine.takeAlias_word hshape.ne_nil hshape.isWord fun c hc => ?_
    rcases head?_markText d c hc with rfl | rfl <;> decide

theorem takeMark_behindAlias (d : Declaration) :
    ParamLine.takeMark (ParamLine.markText d.optional ++ noteText d.description) = (d.optional, noteText d.description) := by
  cases d.optional with
  | true => rfl
  | false =>
    refine ParamLine.takeMark_of_head fun hmark => ?_
    exact absurd (head?_noteText d.description '?' hmark) (by decide)

theorem trimStart_noteText {d : Declaration} (h : d.WellFormed) :
    trimStart (noteText d.description) = (d.description.map String.toList).getD [] := by
  cases hd : d.description with
  | none => rfl
  | some t =>
    have htrim := trim_eq_self_iff.1 (h.description t hd).2.1
    exact trimStart_append_stop (s := [' ']) (by simp [isBlank]) htrim.1

theorem parts_line (d : Declaration) :
    ParamLine.Parts [' '] [' '] d.type.tag.toList [' '] (Nat.toDigits 10 d.position) d.behindDigits where
  beforeWord := by simp [IsSpace]
  beforeBrace := by simp [IsSpace]
  beforeKey := by simp [IsSpace]
  tag_ne := by cases d.type <;> decide
  tag := forall_isWord_iff.1 (List.all_eq_true.1 (by cases d.type <;> decide))
  digits_ne := Nat.toDigits_ne_nil
  digits _ hc := isDigit_of_mem_toDigits hc
  longest c hc := by
    rcases head?_behindDigits d c hc with rfl | rfl | rfl <;> decide

/-- The pieces of the line of a declaration. -/
def pieces (d : Declaration) : ParamLine :=
  ParamLine.ofParts [' '] [' '] d.type.tag.toList [' '] (Nat.toDigits 10 d.position) d.behindDigits

theorem aliasName_pieces {d : Declaration} (h : d.WellFormed) : d.pieces.aliasName = d.aliasName.map String.toList := by
  simp only [pieces, ParamLine.ofParts, takeAlias_behindDigits h]

theorem optional_pieces {d : Declaration} (h : d.WellFormed) : d.pieces.optional = d.optional := by
  simp only [pieces, ParamLine.ofParts, takeAlias_behindDigits h, takeMark_behindAlias]

theorem note_pieces {d : Declaration} (h : d.WellFormed) :
    d.pieces.note = (d.description.map String.toList).getD [] := by
  simp only [pieces, ParamLine.ofParts, takeAlias_behindDigits h, takeMark_behindAlias, trimStart_noteText h]

theorem description_pieces {d : Declaration} (h : d.WellFormed) : d.pieces.description = d.description := by
  unfold ParamLine.description
  rw [note_pieces h]
  cases hd : d.description with
  | none => rfl
  | some t =>
    have hne : t.toList ≠ [] := fun he => (h.description t hd).1 (String.toList_eq_nil_iff.1 he)
    rw [Option.map_some, Option.getD_some, if_neg hne, String.ofList_toList]

theorem read?_line (d : Declaration) : ParamLine.read? d.line.toList = some d.pieces := by
  rw [toList_line]
  exact ParamLine.read?_lineOf (parts_line d)

/-- The line of a declaration makes this declaration, wherever it stands. -/
theorem declaration_pieces {d : Declaration} (h : d.WellFormed) (start : Nat) : d.pieces.declaration start = .ok d := by
  rw [ParamLine.declaration_eq_ok_iff, aliasName_pieces h, optional_pieces h, description_pieces h]
  refine ⟨?_, ?_, fun word hword => ?_, ?_, rfl, rfl⟩
  · exact (congrArg ScalarType.ofTag? String.ofList_toList).trans (ScalarType.ofTag?_tag d.type)
  · exact Position.ofDigits?_eq_some_iff.2 ⟨decimal_toDigits d.position, h.position⟩
  · obtain ⟨a, ha, rfl⟩ := Option.map_eq_some_iff.1 hword
    rw [String.ofList_toList]
    exact h.aliasName a ha
  · rw [Option.map_map]
    cases d.aliasName with
    | none => rfl
    | some a => exact congrArg some String.ofList_toList.symm

/-- The digits of a line and what stands behind them end with no blank. -/
theorem getLast?_behindDollar {d : Declaration} (h : d.WellFormed) :
    ∀ c, (Nat.toDigits 10 d.position ++ d.behindDigits).getLast? = some c → isBlank c = false := by
  refine getLast?_append_not_isBlank (fun c hc => ?_) ?_
  · have hdigit := isDigit_of_mem_toDigits (List.mem_of_getLast? hc)
    exact not_isBlank_of_isWord (isWord_of_isDigit hdigit)
  refine getLast?_append_not_isBlank ?_ (getLast?_append_not_isBlank ?_ ?_)
  · intro c hc
    cases ha : d.aliasName with
    | none => simp [ha, ParamLine.aliasText] at hc
    | some a =>
      have hshape := Identifier.hasShape_of_fault? (h.aliasName a ha)
      rw [ha] at hc
      rcases List.mem_cons.1 (List.mem_of_getLast? hc) with rfl | hmem
      · decide
      · exact not_isBlank_of_isWord (hshape.isWord c hmem)
  · intro c hc
    cases hopt : d.optional <;> simp [hopt, ParamLine.markText] at hc
    subst hc
    decide
  · intro c hc
    cases hd : d.description with
    | none => simp [hd, noteText] at hc
    | some t =>
      obtain ⟨hne, htrim, -⟩ := h.description t hd
      refine (trim_eq_self_iff.1 htrim).2 c ?_
      rw [hd] at hc
      cases ht : t.toList with
      | nil => exact absurd (String.toList_eq_nil_iff.1 ht) hne
      | cons x xs =>
        rw [noteText, ht, List.getLast?_cons_cons] at hc
        exact hc

theorem trim_line {d : Declaration} (h : d.WellFormed) : trim d.line.toList = d.line.toList := by
  have hsplit : ∃ front, d.line.toList = front ++ ['$'] ++ (Nat.toDigits 10 d.position ++ d.behindDigits) := by
    rw [toList_line]
    refine ⟨"-- @param \x7b".toList ++ d.type.tag.toList ++ ['}', ' '], ?_⟩
    simp [ParamLine.lineOf]
  obtain ⟨front, hfront⟩ := hsplit
  refine trim_eq_self_iff.2 ⟨fun c hc => ?_, ?_⟩
  · rw [toList_line] at hc
    cases hc
    decide
  · rw [hfront]
    exact getLast?_append_not_isBlank (by simp [isBlank]) (getLast?_behindDollar h)

theorem newline_not_mem_line {d : Declaration} (h : d.WellFormed) : '\n' ∉ d.line.toList := by
  have htag : '\n' ∉ d.type.tag.toList := newline_not_mem_of_isWord (forall_isWord_iff.2 (parts_line d).tag)
  have hdigits : '\n' ∉ Nat.toDigits 10 d.position :=
    newline_not_mem_of_isWord fun c hc => isWord_of_isDigit ((parts_line d).digits c hc)
  have halias : '\n' ∉ ParamLine.aliasText (d.aliasName.map String.toList) := by
    cases ha : d.aliasName with
    | none => simp [ParamLine.aliasText]
    | some a =>
      have hshape := Identifier.hasShape_of_fault? (h.aliasName a ha)
      simpa [ParamLine.aliasText] using newline_not_mem_of_isWord hshape.isWord
  have hmark : '\n' ∉ ParamLine.markText d.optional := by
    cases d.optional <;> decide
  have hnote : '\n' ∉ noteText d.description := by
    cases hd : d.description with
    | none => simp [noteText]
    | some t => simpa [noteText] using (h.description t hd).2.2
  rw [toList_line]
  simp [ParamLine.lineOf, behindDigits, htag, hdigits, halias, hmark, hnote]

end Declaration

/-! ## Written headers -/

/-- Blanks that stand on one line. -/
def IsMargin (s : List Char) : Prop :=
  ∀ c ∈ s, isBlank c = true ∧ c ≠ '\n'

instance (s : List Char) : Decidable (IsMargin s) :=
  List.decidableBAll _ _

/-- A line of a written header: a blank line, or a declaration with blanks around it. -/
inductive Row
  | blank (text : List Char)
  | declared (before : List Char) (d : Declaration) (behind : List Char)

namespace Row

def text : Row → List Char
  | blank text => text
  | declared before d behind => before ++ d.line.toList ++ behind

def declaration? : Row → Option Declaration
  | blank _ => none
  | declared _ d _ => some d

/-- Whether a row is as its name says. -/
def WellFormed : Row → Prop
  | blank text => IsMargin text
  | declared before d behind => IsMargin before ∧ d.WellFormed ∧ IsMargin behind

instance : (row : Row) → Decidable row.WellFormed
  | blank text => inferInstanceAs (Decidable (IsMargin text))
  | declared before d behind => inferInstanceAs (Decidable (IsMargin before ∧ d.WellFormed ∧ IsMargin behind))

variable {row : Row} {rows : List Row} {body : List Char}

theorem newline_not_mem_text (h : row.WellFormed) : '\n' ∉ row.text := by
  cases row with
  | blank text => exact fun hmem => (h _ hmem).2 rfl
  | declared before d behind =>
    obtain ⟨hbefore, hd, hbehind⟩ := h
    intro hmem
    rcases List.mem_append.1 hmem with hmem | hmem
    · rcases List.mem_append.1 hmem with hmem | hmem
      · exact (hbefore _ hmem).2 rfl
      · exact Declaration.newline_not_mem_line hd hmem
    · exact (hbehind _ hmem).2 rfl

theorem read_blank {text : List Char} (h : IsMargin text) : SourceLine.read text = .blank :=
  SourceLine.read_eq_blank_iff.2 fun c hc => (h c hc).1

theorem read_declared {before behind : List Char} {d : Declaration} (h : (declared before d behind).WellFormed) :
    ∃ margin, SourceLine.read (declared before d behind).text = .param margin d.pieces := by
  obtain ⟨hbefore, hd, hbehind⟩ := h
  have htrim : trim (before ++ d.line.toList ++ behind) = d.line.toList := by
    rw [trim_append_right fun c hc => (hbehind c hc).1, trim_append_left fun c hc => (hbefore c hc).1,
      Declaration.trim_line hd]
  refine ⟨_, SourceLine.read_eq_param_iff.2 ⟨rfl, ?_⟩⟩
  unfold text
  rw [htrim]
  exact Declaration.read?_line d

theorem isHeader_text (h : row.WellFormed) : SourceLine.isHeader row.text = true := by
  unfold SourceLine.isHeader
  cases row with
  | blank s =>
    unfold text
    rw [read_blank h]
    rfl
  | declared before d behind =>
    obtain ⟨margin, hread⟩ := read_declared h
    rw [hread]
    rfl

/-- Rows and then a body, as a source. -/
def source (rows : List Row) (body : List Char) : List Char :=
  rows.flatMap (fun row => row.text ++ ['\n']) ++ body

theorem linesOf_source (h : ∀ row ∈ rows, row.WellFormed) :
    Header.linesOf (source rows body) = rows.map text ++ Header.linesOf body := by
  induction rows with
  | nil => rfl
  | cons row rows ih =>
    rw [List.forall_mem_cons] at h
    have hsource : source (row :: rows) body = row.text ++ '\n' :: source rows body := by
      simp [source]
    unfold Header.linesOf at ih ⊢
    rw [hsource, List.splitOn_append_cons_self_of_not_mem (newline_not_mem_text h.1), ih h.2]
    rfl

theorem declared_text (h : row.WellFormed) (start : Nat) :
    SourceLine.declared start row.text = .ok row.declaration? := by
  cases row with
  | blank s =>
    have hread : SourceLine.read (blank s).text = .blank := read_blank h
    exact SourceLine.declared_of_not_param (by simp [hread]) start
  | declared before d behind =>
    obtain ⟨margin, hread⟩ := read_declared h
    exact SourceLine.declared_param hread (Declaration.declaration_pieces h.2.1) start

theorem faultless_text (h : row.WellFormed) : SourceLine.Faultless row.text :=
  SourceLine.faultless_iff.2 ⟨_, declared_text h 0⟩

theorem declaration?_text (h : row.WellFormed) : SourceLine.declaration? row.text = row.declaration? := by
  have := (faultless_text h).symm.trans (declared_text h 0)
  exact Except.ok.inj this

theorem filterMap_declaration?_text (h : ∀ row ∈ rows, row.WellFormed) :
    (rows.map text).filterMap SourceLine.declaration? = rows.filterMap declaration? := by
  rw [List.filterMap_map]
  exact List.filterMap_congr fun row hrow => declaration?_text (h row hrow)

end Row

namespace Header

theorem declarationsFrom_blank {lines : List (List Char)} (h : ∀ line ∈ lines, SourceLine.read line = .blank)
    (start : Nat) : declarationsFrom start lines = .ok [] := by
  induction lines generalizing start with
  | nil => rfl
  | cons line lines ih =>
    rw [List.forall_mem_cons] at h
    rw [declarationsFrom_cons, SourceLine.declared_of_not_param (by simp [h.1])]
    dsimp only
    rw [ih h.2]
    rfl

/-- If the first line that is not blank is no parameter line, the header holds blank lines only. -/
theorem read_eq_blank_of_mem_takeWhile {lines : List (List Char)}
    (h : ∀ line, lines.find? (fun line => trim line != []) = some line → ParamLine.read? (trim line) = none) :
    ∀ line ∈ lines.takeWhile SourceLine.isHeader, SourceLine.read line = .blank := by
  induction lines with
  | nil => simp
  | cons first lines ih =>
    intro line hline
    by_cases hblank : trim first = []
    · have hread : SourceLine.read first = .blank := SourceLine.read_eq_blank_iff.2 (trim_eq_nil_iff.1 hblank)
      rw [List.find?_cons_of_neg (by simp [hblank])] at h
      rw [List.takeWhile_cons_of_pos (by simp [SourceLine.isHeader, hread])] at hline
      rcases List.mem_cons.1 hline with rfl | hline
      · exact hread
      · exact ih h line hline
    · have hread : SourceLine.read first = .other :=
        SourceLine.read_eq_other_iff.2 ⟨hblank, h first (List.find?_cons_of_pos (by simpa using hblank))⟩
      rw [List.takeWhile_cons_of_neg (by simp [SourceLine.isHeader, hread])] at hline
      cases hline

/-- A written header is read back: the body is what stands behind it, each position keeps the last
declaration written for it at the place of the first, and the repeated positions are listed. -/
theorem read_written {rows : List Row} {body : List Char} (hrows : ∀ row ∈ rows, row.WellFormed)
    (hbody : ∀ line, (linesOf body).find? (fun line => trim line != []) = some line →
      ParamLine.read? (trim line) = none) :
    ∃ header, read (Row.source rows body) = .ok header ∧ header.body = trim body ∧
      header.declarations = rows.filterMap Row.declaration? ∧
      Parameters.Keeps (rows.filterMap Row.declaration?) (Parameters.ofDeclarations header.declarations) ∧
      ListsRepeated ((rows.filterMap Row.declaration?).map (·.position))
        (repeatedNumbers (header.declarations.map (·.position))) := by
  have hall : ∀ line ∈ rows.map Row.text, SourceLine.isHeader line = true := by
    intro line hline
    obtain ⟨row, hrow, rfl⟩ := List.mem_map.1 hline
    exact Row.isHeader_text (hrows row hrow)
  -- the header goes on into the body only as far as that starts with blank lines
  have hblank := read_eq_blank_of_mem_takeWhile hbody
  have hdeclared : declarationsFrom 0 ((linesOf (Row.source rows body)).takeWhile SourceLine.isHeader) =
      .ok (rows.filterMap Row.declaration?) := by
    have hfaultless : ∀ line ∈ rows.map Row.text, SourceLine.Faultless line := by
      intro line hline
      obtain ⟨row, hrow, rfl⟩ := List.mem_map.1 hline
      exact Row.faultless_text (hrows row hrow)
    rw [Row.linesOf_source hrows, List.takeWhile_append_of_pos hall, declarationsFrom_append hfaultless,
      declarationsFrom_blank hblank, Row.filterMap_declaration?_text hrows]
    exact congrArg Except.ok (List.append_nil _)
  have hremainder : remainder (Row.source rows body) = remainder body := by
    unfold remainder
    rw [Row.linesOf_source hrows, List.dropWhile_append_of_pos hall]
  refine ⟨⟨_, _, _⟩, read_eq_ok_iff.2 ⟨hdeclared, rfl, rfl⟩, ?_, rfl, ?_, ?_⟩
  · rw [hremainder]
    exact trim_remainder hblank
  · exact Parameters.keeps_ofDeclarations _
  · exact repeatedNumbers_spec _

/-- A header with a repeated position, blanks of several kinds and descriptions that start like an
alias or a question mark. -/
theorem read_written_repeated :
    let rows : List Row :=
      [.declared ['\t'] ⟨2, .int, some "id", true, some ": one"⟩ ['\r'], .blank [' '],
        .declared [] ⟨1, .json, none, false, some "? two"⟩ [], .declared ['\u00a0'] ⟨2, .int, none, false, none⟩ []]
    (∀ row ∈ rows, row.WellFormed) ∧
    ∃ header, read (Row.source rows "\n select $2".toList) = .ok header ∧ header.body = "select $2".toList ∧
      Parameters.ofDeclarations header.declarations =
        [⟨2, .int, none, false, none⟩, ⟨1, .json, none, false, some "? two"⟩] ∧
      repeatedNumbers (header.declarations.map (·.position)) = [2] := by
  intro rows
  have hrows : ∀ row ∈ rows, row.WellFormed := by decide
  have hbody : ∀ line, (linesOf "\n select $2".toList).find? (fun line => trim line != []) = some line →
      ParamLine.read? (trim line) = none := by
    have hfirst : (linesOf "\n select $2".toList).find? (fun line => trim line != []) = some " select $2".toList := by
      decide
    rw [hfirst]
    rintro _ ⟨⟩
    decide
  obtain ⟨header, hread, hheader, hdeclared, -, -⟩ := read_written hrows hbody
  refine ⟨hrows, header, hread, ?_, ?_, ?_⟩
  · rw [hheader]
    decide
  · rw [hdeclared]
    decide
  · rw [hdeclared]
    decide

end Header
end AnnotatedSql
