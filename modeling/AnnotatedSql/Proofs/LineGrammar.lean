import AnnotatedSql.Proofs.HeaderLine
/-!
# The grammar of parameter lines

A line is a parameter line if it can be written as two dashes, the keyword, a tag in braces, a dollar sign and digits,
with blanks in three places and any text at the end. There may be several ways to write it so; the reader takes the
one with the longest pieces, and these pieces are determined (`ParamLine.read?_iff_takes`).
-/

namespace AnnotatedSql

open Text

namespace ParamLine

variable {s t : List Char} {p : ParamLine}

/-- A line has the form of a parameter line. The digits need not be all that stand there. -/
def HasForm (t : List Char) : Prop :=
  ∃ w₁ w₂ tag w₃ digits rest, t = lineOf w₁ w₂ tag w₃ digits rest ∧
    (∀ c ∈ w₁, IsSpace c) ∧ (∀ c ∈ w₂, IsSpace c) ∧ (∀ c ∈ w₃, IsSpace c) ∧
    (tag ≠ [] ∧ ∀ c ∈ tag, c.isAlphanum = true ∨ c = '_') ∧ (digits ≠ [] ∧ ∀ c ∈ digits, c.isDigit = true)

/-- The pieces that are taken from a line. Behind the digits stands `behindDigits`; what is left of it without the
alias is `behindAlias`, and without the question mark `behindMark`. -/
structure Takes (p : ParamLine) (t behindDigits behindAlias behindMark : List Char) : Prop where
  line : t = lineOf p.beforeWord p.beforeBrace p.tag p.beforeKey p.digits behindDigits
  /-- No digit follows the digits. -/
  parts : Parts p.beforeWord p.beforeBrace p.tag p.beforeKey p.digits behindDigits
  hasAlias : p.aliasName.isSome = true ↔ ∃ c rest, behindDigits = ':' :: c :: rest ∧ (c.isAlphanum = true ∨ c = '_')
  /-- An alias is the longest word behind the colon. -/
  aliasName : ∀ word, p.aliasName = some word → behindDigits = ':' :: (word ++ behindAlias) ∧ word ≠ [] ∧
    (∀ c ∈ word, c.isAlphanum = true ∨ c = '_') ∧
    ∀ c, behindAlias.head? = some c → ¬ (c.isAlphanum = true ∨ c = '_')
  noAlias : p.aliasName = none → behindAlias = behindDigits
  optional : p.optional = true ↔ behindAlias.head? = some '?'
  mark : behindAlias = markText p.optional ++ behindMark
  beforeNote : ∀ c ∈ p.beforeNote, IsSpace c
  note : p.note = trim behindMark
  rest : behindMark = p.beforeNote ++ p.note
  description : p.description = if trim behindMark = [] then none else some (String.ofList (trim behindMark))
  /-- The pieces with the skipped blanks are the line. -/
  text : p.text = t

/-! ## The alias and the question mark -/

theorem takeAlias_cases (s : List Char) :
    (takeAlias s = (none, s) ∧ ¬ ∃ c rest, s = ':' :: c :: rest ∧ (c.isAlphanum = true ∨ c = '_')) ∨
      ∃ word rest, takeAlias s = (some word, rest) ∧ s = ':' :: (word ++ rest) ∧ word ≠ [] ∧
        (∀ c ∈ word, c.isAlphanum = true ∨ c = '_') ∧ ∀ c, rest.head? = some c → ¬ (c.isAlphanum = true ∨ c = '_') := by
  simp only [← isWord_iff_isAlphanum, Bool.not_eq_true]
  by_cases hcolon : s.head? = some ':'
  · obtain ⟨rest, rfl⟩ := List.head?_eq_some_iff.1 hcolon
    rw [takeAlias_colon]
    by_cases hword : rest.takeWhile isWord = []
    · refine .inl ⟨if_pos hword, ?_⟩
      rintro ⟨c, cs, heq, hc⟩
      cases heq
      simp [hc] at hword
    · refine .inr ⟨_, _, if_neg hword, by rw [List.takeWhile_append_dropWhile], hword, ?_, head?_dropWhile rest⟩
      exact fun c hc => List.mem_takeWhile_imp hc
  · refine .inl ⟨takeAlias_of_head hcolon, ?_⟩
    rintro ⟨c, rest, rfl, -⟩
    exact hcolon rfl

theorem takeMark_cases (s : List Char) :
    (takeMark s = (false, s) ∧ s.head? ≠ some '?') ∨ ∃ rest, takeMark s = (true, rest) ∧ s = '?' :: rest := by
  by_cases hmark : s.head? = some '?'
  · obtain ⟨rest, rfl⟩ := List.head?_eq_some_iff.1 hmark
    exact .inr ⟨rest, rfl, rfl⟩
  · exact .inl ⟨takeMark_of_head hmark, hmark⟩

/-! ## The pieces that are read -/

/-- A line that has the form of a parameter line is one: its digits can be made longer until no digit follows. -/
theorem exists_read?_iff : (∃ p, read? t = some p) ↔ HasForm t := by
  constructor
  · rintro ⟨p, hp⟩
    obtain ⟨w₁, w₂, tag, w₃, digits, rest, h, rfl, -⟩ := read?_eq_some_iff.1 hp
    exact ⟨w₁, w₂, tag, w₃, digits, rest, rfl, h.beforeWord, h.beforeBrace, h.beforeKey, ⟨h.tag_ne, h.tag⟩,
      h.digits_ne, h.digits⟩
  · rintro ⟨w₁, w₂, tag, w₃, digits, rest, rfl, h₁, h₂, h₃, ⟨htagne, htag⟩, hdigitsne, hdigits⟩
    have hlonger : lineOf w₁ w₂ tag w₃ digits rest =
        lineOf w₁ w₂ tag w₃ (digits ++ rest.takeWhile Char.isDigit) (rest.dropWhile Char.isDigit) := by
      unfold lineOf
      rw [List.append_assoc digits, List.takeWhile_append_dropWhile]
    rw [hlonger]
    refine ⟨_, read?_lineOf ⟨h₁, h₂, h₃, htagne, htag, by simp [hdigitsne], ?_, head?_dropWhile rest⟩⟩
    rw [List.forall_mem_append]
    exact ⟨hdigits, fun c hc => List.mem_takeWhile_imp hc⟩

/-- What is read from a trimmed line are the longest pieces. -/
theorem exists_takes_of_read? (ht : trim t = t) (h : read? t = some p) :
    ∃ behindDigits behindAlias behindMark, p.Takes t behindDigits behindAlias behindMark := by
  have htext := text_of_read? h
  have hnote := trim_note h ht
  obtain ⟨w₁, w₂, tag, w₃, digits, rest, hparts, hline, rfl⟩ := read?_eq_some_iff.1 h
  have hmark := takeMark_append (takeAlias rest).2
  have htrim : trimStart (takeMark (takeAlias rest).2).2 = trim (takeMark (takeAlias rest).2).2 := by
    rw [← trim_trimStart]
    exact hnote.symm
  refine ⟨rest, (takeAlias rest).2, (takeMark (takeAlias rest).2).2, hline, hparts, ?_, ?_, ?_, ?_, hmark.symm,
    forall_isBlank_iff.1 fun _ => isBlank_of_mem_indent, htrim, (indent_append_trimStart _).symm, ?_, htext⟩
  · rcases takeAlias_cases rest with ⟨halias, hnone⟩ | ⟨word, behind, halias, rfl, hne, hword, -⟩
    · simpa [ofParts, halias] using hnone
    · obtain ⟨c, cs, rfl⟩ := List.exists_cons_of_ne_nil hne
      simp only [ofParts, halias, Option.isSome_some, true_iff]
      exact ⟨c, cs ++ behind, rfl, hword c List.mem_cons_self⟩
  · intro word hsome
    rcases takeAlias_cases rest with ⟨halias, -⟩ | ⟨word', behind, halias, hrest, hne, hword, hstop⟩
    · simp [ofParts, halias] at hsome
    · simp only [ofParts, halias, Option.some.injEq] at hsome
      rw [halias, ← hsome]
      exact ⟨hrest, hne, hword, hstop⟩
  · intro hnone
    rcases takeAlias_cases rest with ⟨halias, -⟩ | ⟨word, behind, halias, -⟩
    · rw [halias]
    · simp [ofParts, halias] at hnone
  · rcases takeMark_cases (takeAlias rest).2 with ⟨htake, hhead⟩ | ⟨behind, htake, hhead⟩
    · simp [ofParts, htake, hhead]
    · simp only [ofParts, htake, true_iff]
      rw [hhead]
      rfl
  · unfold ParamLine.description
    rw [← htrim]
    rfl

/-- Pieces that are the longest ones are what is read. -/
theorem Takes.read?_eq {behindDigits behindAlias behindMark : List Char}
    (h : p.Takes t behindDigits behindAlias behindMark) : read? t = some p := by
  have halias : takeAlias behindDigits = (p.aliasName, behindAlias) := by
    cases hname : p.aliasName with
    | none =>
      rw [h.noAlias hname]
      rcases takeAlias_cases behindDigits with ⟨htake, -⟩ | ⟨word, behind, -, rfl, hne, hword, -⟩
      · exact htake
      · -- then there is a word behind a colon, and the line has an alias
        obtain ⟨c, cs, rfl⟩ := List.exists_cons_of_ne_nil hne
        have hsome := h.hasAlias.2 ⟨c, cs ++ behind, rfl, hword c List.mem_cons_self⟩
        rw [hname] at hsome
        cases hsome
    | some word =>
      obtain ⟨hbehind, hne, hword, hstop⟩ := h.aliasName word hname
      rw [hbehind]
      exact takeAlias_word hne (forall_isWord_iff.2 hword) fun c hc => isWord_eq_false_iff.2 (hstop c hc)
  have hmark : takeMark behindAlias = (p.optional, behindMark) := by
    have hbehind := h.mark
    cases hoptional : p.optional with
    | true =>
      rw [hoptional] at hbehind
      rw [hbehind]
      rfl
    | false =>
      rw [hoptional] at hbehind
      have hhead : behindAlias.head? ≠ some '?' := by
        intro hhead
        rw [h.optional.2 hhead] at hoptional
        cases hoptional
      rw [takeMark_of_head hhead, hbehind]
      rfl
  have hstop : ∀ c, p.note.head? = some c → isBlank c = false := by
    rw [h.note]
    exact (trim_eq_self_iff.1 (trim_trim behindMark)).1
  have hofParts : p = ofParts p.beforeWord p.beforeBrace p.tag p.beforeKey p.digits behindDigits := by
    have hbefore := indent_append_stop (forall_isBlank_iff.2 h.beforeNote) hstop
    have hnote := trimStart_append_stop (forall_isBlank_iff.2 h.beforeNote) hstop
    rw [← h.rest] at hbefore hnote
    simp only [ofParts, halias, hmark, hbefore, hnote]
  rw [h.line, read?_lineOf h.parts, ← hofParts]

/-- A trimmed line is a parameter line exactly if it has the form of one, and it is read as its longest pieces. -/
theorem read?_iff_takes (ht : trim t = t) :
    ((∃ p, read? t = some p) ↔ HasForm t) ∧
      ∀ p, read? t = some p ↔
        ∃ behindDigits behindAlias behindMark, p.Takes t behindDigits behindAlias behindMark := by
  refine ⟨exists_read?_iff, fun p => ⟨exists_takes_of_read? ht, ?_⟩⟩
  rintro ⟨behindDigits, behindAlias, behindMark, h⟩
  exact h.read?_eq

/-- A letter outside ASCII ends the alias, so the question mark behind it belongs to the description. -/
theorem read?_iff_takes_short_alias :
    let line := "--\u3000@param{Int}\u00a0$007:aé? x".toList
    let p : ParamLine := ⟨['\u3000'], [], ['I', 'n', 't'], ['\u00a0'], ['0', '0', '7'], some ['a'], false, [],
      ['é', '?', ' ', 'x']⟩
    trim line = line ∧ HasForm line ∧
      ∃ behindDigits behindAlias behindMark, p.Takes line behindDigits behindAlias behindMark := by
  intro line p
  have ht : trim line = line := by decide +kernel
  have hread : read? line = some p := by decide +kernel
  have htakes := read?_iff_takes ht
  exact ⟨ht, htakes.1.1 ⟨p, hread⟩, (htakes.2 p).1 hread⟩

end ParamLine

/-! ## Lines of a header -/

namespace SourceLine

variable {line line' : List Char}

/-- A line that a header skips or reads. -/
def BlankOrParam (line : List Char) : Prop :=
  (∀ c ∈ line, IsSpace c) ∨ ParamLine.HasForm (trim line)

theorem isHeader_iff : isHeader line = true ↔ BlankOrParam line := by
  unfold isHeader BlankOrParam
  rw [bne_iff_ne, ne_eq, read_eq_other_iff, not_and_or, not_not, trim_eq_nil_iff, forall_isBlank_iff,
    ← ne_eq, ← ParamLine.exists_read?_iff, Option.ne_none_iff_exists']

/-- The blanks around a line do not matter. -/
theorem blankOrParam_congr (h : trim line = trim line') : BlankOrParam line ↔ BlankOrParam line' := by
  unfold BlankOrParam
  rw [← forall_isBlank_iff, ← forall_isBlank_iff, ← trim_eq_nil_iff, ← trim_eq_nil_iff, h]

theorem trim_ne_nil (h : ¬ BlankOrParam line) : trim line ≠ [] := by
  intro hnil
  exact h (.inl (forall_isBlank_iff.1 (trim_eq_nil_iff.1 hnil)))

end SourceLine
end AnnotatedSql
