import AnnotatedSql.Source.ParamLine
import AnnotatedSql.Proofs.Text
/-!
# What a parameter line is

`ParamLine.read?_eq_some_iff` gives the grammar of parameter lines: two dashes, the keyword, a tag in
braces, a dollar sign and digits, with blanks allowed in three places, and then anything. The pieces
behind the digits are the longest ones (`ofParts`), and all pieces together are the line (`text_ofParts`).
-/

namespace AnnotatedSql.ParamLine

open Text

variable {s rest word : List Char}

/-! ## The alias and the question mark -/

/-- The alias of a line as it is written, the colon included. -/
def aliasText : Option (List Char) → List Char
  | some word => ':' :: word
  | none => []

/-- The question mark of a line as it is written. -/
def markText (optional : Bool) : List Char :=
  if optional then ['?'] else []

theorem takeAlias_colon (rest : List Char) :
    takeAlias (':' :: rest) =
      if rest.takeWhile isWord = [] then (none, ':' :: rest) else (some (rest.takeWhile isWord), rest.dropWhile isWord) := by
  simp only [takeAlias]
  split
  · rename_i h
    rw [if_pos h]
  · rename_i h
    rw [if_neg h]

theorem takeAlias_of_head (h : s.head? ≠ some ':') : takeAlias s = (none, s) := by
  unfold takeAlias
  split
  · exact absurd rfl h
  · rfl

theorem takeAlias_append (s : List Char) : aliasText (takeAlias s).1 ++ (takeAlias s).2 = s := by
  by_cases h : s.head? = some ':'
  · obtain ⟨rest, rfl⟩ := List.head?_eq_some_iff.1 h
    rw [takeAlias_colon]
    split
    · rfl
    · simp [aliasText]
  · rw [takeAlias_of_head h]
    rfl

/-- An alias is read up to the first character that belongs to no word. -/
theorem takeAlias_word (hne : word ≠ []) (hw : ∀ c ∈ word, isWord c = true)
    (hr : ∀ c, rest.head? = some c → isWord c = false) :
    takeAlias (':' :: (word ++ rest)) = (some word, rest) := by
  rw [takeAlias_colon, takeWhile_append_stop hw hr, dropWhile_append_stop hw hr, if_neg hne]

theorem takeMark_of_head (h : s.head? ≠ some '?') : takeMark s = (false, s) := by
  unfold takeMark
  split
  · exact absurd rfl h
  · rfl

theorem takeMark_append (s : List Char) : markText (takeMark s).1 ++ (takeMark s).2 = s := by
  by_cases h : s.head? = some '?'
  · obtain ⟨rest, rfl⟩ := List.head?_eq_some_iff.1 h
    rfl
  · rw [takeMark_of_head h]
    rfl

/-! ## The grammar -/

/-- The pieces of a line with the given blanks, tag and digits, where `rest` stands behind the digits. -/
def ofParts (beforeWord beforeBrace tag beforeKey digits rest : List Char) : ParamLine :=
  let behindAlias := (takeAlias rest).2
  let behindMark := (takeMark behindAlias).2
  { beforeWord, beforeBrace, tag, beforeKey, digits
    aliasName := (takeAlias rest).1
    optional := (takeMark behindAlias).1
    beforeNote := indent behindMark
    note := trimStart behindMark }

/-- A line put together from its blanks, tag, digits and what stands behind them. -/
def lineOf (beforeWord beforeBrace tag beforeKey digits rest : List Char) : List Char :=
  ['-', '-'] ++ (beforeWord ++ ("@param".toList ++ (beforeBrace ++ (['{'] ++ (tag ++ (['}'] ++
    (beforeKey ++ (['$'] ++ (digits ++ rest)))))))))

theorem keyword_eq : keyword = "@param".toList :=
  rfl

theorem text_eq (line : ParamLine) :
    line.text = line.beforeDollar ++ line.key ++ aliasText line.aliasName ++ markText line.optional
      ++ line.beforeNote ++ line.note := by
  unfold text aliasText markText
  cases line.aliasName <;> rfl

theorem text_ofParts (w₁ w₂ tag w₃ digits rest : List Char) :
    (ofParts w₁ w₂ tag w₃ digits rest).text = lineOf w₁ w₂ tag w₃ digits rest := by
  have htail : aliasText (takeAlias rest).1 ++ (markText (takeMark (takeAlias rest).2).1 ++
      (indent (takeMark (takeAlias rest).2).2 ++ trimStart (takeMark (takeAlias rest).2).2)) = rest := by
    rw [indent_append_trimStart, takeMark_append, takeAlias_append]
  rw [text_eq]
  simp only [ofParts, beforeDollar, beforeTag, keyword_eq, key, lineOf, List.append_assoc, List.cons_append, List.nil_append]
  rw [htail]

/-- The blanks, tag and digits of a parameter line: the tag and the digits are not empty, and the
digits end where no digit follows. -/
structure Parts (w₁ w₂ tag w₃ digits rest : List Char) : Prop where
  beforeWord : ∀ c ∈ w₁, IsSpace c
  beforeBrace : ∀ c ∈ w₂, IsSpace c
  beforeKey : ∀ c ∈ w₃, IsSpace c
  tag_ne : tag ≠ []
  tag : ∀ c ∈ tag, c.isAlphanum = true ∨ c = '_'
  digits_ne : digits ≠ []
  digits : ∀ c ∈ digits, c.isDigit = true
  longest : ∀ c, rest.head? = some c → c.isDigit = false

theorem read?_lineOf {w₁ w₂ tag w₃ digits rest : List Char} (h : Parts w₁ w₂ tag w₃ digits rest) :
    read? (lineOf w₁ w₂ tag w₃ digits rest) = some (ofParts w₁ w₂ tag w₃ digits rest) := by
  have hword (r : List Char) : ∀ c, (keyword ++ r).head? = some c → isBlank c = false := stop_cons (by decide)
  have hbrace (r : List Char) : ∀ c, (['{'] ++ r).head? = some c → isBlank c = false := stop_cons (by decide)
  have hclose (r : List Char) : ∀ c, (['}'] ++ r).head? = some c → isWord c = false := stop_cons (by decide)
  have hdollar (r : List Char) : ∀ c, (['$'] ++ r).head? = some c → isBlank c = false := stop_cons (by decide)
  have h₁ := forall_isBlank_iff.2 h.beforeWord
  have h₂ := forall_isBlank_iff.2 h.beforeBrace
  have h₃ := forall_isBlank_iff.2 h.beforeKey
  have htag := forall_isWord_iff.2 h.tag
  unfold read? lineOf
  rw [← keyword_eq]
  -- every step of the reader stops in front of the piece that the next one looks for
  rw [after?_eq_some_iff.2 rfl]
  simp only [Option.bind_eq_bind, Option.bind_some]
  rw [trimStart_append_stop h₁ (hword _), after?_eq_some_iff.2 rfl, indent_append_stop h₁ (hword _)]
  simp only [Option.bind_some]
  rw [trimStart_append_stop h₂ (hbrace _), after?_eq_some_iff.2 rfl, indent_append_stop h₂ (hbrace _)]
  simp only [Option.bind_some]
  rw [dropWhile_append_stop htag (hclose _), takeWhile_append_stop htag (hclose _), after?_eq_some_iff.2 rfl]
  simp only [Option.bind_some]
  rw [trimStart_append_stop h₃ (hdollar _), after?_eq_some_iff.2 rfl, indent_append_stop h₃ (hdollar _)]
  simp only [Option.bind_some]
  rw [dropWhile_append_stop h.digits h.longest, takeWhile_append_stop h.digits h.longest,
    if_neg (by simp [h.tag_ne, h.digits_ne])]
  rfl

/-- A line is a parameter line when it is put together from such parts, and it is read as them. -/
theorem read?_eq_some_iff {line : List Char} {p : ParamLine} :
    read? line = some p ↔
      ∃ w₁ w₂ tag w₃ digits rest, Parts w₁ w₂ tag w₃ digits rest ∧
        line = lineOf w₁ w₂ tag w₃ digits rest ∧ p = ofParts w₁ w₂ tag w₃ digits rest := by
  constructor
  · intro h
    unfold read? at h
    simp only [Option.bind_eq_bind, Option.bind_eq_some_iff] at h
    obtain ⟨s₁, h₁, s₂, h₂, s₃, h₃, s₄, h₄, s₅, h₅, h⟩ := h
    rw [after?_eq_some_iff] at h₁ h₂ h₃ h₄ h₅
    split at h
    · cases h
    rename_i hne
    rw [not_or] at hne
    cases h
    have hindent (t : List Char) : ∀ c ∈ indent t, IsSpace c :=
      forall_isBlank_iff.1 fun _ => Text.isBlank_of_mem_indent
    refine ⟨indent s₁, indent s₂, s₃.takeWhile isWord, indent s₄, s₅.takeWhile Char.isDigit, s₅.dropWhile Char.isDigit,
      ⟨hindent s₁, hindent s₂, hindent s₄, hne.1, forall_isWord_iff.1 fun _ => List.mem_takeWhile_imp, hne.2,
        fun _ => List.mem_takeWhile_imp, head?_dropWhile s₅⟩, ?_, rfl⟩
    unfold lineOf
    rw [← keyword_eq, List.takeWhile_append_dropWhile, ← h₅, indent_append_trimStart, ← h₄,
      List.takeWhile_append_dropWhile, ← h₃, indent_append_trimStart, ← h₂, indent_append_trimStart, ← h₁]
  · rintro ⟨w₁, w₂, tag, w₃, digits, rest, hp, rfl, rfl⟩
    exact read?_lineOf hp

/-- The pieces of a parameter line leave nothing of it out. -/
theorem text_of_read? {line : List Char} {p : ParamLine} (h : read? line = some p) : p.text = line := by
  obtain ⟨w₁, w₂, tag, w₃, digits, rest, -, rfl, rfl⟩ := read?_eq_some_iff.1 h
  exact text_ofParts ..

end AnnotatedSql.ParamLine
