import AnnotatedSql.Proofs.Header
import AnnotatedSql.Proofs.LineGrammar
/-!
# Where a source is cut

The body of a source starts in its first line that is neither blank nor a parameter line, behind the blanks of that
line, and it ends in front of the blanks at the end of the source (`Header.cuts_of_read`). The first line of a body
is again such a line, so a body that is read as a source of its own is all body.
-/

namespace AnnotatedSql

open Text

namespace Header

variable {source line : List Char} {header : Header}

/-- How a header cuts a text. -/
structure Cuts (header : Header) (content : String) : Prop where
  inside : header.bodyOffset + byteLength header.body ≤ content.utf8ByteSize
  bytes : content.toByteArray.extract header.bodyOffset (header.bodyOffset + byteLength header.body) =
    (String.ofList header.body).toByteArray
  /-- The body starts in the first line that is neither blank nor a parameter line. -/
  inFront : ∃ pre rest, linesOf content.toList = pre ++ rest ∧ (∀ line ∈ pre, SourceLine.BlankOrParam line) ∧
    (header.body = [] → rest = []) ∧
    (header.body ≠ [] → ∃ line post, rest = line :: post ∧ ¬ SourceLine.BlankOrParam line ∧
      header.bodyOffset = lengthOf pre + byteLength (indent line))
  behind : ∃ before behind, content.toList = before ++ header.body ++ behind ∧
    byteLength before = header.bodyOffset ∧ ∀ c ∈ behind, IsSpace c
  trimmed : (∀ c, header.body.head? = some c → ¬ IsSpace c) ∧ ∀ c, header.body.getLast? = some c → ¬ IsSpace c
  firstLine : header.body ≠ [] → ∃ first rest, linesOf header.body = first :: rest ∧ ¬ SourceLine.BlankOrParam first
  empty : header.body = [] ↔ ∀ line ∈ linesOf content.toList, SourceLine.BlankOrParam line
  atEnd : header.body = [] → header.bodyOffset = content.utf8ByteSize
  /-- Read as a source of its own, the body declares nothing and is left as it is. -/
  again : ∃ again, read header.body = .ok again ∧ again.declarations = [] ∧
    repeatedNumbers (again.declarations.map (·.position)) = [] ∧ again.body = header.body ∧ again.bodyOffset = 0

/-! ## The line in which the body starts -/

/-- A source is header lines only, or its first other line is where the body starts. -/
theorem body_cases (h : read source = .ok header) :
    ((∀ line ∈ linesOf source, SourceLine.BlankOrParam line) ∧ header.body = [] ∧
      header.bodyOffset = byteLength source) ∨
    ∃ pre line post, linesOf source = pre ++ line :: post ∧ (∀ l ∈ pre, SourceLine.BlankOrParam l) ∧
      ¬ SourceLine.BlankOrParam line ∧ header.body = trim (line ++ post.flatMap ('\n' :: ·)) ∧
      header.bodyOffset = lengthOf pre + byteLength (indent line) := by
  obtain ⟨-, hbody, hoffset⟩ := read_eq_ok_iff.1 h
  have hpre : ∀ l ∈ (linesOf source).takeWhile SourceLine.isHeader, SourceLine.BlankOrParam l :=
    fun l hl => SourceLine.isHeader_iff.1 (List.mem_takeWhile_imp hl)
  rcases remainder_cases source with ⟨hall, hrest⟩ | ⟨line, post, hlines, hother, hrest⟩
  · rw [hall] at hpre
    rw [hrest] at hbody hoffset
    exact .inl ⟨hpre, hbody, hoffset⟩
  · have hstop : ¬ SourceLine.BlankOrParam line := by
      rw [← SourceLine.isHeader_iff, hother]
      exact Bool.false_ne_true
    have hlength : byteLength source =
        lengthOf ((linesOf source).takeWhile SourceLine.isHeader) + byteLength (remainder source) := by
      conv_lhs => rw [source_eq_of_linesOf hlines]
      rw [hrest, List.append_assoc, byteLength_append]
      rfl
    refine .inr ⟨_, line, post, hlines, hpre, hstop, hrest ▸ hbody, ?_⟩
    rw [hoffset, hlength, Nat.add_sub_cancel, hrest, indent_append (SourceLine.trim_ne_nil hstop)]

/-- A text that holds no line feed is the first line, if nothing or a line feed follows it. -/
theorem exists_linesOf_append {text more : List Char} (htext : '\n' ∉ text) (hmore : ∀ c, more.head? = some c → c = '\n') :
    ∃ rest, linesOf (text ++ more) = text :: rest := by
  cases more with
  | nil =>
    rw [List.append_nil]
    exact ⟨[], List.splitOn_eq_singleton htext⟩
  | cons c cs =>
    rw [hmore c rfl]
    exact ⟨linesOf cs, List.splitOn_append_cons_self_of_not_mem htext cs⟩

/-- Trimming lines that start with one that is not blank leaves a first line that differs from it in blanks only. -/
theorem exists_first_line (hline : '\n' ∉ line) (hne : trim line ≠ []) (post : List (List Char)) :
    ∃ first rest, linesOf (trim (line ++ post.flatMap ('\n' :: ·))) = first :: rest ∧ trim first = trim line := by
  have hnewline : '\n' ∉ trimStart line := fun h => hline (List.dropWhile_subset _ h)
  have htrim : trim (line ++ post.flatMap ('\n' :: ·)) = trimEnd (trimStart line ++ post.flatMap ('\n' :: ·)) := by
    unfold trim
    rw [trimStart_append hne]
  obtain ⟨behind, hblank, hsplit⟩ := exists_trimEnd_append (trimStart line ++ post.flatMap ('\n' :: ·))
  rw [← htrim] at hsplit
  generalize trim (line ++ post.flatMap ('\n' :: ·)) = body at hsplit ⊢
  rcases List.append_eq_append_iff.1 hsplit with ⟨more, rfl, hpost⟩ | ⟨more, hfirst, hbehind⟩
  · -- the whole line is left, and what is left behind it starts with a line feed
    have hmore : ∀ c, more.head? = some c → c = '\n' := by
      intro c hc
      have hhead : (post.flatMap ('\n' :: ·)).head? = some c := by
        rw [hpost, List.head?_append, hc]
        rfl
      cases post with
      | nil => cases hhead
      | cons next post => exact (Option.some.inj hhead).symm
    obtain ⟨rest, hrest⟩ := exists_linesOf_append hnewline hmore
    exact ⟨trimStart line, rest, hrest, trim_trimStart line⟩
  · -- all that is left is a part of the line
    have hbody : '\n' ∉ body := by
      intro hmem
      rw [hfirst] at hnewline
      exact hnewline (List.mem_append_left _ hmem)
    have hmore : ∀ c ∈ more, isBlank c = true := by
      rw [hbehind, List.forall_mem_append] at hblank
      exact hblank.1
    refine ⟨body, [], List.splitOn_eq_singleton hbody, ?_⟩
    rw [← trim_trimStart line, hfirst, trim_append_right hmore]

/-- A trimmed text whose first line is neither blank nor a parameter line is all body. -/
theorem read_of_firstLine {first : List Char} {rest : List (List Char)} (htrim : trim source = source)
    (hlines : linesOf source = first :: rest) (hfirst : ¬ SourceLine.BlankOrParam first) :
    read source = .ok ⟨[], source, 0⟩ := by
  rw [← SourceLine.isHeader_iff] at hfirst
  have hremainder : remainder source = source := by
    unfold remainder
    rw [hlines, List.dropWhile_cons_of_neg hfirst, ← hlines]
    exact List.intercalate_splitOn '\n'
  have hindent : indent source = [] := indent_append_stop (s := []) (by simp) (trim_eq_self_iff.1 htrim).1
  rw [read_eq_ok_iff, hremainder, hlines, List.takeWhile_cons_of_neg hfirst, hindent, Nat.sub_self]
  exact ⟨rfl, htrim.symm, rfl⟩

/-- Every header that is read cuts its source so. -/
theorem cuts_of_read {content : String} (h : read content.toList = .ok header) : header.Cuts content := by
  have hsize : content.utf8ByteSize = byteLength content.toList := by
    rw [← utf8ByteSize_ofList, String.ofList_toList]
  obtain ⟨before, behind, hsource, hbefore, hblank⟩ := exists_append_body h
  have htrim : trim header.body = header.body := by
    rw [(read_eq_ok_iff.1 h).2.1]
    exact trim_trim _
  have hends : (∀ c, header.body.head? = some c → ¬ IsSpace c) ∧ ∀ c, header.body.getLast? = some c → ¬ IsSpace c := by
    simpa only [isBlank_eq_false_iff] using trim_eq_self_iff.1 htrim
  have hinside : header.bodyOffset + byteLength header.body ≤ content.utf8ByteSize := by
    rw [hsize, hsource, byteLength_append, byteLength_append]
    omega
  have hbytes : content.toByteArray.extract header.bodyOffset (header.bodyOffset + byteLength header.body) =
      (String.ofList header.body).toByteArray := by
    rw [← hbefore]
    exact extract_toByteArray hsource
  rcases body_cases h with ⟨hall, hbody, hoffset⟩ | ⟨pre, line, post, hlines, hpre, hline, hbody, hoffset⟩
  · have hread : read header.body = .ok ⟨[], header.body, 0⟩ := by
      rw [hbody]
      decide
    exact {
      inside := hinside
      bytes := hbytes
      inFront := ⟨_, [], (List.append_nil _).symm, hall, fun _ => rfl, fun hne => absurd hbody hne⟩
      behind := ⟨before, behind, hsource, hbefore, forall_isBlank_iff.1 hblank⟩
      trimmed := hends
      firstLine := fun hne => absurd hbody hne
      empty := iff_of_true hbody hall
      atEnd := fun _ => hoffset.trans hsize.symm
      again := ⟨_, hread, rfl, rfl, rfl, rfl⟩ }
  · have hmem : line ∈ linesOf content.toList := by
      rw [hlines]
      exact List.mem_append_right _ List.mem_cons_self
    obtain ⟨first, rest, hfirst, hsame⟩ :=
      exists_first_line (not_mem_of_mem_splitOn hmem) (SourceLine.trim_ne_nil hline) post
    rw [← hbody] at hfirst
    have hstop : ¬ SourceLine.BlankOrParam first := by
      rwa [SourceLine.blankOrParam_congr hsame]
    have hne : header.body ≠ [] := by
      intro hnil
      rw [hnil] at hfirst
      cases hfirst
      exact hstop (.inl (by simp))
    exact {
      inside := hinside
      bytes := hbytes
      inFront := ⟨pre, line :: post, hlines, hpre, fun hnil => absurd hnil hne,
        fun _ => ⟨line, post, rfl, hline, hoffset⟩⟩
      behind := ⟨before, behind, hsource, hbefore, forall_isBlank_iff.1 hblank⟩
      trimmed := hends
      firstLine := fun _ => ⟨first, rest, hfirst, hstop⟩
      empty := iff_of_false hne fun hall => hline (hall line hmem)
      atEnd := fun hnil => absurd hnil hne
      again := ⟨_, read_of_firstLine htrim hfirst hstop, rfl, rfl, rfl, rfl⟩ }

/-- A body whose first line lacks the braces of a parameter line, between blanks of several bytes. -/
theorem cuts_of_read_no_braces :
    let content := "\u3000\n\u00a0--@param {Int} $1:id é\n \r\n\u2003-- @param Int $2\u00a0\n--@param {Int} $2\n\u3000 "
    let header : Header := {
      declarations := [⟨1, .int, some "id", false, some "é"⟩]
      body := "-- @param Int $2\u00a0\n--@param {Int} $2".toList
      bodyOffset := 36 }
    read content.toList = .ok header ∧ header.Cuts content := by
  intro content header
  have hread : read content.toList = .ok header := by decide +kernel
  exact ⟨hread, cuts_of_read hread⟩

end Header
end AnnotatedSql
