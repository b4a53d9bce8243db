import AnnotatedSql.Proofs.Header
import AnnotatedSql.Proofs.MistakeSpan
import AnnotatedSql.Proofs.Rewriting
/-!
# Line endings

Lines may end with a carriage return and a line feed as well as with a line feed alone. A source is read
the same either way: its code has the line endings of its body, and the span of a mistake moves by one byte
for each line feed in front of it.
-/

namespace AnnotatedSql

namespace Text

variable {s t : List Char} {c : Char}

/-- A text with a carriage return put in front of every line feed. -/
def crlf : List Char → List Char
  | [] => []
  | c :: cs => if c = '\n' then '\r' :: '\n' :: crlf cs else c :: crlf cs

/-- The line feeds among the first `n` bytes of a text. -/
def feedsBefore (n : Nat) : List Char → Nat
  | [] => 0
  | c :: cs =>
    if c.utf8Size ≤ n then (if c = '\n' then 1 else 0) + feedsBefore (n - c.utf8Size) cs else 0

theorem crlf_cons_of_ne (h : c ≠ '\n') : crlf (c :: s) = c :: crlf s :=
  if_neg h

theorem crlf_newline (s : List Char) : crlf ('\n' :: s) = '\r' :: '\n' :: crlf s := rfl

theorem crlf_append (s t : List Char) : crlf (s ++ t) = crlf s ++ crlf t := by
  induction s with
  | nil => rfl
  | cons c s ih =>
    by_cases hc : c = '\n'
    · subst hc
      simp [crlf_newline, ih]
    · simp [crlf_cons_of_ne hc, ih]

theorem crlf_eq_self (h : '\n' ∉ s) : crlf s = s := by
  induction s with
  | nil => rfl
  | cons c s ih =>
    rw [List.mem_cons, not_or] at h
    rw [crlf_cons_of_ne (Ne.symm h.1), ih h.2]

theorem crlf_eq_nil_iff : crlf s = [] ↔ s = [] := by
  cases s with
  | nil => simp [crlf]
  | cons c s => by_cases hc : c = '\n' <;> simp [crlf, hc]

theorem byteLength_crlf (s : List Char) : byteLength (crlf s) = byteLength s + s.count '\n' := by
  induction s with
  | nil => rfl
  | cons c s ih =>
    by_cases hc : c = '\n'
    · subst hc
      rw [crlf_newline, byteLength_cons, byteLength_cons, byteLength_cons, ih, List.count_cons_self]
      have : ('\r' : Char).utf8Size = 1 := rfl
      omega
    · rw [crlf_cons_of_ne hc, byteLength_cons, byteLength_cons, ih, List.count_cons_of_ne hc, Nat.add_assoc]

theorem feedsBefore_append (s t : List Char) : feedsBefore (byteLength s) (s ++ t) = s.count '\n' := by
  induction s with
  | nil =>
    cases t with
    | nil => rfl
    | cons c t =>
      rw [List.nil_append, feedsBefore, byteLength_nil, if_neg (Nat.not_le.2 c.utf8Size_pos)]
      rfl
  | cons c s ih =>
    rw [List.cons_append, feedsBefore, byteLength_cons, if_pos (Nat.le_add_right _ _), Nat.add_sub_cancel_left, ih,
      List.count_cons]
    by_cases hc : c = '\n' <;> simp [hc, Nat.add_comm]

/-! ## Blanks -/

theorem isBlank_of_mem_crlf (h : ∀ c ∈ s, isBlank c = true) : ∀ c ∈ crlf s, isBlank c = true := by
  induction s with
  | nil => simp [crlf]
  | cons d s ih =>
    rw [List.forall_mem_cons] at h
    by_cases hd : d = '\n'
    · subst hd
      rw [crlf_newline, List.forall_mem_cons, List.forall_mem_cons]
      exact ⟨by decide, by decide, ih h.2⟩
    · rw [crlf_cons_of_ne hd, List.forall_mem_cons]
      exact ⟨h.1, ih h.2⟩

/-- Only a carriage return can take the place of the first character, and it takes that of a line feed. -/
theorem head?_crlf (s : List Char) : (crlf s).head? = s.head? ∨ (crlf s).head? = some '\r' ∧ s.head? = some '\n' := by
  cases s with
  | nil => exact .inl rfl
  | cons c s =>
    by_cases hc : c = '\n'
    · subst hc
      exact .inr ⟨rfl, rfl⟩
    · rw [crlf_cons_of_ne hc]
      exact .inl rfl

theorem head?_crlf_not_isBlank (h : ∀ c, s.head? = some c → isBlank c = false) :
    ∀ c, (crlf s).head? = some c → isBlank c = false := by
  intro c hc
  rcases head?_crlf s with heq | ⟨-, hnewline⟩
  · exact h c (heq ▸ hc)
  · exact absurd (h '\n' hnewline) (by decide)

theorem getLast?_crlf (s : List Char) : (crlf s).getLast? = s.getLast? := by
  rcases List.eq_nil_or_concat s with rfl | ⟨s, c, rfl⟩
  · rfl
  · rw [List.concat_eq_append, crlf_append]
    by_cases hc : c = '\n'
    · subst hc
      simp [crlf]
    · simp [crlf, hc]

theorem indent_crlf (s : List Char) : indent (crlf s) = crlf (indent s) := by
  conv_lhs => rw [← indent_append_trimStart s, crlf_append]
  apply indent_append_stop
  · exact isBlank_of_mem_crlf fun _ => isBlank_of_mem_indent
  · exact head?_crlf_not_isBlank fun c hc => head?_dropWhile s c hc

theorem trim_crlf (s : List Char) : trim (crlf s) = crlf (trim s) := by
  obtain ⟨behind, hbehind, hs⟩ := exists_indent_append_trim s
  obtain ⟨hhead, hlast⟩ := trim_eq_self_iff.1 (trim_trim s)
  conv_lhs => rw [hs, crlf_append, crlf_append]
  rw [trim_append_right (isBlank_of_mem_crlf hbehind),
    trim_append_left (isBlank_of_mem_crlf fun _ => isBlank_of_mem_indent)]
  refine trim_eq_self_iff.2 ⟨head?_crlf_not_isBlank hhead, fun c hc => hlast c ?_⟩
  rwa [getLast?_crlf] at hc

/-! ## Lines -/

/-- Lines with a carriage return at the end of each but the last one. -/
def endLines : List (List Char) → List (List Char)
  | [] => []
  | [line] => [line]
  | line :: next :: lines => (line ++ ['\r']) :: endLines (next :: lines)

theorem endLines_cons_of_ne_nil {lines : List (List Char)} (h : lines ≠ []) (line : List Char) :
    endLines (line :: lines) = (line ++ ['\r']) :: endLines lines := by
  cases lines with
  | nil => exact absurd rfl h
  | cons next lines => rfl

theorem endLines_modifyHead (c : Char) (lines : List (List Char)) :
    endLines (lines.modifyHead (c :: ·)) = (endLines lines).modifyHead (c :: ·) := by
  rcases lines with - | ⟨line, - | ⟨next, lines⟩⟩ <;> rfl

theorem splitOn_crlf (s : List Char) : (crlf s).splitOn '\n' = endLines (s.splitOn '\n') := by
  induction s with
  | nil => rfl
  | cons c s ih =>
    by_cases hc : c = '\n'
    · subst hc
      rw [crlf_newline, List.splitOn_cons_eq_if_modifyHead, if_neg (by decide), List.splitOn_cons_eq_if_modifyHead,
        if_pos (by decide), List.splitOn_cons_eq_if_modifyHead, if_pos (by decide), ih,
        endLines_cons_of_ne_nil (List.splitOn_ne_nil '\n' s)]
      rfl
    · rw [crlf_cons_of_ne hc, List.splitOn_cons_eq_if_modifyHead, if_neg (by simpa using hc),
        List.splitOn_cons_eq_if_modifyHead, if_neg (by simpa using hc), ih, endLines_modifyHead]

theorem intercalate_endLines {lines : List (List Char)} (h : ∀ line ∈ lines, '\n' ∉ line) :
    ['\n'].intercalate (endLines lines) = crlf (['\n'].intercalate lines) := by
  induction lines with
  | nil => rfl
  | cons line lines ih =>
    rw [List.forall_mem_cons] at h
    cases lines with
    | nil => simp [endLines, crlf_eq_self h.1]
    | cons next lines =>
      have hne : endLines (next :: lines) ≠ [] := by
        cases lines <;> simp [endLines]
      rw [endLines, List.intercalate_cons_of_ne_nil hne, ih h.2, List.intercalate_cons_cons, crlf_append, crlf_append,
        crlf_eq_self h.1]
      simp [crlf]

theorem endLines_append {lines : List (List Char)} (h : lines ≠ []) (pre : List (List Char)) :
    endLines (pre ++ lines) = pre.map (· ++ ['\r']) ++ endLines lines := by
  induction pre with
  | nil => rfl
  | cons line pre ih =>
    rw [List.cons_append, endLines_cons_of_ne_nil (by simp [h]), ih]
    rfl

theorem isBlank_of_mem_return : ∀ c ∈ ['\r'], isBlank c = true := by
  intro c hc
  rw [List.mem_singleton.1 hc]
  rfl

/-- A line is the same but for a blank at its end. -/
theorem exists_endLines_cons (line : List Char) (lines : List (List Char)) :
    ∃ behind rest, (∀ c ∈ behind, isBlank c = true) ∧ endLines (line :: lines) = (line ++ behind) :: rest := by
  cases lines with
  | nil => exact ⟨[], [], by simp, by simp [endLines]⟩
  | cons next lines => exact ⟨['\r'], endLines (next :: lines), isBlank_of_mem_return, rfl⟩

theorem count_flatMap_lines {lines : List (List Char)} (h : ∀ line ∈ lines, '\n' ∉ line) :
    (lines.flatMap (· ++ ['\n'])).count '\n' = lines.length := by
  induction lines with
  | nil => rfl
  | cons line lines ih =>
    rw [List.forall_mem_cons] at h
    rw [List.flatMap_cons, List.count_append, List.count_append, ih h.2, List.count_eq_zero.2 h.1, List.length_cons]
    simp [Nat.add_comm]

end Text

open Text

/-! ## The header -/

namespace SourceLine

theorem declared_append_blank {behind : List Char} (h : ∀ c ∈ behind, isBlank c = true) (start : Nat) (line : List Char) :
    declared start (line ++ behind) = declared start line := by
  unfold declared
  rw [read_append_blank h]

theorem faultless_append_blank {line behind : List Char} (h : ∀ c ∈ behind, isBlank c = true) (hline : Faultless line) :
    Faultless (line ++ behind) := by
  refine faultless_iff.2 ⟨declaration? line, ?_⟩
  rw [declared_append_blank h]
  exact hline

theorem isHeader_append_blank {behind : List Char} (h : ∀ c ∈ behind, isBlank c = true) (line : List Char) :
    isHeader (line ++ behind) = isHeader line := by
  unfold isHeader
  rw [read_append_blank h]

end SourceLine

namespace Header

variable {source : List Char} {m : Mistake}

theorem linesOf_crlf (source : List Char) : linesOf (crlf source) = endLines (linesOf source) :=
  splitOn_crlf source

theorem takeWhile_isHeader_endLines (lines : List (List Char)) :
    ((endLines lines).takeWhile SourceLine.isHeader).map (SourceLine.declared 0) =
      (lines.takeWhile SourceLine.isHeader).map (SourceLine.declared 0) := by
  induction lines with
  | nil => rfl
  | cons line lines ih =>
    cases lines with
    | nil => rfl
    | cons next lines =>
      rw [endLines, List.takeWhile_cons, List.takeWhile_cons, SourceLine.isHeader_append_blank isBlank_of_mem_return]
      cases SourceLine.isHeader line with
      | false => rfl
      | true => simpa [SourceLine.declared_append_blank isBlank_of_mem_return] using ih

theorem dropWhile_isHeader_endLines (lines : List (List Char)) :
    (endLines lines).dropWhile SourceLine.isHeader = endLines (lines.dropWhile SourceLine.isHeader) := by
  induction lines with
  | nil => rfl
  | cons line lines ih =>
    cases lines with
    | nil => by_cases h : SourceLine.isHeader line = true <;> simp [endLines, h]
    | cons next lines =>
      rw [endLines, List.dropWhile_cons, List.dropWhile_cons, SourceLine.isHeader_append_blank isBlank_of_mem_return]
      cases SourceLine.isHeader line with
      | false => rfl
      | true => exact ih

theorem remainder_crlf (source : List Char) : remainder (crlf source) = crlf (remainder source) := by
  unfold remainder
  rw [linesOf_crlf, dropWhile_isHeader_endLines]
  refine intercalate_endLines fun line hline => ?_
  exact not_mem_of_mem_splitOn (List.dropWhile_subset _ hline)

/-- What a source declares does not depend on how its lines end. -/
theorem declarationsFrom_crlf {ds : List Declaration}
    (h : declarationsFrom 0 ((linesOf source).takeWhile SourceLine.isHeader) = .ok ds) :
    declarationsFrom 0 ((linesOf (crlf source)).takeWhile SourceLine.isHeader) = .ok ds := by
  have heq := takeWhile_isHeader_endLines (linesOf source)
  rw [← linesOf_crlf] at heq
  rw [declarationsFrom_congr (faultless_of_declarationsFrom h) heq, h]

theorem lengthOf_map_append (lines : List (List Char)) :
    lengthOf (lines.map (· ++ ['\r'])) = lengthOf lines + lines.length := by
  induction lines with
  | nil => rfl
  | cons line lines ih =>
    have hreturn : byteLength ['\r'] = 1 := rfl
    rw [List.map_cons, lengthOf_cons, lengthOf_cons, ih, byteLength_append, hreturn, List.length_cons]
    omega

theorem read_crlf_of_error (h : read source = .error m) :
    read (crlf source) = .error (m.shift (feedsBefore m.span.offset source)) := by
  obtain ⟨pre, line, post, hlines, hpre, hm⟩ := read_eq_error_iff_first.1 h
  have hfree : ∀ l ∈ pre ++ line :: post, '\n' ∉ l := by
    rw [← hlines]
    exact fun l => not_mem_of_mem_splitOn
  -- the line feeds in front of the mistake are those behind the lines in front of it
  have hfeeds : feedsBefore m.span.offset source = pre.length := by
    obtain ⟨⟨before, behind, hline, hspan⟩, -⟩ := SourceLine.marks_of_declared hm
    have hsource : source = (pre.flatMap (· ++ ['\n']) ++ before) ++
        (m.fault.text.toList ++ behind ++ post.flatMap ('\n' :: ·)) := by
      rw [source_eq_of_linesOf hlines, hline]
      simp
    have hoffset : m.span.offset = byteLength (pre.flatMap (· ++ ['\n']) ++ before) := by
      rw [hspan, byteLength_append]
      rfl
    have hbefore : '\n' ∉ before := by
      intro hmem
      exact hfree line (by simp) (hline ▸ by simp [hmem])
    rw [hoffset, hsource, feedsBefore_append, List.count_append, List.count_eq_zero.2 hbefore,
      count_flatMap_lines fun l hl => hfree l (List.mem_append_left _ hl), Nat.add_zero]
  -- the mistaken line may be the last one, which gets no carriage return
  obtain ⟨behind, rest, hblank, hend⟩ := exists_endLines_cons line post
  refine read_eq_error_iff_first.2 ⟨pre.map (· ++ ['\r']), line ++ behind, rest, ?_, ?_, ?_⟩
  · rw [linesOf_crlf, hlines, endLines_append (by simp), hend]
  · intro l' hl'
    obtain ⟨l, hl, rfl⟩ := List.mem_map.1 hl'
    refine ⟨(SourceLine.isHeader_append_blank isBlank_of_mem_return l).trans (hpre l hl).1, ?_⟩
    exact SourceLine.faultless_append_blank isBlank_of_mem_return (hpre l hl).2
  · rw [SourceLine.declared_append_blank hblank, lengthOf_map_append, SourceLine.declared_add, hm, hfeeds]
    rfl

/-- A header that is read is read the same, and its body starts as many bytes later as lines end in front
of it. -/
theorem read_crlf_of_ok {header : Header} (h : read source = .ok header) :
    read (crlf source) =
      .ok { header with
        body := crlf header.body
        bodyOffset := header.bodyOffset + feedsBefore header.bodyOffset source } := by
  obtain ⟨hds, hbody, hoffset⟩ := read_eq_ok_iff.1 h
  obtain ⟨front, hsource, -⟩ := exists_append_remainder source
  have hplace : header.bodyOffset = byteLength (front ++ indent (remainder source)) := by
    have hlen := congrArg byteLength hsource
    rw [byteLength_append] at hlen
    rw [hoffset, byteLength_append]
    omega
  have hfeeds : feedsBefore header.bodyOffset source = (front ++ indent (remainder source)).count '\n' := by
    have hsplit : source = front ++ indent (remainder source) ++ trimStart (remainder source) := by
      rw [List.append_assoc, indent_append_trimStart]
      exact hsource
    rw [hplace]
    exact (congrArg _ hsplit).trans (feedsBefore_append _ _)
  have hcrlf : byteLength (crlf source) = byteLength (crlf front) + byteLength (crlf (remainder source)) := by
    rw [← byteLength_append, ← crlf_append, ← hsource]
  refine read_eq_ok_iff.2 ⟨declarationsFrom_crlf hds, ?_, ?_⟩
  · rw [remainder_crlf, trim_crlf, hbody]
  · rw [hfeeds, remainder_crlf, indent_crlf, hcrlf, byteLength_crlf front, byteLength_crlf (indent _), hplace,
      byteLength_append, List.count_append]
    dsimp only
    omega

end Header

/-! ## The body -/

/-- A piece of a body as it stands when lines end with a carriage return and a line feed. -/
def Piece.crlf : Piece → List Piece
  | .literal c => (Text.crlf [c]).map .literal
  | .hole p => [.hole p]

namespace Piece

variable {pieces : List Piece}

theorem hole_mem_flatMap_crlf {p : Placeholder} : .hole p ∈ pieces.flatMap crlf ↔ .hole p ∈ pieces := by
  rw [List.mem_flatMap]
  constructor
  · rintro ⟨piece, hpiece, hmem⟩
    cases piece with
    | literal c => simp [crlf] at hmem
    | hole q =>
      rw [crlf, List.mem_singleton] at hmem
      rwa [hmem]
  · intro hmem
    exact ⟨.hole p, hmem, by simp [crlf]⟩

/-- Pieces that keep characters as they are, and bring no line feed in otherwise, make a text with the line
endings of the body. -/
theorem flatMap_crlf {f : Piece → List Char} (hliteral : ∀ c, f (.literal c) = [c])
    (hhole : ∀ p, .hole p ∈ pieces → '\n' ∉ f (.hole p)) :
    (pieces.flatMap crlf).flatMap f = Text.crlf (pieces.flatMap f) := by
  induction pieces with
  | nil => rfl
  | cons piece pieces ih =>
    rw [List.flatMap_cons, List.flatMap_append, List.flatMap_cons, crlf_append,
      ih fun p hp => hhole p (List.mem_cons_of_mem _ hp)]
    congr 1
    cases piece with
    | literal c =>
      rw [hliteral, crlf, List.flatMap_map]
      simp only [hliteral, List.flatMap_singleton']
    | hole p =>
      rw [crlf_eq_self (hhole p List.mem_cons_self), crlf]
      simp

end Piece

namespace Code

variable {parameters : Parameters} {start : Nat} {body code : List Char} {m : Mistake}

theorem isPlainAt_crlf {c : Char} {cs : List Char} (h : IsPlainAt c cs.head?) : IsPlainAt c (crlf cs).head? := by
  rcases head?_crlf cs with heq | ⟨heq, -⟩
  · rwa [heq]
  · refine ⟨h.1, fun _ d hd => ?_, fun _ d hd => ?_⟩ <;>
    · rw [heq] at hd
      cases hd
      decide

theorem isLongest_crlf {p : Placeholder} {behind : List Char} (h : p.IsLongest behind) : p.IsLongest (crlf behind) := by
  have hstop : ∀ q : Char → Bool, q '\r' = false → (∀ d, behind.head? = some d → q d = false) →
      ∀ d, (crlf behind).head? = some d → q d = false := by
    intro q hq hbehind d hd
    rcases head?_crlf behind with heq | ⟨heq, -⟩
    · exact hbehind d (heq ▸ hd)
    · rw [heq] at hd
      cases hd
      exact hq
  cases p with
  | position digits => exact ⟨h.1, h.2.1, hstop _ (by decide) h.2.2⟩
  | question => trivial
  | name word => exact ⟨h.1, h.2.1, hstop _ (by decide) h.2.2⟩

/-- The scanner finds the same placeholders however lines end. -/
theorem scan_crlf (body : List Char) : scan (crlf body) = (scan body).flatMap Piece.crlf := by
  fun_induction scan body with
  | case1 => rw [crlf, scan, List.flatMap_nil]
  | case2 c cs p rest htake _ ih =>
    have hlongest := Placeholder.isLongest_of_take? htake
    have htext : crlf (c :: cs) = p.text ++ crlf rest := by
      rw [Placeholder.eq_append_of_take? htake, crlf_append,
        crlf_eq_self (hlongest.not_mem_text (by decide) (by decide))]
    rw [htext, scan_of_take? (Placeholder.take?_text_append (isLongest_crlf hlongest)), ih]
    rfl
  | case3 c cs htake ih =>
    have hplain := isPlainAt_crlf (Placeholder.take?_eq_none_iff.1 htake)
    by_cases hc : c = '\n'
    · subst hc
      -- neither the carriage return nor the line feed starts a placeholder
      rw [crlf_newline, scan_of_plain (by simp [IsPlainAt]), scan_of_plain hplain, ih]
      rfl
    · rw [crlf_cons_of_ne hc, scan_of_plain hplain, ih, List.flatMap_cons, Piece.crlf, crlf_cons_of_ne hc]
      rfl

/-- The first placeholder that refers to nothing is the same, behind as many more bytes as lines end in front
of it. -/
theorem findMistake_crlf {kind : Placeholder → Bool} (n : Nat)
    (h : findMistake parameters kind start (scan body) = some m) :
    ∃ before behind, body = before ++ behind ∧ m.span.offset = start + byteLength before ∧
      findMistake parameters kind (start + n) (scan (crlf body)) = some (m.shift (n + before.count '\n')) := by
  obtain ⟨before, p, after, hscan, hbad, hbefore, rfl⟩ := findMistake_eq_some_iff_hole.1 h
  have hfree : ∀ q, .hole q ∈ before → '\n' ∉ q.text := by
    intro q hq
    have hmem : .hole q ∈ scan body := by
      rw [hscan]
      simp [hq]
    exact not_mem_text_of_mem_scan (by decide) (by decide) hmem
  refine ⟨before.flatMap Piece.text, (Piece.hole p :: after).flatMap Piece.text, ?_, rfl, ?_⟩
  · rw [← List.flatMap_append, ← hscan, flatMap_text_scan]
  · refine findMistake_eq_some_iff_hole.2 ⟨before.flatMap Piece.crlf, p, after.flatMap Piece.crlf, ?_, hbad, ?_, ?_⟩
    · rw [scan_crlf, hscan, List.flatMap_append]
      rfl
    · exact fun q hq => hbefore q (Piece.hole_mem_flatMap_crlf.1 hq)
    · rw [Piece.flatMap_crlf (fun c => rfl) hfree, byteLength_crlf]
      simp only [Mistake.shift, Mistake.mk.injEq, Span.mk.injEq, and_true, true_and]
      omega

theorem findMistake_crlf_of_none {kind : Placeholder → Bool} (start' : Nat)
    (h : findMistake parameters kind start (scan body) = none) :
    findMistake parameters kind start' (scan (crlf body)) = none := by
  rw [findMistake_eq_none_iff_hole] at h ⊢
  intro p hp
  rw [scan_crlf, Piece.hole_mem_flatMap_crlf] at hp
  exact h p hp

theorem ofBody_crlf_of_error (n : Nat) (h : ofBody parameters start body = .error m) :
    ∃ before behind, body = before ++ behind ∧ m.span.offset = start + byteLength before ∧
      ofBody parameters (start + n) (crlf body) = .error (m.shift (n + before.count '\n')) := by
  rcases ofBody_eq_error_iff.1 h with h | ⟨hnone, h⟩
  · obtain ⟨before, behind, hbody, hoffset, hm⟩ := findMistake_crlf n h
    exact ⟨before, behind, hbody, hoffset, ofBody_eq_error_iff.2 (.inl hm)⟩
  · obtain ⟨before, behind, hbody, hoffset, hm⟩ := findMistake_crlf n h
    exact ⟨before, behind, hbody, hoffset, ofBody_eq_error_iff.2 (.inr ⟨findMistake_crlf_of_none _ hnone, hm⟩)⟩

theorem escapeFirst_crlf (s : List Char) : escapeFirst (crlf s) = crlf (escapeFirst s) := by
  induction s with
  | nil => rfl
  | cons c s ih =>
    by_cases hc : c = '\n'
    · subst hc
      simp [crlf_newline, escapeFirst, backtick, ih]
    · by_cases hb : c = backtick
      · simp [escapeFirst, hb, crlf, backtick]
      · simp [crlf_cons_of_ne hc, escapeFirst, hb, ih]

theorem ofBody_crlf_of_ok (start' : Nat) (h : ofBody parameters start body = .ok code) :
    ofBody parameters start' (crlf body) = .ok (crlf code) := by
  have hfree : ∀ p, .hole p ∈ scan body → '\n' ∉ ofPiece parameters (.hole p) := fun p =>
    not_mem_ofPiece_of_mem_scan h (by decide) (by decide)
  obtain ⟨hresolved, hcode⟩ := ofBody_eq_ok_iff.1 h
  refine ofBody_eq_ok_iff.2 ⟨fun p hp => ?_, ?_⟩
  · rw [scan_crlf, Piece.hole_mem_flatMap_crlf] at hp
    exact hresolved p hp
  · rw [scan_crlf, Piece.flatMap_crlf (fun c => rfl) hfree, escapeFirst_crlf, hcode, crlf_append,
      crlf_cons_of_ne (by decide), crlf_eq_self (s := [backtick]) (by decide)]

end Code

/-! ## The whole source -/

/-- The same source with a carriage return in front of every line feed. -/
def SourceText.crlf (source : SourceText) : SourceText :=
  { source with content := String.ofList (Text.crlf source.content.toList) }

/-- A source is accepted however its lines end, with the same parameters and the same code up to its line
endings, and otherwise it is refused for the same mistake. The span of that moves by one byte for each line
that ends in front of it. -/
theorem Statement.ofSource_crlf (source : SourceText) :
    ofSource source.crlf =
      match ofSource source with
      | .ok s => .ok { s with code := String.ofList (Text.crlf s.code.toList) }
      | .error m => .error (m.shift (feedsBefore m.span.offset source.content.toList)) := by
  have hcontent : source.crlf.content.toList = Text.crlf source.content.toList := String.toList_ofList
  cases h : ofSource source with
  | error m =>
    dsimp only
    apply ofSource_eq_error_iff.2
    rw [hcontent]
    rcases ofSource_eq_error_iff.1 h with hread | ⟨header, hread, hbody⟩
    · exact .inl (Header.read_crlf_of_error hread)
    · obtain ⟨before, behind, hsplit, hoffset, hm⟩ :=
        Code.ofBody_crlf_of_error (feedsBefore header.bodyOffset source.content.toList) hbody
      obtain ⟨front, tail, hsource, hfront, -⟩ := Header.exists_append_body hread
      have hfeeds : feedsBefore m.span.offset source.content.toList =
          feedsBefore header.bodyOffset source.content.toList + before.count '\n' := by
        rw [hoffset, ← hfront, hsource, hsplit]
        have hone := feedsBefore_append front (before ++ behind ++ tail)
        have htwo := feedsBefore_append (front ++ before) (behind ++ tail)
        simp only [byteLength_append, List.append_assoc, List.count_append] at hone htwo ⊢
        rw [hone, htwo]
      -- the body has moved by the line feeds in front of it, and the mistake by those in the body as well
      rw [hfeeds]
      exact .inr ⟨_, Header.read_crlf_of_ok hread, hm⟩
  | ok s =>
    dsimp only
    apply ofSource_eq_ok_iff.2
    rw [hcontent]
    obtain ⟨header, hread, hname, hfile, hparameters, hrepeated, hbody, hcode⟩ := ofSource_eq_ok_iff.1 h
    refine ⟨_, Header.read_crlf_of_ok hread, hname, hfile, hparameters, hrepeated, ?_, ?_⟩
    · refine hbody.trans ?_
      rw [Bool.eq_iff_iff, bne_iff_ne, bne_iff_ne, ne_eq, ne_eq, crlf_eq_nil_iff]
    · rw [String.toList_ofList]
      exact Code.ofBody_crlf_of_ok _ hcode

example : Statement.ofSource (SourceText.crlf ⟨"q", "q.sql", "-- @param {Int} $1\nselect\n:id"⟩) =
    .error ⟨.unknownName "id", ⟨28, 3⟩⟩ := by
  decide +kernel

end AnnotatedSql
