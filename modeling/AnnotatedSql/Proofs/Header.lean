import AnnotatedSql.Proofs.HeaderLine
/-!
# Headers and bodies

A header is read when no line of it holds a mistake, and otherwise the mistake is that of the first line
that holds one (`Header.read_eq_error_iff_first`). The body is a stretch of the source: what stands in front
of it is the header and blanks, and only blanks stand behind it.
-/

namespace AnnotatedSql

open Text

namespace Header

variable {lines : List (List Char)} {start : Nat} {m : Mistake}

/-- The bytes that lines take up, each with the line feed behind it. -/
def lengthOf (lines : List (List Char)) : Nat :=
  byteLength (lines.flatMap (· ++ ['\n']))

/-- A source around one of its lines. -/
theorem source_eq_of_linesOf {source line : List Char} {pre post : List (List Char)}
    (h : linesOf source = pre ++ line :: post) :
    source = pre.flatMap (· ++ ['\n']) ++ line ++ post.flatMap ('\n' :: ·) := by
  rw [← intercalate_append_cons, ← h]
  exact (List.intercalate_splitOn '\n').symm

theorem lengthOf_cons (line : List Char) (lines : List (List Char)) :
    lengthOf (line :: lines) = byteLength line + 1 + lengthOf lines := by
  unfold lengthOf
  rw [List.flatMap_cons, byteLength_append, byteLength_append]
  rfl

theorem declarationsFrom_cons (start : Nat) (line : List Char) (lines : List (List Char)) :
    declarationsFrom start (line :: lines) =
      match SourceLine.declared start line with
      | .error m => .error m
      | .ok d => (declarationsFrom (start + byteLength line + 1) lines).map (d.toList ++ ·) := by
  have hnone : ∀ r : Except Mistake (List Declaration), r.map (([] : List Declaration) ++ ·) = r := by
    intro r
    cases r <;> rfl
  rw [declarationsFrom]
  unfold SourceLine.declared
  cases SourceLine.read line with
  | blank => exact (hnone _).symm
  | other => exact (hnone _).symm
  | param margin p =>
    dsimp only
    cases p.declaration (start + byteLength margin) <;> rfl

/-- Lines without mistakes declare what each of them declares, and the lines behind go on from there. -/
theorem declarationsFrom_append (h : ∀ line ∈ lines, SourceLine.Faultless line) (start : Nat) (rest : List (List Char)) :
    declarationsFrom start (lines ++ rest) =
      (declarationsFrom (start + lengthOf lines) rest).map (lines.filterMap SourceLine.declaration? ++ ·) := by
  induction lines generalizing start with
  | nil =>
    change declarationsFrom start rest = (declarationsFrom start rest).map ([] ++ ·)
    cases declarationsFrom start rest <;> rfl
  | cons line lines ih =>
    rw [List.forall_mem_cons] at h
    rw [List.cons_append, declarationsFrom_cons, h.1.declared_eq, ih h.2, lengthOf_cons]
    dsimp only
    rw [show start + byteLength line + 1 + lengthOf lines = start + (byteLength line + 1 + lengthOf lines) by omega]
    cases declarationsFrom (start + (byteLength line + 1 + lengthOf lines)) rest with
    | error m => rfl
    | ok ds => cases hd : SourceLine.declaration? line <;> simp [Except.map, hd]

theorem declarationsFrom_eq_ok (h : ∀ line ∈ lines, SourceLine.Faultless line) (start : Nat) :
    declarationsFrom start lines = .ok (lines.filterMap SourceLine.declaration?) := by
  have := declarationsFrom_append h start []
  rwa [List.append_nil, declarationsFrom, Except.map, List.append_nil] at this

/-- Without mistakes it is enough to know what each line declares. -/
theorem declarationsFrom_congr {lines' : List (List Char)} (h : ∀ line ∈ lines, SourceLine.Faultless line)
    (heq : lines'.map (SourceLine.declared 0) = lines.map (SourceLine.declared 0)) (start : Nat) :
    declarationsFrom start lines' = declarationsFrom start lines := by
  have h' : ∀ line' ∈ lines', SourceLine.Faultless line' := by
    intro line' hline'
    obtain ⟨line, hline, hsame⟩ := List.mem_map.1 (heq ▸ List.mem_map_of_mem hline')
    exact SourceLine.faultless_iff.2 ⟨_, hsame.symm.trans (h line hline)⟩
  rw [declarationsFrom_eq_ok h, declarationsFrom_eq_ok h']
  have hmap := congrArg (List.filterMap fun r => r.toOption.join) heq
  rw [List.filterMap_map, List.filterMap_map] at hmap
  exact congrArg Except.ok hmap

/-- The mistake is that of the first line that holds one. -/
theorem declarationsFrom_eq_error_iff :
    declarationsFrom start lines = .error m ↔
      ∃ pre line post, lines = pre ++ line :: post ∧ (∀ l ∈ pre, SourceLine.Faultless l) ∧
        SourceLine.declared (start + lengthOf pre) line = .error m := by
  constructor
  · intro h
    induction lines generalizing start with
    | nil => cases h
    | cons line lines ih =>
      rw [declarationsFrom_cons] at h
      rcases SourceLine.faultless_or_error line with hline | hline
      · -- the mistake is in a line behind, which starts where this one ends
        rw [hline.declared_eq] at h
        dsimp only at h
        have hrest : declarationsFrom (start + byteLength line + 1) lines = .error m := by
          cases hr : declarationsFrom (start + byteLength line + 1) lines with
          | ok ds => simp [hr, Except.map] at h
          | error m' => simpa [hr, Except.map] using h
        obtain ⟨pre, line', post, rfl, hpre, hm⟩ := ih hrest
        refine ⟨line :: pre, line', post, rfl, List.forall_mem_cons.2 ⟨hline, hpre⟩, ?_⟩
        rwa [lengthOf_cons, show start + (byteLength line + 1 + lengthOf pre) =
          start + byteLength line + 1 + lengthOf pre by omega]
      · obtain ⟨m', hm⟩ := hline start
        rw [hm] at h
        cases h
        exact ⟨[], line, lines, rfl, by simp, hm⟩
  · rintro ⟨pre, line, post, rfl, hpre, hm⟩
    rw [declarationsFrom_append hpre, declarationsFrom_cons, hm]
    rfl

theorem faultless_of_declarationsFrom {ds : List Declaration} (h : declarationsFrom start lines = .ok ds) :
    ∀ line ∈ lines, SourceLine.Faultless line := by
  induction lines generalizing start ds with
  | nil => simp
  | cons line lines ih =>
    rw [declarationsFrom_cons] at h
    rcases SourceLine.faultless_or_error line with hline | hline
    · rw [hline.declared_eq] at h
      dsimp only at h
      cases hr : declarationsFrom (start + byteLength line + 1) lines with
      | error m => simp [hr, Except.map] at h
      | ok rest => exact List.forall_mem_cons.2 ⟨hline, ih hr⟩
    · obtain ⟨m, hm⟩ := hline start
      rw [hm] at h
      cases h

theorem read_eq_ok_iff {source : List Char} {header : Header} :
    read source = .ok header ↔
      declarationsFrom 0 ((linesOf source).takeWhile SourceLine.isHeader) = .ok header.declarations ∧
      header.body = trim (remainder source) ∧
      header.bodyOffset = byteLength source - byteLength (remainder source) + byteLength (indent (remainder source)) := by
  obtain ⟨declarations, body, bodyOffset⟩ := header
  unfold read
  cases declarationsFrom 0 ((linesOf source).takeWhile SourceLine.isHeader) with
  | error m => simp [Except.map]
  | ok ds => simp [Except.map, eq_comm]

theorem read_eq_error_iff {source : List Char} {m : Mistake} :
    read source = .error m ↔ declarationsFrom 0 ((linesOf source).takeWhile SourceLine.isHeader) = .error m := by
  unfold read
  cases declarationsFrom 0 ((linesOf source).takeWhile SourceLine.isHeader) with
  | error m' => simp [Except.map]
  | ok ds => simp [Except.map]

/-- A header fails with the mistake of its first line that holds one. -/
theorem read_eq_error_iff_first {source : List Char} :
    read source = .error m ↔
      ∃ pre line post, linesOf source = pre ++ line :: post ∧
        (∀ l ∈ pre, SourceLine.isHeader l = true ∧ SourceLine.Faultless l) ∧
        SourceLine.declared (lengthOf pre) line = .error m := by
  rw [read_eq_error_iff, declarationsFrom_eq_error_iff]
  simp only [Nat.zero_add]
  constructor
  · rintro ⟨pre, line, post, hlines, hpre, hm⟩
    have hall : ∀ l ∈ pre ++ line :: post, SourceLine.isHeader l = true := by
      rw [← hlines]
      exact fun l hl => List.mem_takeWhile_imp hl
    refine ⟨pre, line, post ++ (linesOf source).dropWhile SourceLine.isHeader, ?_, fun l hl => ⟨hall l ?_, hpre l hl⟩, hm⟩
    · rw [← List.cons_append, ← List.append_assoc, ← hlines, List.takeWhile_append_dropWhile]
    · exact List.mem_append_left _ hl
  · rintro ⟨pre, line, post, hlines, hpre, hm⟩
    refine ⟨pre, line, post.takeWhile SourceLine.isHeader, ?_, fun l hl => (hpre l hl).2, hm⟩
    rw [hlines, List.takeWhile_append_of_pos fun l hl => (hpre l hl).1,
      List.takeWhile_cons_of_pos (SourceLine.isHeader_of_error hm)]

/-- Every declaration of a header is well formed. -/
theorem wellFormed_of_read {source : List Char} {header : Header} (h : read source = .ok header) :
    ∀ d ∈ header.declarations, d.WellFormed := by
  intro d hd
  obtain ⟨hds, -, -⟩ := read_eq_ok_iff.1 h
  rw [declarationsFrom_eq_ok (faultless_of_declarationsFrom hds), Except.ok.injEq] at hds
  rw [← hds] at hd
  obtain ⟨line, hline, hline'⟩ := List.mem_filterMap.1 hd
  obtain ⟨margin, p, place, hread, hdecl⟩ := SourceLine.exists_param_of_declaration? hline'
  have hmem := List.takeWhile_subset _ hline
  exact ParamLine.wellFormed_of_declaration (not_mem_of_mem_splitOn hmem) (SourceLine.read_eq_param_iff.1 hread).2 hdecl

/-! ## Where the body stands -/

/-- A source is header lines only, or what follows the header starts with its first other line. -/
theorem remainder_cases (source : List Char) :
    ((linesOf source).takeWhile SourceLine.isHeader = linesOf source ∧ remainder source = []) ∨
      ∃ line post, linesOf source = (linesOf source).takeWhile SourceLine.isHeader ++ line :: post ∧
        SourceLine.isHeader line = false ∧ remainder source = line ++ post.flatMap ('\n' :: ·) := by
  have hsplit := List.takeWhile_append_dropWhile (p := SourceLine.isHeader) (l := linesOf source)
  unfold remainder
  cases hrest : (linesOf source).dropWhile SourceLine.isHeader with
  | nil =>
    rw [hrest, List.append_nil] at hsplit
    exact .inl ⟨hsplit, rfl⟩
  | cons line post =>
    rw [hrest] at hsplit
    refine .inr ⟨line, post, hsplit.symm, ?_, ?_⟩
    · have hhead := List.head?_dropWhile_not SourceLine.isHeader (linesOf source)
      rw [hrest] at hhead
      simpa using hhead
    · rw [← List.nil_append (line :: post), intercalate_append_cons]
      rfl

/-- What follows the header is the end of the source, and only header lines stand in front of it. -/
theorem exists_append_remainder (source : List Char) :
    ∃ front, source = front ++ remainder source ∧
      ∀ c ∈ front, c = '\n' ∨ ∃ line ∈ (linesOf source).takeWhile SourceLine.isHeader, c ∈ line := by
  rcases remainder_cases source with ⟨hall, hrest⟩ | ⟨line, post, hlines, -, hrest⟩
  · refine ⟨source, by rw [hrest, List.append_nil], fun c hc => ?_⟩
    have hsource : source = ['\n'].intercalate (linesOf source) := (List.intercalate_splitOn '\n').symm
    rw [hsource] at hc
    rw [hall]
    exact (mem_of_mem_intercalate hc).imp_left List.mem_singleton.1
  · refine ⟨((linesOf source).takeWhile SourceLine.isHeader).flatMap (· ++ ['\n']), ?_, fun c hc => ?_⟩
    · rw [hrest, ← List.append_assoc]
      exact source_eq_of_linesOf hlines
    · obtain ⟨header, hheader, hc⟩ := List.mem_flatMap.1 hc
      rcases List.mem_append.1 hc with hc | hc
      · exact .inr ⟨header, hheader, hc⟩
      · exact .inl (List.mem_singleton.1 hc)

/-- Blank lines in front of a body are no part of it. -/
theorem trim_remainder {source : List Char}
    (h : ∀ line ∈ (linesOf source).takeWhile SourceLine.isHeader, SourceLine.read line = .blank) :
    trim (remainder source) = trim source := by
  obtain ⟨front, hsource, hfront⟩ := exists_append_remainder source
  conv_rhs => rw [hsource]
  refine (trim_append_left fun c hc => ?_).symm
  rcases hfront c hc with rfl | ⟨line, hline, hc⟩
  · decide
  · exact SourceLine.read_eq_blank_iff.1 (h line hline) c hc

/-- The body is the stretch of the source that starts at its offset, and blanks follow it. -/
theorem exists_append_body {source : List Char} {header : Header} (h : read source = .ok header) :
    ∃ before behind, source = before ++ header.body ++ behind ∧ byteLength before = header.bodyOffset ∧
      ∀ c ∈ behind, isBlank c = true := by
  obtain ⟨-, hbody, hoffset⟩ := read_eq_ok_iff.1 h
  obtain ⟨front, hfront, -⟩ := exists_append_remainder source
  obtain ⟨behind, hblank, hrest⟩ := exists_indent_append_trim (remainder source)
  refine ⟨front ++ indent (remainder source), behind, ?_, ?_, hblank⟩
  · rw [hbody]
    conv_lhs => rw [hfront, hrest]
    simp only [List.append_assoc]
  · have hlen := congrArg byteLength hfront
    rw [byteLength_append] at hlen
    rw [hoffset, byteLength_append, hlen]
    omega

end Header
end AnnotatedSql
