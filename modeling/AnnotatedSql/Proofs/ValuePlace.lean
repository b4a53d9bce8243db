import AnnotatedSql.Config.Place
import AnnotatedSql.Proofs.Header
/-!
# Where a value is found again

The value of a key is looked for in the first line that gives it one, and reported at the first place in that line where
its text stands (`Config.place?_reported`). That is the place of the value unless its text stands in front of it, or starts
with the equals sign, or is empty: then the span starts in front of the value. Lines without a value are never taken for
one with a value, so there is a span exactly when some line gives the key a value.
-/

namespace AnnotatedSql

open Text

namespace Text

variable {s t front rest mark line : List Char}

theorem byteLength_eq_zero_iff : byteLength s = 0 ↔ s = [] := by
  cases s with
  | nil => simp
  | cons c cs =>
    have := c.utf8Size_pos
    simp only [byteLength_cons, List.cons_ne_nil, iff_false]
    omega

/-- Of two starts of a text the one with no more bytes is a start of the other. -/
theorem exists_append_of_byteLength_le {before behind : List Char} (h : front ++ rest = before ++ behind)
    (hle : byteLength front ≤ byteLength before) : ∃ between, before = front ++ between ∧ rest = between ++ behind := by
  rcases List.append_eq_append_iff.1 h with ⟨between, hbefore, hrest⟩ | ⟨between, hfront, hbehind⟩
  · exact ⟨between, hbefore, hrest⟩
  · rw [hfront, byteLength_append] at hle
    have hnil : between = [] := byteLength_eq_zero_iff.1 (by omega)
    subst hnil
    exact ⟨[], by simpa using hfront.symm, by simpa using hbehind.symm⟩

/-- A text is cut at the first place where its mark stands. -/
theorem cut?_first {before behind : List Char} (h : line = before ++ mark ++ behind) :
    ∃ front rest, cut? mark line = some (front, rest) ∧
      ∀ before' behind', line = before' ++ mark ++ behind' → byteLength front ≤ byteLength before' := by
  induction line generalizing before with
  | nil =>
    obtain ⟨rfl, rfl, rfl⟩ : before = [] ∧ mark = [] ∧ behind = [] := by simpa using h.symm
    exact ⟨[], [], rfl, by simp⟩
  | cons c cs ih =>
    rw [cut?]
    split
    · rename_i rest hrest
      exact ⟨[], rest, rfl, by simp⟩
    · rename_i hnone
      -- the mark does not stand at the very start, so wherever it stands something is in front of it
      have hfront : ∀ before' behind', c :: cs = before' ++ mark ++ behind' →
          ∃ before'', before' = c :: before'' ∧ cs = before'' ++ mark ++ behind' := by
        intro before' behind' hcs
        cases before' with
        | nil =>
          rw [List.nil_append] at hcs
          rw [after?_eq_some_iff.2 hcs] at hnone
          cases hnone
        | cons d before'' =>
          cases hcs
          exact ⟨before'', rfl, rfl⟩
      obtain ⟨before'', -, hcs⟩ := hfront before behind h
      obtain ⟨front, rest, hcut, hleast⟩ := ih hcs
      refine ⟨c :: front, rest, by rw [hcut]; rfl, ?_⟩
      intro before' behind' hline
      obtain ⟨before'', rfl, hcs'⟩ := hfront before' behind' hline
      rw [byteLength_cons, byteLength_cons]
      exact Nat.add_le_add_left (hleast before'' behind' hcs') _

/-- Blanks that a text starts with lie in front of any other character of it. -/
theorem byteLength_indent_le {before behind : List Char} {c : Char} (hc : isBlank c = false) :
    byteLength (indent (before ++ c :: behind)) ≤ byteLength before := by
  have hstop : (c :: behind).takeWhile isBlank = [] := List.takeWhile_cons_of_neg (by simp [hc])
  have hindent : ∃ more, before = indent (before ++ c :: behind) ++ more := by
    unfold indent
    rw [List.takeWhile_append, hstop, List.append_nil]
    split
    · exact ⟨[], (List.append_nil _).symm⟩
    · exact ⟨before.dropWhile isBlank, List.takeWhile_append_dropWhile.symm⟩
  obtain ⟨more, hmore⟩ := hindent
  calc byteLength (indent (before ++ c :: behind))
    _ ≤ byteLength (indent (before ++ c :: behind) ++ more) := by
      rw [byteLength_append]
      exact Nat.le_add_right _ _
    _ = byteLength before := by rw [← hmore]

end Text

namespace Config

variable {key text : String} {k line front rest value : List Char} {lines : List (List Char)} {offset : Nat}
  {span : Span}

/-! ## Lines that give a value -/

/-- A part of a line that ends with the equals sign of a key: without the blanks in front it is the key, blanks and the
sign. -/
def EndsAtSign (key front : List Char) : Prop :=
  ∃ gap, (∀ c ∈ gap, isBlank c = true) ∧ trimStart front = key ++ gap ++ ['=']

/-- A line starts with a key and its equals sign. -/
def GivesValue (key line : List Char) : Prop :=
  ∃ front rest, line = front ++ rest ∧ EndsAtSign key front

theorem EndsAtSign.trim_ne_nil (h : EndsAtSign k front) : trim front ≠ [] := by
  obtain ⟨gap, -, hfront⟩ := h
  rw [Ne, trim_eq_nil_iff]
  intro hblank
  have hsign : '=' ∈ front := by
    rw [← indent_append_trimStart front, hfront]
    simp
  exact absurd (hblank '=' hsign) (by decide)

theorem EndsAtSign.byteLength_pos (h : EndsAtSign k front) : 0 < byteLength front := by
  refine Nat.pos_of_ne_zero fun hzero => h.trim_ne_nil ?_
  rw [byteLength_eq_zero_iff.1 hzero]
  rfl

/-- The value that a line gives is what follows the sign, without the blanks around it. -/
theorem valueIn?_eq_some_iff :
    valueIn? k line = some value ↔ ∃ front rest, line = front ++ rest ∧ EndsAtSign k front ∧ value = trim rest := by
  have hopen : valueIn? k line = some value ↔
      ∃ behind, trimStart line = k ++ behind ∧ ∃ rest, trimStart behind = ['='] ++ rest ∧ trim rest = value := by
    simp only [valueIn?, Option.bind_eq_bind, Option.bind_eq_some_iff, after?_eq_some_iff, Option.pure_def,
      Option.some.injEq]
  rw [hopen]
  constructor
  · rintro ⟨behind, hline, rest, hbehind, rfl⟩
    have htrimmed : trimStart line = (k ++ indent behind ++ ['=']) ++ rest := by
      rw [hline, List.append_assoc, List.append_assoc, ← hbehind, indent_append_trimStart]
    have hstart : ∀ c, (k ++ indent behind ++ ['=']).head? = some c → isBlank c = false := by
      intro c hc
      refine head?_dropWhile line c (?_ : (trimStart line).head? = some c)
      rw [htrimmed, List.head?_append, hc, Option.some_or]
    refine ⟨indent line ++ (k ++ indent behind ++ ['=']), rest, ?_, ⟨indent behind, fun c => isBlank_of_mem_indent, ?_⟩, rfl⟩
    · rw [List.append_assoc, ← htrimmed, indent_append_trimStart]
    · exact trimStart_append_stop (fun c => isBlank_of_mem_indent) hstart
  · rintro ⟨front, rest, rfl, hends, rfl⟩
    obtain ⟨gap, hgap, hfront⟩ := id hends
    refine ⟨gap ++ ('=' :: rest), ?_, rest, ?_, rfl⟩
    · rw [trimStart_append hends.trim_ne_nil, hfront]
      simp
    · exact trimStart_append_stop hgap (stop_cons (by decide))

theorem valueIn?_eq_none_iff : valueIn? k line = none ↔ ¬ GivesValue k line := by
  rw [Option.eq_none_iff_forall_ne_some]
  constructor
  · rintro h ⟨front, rest, hline, hends⟩
    exact h _ (valueIn?_eq_some_iff.2 ⟨front, rest, hline, hends, rfl⟩)
  · intro h value hvalue
    obtain ⟨front, rest, hline, hends, -⟩ := valueIn?_eq_some_iff.1 hvalue
    exact h ⟨front, rest, hline, hends⟩

/-! ## The first of some lines -/

theorem placeIn?_eq_none_iff : placeIn? k offset lines = none ↔ ∀ line ∈ lines, ¬ GivesValue k line := by
  induction lines generalizing offset with
  | nil => simp [placeIn?]
  | cons line lines ih =>
    rw [List.forall_mem_cons, ← @ih (offset + byteLength line + 1), placeIn?, ← valueIn?_eq_none_iff]
    cases valueIn? k line <;> simp

/-- The first line that gives a value decides. -/
theorem placeIn?_eq_some_iff :
    placeIn? k offset lines = some span ↔
      ∃ pre front rest post, lines = pre ++ (front ++ rest) :: post ∧ (∀ line ∈ pre, ¬ GivesValue k line) ∧
        EndsAtSign k front ∧
        span = ⟨offset + Header.lengthOf pre + firstPlace (front ++ rest) (trim rest), byteLength (trim rest)⟩ := by
  induction lines generalizing offset with
  | nil => simp [placeIn?]
  | cons line lines ih =>
    rw [placeIn?]
    constructor
    · intro h
      split at h
      · rename_i value hvalue
        cases h
        obtain ⟨front, rest, rfl, hends, rfl⟩ := valueIn?_eq_some_iff.1 hvalue
        exact ⟨[], front, rest, lines, rfl, by simp, hends, rfl⟩
      · rename_i hnone
        obtain ⟨pre, front, rest, post, rfl, hpre, hends, rfl⟩ := ih.1 h
        refine ⟨line :: pre, front, rest, post, rfl, List.forall_mem_cons.2 ⟨valueIn?_eq_none_iff.1 hnone, hpre⟩, hends, ?_⟩
        rw [Header.lengthOf_cons]
        congr 1
        omega
    · rintro ⟨pre, front, rest, post, hlines, hpre, hends, rfl⟩
      cases pre with
      | nil =>
        cases hlines
        rw [valueIn?_eq_some_iff.2 ⟨front, rest, rfl, hends, rfl⟩]
        rfl
      | cons first pre =>
        cases hlines
        rw [List.forall_mem_cons] at hpre
        rw [valueIn?_eq_none_iff.2 hpre.1]
        refine ih.2 ⟨pre, front, rest, post, rfl, hpre.2, hends, ?_⟩
        rw [Header.lengthOf_cons]
        congr 1
        omega

/-! ## The first place in a line -/

/-- The first place of a text in a line. -/
theorem firstPlace_of_append {before text behind : List Char} (h : line = before ++ text ++ behind) :
    ∃ front rest, line = front ++ text ++ rest ∧ firstPlace line text = byteLength front ∧
      ∀ before' behind', line = before' ++ text ++ behind' → byteLength front ≤ byteLength before' := by
  obtain ⟨front, rest, hcut, hleast⟩ := cut?_first h
  refine ⟨front, rest, eq_append_of_cut? hcut, ?_, hleast⟩
  unfold firstPlace
  rw [hcut]

/-- The first line of a text that gives a value to a key, cut behind its equals sign, and the lines around it. -/
structure FirstValue (key text : String) (pre : List (List Char)) (front rest : List Char) (post : List (List Char)) :
    Prop where
  lines : text.toList.splitOn '\n' = pre ++ (front ++ rest) :: post
  first : ∀ line ∈ pre, ¬ GivesValue key.toList line
  sign : EndsAtSign key.toList front

/-- The text of the value of a line stands in the line in front of the value: it starts there with the equals sign or
before it. An empty text stands everywhere. -/
def StandsEarlier (front rest : List Char) : Prop :=
  ∃ before behind, front ++ rest = before ++ trim rest ++ behind ∧ byteLength before < byteLength front

/-- What the span is that is found for a line behind others. -/
structure Reported (text : String) (pre : List (List Char)) (front rest : List Char) (span : Span) : Prop where
  covers : Covers text span (String.ofList (trim rest))
  starts : Header.lengthOf pre ≤ span.offset
  ends : span.offset + span.length ≤ Header.lengthOf pre + byteLength (front ++ rest)
  /-- It is the value behind the sign, without the blanks around it. -/
  value : ¬ StandsEarlier front rest →
    span = ⟨Header.lengthOf pre + byteLength front + byteLength (indent rest), byteLength (trim rest)⟩
  /-- It starts with the sign or in front of it. -/
  earlier : StandsEarlier front rest → span.offset < Header.lengthOf pre + byteLength front

/-- The value of a line in its own place. -/
theorem exists_append_value (front rest : List Char) :
    ∃ blanks, front ++ rest = (front ++ indent rest) ++ trim rest ++ blanks := by
  obtain ⟨blanks, -, hrest⟩ := exists_indent_append_trim rest
  refine ⟨blanks, ?_⟩
  conv_lhs => rw [hrest]
  simp

theorem EndsAtSign.standsEarlier_of_blank (h : EndsAtSign k front) (hrest : trim rest = []) :
    StandsEarlier front rest := by
  refine ⟨[], front ++ rest, by simp [hrest], ?_⟩
  rw [byteLength_nil]
  exact h.byteLength_pos

/-- Nothing but blanks stands between the sign and the value, so a place behind the sign is none in front of the value. -/
theorem EndsAtSign.firstPlace_eq (h : EndsAtSign k front) (hearlier : ¬ StandsEarlier front rest) :
    firstPlace (front ++ rest) (trim rest) = byteLength front + byteLength (indent rest) := by
  obtain ⟨blanks, hown⟩ := exists_append_value front rest
  obtain ⟨before, behind, hline, hplace, hleast⟩ := firstPlace_of_append hown
  have hle : byteLength before ≤ byteLength front + byteLength (indent rest) := by
    rw [← byteLength_append]
    exact hleast _ _ hown
  have hge : byteLength front ≤ byteLength before := Nat.le_of_not_lt fun hlt => hearlier ⟨before, behind, hline, hlt⟩
  obtain ⟨between, rfl, hbetween⟩ := exists_append_of_byteLength_le (hline.trans (List.append_assoc _ _ _)) hge
  cases hvalue : trim rest with
  | nil => exact absurd (h.standsEarlier_of_blank hvalue) hearlier
  | cons c value =>
    have hc : isBlank c = false := (trim_eq_self_iff.1 (trim_trim rest)).1 c (by rw [hvalue]; rfl)
    have hindent : byteLength (indent rest) ≤ byteLength between := by
      rw [hbetween, hvalue]
      exact byteLength_indent_le hc
    rw [byteLength_append] at hle hplace
    rw [← hvalue, hplace]
    omega

theorem FirstValue.reported {pre post : List (List Char)} (h : FirstValue key text pre front rest post) :
    Reported text pre front rest
      ⟨Header.lengthOf pre + firstPlace (front ++ rest) (trim rest), byteLength (trim rest)⟩ := by
  obtain ⟨blanks, hown⟩ := exists_append_value front rest
  obtain ⟨before, behind, hline, hplace, hleast⟩ := firstPlace_of_append hown
  refine ⟨?_, Nat.le_add_right _ _, ?_, fun hearlier => ?_, ?_⟩
  · have htext : text.toList =
        (pre.flatMap (· ++ ['\n']) ++ before) ++ trim rest ++ (behind ++ post.flatMap ('\n' :: ·)) := by
      rw [Header.source_eq_of_linesOf h.lines, hline]
      simp
    have hcovers := covers_of_append htext
    rwa [byteLength_append, ← hplace] at hcovers
  · dsimp only
    rw [hplace, hline, byteLength_append, byteLength_append]
    omega
  · rw [h.sign.firstPlace_eq hearlier, Nat.add_assoc]
  · rintro ⟨before', behind', hline', hlt⟩
    have hle := hleast before' behind' hline'
    dsimp only
    omega

/-- There is a span exactly if a line gives the key a value. It covers the text of that value in the first such line,
and is the place of the value itself unless the text also stands further to the left. -/
theorem place?_reported (key text : String) :
    (place? key text = none ↔ ∀ line ∈ text.toList.splitOn '\n', ¬ GivesValue key.toList line) ∧
      ∀ span, place? key text = some span →
        ∃ pre front rest post, FirstValue key text pre front rest post ∧ Reported text pre front rest span := by
  refine ⟨placeIn?_eq_none_iff, fun span h => ?_⟩
  obtain ⟨pre, front, rest, post, hlines, hfirst, hsign, rfl⟩ := placeIn?_eq_some_iff.1 h
  have hvalue : FirstValue key text pre front rest post := ⟨hlines, hfirst, hsign⟩
  rw [Nat.zero_add]
  exact ⟨pre, front, rest, post, hvalue, hvalue.reported⟩

/-- Here the key is the start of another one, and wide blanks and a carriage return stand around the value. -/
theorem place?_reported_wide_blanks :
    place? "export" "exporter = 1\n\u3000export\u2003=\u2003\"./x\"\r\nexport = 2" = some ⟨29, 5⟩ ∧
      ∃ pre front rest post,
        FirstValue "export" "exporter = 1\n\u3000export\u2003=\u2003\"./x\"\r\nexport = 2" pre front rest post ∧
        Reported "exporter = 1\n\u3000export\u2003=\u2003\"./x\"\r\nexport = 2" pre front rest ⟨29, 5⟩ := by
  have h : place? "export" "exporter = 1\n\u3000export\u2003=\u2003\"./x\"\r\nexport = 2" = some ⟨29, 5⟩ := by
    decide +kernel
  exact ⟨h, (place?_reported _ _).2 _ h⟩

/-- The value is a letter of the key here, and the span lies in the key. -/
theorem place?_in_key :
    place? "input" "input = n" = some ⟨1, 1⟩ ∧
      ¬ ∃ pre front rest post, FirstValue "input" "input = n" pre front rest post ∧
        Header.lengthOf pre + byteLength front ≤ 1 := by
  refine ⟨by decide +kernel, ?_⟩
  rintro ⟨pre, front, rest, post, h, hle⟩
  obtain ⟨gap, -, hfront⟩ := h.sign
  have hlength : byteLength (indent front ++ trimStart front) = byteLength front := by rw [indent_append_trimStart]
  have hkey : byteLength "input".toList = 5 := by decide
  rw [byteLength_append, hfront, byteLength_append, byteLength_append, hkey] at hlength
  omega

end Config
end AnnotatedSql
