import AnnotatedSql.Proofs.TemplateLiteral
import Mathlib.Data.List.Forall2
/-!
# What a script reads in the code

A script that reads the code of a statement finds the gaps of the body and a substitution for each of
its placeholders (`Segments.Substitutes`), as long as nothing but the first backtick needs a backslash.
Without backticks it finds them exactly when no backslash stands in front of a placeholder or the end,
and no dollar sign in front of a brace (`TemplateLiteral.Inert`).
-/

namespace AnnotatedSql

namespace TemplateLiteral

/-! ## The escaped backtick -/

section Escaping

variable {parameters : Parameters} {f : Placeholder → List Char} {pieces u v w : List Piece}

theorem Inert.append (hu : Inert u) (hv : Inert v) (hhead : v.head? ≠ some (.literal '{')) : Inert (u ++ v) := by
  induction hu with
  | nil => exact hv
  | hole p _ ih => exact .hole p ih
  | escaped c _ ih => exact .escaped c ih
  | @plain pieces c hslash hback hopen _ ih =>
    refine .plain hslash hback (fun hc => ?_) ih
    cases pieces with
    | nil => exact hhead
    | cons piece pieces => exact hopen hc

theorem inert_of_plain (hslash : .literal '\\' ∉ pieces) (hback : .literal Code.backtick ∉ pieces)
    (hopen : ¬ [.literal '$', .literal '{'] <:+: pieces) : Inert pieces := by
  induction pieces with
  | nil => exact .nil
  | cons piece pieces ih =>
    rw [List.mem_cons, not_or] at hslash hback
    rw [List.infix_cons_iff, not_or] at hopen
    have hinert := ih hslash.2 hback.2 hopen.2
    cases piece with
    | hole p => exact .hole p hinert
    | literal c =>
      refine .plain (fun hc => hslash.1 (by rw [hc])) (fun hc => hback.1 (by rw [hc])) (fun hc hhead => ?_) hinert
      refine hopen.1 (List.cons_prefix_cons.2 ⟨by rw [hc], ?_⟩)
      cases pieces with
      | nil => cases hhead
      | cons next pieces =>
        cases hhead
        simp

theorem unescape_append (hslash : .literal '\\' ∉ u) : unescape (u ++ v) = u ++ unescape v := by
  induction u with
  | nil => rfl
  | cons piece u ih =>
    rw [List.mem_cons, not_or] at hslash
    rw [List.cons_append, unescape.eq_3 _ _ (fun c pieces hpiece => absurd hpiece.symm hslash.1), ih hslash.2,
      List.cons_append]

theorem unescape_eq_self (hslash : .literal '\\' ∉ pieces) : unescape pieces = pieces := by
  simpa [unescape] using unescape_append (v := []) hslash

theorem items_unescape (pieces : List Piece) :
    (Segments.ofPieces (unescape pieces)).items = (Segments.ofPieces pieces).items := by
  induction pieces using unescape.induct with
  | case1 => rfl
  | case2 c pieces ih => simpa [unescape, Segments.ofPieces] using ih
  | case3 piece pieces hescape ih =>
    rw [unescape.eq_3 _ _ hescape]
    cases piece <;> simp [Segments.ofPieces, ih]

/-- No placeholder brings a backtick into the body or into the code. -/
def KeepBackticks (parameters : Parameters) (pieces : List Piece) : Prop :=
  ∀ p, .hole p ∈ pieces → Code.backtick ∉ p.text ∧ Code.backtick ∉ Code.ofPiece parameters (.hole p)

theorem KeepBackticks.mem_iff (h : KeepBackticks parameters pieces) :
    Code.backtick ∈ pieces.flatMap (Code.ofPiece parameters) ↔ .literal Code.backtick ∈ pieces := by
  rw [List.mem_flatMap]
  constructor
  · rintro ⟨piece, hpiece, hmem⟩
    cases piece with
    | literal c =>
      rw [Code.ofPiece, List.mem_singleton] at hmem
      rwa [hmem]
    | hole p => exact absurd hmem (h p hpiece).2
  · intro hmem
    exact ⟨_, hmem, by simp [Code.ofPiece]⟩

theorem KeepBackticks.count_text (h : KeepBackticks parameters pieces) :
    (pieces.flatMap Piece.text).count Code.backtick = pieces.count (.literal Code.backtick) := by
  induction pieces with
  | nil => rfl
  | cons piece pieces ih =>
    rw [List.flatMap_cons, List.count_append, ih fun p hp => h p (List.mem_cons_of_mem _ hp), List.count_cons,
      Nat.add_comm]
    congr 1
    cases piece with
    | literal c => simp [Piece.text, List.count_singleton]
    | hole p => simp [Piece.text, List.count_eq_zero.2 (h p List.mem_cons_self).1]

theorem escapeFirst_flatMap (h : KeepBackticks parameters u) (hu : .literal Code.backtick ∉ u) :
    Code.escapeFirst ((u ++ .literal Code.backtick :: v).flatMap (Code.ofPiece parameters)) =
      (u ++ .literal '\\' :: .literal Code.backtick :: v).flatMap (Code.ofPiece parameters) := by
  simp only [List.flatMap_append, List.flatMap_cons, Code.ofPiece, List.cons_append, List.nil_append]
  exact Code.escapeFirst_append_backtick (fun hmem => hu (h.mem_iff.1 hmem))

/-- Pieces that are read as they are: nothing in them needs a backslash, backticks apart. -/
structure Plain (pieces : List Piece) : Prop where
  slash : .literal '\\' ∉ pieces
  opening : ¬ [.literal '$', .literal '{'] <:+: pieces

theorem Plain.of_infix (h : Plain pieces) (hu : u <:+: pieces) : Plain u :=
  ⟨fun hmem => h.slash (hu.subset hmem), fun hin => h.opening (hin.trans hu)⟩

theorem Plain.reads (h : Plain pieces) (hnames : Names parameters f pieces)
    (hback : .literal Code.backtick ∉ pieces) :
    readText? (pieces.flatMap (Code.ofPiece parameters) ++ [Code.backtick]) =
      some ((Segments.ofPieces pieces).map f, []) := by
  have hinert := inert_of_plain h.slash hback h.opening
  rw [hinert.readText?_append hnames (by decide), unescape_eq_self h.slash, readText?_backtick, Option.map_some,
    prepend_empty]

/-- The pieces around the first backtick are read up to a place in front of which no other one stands. -/
theorem Plain.reads_escapeFirst (h : Plain (u ++ .literal Code.backtick :: (v ++ w)))
    (hnames : Names parameters f (u ++ .literal Code.backtick :: (v ++ w))) (hkeep : KeepBackticks parameters u)
    (hu : .literal Code.backtick ∉ u) (hv : .literal Code.backtick ∉ v) (hw : w.head? ≠ some (.literal '{')) :
    readText? (Code.escapeFirst ((u ++ .literal Code.backtick :: (v ++ w)).flatMap (Code.ofPiece parameters)) ++
        [Code.backtick]) =
      (readText? (w.flatMap (Code.ofPiece parameters) ++ [Code.backtick])).map fun r =>
        (prepend f (u ++ .literal Code.backtick :: v) r.1, r.2) := by
  have hinu : u <:+: u ++ .literal Code.backtick :: (v ++ w) := (List.prefix_append u _).isInfix
  have hinv : v <:+: u ++ .literal Code.backtick :: (v ++ w) := ⟨u ++ [.literal Code.backtick], w, by simp⟩
  have hinw : w <:+: u ++ .literal Code.backtick :: (v ++ w) := ⟨u ++ .literal Code.backtick :: v, [], by simp⟩
  have hinert : Inert (u ++ .literal '\\' :: .literal Code.backtick :: v) := by
    refine (inert_of_plain (h.of_infix hinu).slash hu (h.of_infix hinu).opening).append ?_ (by simp)
    exact .escaped _ (inert_of_plain (h.of_infix hinv).slash hv (h.of_infix hinv).opening)
  have hunescape : unescape (u ++ .literal '\\' :: .literal Code.backtick :: v) = u ++ .literal Code.backtick :: v := by
    rw [unescape_append (h.of_infix hinu).slash, unescape, unescape_eq_self (h.of_infix hinv).slash]
  have hnames' : Names parameters f (u ++ .literal '\\' :: .literal Code.backtick :: v) := by
    intro p hp
    refine hnames p ?_
    simp only [List.mem_append, List.mem_cons, reduceCtorEq, false_or] at hp ⊢
    tauto
  have hrest : (w.flatMap (Code.ofPiece parameters) ++ [Code.backtick]).head? ≠ some '{' :=
    head?_flatMap_ofPiece (hnames.mono hinw.subset) hw (by decide)
  rw [escapeFirst_flatMap hkeep hu]
  have hsplit : (u ++ .literal '\\' :: .literal Code.backtick :: (v ++ w)) =
      (u ++ .literal '\\' :: .literal Code.backtick :: v) ++ w := by simp
  rw [hsplit, List.flatMap_append, List.append_assoc, hinert.readText?_append hnames' hrest, hunescape]

end Escaping

end TemplateLiteral

/-! ## Accepted sources -/

namespace Placeholder

/-- The name in the substitution for a placeholder. -/
def nameIn (parameters : Parameters) (p : Placeholder) : List Char :=
  ((p.target? parameters).map Target.name).getD []

end Placeholder

namespace Segments

variable {α β : Type} {parameters : Parameters} {cut : Segments Placeholder} {x : Segments (List Char)}

/-- These are the gaps, and between them stands the substitution for each of the placeholders. -/
structure Substitutes (parameters : Parameters) (gaps : List (List Char)) (placeholders : List Placeholder)
    (x : Segments (List Char)) : Prop where
  gaps : x.gaps = gaps
  substitutions : List.Forall₂ (fun name p => Code.ofPiece parameters (.hole p) = ['$', '{'] ++ name ++ ['}'])
    x.items placeholders

/-- The same gaps with other items between them. -/
def withItems (x : Segments α) (items : List β) : Segments β :=
  ⟨x.front, items.zip (x.tail.map Prod.snd)⟩

theorem withItems_items (x : Segments α) : x.withItems x.items = x := by
  obtain ⟨front, tail⟩ := x
  simp [withItems, items, List.zip_map']

/-- Putting the items back undoes a change of them. -/
theorem withItems_map (f : α → β) (x : Segments α) : (x.map f).withItems x.items = x := by
  have htail : (x.map f).tail.map Prod.snd = x.tail.map Prod.snd := by simp [map]
  rw [withItems, htail]
  exact withItems_items x

theorem substitutes_map {f : Placeholder → List Char}
    (hnames : ∀ p ∈ cut.items, Code.ofPiece parameters (.hole p) = ['$', '{'] ++ f p ++ ['}']) :
    (cut.map f).Substitutes parameters cut.gaps cut.items := by
  refine ⟨gaps_map f, ?_⟩
  rw [items_map, List.forall₂_map_left_iff, List.forall₂_same]
  exact hnames

theorem Substitutes.eq_map {f : Placeholder → List Char} (h : x.Substitutes parameters cut.gaps cut.items)
    (hnames : ∀ p ∈ cut.items, Code.ofPiece parameters (.hole p) = ['$', '{'] ++ f p ++ ['}']) : x = cut.map f := by
  refine eq_of_items_of_gaps ?_ (h.gaps.trans (gaps_map f).symm)
  rw [items_map]
  have hsub := h.substitutions
  generalize x.items = names, cut.items = placeholders at hnames hsub ⊢
  induction hsub with
  | nil => rfl
  | @cons name p _ _ hname _ ih =>
    rw [List.forall_mem_cons] at hnames
    rw [List.map_cons, ← ih hnames.2]
    have heq := hname.symm.trans hnames.1
    rw [List.append_left_inj, List.append_right_inj] at heq
    rw [heq]

end Segments

namespace Code

open TemplateLiteral

variable {parameters : Parameters} {start : Nat} {body code : List Char}

theorem names_scan (h : ofBody parameters start body = .ok code) :
    Names parameters (Placeholder.nameIn parameters) (scan body) := by
  intro p hp
  obtain ⟨t, ht, hname, hpiece⟩ := (Segments.cuts_scan body).exists_target h (Segments.mem_items_ofPieces.2 hp)
  have hnameIn : p.nameIn parameters = t.name := by simp [Placeholder.nameIn, ht]
  rw [hnameIn]
  exact ⟨hpiece, hname.not_mem (by decide) (by decide)⟩

theorem keepBackticks_scan (h : ofBody parameters start body = .ok code) :
    KeepBackticks parameters (scan body) := by
  intro p hp
  exact ⟨not_mem_text_of_mem_scan (by decide) (by decide) hp, not_mem_ofPiece_of_mem_scan h (by decide) (by decide) hp⟩

theorem mem_of_literal_mem_scan {c : Char} (h : .literal c ∈ scan body) : c ∈ body := by
  rw [← flatMap_text_scan body]
  exact List.mem_flatMap.2 ⟨_, h, List.mem_singleton.2 rfl⟩

theorem infix_of_literals_infix_scan {c d : Char} (h : [.literal c, .literal d] <:+: scan body) :
    [c, d] <:+: body := by
  obtain ⟨before, after, hscan⟩ := h
  refine ⟨before.flatMap Piece.text, after.flatMap Piece.text, ?_⟩
  conv_rhs => rw [← flatMap_text_scan body, ← hscan]
  simp [Piece.text]

theorem plain_scan (hslash : '\\' ∉ body) (hopen : ¬ ['$', '{'] <:+: body) : Plain (scan body) :=
  ⟨fun hmem => hslash (mem_of_literal_mem_scan hmem), fun hin => hopen (infix_of_literals_infix_scan hin)⟩

theorem read?_ofBody (h : ofBody parameters start body = .ok code) :
    read? code = readText? (escapeFirst ((scan body).flatMap (ofPiece parameters)) ++ [backtick]) := by
  rw [(ofBody_eq_ok_iff.1 h).2]
  simp [read?, backtick]

/-- With one backtick at most, the whole code is read, and it gives the body back. -/
theorem read?_of_count_le_one (h : ofBody parameters start body = .ok code) (hplain : Plain (scan body))
    (hcount : body.count backtick ≤ 1) :
    read? code = some ((Segments.ofPieces (scan body)).map (Placeholder.nameIn parameters), []) := by
  have hnames := names_scan h
  have hkeep := keepBackticks_scan h
  have hcount' : (scan body).count (.literal backtick) ≤ 1 := by
    rwa [← hkeep.count_text, flatMap_text_scan]
  rw [read?_ofBody h]
  by_cases hmem : .literal backtick ∈ scan body
  · -- The backtick that gets the backslash is the only one, so what stands behind it is read to the end.
    obtain ⟨u, v, hscan, hu⟩ := List.eq_append_cons_of_mem hmem
    have hv : .literal backtick ∉ v := by
      rw [hscan, List.count_append, List.count_cons_self] at hcount'
      exact List.count_eq_zero.1 (by omega)
    rw [hscan] at hnames hkeep hplain ⊢
    have hread := Plain.reads_escapeFirst (w := []) (by simpa using hplain) (by simpa using hnames)
      (fun p hp => hkeep p (List.mem_append_left _ hp)) hu hv (by simp)
    simpa [readText?_backtick, prepend_empty] using hread
  · rw [escapeFirst_of_not_mem fun hback => hmem (hkeep.mem_iff.1 hback)]
    exact hplain.reads hnames hmem

/-- A second backtick ends the literal before the code ends. -/
theorem read?_of_one_lt_count (h : ofBody parameters start body = .ok code) (hplain : Plain (scan body))
    (hcount : 1 < body.count backtick) : ∃ x rest, read? code = some (x, rest) ∧ rest ≠ [] := by
  have hnames := names_scan h
  have hkeep := keepBackticks_scan h
  have hcount' : 1 < (scan body).count (.literal backtick) := by
    rwa [← hkeep.count_text, flatMap_text_scan]
  rw [read?_ofBody h]
  obtain ⟨u, v, hscan, hu⟩ := List.eq_append_cons_of_mem (List.count_pos_iff.1 (Nat.lt_of_succ_lt hcount'))
  have hmem : .literal backtick ∈ v := by
    rw [hscan, List.count_append, List.count_cons_self, List.count_eq_zero.2 hu] at hcount'
    exact List.count_pos_iff.1 (by omega)
  -- The text between the first two backticks is read, and the second one ends the literal.
  obtain ⟨v, w, rfl, hv⟩ := List.eq_append_cons_of_mem hmem
  rw [hscan] at hnames hkeep hplain ⊢
  rw [hplain.reads_escapeFirst hnames (fun p hp => hkeep p (List.mem_append_left _ hp)) hu hv
    (by simp [backtick])]
  simp only [List.flatMap_cons, ofPiece, List.cons_append, List.nil_append, readText?_backtick, Option.map_some]
  exact ⟨_, _, rfl, by simp⟩

end Code

namespace Statement

open TemplateLiteral

variable {source : SourceText} {statement : Statement} {header : Header}

theorem ofBody_of_ofSource (h : ofSource source = .ok statement)
    (hread : Header.read source.content.toList = .ok header) :
    Code.ofBody statement.parameters header.bodyOffset header.body = .ok statement.code.toList := by
  obtain ⟨header', hread', -, -, -, -, -, hcode⟩ := ofSource_eq_ok_iff.1 h
  rw [hread] at hread'
  cases hread'
  exact hcode

/-- In a body without backslashes and opened substitutions one backtick can be written, and then reading
the code and putting the placeholders back gives the body. -/
theorem reads_back_iff (h : ofSource source = .ok statement) (hread : Header.read source.content.toList = .ok header)
    (hslash : '\\' ∉ header.body) (hopen : ¬ ['$', '{'] <:+: header.body) :
    ((∃ x, read? statement.code.toList = some (x, [])) ↔ header.body.count Code.backtick ≤ 1) ∧
      (header.body.count Code.backtick ≤ 1 → ∃ x cut, read? statement.code.toList = some (x, []) ∧
        Segments.Cuts cut header.body ∧ x.Substitutes statement.parameters cut.gaps cut.items ∧
        (x.withItems cut.items).text Placeholder.text = header.body) := by
  have hcode := ofBody_of_ofSource h hread
  have hplain := Code.plain_scan hslash hopen
  have hcuts : (Segments.ofPieces (scan header.body)).Cuts header.body := Segments.cuts_iff.2 rfl
  refine ⟨⟨fun ⟨x, hx⟩ => ?_, fun hcount => ⟨_, Code.read?_of_count_le_one hcode hplain hcount⟩⟩, fun hcount => ?_⟩
  · by_contra hcount
    obtain ⟨y, rest, hy, hne⟩ := Code.read?_of_one_lt_count hcode hplain (Nat.lt_of_not_le hcount)
    rw [hx, Option.some.injEq, Prod.mk.injEq] at hy
    exact hne hy.2.symm
  · have hnames := Code.names_scan hcode
    refine ⟨_, _, Code.read?_of_count_le_one hcode hplain hcount, hcuts, ?_, ?_⟩
    · exact Segments.substitutes_map fun p hp => (hnames p (Segments.mem_items_ofPieces.1 hp)).1
    · rw [Segments.withItems_map]
      exact hcuts.text

/-- Here the backtick stands behind a dollar sign and in front of a placeholder. -/
theorem reads_back_iff_one_backtick :
    ∃ statement header, ofSource ⟨"q", "q.sql", "-- @param {Int} $1:id\nselect $`:id$"⟩ = .ok statement ∧
      Header.read "-- @param {Int} $1:id\nselect $`:id$".toList = .ok header ∧
      '\\' ∉ header.body ∧ (¬ ['$', '{'] <:+: header.body) ∧ header.body.count Code.backtick = 1 ∧
      statement.code = "`select $\\`${$id}$`" ∧
      ∃ x cut, read? statement.code.toList = some (x, []) ∧ Segments.Cuts cut header.body ∧
        x.Substitutes statement.parameters cut.gaps cut.items ∧
        (x.withItems cut.items).text Placeholder.text = header.body := by
  have h : ofSource ⟨"q", "q.sql", "-- @param {Int} $1:id\nselect $`:id$"⟩ =
      .ok ⟨"q", "q.sql", [⟨1, .int, some "id", false, none⟩], [], "`select $\\`${$id}$`", true⟩ := by
    decide +kernel
  have hread : Header.read "-- @param {Int} $1:id\nselect $`:id$".toList =
      .ok ⟨[⟨1, .int, some "id", false, none⟩], "select $`:id$".toList, 22⟩ := by
    decide +kernel
  have hslash : '\\' ∉ "select $`:id$".toList := by decide +kernel
  have hopen : ¬ ['$', '{'] <:+: "select $`:id$".toList := by decide +kernel
  have hcount : "select $`:id$".toList.count Code.backtick = 1 := by decide +kernel
  exact ⟨_, _, h, hread, hslash, hopen, hcount, rfl,
    (reads_back_iff h hread hslash hopen).2 (Nat.le_of_eq hcount)⟩

/-- Without backticks in the body, reading the code finds a substitution for each placeholder in its place
and no other one, up to the end of the code, exactly when the pieces of the body are inert. -/
theorem substitutes_iff_inert (h : ofSource source = .ok statement)
    (hread : Header.read source.content.toList = .ok header) (hback : Code.backtick ∉ header.body) :
    (∃ x, read? statement.code.toList = some (x, []) ∧
      x.Substitutes statement.parameters (Segments.ofPieces (unescape (scan header.body))).gaps
        (Segments.ofPieces (scan header.body)).items) ↔ Inert (scan header.body) := by
  have hcode := ofBody_of_ofSource h hread
  have hnames := Code.names_scan hcode
  have hkeep := Code.keepBackticks_scan hcode
  have htext : read? statement.code.toList =
      readText? ((scan header.body).flatMap (Code.ofPiece statement.parameters) ++ [Code.backtick]) := by
    rw [Code.read?_ofBody hcode, Code.escapeFirst_of_not_mem fun hmem =>
      hback (Code.mem_of_literal_mem_scan (hkeep.mem_iff.1 hmem))]
  have hnames' : ∀ p ∈ (Segments.ofPieces (unescape (scan header.body))).items,
      Code.ofPiece statement.parameters (.hole p) =
        ['$', '{'] ++ p.nameIn statement.parameters ++ ['}'] := by
    intro p hp
    rw [items_unescape, Segments.mem_items_ofPieces] at hp
    exact (hnames p hp).1
  rw [htext, ← items_unescape]
  constructor
  · rintro ⟨x, hx, hsub⟩
    rw [hsub.eq_map hnames', ← prepend_empty] at hx
    exact inert_of_readText? hnames hx
  · intro hinert
    refine ⟨_, ?_, Segments.substitutes_map hnames'⟩
    rw [hinert.readText?_append hnames (by decide), readText?_backtick, ← prepend_empty]
    rfl

/-- Here a backslash makes another one literal, so the placeholder behind them is read. -/
theorem substitutes_iff_inert_escaped_backslash :
    ∃ statement header, ofSource ⟨"q", "q.sql", "-- @param {Int} $1\n\\\\$1"⟩ = .ok statement ∧
      Header.read "-- @param {Int} $1\n\\\\$1".toList = .ok header ∧ Code.backtick ∉ header.body ∧
      Inert (scan header.body) ∧
      ∃ x, read? statement.code.toList = some (x, []) ∧
        x.Substitutes statement.parameters (Segments.ofPieces (unescape (scan header.body))).gaps
          (Segments.ofPieces (scan header.body)).items := by
  have h : ofSource ⟨"q", "q.sql", "-- @param {Int} $1\n\\\\$1"⟩ =
      .ok ⟨"q", "q.sql", [⟨1, .int, none, false, none⟩], [], "`\\\\${$1}`", true⟩ := by
    decide +kernel
  have hread : Header.read "-- @param {Int} $1\n\\\\$1".toList =
      .ok ⟨[⟨1, .int, none, false, none⟩], "\\\\$1".toList, 19⟩ := by
    decide +kernel
  have hback : Code.backtick ∉ "\\\\$1".toList := by decide +kernel
  have hscan : scan "\\\\$1".toList = [.literal '\\', .literal '\\', .hole (.position ['1'])] := by
    decide +kernel
  have hinert : Inert (scan "\\\\$1".toList) := by
    rw [hscan]
    exact .escaped _ (.hole _ .nil)
  exact ⟨_, _, h, hread, hback, hinert, (substitutes_iff_inert h hread hback).2 hinert⟩

/-- A single backslash in front of a placeholder turns its substitution into text. -/
theorem placeholder_escaped :
    ∃ statement header, ofSource ⟨"q", "q.sql", "-- @param {Int} $1\nselect \\$1"⟩ = .ok statement ∧
      Header.read "-- @param {Int} $1\nselect \\$1".toList = .ok header ∧ Code.backtick ∉ header.body ∧
      (Segments.ofPieces (scan header.body)).items = [.position ['1']] ∧
      read? statement.code.toList = some (⟨"select ${$1}".toList, []⟩, []) ∧
      ¬ ∃ x, read? statement.code.toList = some (x, []) ∧
        List.Forall₂ (fun name p => Code.ofPiece statement.parameters (.hole p) = ['$', '{'] ++ name ++ ['}'])
          x.items (Segments.ofPieces (scan header.body)).items := by
  have h : ofSource ⟨"q", "q.sql", "-- @param {Int} $1\nselect \\$1"⟩ =
      .ok ⟨"q", "q.sql", [⟨1, .int, none, false, none⟩], [], "`select \\${$1}`", true⟩ := by
    decide +kernel
  have hread : Header.read "-- @param {Int} $1\nselect \\$1".toList =
      .ok ⟨[⟨1, .int, none, false, none⟩], "select \\$1".toList, 19⟩ := by
    decide +kernel
  have hback : Code.backtick ∉ "select \\$1".toList := by decide +kernel
  have hitems : (Segments.ofPieces (scan "select \\$1".toList)).items = [.position ['1']] := by decide +kernel
  have hcode : read? "`select \\${$1}`".toList = some (⟨"select ${$1}".toList, []⟩, []) := by decide +kernel
  refine ⟨_, _, h, hread, hback, hitems, hcode, ?_⟩
  rintro ⟨x, hx, hsub⟩
  rw [hcode, Option.some.injEq, Prod.mk.injEq] at hx
  rw [← hx.1, hitems] at hsub
  cases hsub

end Statement
end AnnotatedSql
