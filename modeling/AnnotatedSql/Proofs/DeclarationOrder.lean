import AnnotatedSql.Output.Module
import AnnotatedSql.Proofs.MistakeSpan
import AnnotatedSql.Proofs.Rewriting
import AnnotatedSql.Proofs.Signature
/-!
# The order of declarations

Declarations of distinct positions can be written in any order. Only a question mark in the body counts the
declarations in front of one; whether a source is accepted, the arguments of its function and all other
substitutions depend on which declarations there are and not on their order.
-/

namespace AnnotatedSql

open Text

/-! ## Parameters in another order -/

namespace Parameters

variable {ps qs : Parameters}

theorem declare_perm (h : ps.Perm qs) (d : Declaration) : (ps.declare d).Perm (qs.declare d) := by
  unfold Parameters.declare
  rw [h.any_eq]
  split
  · exact h.map _
  · exact h.append_right [d]

/-- Declarations of distinct positions are kept as they are. -/
theorem ofDeclarations_eq_self {ds : List Declaration} (h : (ds.map (·.position)).Nodup) : ofDeclarations ds = ds := by
  induction ds using List.reverseRecOn with
  | nil => rfl
  | append_singleton ds d ih =>
    rw [List.map_append, List.nodup_append] at h
    rw [ofDeclarations_concat, ih h.1]
    unfold declare
    refine if_neg ?_
    simp only [List.any_eq_true, beq_iff_eq, not_exists, not_and]
    intro e he heq
    exact h.2.2 _ (List.mem_map_of_mem he) _ (List.mem_map_of_mem (List.mem_singleton_self d)) heq

/-- Declarations in another order leave the same parameters, whatever is declared behind them. -/
theorem ofDeclarations_append_perm {ds ds' : List Declaration} (h : ds.Perm ds') (hn : (ds.map (·.position)).Nodup)
    (es : List Declaration) : (ofDeclarations (ds ++ es)).Perm (ofDeclarations (ds' ++ es)) := by
  -- from the back, since the last declaration meets parameters that differ in their order only
  induction es using List.reverseRecOn with
  | nil =>
    rw [List.append_nil, List.append_nil, ofDeclarations_eq_self hn, ofDeclarations_eq_self ((h.map _).nodup_iff.1 hn)]
    exact h
  | append_singleton es e ih =>
    rw [← List.append_assoc, ← List.append_assoc, ofDeclarations_concat, ofDeclarations_concat]
    exact declare_perm ih e

/-- A position is looked up in any order. -/
theorem at?_perm (h : ps.Perm qs) (hn : (ps.map (·.position)).Nodup) (n : Nat) : ps.at? n = qs.at? n := by
  apply Option.ext
  intro d
  rw [at?_eq_some_iff hn, at?_eq_some_iff ((h.map _).nodup_iff.1 hn), h.mem_iff]

theorem maxPosition_perm (h : ps.Perm qs) : ps.maxPosition = qs.maxPosition := by
  apply Nat.le_antisymm
  · exact (maxPosition_le_iff ps _).2 fun d hd => le_maxPosition (h.mem_iff.1 hd)
  · exact (maxPosition_le_iff qs _).2 fun d hd => le_maxPosition (h.mem_iff.2 hd)

end Parameters

namespace Signature

variable {ps qs : Parameters}

theorem fill_congr (h : ∀ n, ps.at? n = qs.at? n) (taken : List String) (positions : List Nat) :
    fill ps taken positions = fill qs taken positions := by
  induction positions generalizing taken with
  | nil => rfl
  | cons n rest ih => simp only [fill, h n, ih]

theorem ofParameters_perm (h : ps.Perm qs) (hn : (ps.map (·.position)).Nodup) : ofParameters ps = ofParameters qs := by
  unfold ofParameters
  rw [Parameters.maxPosition_perm h]
  exact fill_congr (Parameters.at?_perm h hn) _ _

end Signature

/-! ## Placeholders -/

namespace Placeholder

variable {ps qs : Parameters} {p : Placeholder}

theorem target?_perm (h : ps.Perm qs) (hp : p ≠ question) : p.target? ps = p.target? qs := by
  cases p with
  | position digits => simp only [target?, argument?, h.length_eq]
  | question => exact absurd rfl hp
  | name word => simp only [target?, h.any_eq]

/-- A question mark refers to something in any order, if not to the same. -/
theorem isSome_target?_perm (h : ps.Perm qs) (p : Placeholder) : (p.target? ps).isSome = (p.target? qs).isSome := by
  by_cases hp : p = question
  · rw [hp, Bool.eq_iff_iff, isSome_target?_question, isSome_target?_question]
    simp only [h.mem_iff]
  · rw [target?_perm h hp]

end Placeholder

theorem Segments.text_congr {α : Type} {x : Segments α} {f g : α → List Char} (h : ∀ i ∈ x.items, f i = g i) :
    x.text f = x.text g := by
  unfold Segments.text
  congr 1
  refine List.flatMap_congr fun s hs => ?_
  rw [h s.1 (List.mem_map_of_mem hs)]

namespace Code

variable {ps qs : Parameters} {start : Nat} {body code : List Char} {m : Mistake}

theorem findMistake_perm (h : ps.Perm qs) (kind : Placeholder → Bool) (start : Nat) (pieces : List Piece) :
    findMistake ps kind start pieces = findMistake qs kind start pieces := by
  simp only [findMistake, ← Option.not_isSome, Placeholder.isSome_target?_perm h]

theorem ofBody_error_perm (h : ps.Perm qs) : ofBody ps start body = .error m ↔ ofBody qs start body = .error m := by
  simp only [ofBody_eq_error_iff, findMistake_perm h]

/-! ## The pieces of the code -/

/-- Pieces with a backslash in front of the first backtick among them. -/
def escapeFirstPiece : List Piece → List Piece
  | [] => []
  | .hole p :: pieces => .hole p :: escapeFirstPiece pieces
  | .literal c :: pieces =>
    if c = backtick then .literal '\\' :: .literal c :: pieces else .literal c :: escapeFirstPiece pieces

theorem items_escapeFirstPiece (pieces : List Piece) :
    (Segments.ofPieces (escapeFirstPiece pieces)).items = (Segments.ofPieces pieces).items := by
  induction pieces with
  | nil => rfl
  | cons piece pieces ih =>
    cases piece with
    | hole p => simp [escapeFirstPiece, Segments.ofPieces, ih]
    | literal c =>
      rw [escapeFirstPiece]
      split <;> simp [Segments.ofPieces, ih]

/-- Where no substitution holds a backtick, the first one stands in a gap. -/
theorem flatMap_escapeFirstPiece {pieces : List Piece} (h : ∀ p, .hole p ∈ pieces → backtick ∉ ofPiece ps (.hole p)) :
    (escapeFirstPiece pieces).flatMap (ofPiece ps) = escapeFirst (pieces.flatMap (ofPiece ps)) := by
  induction pieces with
  | nil => rfl
  | cons piece pieces ih =>
    have ih := ih fun p hp => h p (List.mem_cons_of_mem _ hp)
    cases piece with
    | hole p =>
      -- without a backtick in it, the search goes on behind the substitution
      rw [escapeFirstPiece, List.flatMap_cons, List.flatMap_cons, ih, escapeFirst_append (h p List.mem_cons_self)]
    | literal c =>
      have hc : ∀ rest, (Piece.literal c :: rest).flatMap (ofPiece ps) = c :: rest.flatMap (ofPiece ps) := fun _ => rfl
      rw [escapeFirstPiece, hc, escapeFirst]
      split
      · rw [List.flatMap_cons, hc]
        rfl
      · rw [hc, ih]

/-- The gaps and placeholders of the code, the marks around it and the backslash in it included. -/
def segments (body : List Char) : Segments Placeholder :=
  .ofPieces (.literal backtick :: escapeFirstPiece (scan body) ++ [.literal backtick])

theorem items_segments (body : List Char) : (segments body).items = (Segments.ofPieces (scan body)).items := by
  rw [segments, Segments.items_ofPieces_append]
  simp [Segments.ofPieces, items_escapeFirstPiece]

/-- The gaps of the code depend on the body only. -/
theorem eq_text_segments (h : ofBody ps start body = .ok code) :
    code = (segments body).text fun p => ofPiece ps (.hole p) := by
  have hfree : ∀ p, .hole p ∈ scan body → backtick ∉ ofPiece ps (.hole p) := fun p =>
    not_mem_ofPiece_of_mem_scan h (by decide) (by decide)
  rw [segments, Segments.text_ofPieces fun c => rfl, (ofBody_eq_ok_iff.1 h).2, ← flatMap_escapeFirstPiece hfree,
    List.flatMap_append]
  rfl

end Code

/-! ## Headers in another order -/

theorem Text.byteLength_perm {s t : List Char} (h : s.Perm t) : byteLength s = byteLength t := by
  induction h with
  | nil => rfl
  | cons c _ ih => rw [byteLength_cons, byteLength_cons, ih]
  | swap c d s => simp only [byteLength_cons, Nat.add_left_comm]
  | trans _ _ ih ih' => exact ih.trans ih'

namespace Header

variable {source source' : List Char} {lines lines' rest : List (List Char)}

theorem lengthOf_perm (h : lines.Perm lines') : lengthOf lines = lengthOf lines' :=
  byteLength_perm (h.flatMap_right _)

theorem lengthOf_linesOf (source : List Char) : lengthOf (linesOf source) = byteLength source + 1 := by
  rcases List.eq_nil_or_concat (linesOf source) with hnil | ⟨pre, line, hlines⟩
  · exact absurd hnil (List.splitOn_ne_nil '\n' source)
  · rw [List.concat_eq_append] at hlines
    have hlen := congrArg byteLength (source_eq_of_linesOf hlines)
    rw [hlen, hlines, lengthOf, List.flatMap_append]
    simp [Nat.add_assoc]
    rfl

/-- What a source holds that starts with lines of declarations. -/
theorem read_of_declared (h : linesOf source = lines ++ rest)
    (hlines : ∀ line ∈ lines, (SourceLine.declaration? line).isSome = true) :
    read source =
      (declarationsFrom (lengthOf lines) (rest.takeWhile SourceLine.isHeader)).map fun ds =>
        let behind := ['\n'].intercalate (rest.dropWhile SourceLine.isHeader)
        { declarations := lines.filterMap SourceLine.declaration? ++ ds
          body := trim behind
          bodyOffset := byteLength source - byteLength behind + byteLength (indent behind) } := by
  have hheader : ∀ line ∈ lines, SourceLine.isHeader line = true := fun line hline =>
    SourceLine.isHeader_of_isSome (hlines line hline)
  unfold read remainder
  rw [h, List.takeWhile_append_of_pos hheader, List.dropWhile_append_of_pos hheader,
    declarationsFrom_append fun line hline => SourceLine.faultless_of_isSome (hlines line hline), Nat.zero_add]
  cases declarationsFrom (lengthOf lines) (rest.takeWhile SourceLine.isHeader) <;> rfl

/-- Two sources that start with the same lines in a different order, each of which declares a position of its
own. -/
structure Reordered (source source' : List Char) (lines lines' rest : List (List Char)) : Prop where
  left : linesOf source = lines ++ rest
  right : linesOf source' = lines' ++ rest
  perm : lines.Perm lines'
  declared : ∀ line ∈ lines, (SourceLine.declaration? line).isSome = true
  distinct : ((lines.filterMap SourceLine.declaration?).map (·.position)).Nodup

namespace Reordered

theorem symm (h : Reordered source source' lines lines' rest) : Reordered source' source lines' lines rest where
  left := h.right
  right := h.left
  perm := h.perm.symm
  declared line hline := h.declared line (h.perm.mem_iff.2 hline)
  distinct := ((h.perm.filterMap _).map _).nodup_iff.1 h.distinct

theorem byteLength_eq (h : Reordered source source' lines lines' rest) : byteLength source' = byteLength source := by
  have hlen := lengthOf_perm (h.perm.append_right rest)
  rw [← h.left, ← h.right, lengthOf_linesOf, lengthOf_linesOf] at hlen
  omega

/-- The headers fail with the same mistake, or they differ in the order of declarations only. -/
theorem read_eq (h : Reordered source source' lines lines' rest) :
    (∃ m, read source = .error m ∧ read source' = .error m) ∨
      ∃ header ds, read source = .ok header ∧ header.declarations = lines.filterMap SourceLine.declaration? ++ ds ∧
        read source' = .ok { header with declarations := lines'.filterMap SourceLine.declaration? ++ ds } := by
  rw [read_of_declared h.left h.declared, read_of_declared h.right h.symm.declared, h.byteLength_eq,
    ← lengthOf_perm h.perm]
  cases declarationsFrom (lengthOf lines) (rest.takeWhile SourceLine.isHeader) with
  | error m => exact .inl ⟨m, rfl, rfl⟩
  | ok ds => exact .inr ⟨_, ds, rfl, rfl, rfl⟩

end Reordered
end Header

/-! ## The whole source -/

namespace Statement

/-- Two statements with one body whose functions take the same arguments, and whose codes differ in what is
substituted for question marks only. -/
structure AlikeButQuestions (a b : Statement) (body : List Char) : Prop where
  signature : (Procedure.ofStatement a).signature = (Procedure.ofStatement b).signature
  formals : (Procedure.ofStatement a).signature.formals = (Procedure.ofStatement b).signature.formals
  initializer : (Procedure.ofStatement a).signature.initializer = (Procedure.ofStatement b).signature.initializer
  entry : ∀ mode, ModuleKind.declarations.render mode (.ofStatement a) = ModuleKind.declarations.render mode (.ofStatement b)
  /-- Both codes have the same text around the substitutions for the placeholders of the body. -/
  codes : ∃ x : Segments Placeholder, x.items = (Segments.ofPieces (scan body)).items ∧
    a.code.toList = x.text (fun p => Code.ofPiece a.parameters (.hole p)) ∧
    b.code.toList = x.text (fun p => Code.ofPiece b.parameters (.hole p))
  substitutions : ∀ p ≠ .question, Code.ofPiece a.parameters (.hole p) = Code.ofPiece b.parameters (.hole p)
  code : '?' ∉ body → a.code = b.code

variable {a b : Statement} {body : List Char} {start : Nat}

theorem alikeButQuestions_of_perm (hname : a.name = b.name) (h : a.parameters.Perm b.parameters)
    (hn : (a.parameters.map (·.position)).Nodup) (ha : Code.ofBody a.parameters start body = .ok a.code.toList)
    (hb : Code.ofBody b.parameters start body = .ok b.code.toList) : AlikeButQuestions a b body := by
  have hsignature : (Procedure.ofStatement a).signature = (Procedure.ofStatement b).signature :=
    Signature.ofParameters_perm h hn
  have hpiece : ∀ p ≠ .question, Code.ofPiece a.parameters (.hole p) = Code.ofPiece b.parameters (.hole p) := by
    intro p hp
    rw [Code.ofPiece, Code.ofPiece, Placeholder.target?_perm h hp]
  refine ⟨hsignature, congrArg _ hsignature, congrArg _ hsignature, fun mode => ?_, ?_, hpiece, fun hquestion => ?_⟩
  · have hprocedure : (Procedure.ofStatement a).name = (Procedure.ofStatement b).name := hname
    simp only [ModuleKind.render, ModuleKind.values, hsignature, hprocedure]
  · exact ⟨_, Code.items_segments body, Code.eq_text_segments ha, Code.eq_text_segments hb⟩
  · rw [← String.toList_inj, Code.eq_text_segments ha, Code.eq_text_segments hb]
    -- a question mark among the placeholders would stand in the body
    refine Segments.text_congr fun p hp => hpiece p ?_
    rintro rfl
    rw [Code.items_segments, Segments.mem_items_ofPieces] at hp
    refine hquestion ?_
    rw [← flatMap_text_scan body]
    exact List.mem_flatMap.2 ⟨_, hp, List.mem_singleton_self '?'⟩

/-- Sources whose declarations stand in a different order are both accepted or both refused for the same
mistake at the same place, and only the substitutions for question marks tell them apart. -/
theorem ofSource_reordered {name file content content' : String} {lines lines' rest : List (List Char)}
    (h : Header.Reordered content.toList content'.toList lines lines' rest) :
    (∀ m, ofSource ⟨name, file, content⟩ = .error m ↔ ofSource ⟨name, file, content'⟩ = .error m) ∧
      ∀ a, ofSource ⟨name, file, content⟩ = .ok a → ∃ header header' b,
        Header.read content.toList = .ok header ∧ Header.read content'.toList = .ok header' ∧
        header'.body = header.body ∧ ofSource ⟨name, file, content'⟩ = .ok b ∧ AlikeButQuestions a b header.body := by
  rcases h.read_eq with ⟨m, hleft, hright⟩ | ⟨header, ds, hleft, hds, hright⟩
  · refine ⟨fun m' => by simp only [ofSource_eq_error_iff, hleft, hright, reduceCtorEq, false_and, exists_false], ?_⟩
    intro a ha
    obtain ⟨header, hread, -⟩ := ofSource_eq_ok_iff.1 ha
    rw [hleft] at hread
    cases hread
  · -- from here on the order is that of the parameters, which the body is resolved against
    have hperm := Parameters.ofDeclarations_append_perm (h.perm.filterMap SourceLine.declaration?) h.distinct ds
    rw [← hds] at hperm
    have herror : ∀ m, ofSource ⟨name, file, content⟩ = .error m ↔ ofSource ⟨name, file, content'⟩ = .error m := by
      intro m
      simp only [ofSource_eq_error_iff, hleft, hright, Except.ok.injEq, exists_eq_left', reduceCtorEq, false_or]
      exact Code.ofBody_error_perm hperm
    refine ⟨herror, fun a ha => ?_⟩
    cases hb : ofSource ⟨name, file, content'⟩ with
    | error m =>
      rw [(herror m).2 hb] at ha
      cases ha
    | ok b =>
      refine ⟨header, _, b, hleft, hright, rfl, rfl, ?_⟩
      obtain ⟨headerA, hreadA, hnameA, -, hparametersA, -, -, hcodeA⟩ := ofSource_eq_ok_iff.1 ha
      obtain ⟨headerB, hreadB, hnameB, -, hparametersB, -, -, hcodeB⟩ := ofSource_eq_ok_iff.1 hb
      cases hleft.symm.trans hreadA
      cases hright.symm.trans hreadB
      rw [← hparametersA, ← hparametersB] at hperm
      refine alikeButQuestions_of_perm (hnameA.trans hnameB.symm) hperm ?_ hcodeA hcodeB
      rw [hparametersA]
      exact Parameters.nodup_positions _

/-- Here a declaration without an alias stands in front of the one that the question mark looks for, or behind
it. -/
theorem ofSource_reordered_question :
    Header.Reordered "-- @param {Int} $1\n-- @param {Int} $2:id\nselect $1, ?, :id".toList
        "-- @param {Int} $2:id\n-- @param {Int} $1\nselect $1, ?, :id".toList
        ["-- @param {Int} $1".toList, "-- @param {Int} $2:id".toList]
        ["-- @param {Int} $2:id".toList, "-- @param {Int} $1".toList] ["select $1, ?, :id".toList] ∧
      ∃ a b, ofSource ⟨"q", "q.sql", "-- @param {Int} $1\n-- @param {Int} $2:id\nselect $1, ?, :id"⟩ = .ok a ∧
        ofSource ⟨"q", "q.sql", "-- @param {Int} $2:id\n-- @param {Int} $1\nselect $1, ?, :id"⟩ = .ok b ∧
        a.code = "`select ${$1}, ${$2}, ${$id}`" ∧ b.code = "`select ${$1}, ${$1}, ${$id}`" ∧
        AlikeButQuestions a b "select $1, ?, :id".toList := by
  have h : Header.Reordered "-- @param {Int} $1\n-- @param {Int} $2:id\nselect $1, ?, :id".toList
      "-- @param {Int} $2:id\n-- @param {Int} $1\nselect $1, ?, :id".toList
      ["-- @param {Int} $1".toList, "-- @param {Int} $2:id".toList]
      ["-- @param {Int} $2:id".toList, "-- @param {Int} $1".toList] ["select $1, ?, :id".toList] :=
    ⟨by decide +kernel, by decide +kernel, .swap _ _ _, by decide +kernel, by decide +kernel⟩
  have ha : ofSource ⟨"q", "q.sql", "-- @param {Int} $1\n-- @param {Int} $2:id\nselect $1, ?, :id"⟩ =
      .ok ⟨"q", "q.sql", [⟨1, .int, none, false, none⟩, ⟨2, .int, some "id", false, none⟩], [],
        "`select ${$1}, ${$2}, ${$id}`", true⟩ := by
    decide +kernel
  have hb : ofSource ⟨"q", "q.sql", "-- @param {Int} $2:id\n-- @param {Int} $1\nselect $1, ?, :id"⟩ =
      .ok ⟨"q", "q.sql", [⟨2, .int, some "id", false, none⟩, ⟨1, .int, none, false, none⟩], [],
        "`select ${$1}, ${$1}, ${$id}`", true⟩ := by
    decide +kernel
  obtain ⟨header, header', b, hread, -, -, hb', halike⟩ := (ofSource_reordered h).2 _ ha
  have hbody : header.body = "select $1, ?, :id".toList := by
    have hheader : Header.read "-- @param {Int} $1\n-- @param {Int} $2:id\nselect $1, ?, :id".toList =
        .ok ⟨[⟨1, .int, none, false, none⟩, ⟨2, .int, some "id", false, none⟩], "select $1, ?, :id".toList, 41⟩ := by
      decide +kernel
    cases hheader.symm.trans hread
    rfl
  cases hb.symm.trans hb'
  exact ⟨h, _, _, ha, hb, rfl, rfl, hbody ▸ halike⟩

end Statement
end AnnotatedSql
