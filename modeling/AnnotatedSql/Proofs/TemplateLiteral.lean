import AnnotatedSql.Proofs.Rewriting
/-!
# Reading the code back

`TemplateLiteral.read?` reads a template literal the way a script does: a backslash makes the next
character literal, a dollar sign with a brace opens a substitution, and a backtick ends the literal.
-/

namespace AnnotatedSql

namespace TemplateLiteral

mutual

/-- Reads on in the text of a literal, up to the mark that ends it. Gives what was read and what stands
behind that mark. -/
def readText? : List Char → Option (Segments (List Char) × List Char)
  | [] => none
  | '\x60' :: rest => some (.empty, rest)
  | '\\' :: c :: rest => (readText? rest).map fun r => (r.1.consChar c, r.2)
  | '$' :: '{' :: rest => (readSubstitution? rest).map fun r => (r.2.1.consItem r.1, r.2.2)
  | c :: rest => (readText? rest).map fun r => (r.1.consChar c, r.2)

/-- Reads on in a substitution, up to the brace that ends it, and in the text behind. -/
def readSubstitution? : List Char → Option (List Char × Segments (List Char) × List Char)
  | [] => none
  | '}' :: rest => (readText? rest).map fun r => ([], r)
  | c :: rest => (readSubstitution? rest).map fun r => (c :: r.1, r.2)

end

/-- Reads the template literal at the start of a text. -/
def read? : List Char → Option (Segments (List Char) × List Char)
  | '\x60' :: rest => readText? rest
  | _ => none

variable {c : Char} {name rest : List Char}

theorem readText?_backtick : readText? (Code.backtick :: rest) = some (.empty, rest) := by
  simp [Code.backtick, readText?]

theorem readText?_escaped : readText? ('\\' :: c :: rest) = (readText? rest).map fun r => (r.1.consChar c, r.2) := by
  simp [readText?]

theorem readText?_plain (hslash : c ≠ '\\') (hback : c ≠ Code.backtick) (hopen : c = '$' → rest.head? ≠ some '{') :
    readText? (c :: rest) = (readText? rest).map fun r => (r.1.consChar c, r.2) := by
  rw [readText?.eq_5]
  · exact hback
  · intro d ds hc
    exact absurd hc hslash
  · intro ds hc hds
    exact absurd (by simp [hds]) (hopen hc)

theorem readSubstitution?_close : readSubstitution? ('}' :: rest) = (readText? rest).map fun r => ([], r) := by
  simp [readSubstitution?]

theorem readSubstitution?_append (h : '}' ∉ name) (rest : List Char) :
    readSubstitution? (name ++ '}' :: rest) = (readText? rest).map fun r => (name, r) := by
  induction name with
  | nil => exact readSubstitution?_close
  | cons c name ih =>
    rw [List.mem_cons, not_or] at h
    rw [List.cons_append, readSubstitution?.eq_3 _ _ (Ne.symm h.1), ih h.2, Option.map_map]
    rfl

theorem readText?_substitution (h : '}' ∉ name) :
    readText? (['$', '{'] ++ name ++ ['}'] ++ rest) = (readText? rest).map fun r => (r.1.consItem name, r.2) := by
  have hsub := readSubstitution?_append h rest
  simp only [List.append_assoc, List.cons_append, List.nil_append, readText?, hsub, Option.map_map]
  rfl

/-! ## Pieces of a body in a literal -/

/-- Nothing in the pieces takes part in the literal around them: a backslash has a character to make
literal, no backtick ends the literal, and no dollar sign opens a substitution of its own. -/
inductive Inert : List Piece → Prop
  | nil : Inert []
  | hole {pieces : List Piece} (p : Placeholder) (h : Inert pieces) : Inert (.hole p :: pieces)
  | escaped {pieces : List Piece} (c : Char) (h : Inert pieces) : Inert (.literal '\\' :: .literal c :: pieces)
  | plain {pieces : List Piece} {c : Char} (hslash : c ≠ '\\') (hback : c ≠ Code.backtick)
    (hopen : c = '$' → pieces.head? ≠ some (.literal '{')) (h : Inert pieces) : Inert (.literal c :: pieces)

/-- The pieces without the backslashes that make the next character literal. -/
def unescape : List Piece → List Piece
  | [] => []
  | .literal '\\' :: .literal c :: pieces => .literal c :: unescape pieces
  | piece :: pieces => piece :: unescape pieces

/-- What is read from pieces, in front of what is read behind them. -/
def prepend (f : Placeholder → List Char) : List Piece → Segments (List Char) → Segments (List Char)
  | [], x => x
  | .literal c :: pieces, x => (prepend f pieces x).consChar c
  | .hole p :: pieces, x => (prepend f pieces x).consItem (f p)

theorem prepend_empty (f : Placeholder → List Char) (pieces : List Piece) :
    prepend f pieces .empty = (Segments.ofPieces pieces).map f := by
  induction pieces with
  | nil => rfl
  | cons piece pieces ih => cases piece <;> simp [prepend, Segments.ofPieces, ih]

section Reading

variable {parameters : Parameters} {f : Placeholder → List Char} {pieces : List Piece}

/-- Each placeholder becomes a substitution of the name that it is given. -/
def Names (parameters : Parameters) (f : Placeholder → List Char) (pieces : List Piece) : Prop :=
  ∀ p, .hole p ∈ pieces → Code.ofPiece parameters (.hole p) = ['$', '{'] ++ f p ++ ['}'] ∧ '}' ∉ f p

theorem Names.mono {pieces' : List Piece} (h : Names parameters f pieces) (hsub : pieces' ⊆ pieces) :
    Names parameters f pieces' :=
  fun p hp => h p (hsub hp)

theorem head?_flatMap_ofPiece (hnames : Names parameters f pieces) (hopen : pieces.head? ≠ some (.literal '{'))
    (hrest : rest.head? ≠ some '{') : (pieces.flatMap (Code.ofPiece parameters) ++ rest).head? ≠ some '{' := by
  cases pieces with
  | nil => exact hrest
  | cons piece pieces =>
    cases piece with
    | literal c => simpa [Code.ofPiece] using hopen
    | hole p => simp [(hnames p List.mem_cons_self).1]

/-- Pieces that are inert are read one by one, whatever stands behind them. -/
theorem Inert.readText?_append (h : Inert pieces) (hnames : Names parameters f pieces)
    (hrest : rest.head? ≠ some '{') :
    readText? (pieces.flatMap (Code.ofPiece parameters) ++ rest) =
      (readText? rest).map fun r => (prepend f (unescape pieces) r.1, r.2) := by
  induction h with
  | nil => simp [unescape, prepend]
  | @hole pieces p _ ih =>
    obtain ⟨hpiece, hname⟩ := hnames p List.mem_cons_self
    rw [List.flatMap_cons, hpiece, List.append_assoc, readText?_substitution hname,
      ih (hnames.mono (List.subset_cons_self _ _)), Option.map_map]
    rfl
  | @escaped pieces c _ ih =>
    have hsub : pieces ⊆ .literal '\\' :: .literal c :: pieces := by simp
    simp only [List.flatMap_cons, Code.ofPiece, List.cons_append, List.nil_append]
    rw [readText?_escaped, ih (hnames.mono hsub), Option.map_map]
    rfl
  | @plain pieces c hslash hback hopen _ ih =>
    have hnames' := hnames.mono (List.subset_cons_self _ _)
    simp only [List.flatMap_cons, Code.ofPiece, List.cons_append, List.nil_append]
    rw [readText?_plain hslash hback fun hc => head?_flatMap_ofPiece hnames' (hopen hc) hrest,
      ih hnames', Option.map_map]
    rw [unescape.eq_3 _ _ (fun d ds hc => absurd (by simpa using hc) hslash)]
    rfl

theorem eq_of_map_eq_some {α β : Type} {o : Option (α × β)} {g : α → α} {a : α} {b : β} (hg : Function.Injective g)
    (h : (o.map fun r => (g r.1, r.2)) = some (g a, b)) : o = some (a, b) := by
  obtain ⟨r, rfl, hr⟩ := Option.map_eq_some_iff.1 h
  rw [Prod.mk.injEq] at hr
  rw [← hg hr.1, ← hr.2]

/-- A character that is read for itself is plain, unless it is a backslash that takes another one. -/
theorem plain_of_readText? {x : Segments (List Char)} (hnames : Names parameters f pieces)
    (hescape : ∀ d rest, c = '\\' → pieces ≠ .literal d :: rest)
    (h : readText? (c :: (pieces.flatMap (Code.ofPiece parameters) ++ [Code.backtick])) = some (x.consChar c, [])) :
    c ≠ '\\' ∧ c ≠ Code.backtick ∧ (c = '$' → pieces.head? ≠ some (.literal '{')) := by
  refine ⟨?_, ?_, ?_⟩
  · rintro rfl
    cases pieces with
    | nil => simp [readText?, Code.backtick] at h
    | cons piece pieces =>
      cases piece with
      | literal d => exact hescape d pieces rfl rfl
      | hole p =>
        -- the backslash takes the dollar sign of the substitution
        simp only [List.flatMap_cons, (hnames p List.mem_cons_self).1, List.cons_append, List.nil_append] at h
        rw [readText?_escaped] at h
        obtain ⟨r, -, hr⟩ := Option.map_eq_some_iff.1 h
        simp at hr
  · rintro rfl
    rw [readText?_backtick] at h
    simp at h
  · rintro rfl hhead
    cases pieces with
    | nil => cases hhead
    | cons piece pieces =>
      cases hhead
      simp only [List.flatMap_cons, Code.ofPiece, List.cons_append, List.nil_append, readText?] at h
      obtain ⟨r, -, hr⟩ := Option.map_eq_some_iff.1 h
      simp [Segments.consChar_ne_consItem.symm] at hr

/-- If the whole text of a literal is read and the pieces come out of it, they are inert. -/
theorem inert_of_readText? (hnames : Names parameters f pieces)
    (h : readText? (pieces.flatMap (Code.ofPiece parameters) ++ [Code.backtick]) =
      some (prepend f (unescape pieces) .empty, [])) : Inert pieces := by
  induction pieces using unescape.induct with
  | case1 => exact .nil
  | case2 c pieces ih =>
    have hsub : pieces ⊆ .literal '\\' :: .literal c :: pieces := by simp
    simp only [List.flatMap_cons, Code.ofPiece, List.cons_append, List.nil_append] at h
    rw [readText?_escaped] at h
    exact .escaped c (ih (hnames.mono hsub) (eq_of_map_eq_some (fun x y hxy => (Segments.consChar_inj.1 hxy).2) h))
  | case3 piece pieces hescape ih =>
    have hnames' := hnames.mono (List.subset_cons_self piece pieces)
    rw [unescape.eq_3 _ _ hescape] at h
    cases piece with
    | hole p =>
      obtain ⟨hpiece, hname⟩ := hnames p List.mem_cons_self
      rw [List.flatMap_cons, hpiece, List.append_assoc, readText?_substitution hname] at h
      exact .hole p (ih hnames' (eq_of_map_eq_some (fun x y hxy => (Segments.consItem_inj.1 hxy).2) h))
    | literal c =>
      simp only [List.flatMap_cons, Code.ofPiece, List.cons_append, List.nil_append] at h
      obtain ⟨hslash, hback, hopen⟩ := plain_of_readText? hnames'
        (fun d rest hc hpieces => hescape d rest (by rw [hc]) hpieces) h
      rw [readText?_plain hslash hback fun hc => head?_flatMap_ofPiece hnames' (hopen hc) (by decide)] at h
      exact .plain hslash hback hopen
        (ih hnames' (eq_of_map_eq_some (fun x y hxy => (Segments.consChar_inj.1 hxy).2) h))

end Reading

end TemplateLiteral
end AnnotatedSql
