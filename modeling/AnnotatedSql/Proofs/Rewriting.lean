import AnnotatedSql.Proofs.Resolution
import AnnotatedSql.Proofs.Segments
/-!
# What resolving leaves of a body

Resolving a body puts a substitution in place of each placeholder, writes a backslash in front of the
first backtick, and changes nothing else (`Segments.Rewritten`).
-/

namespace AnnotatedSql

open Text (isWord isDigit_of_mem_toDigits isWord_of_isDigit)

/-! ## Substitutions -/

/-- The characters that the name in a substitution can have. -/
def IsNameText (name : List Char) : Prop :=
  ∀ c ∈ name, c = '$' ∨ isWord c = true

theorem IsNameText.not_mem {name : List Char} (h : IsNameText name) {c : Char} (hdollar : c ≠ '$')
    (hword : isWord c = false) : c ∉ name := by
  intro hc
  rcases h c hc with rfl | hc
  · exact hdollar rfl
  · rw [hword] at hc
    cases hc

namespace Placeholder

variable {parameters : Parameters} {p : Placeholder} {t : Target} {behind : List Char}

theorem IsLongest.not_mem_text (hp : p.IsLongest behind) {c : Char} (hc : c ∉ ['$', '?', ':'])
    (hword : isWord c = false) : c ∉ p.text := by
  simp only [List.mem_cons, List.not_mem_nil, or_false, not_or] at hc
  intro hmem
  cases p with
  | position digits =>
    rcases List.mem_cons.1 hmem with rfl | hmem
    · exact hc.1 rfl
    · simp [isWord_of_isDigit (hp.2.1 c hmem)] at hword
  | question => exact hc.2.1 (List.mem_singleton.1 hmem)
  | name word =>
    rcases List.mem_cons.1 hmem with rfl | hmem
    · exact hc.2.2 rfl
    · simp [hp.2.1 c hmem] at hword

theorem isNameText_of_target? (hp : p.IsLongest behind) (h : p.target? parameters = some t) : IsNameText t.name := by
  have hargument : ∀ n, IsNameText (Target.argument n).name := by
    intro n c hc
    rcases List.mem_cons.1 hc with rfl | hc
    · exact .inl rfl
    · exact .inr (isWord_of_isDigit (isDigit_of_mem_toDigits hc))
  cases p with
  | position digits =>
    obtain ⟨-, -, -, rfl⟩ := target?_position.1 h
    exact hargument _
  | question =>
    obtain ⟨k, -, rfl⟩ := target?_question.1 h
    exact hargument _
  | name word =>
    obtain ⟨-, rfl⟩ := target?_name.1 h
    intro c hc
    rcases List.mem_cons.1 hc with rfl | hc
    · exact .inl rfl
    · exact .inr (hp.2.1 c hc)

end Placeholder

namespace Code

variable {s t : List Char}

/-! ## The first backtick -/

/-- A text, and the same with a backslash in front of its first backtick if it has one. -/
inductive EscapesFirst : List Char → List Char → Prop
  | none {s : List Char} (h : backtick ∉ s) : EscapesFirst s s
  | first {s : List Char} (h : backtick ∉ s) (t : List Char) :
    EscapesFirst (s ++ backtick :: t) (s ++ '\\' :: backtick :: t)

theorem escapeFirst_append (h : backtick ∉ s) (t : List Char) : escapeFirst (s ++ t) = s ++ escapeFirst t := by
  induction s with
  | nil => rfl
  | cons c s ih =>
    rw [List.mem_cons, not_or] at h
    rw [List.cons_append, escapeFirst, if_neg (Ne.symm h.1), ih h.2, List.cons_append]

theorem escapeFirst_of_not_mem (h : backtick ∉ s) : escapeFirst s = s := by
  simpa [escapeFirst] using escapeFirst_append h []

theorem escapeFirst_append_backtick (h : backtick ∉ s) :
    escapeFirst (s ++ backtick :: t) = s ++ '\\' :: backtick :: t := by
  rw [escapeFirst_append h, escapeFirst, if_pos rfl]

theorem escapesFirst_escapeFirst (s : List Char) : EscapesFirst s (escapeFirst s) := by
  by_cases h : backtick ∈ s
  · obtain ⟨u, v, rfl, hu⟩ := List.eq_append_cons_of_mem h
    rw [escapeFirst_append_backtick hu]
    exact .first hu v
  · rw [escapeFirst_of_not_mem h]
    exact .none h

theorem EscapesFirst.mem {c : Char} (h : EscapesFirst s t) (hc : c ∈ t) : c ∈ s ∨ c = '\\' := by
  cases h with
  | none _ => exact .inl hc
  | first _ v =>
    simp only [List.mem_append, List.mem_cons] at hc ⊢
    tauto

theorem EscapesFirst.noneBehind {a : Char} {q : Char → Bool} (h : EscapesFirst s t) (hs : NoneBehind a q s)
    (ha : a ≠ '\\') (hq : q '\\' = false) : NoneBehind a q t := by
  cases h with
  | none _ => exact hs
  | @first u _ v =>
    have hu := hs.of_infix (List.prefix_append u (backtick :: v)).isInfix
    have hv := hs.of_infix (List.suffix_append u (backtick :: v)).isInfix
    refine hu.append (noneBehind_cons.2 ⟨fun heq => absurd heq.symm ha, hv⟩) ?_
    rintro d ⟨⟩
    exact hq

end Code

/-! ## The whole body -/

namespace Segments

section NoneBehind

variable {α : Type} {f : α → List Char} {a : Char} {q : Char → Bool} {tail : List (α × List Char)}

theorem head?_flatMap_tail (hhead : ∀ s ∈ tail, ∃ c cs, f s.1 = c :: cs ∧ q c = false) (d : Char)
    (hd : (tail.flatMap fun s => f s.1 ++ s.2).head? = some d) : q d = false := by
  cases tail with
  | nil => cases hd
  | cons s tail =>
    obtain ⟨c, cs, hf, hc⟩ := hhead s List.mem_cons_self
    simp only [List.flatMap_cons, hf, List.cons_append, List.head?_cons, Option.some.injEq] at hd
    exact hd ▸ hc

theorem noneBehind_flatMap_tail (hgaps : ∀ s ∈ tail, NoneBehind a q s.2) (hitems : ∀ s ∈ tail, a ∉ f s.1)
    (hhead : ∀ s ∈ tail, ∃ c cs, f s.1 = c :: cs ∧ q c = false) :
    NoneBehind a q (tail.flatMap fun s => f s.1 ++ s.2) := by
  induction tail with
  | nil => exact noneBehind_nil
  | cons s tail ih =>
    rw [List.forall_mem_cons] at hgaps hitems hhead
    rw [List.flatMap_cons, List.append_assoc]
    apply NoneBehind.append_of_not_mem hitems.1
    exact hgaps.1.append (ih hgaps.2 hitems.2 hhead.2) (head?_flatMap_tail hhead.2)

/-- What stands nowhere in a gap stands nowhere in the whole text, if the items do not bring it in. -/
theorem noneBehind_text {x : Segments α} (hgaps : ∀ gap ∈ x.gaps, NoneBehind a q gap)
    (hitems : ∀ i ∈ x.items, a ∉ f i ∧ ∃ c cs, f i = c :: cs ∧ q c = false) : NoneBehind a q (x.text f) := by
  have hgaps' : ∀ s ∈ x.tail, NoneBehind a q s.2 := fun s hs =>
    hgaps s.2 (List.mem_cons_of_mem _ (List.mem_map_of_mem hs))
  have hitems' : ∀ s ∈ x.tail, a ∉ f s.1 ∧ ∃ c cs, f s.1 = c :: cs ∧ q c = false := fun s hs =>
    hitems s.1 (List.mem_map_of_mem hs)
  apply (hgaps x.front List.mem_cons_self).append
  · exact noneBehind_flatMap_tail hgaps' (fun s hs => (hitems' s hs).1) fun s hs => (hitems' s hs).2
  · exact head?_flatMap_tail fun s hs => (hitems' s hs).2

end NoneBehind

theorem mem_text {α : Type} {f : α → List Char} {x : Segments α} {c : Char} (h : c ∈ x.text f) :
    (∃ gap ∈ x.gaps, c ∈ gap) ∨ ∃ i ∈ x.items, c ∈ f i := by
  rcases List.mem_append.1 h with h | h
  · exact .inl ⟨x.front, List.mem_cons_self, h⟩
  · obtain ⟨s, hs, hc⟩ := List.mem_flatMap.1 h
    rcases List.mem_append.1 hc with hc | hc
    · exact .inr ⟨s.1, List.mem_map_of_mem hs, hc⟩
    · exact .inl ⟨s.2, List.mem_cons_of_mem _ (List.mem_map_of_mem hs), hc⟩

variable {x : Segments Placeholder} {parameters : Parameters} {body code : List Char} {start : Nat}

/-- What the code is for a body that is cut like this: the gaps as they are, a substitution in place of
each placeholder, and a backslash in front of the first backtick. -/
structure Rewritten (x : Segments Placeholder) (parameters : Parameters) (code : List Char) : Prop where
  substitutions : ∀ p ∈ x.items, ∃ t, p.target? parameters = some t ∧
    Code.ofPiece parameters (.hole p) = ['$', '{'] ++ t.name ++ ['}']
  literal : ∃ inner, Code.EscapesFirst (x.text fun p => Code.ofPiece parameters (.hole p)) inner ∧
    code = Code.backtick :: inner ++ [Code.backtick]
  question : '?' ∉ code
  colon : NoneBehind ':' isWord code

theorem Cuts.isLongest (h : x.Cuts body) {p : Placeholder} (hp : p ∈ x.items) : ∃ behind, p.IsLongest behind := by
  obtain ⟨⟨p, gap⟩, hmem, rfl⟩ := List.mem_map.1 hp
  obtain ⟨before, after, htail⟩ := List.append_of_mem hmem
  exact ⟨_, h.longest before p gap after htail⟩

theorem Cuts.exists_target (h : x.Cuts body) (hcode : Code.ofBody parameters start body = .ok code)
    {p : Placeholder} (hp : p ∈ x.items) :
    ∃ t, p.target? parameters = some t ∧ IsNameText t.name ∧
      Code.ofPiece parameters (.hole p) = ['$', '{'] ++ t.name ++ ['}'] := by
  rw [cuts_iff.1 h, mem_items_ofPieces] at hp
  obtain ⟨t, ht⟩ := Option.isSome_iff_exists.1 ((Code.ofBody_eq_ok_iff.1 hcode).1 p hp)
  obtain ⟨behind, hlongest⟩ := h.isLongest (p := p) (by rwa [cuts_iff.1 h, mem_items_ofPieces])
  exact ⟨t, ht, Placeholder.isNameText_of_target? hlongest ht, Code.ofPiece_hole ht⟩

theorem Cuts.not_mem_ofPiece (h : x.Cuts body) (hcode : Code.ofBody parameters start body = .ok code)
    {c : Char} (hc : c ∉ ['$', '{', '}']) (hword : isWord c = false) {p : Placeholder} (hp : p ∈ x.items) :
    c ∉ Code.ofPiece parameters (.hole p) := by
  obtain ⟨t, -, hname, hpiece⟩ := h.exists_target hcode hp
  have := hname.not_mem (fun heq => hc (by simp [heq])) hword
  simp only [List.mem_cons, List.not_mem_nil, or_false, not_or] at hc
  simp [hpiece, this, hc]

theorem Cuts.rewritten (h : x.Cuts body) (hcode : Code.ofBody parameters start body = .ok code) :
    x.Rewritten parameters code := by
  have hinner := Code.escapesFirst_escapeFirst (x.text fun p => Code.ofPiece parameters (.hole p))
  have hliteral : code = Code.backtick ::
      Code.escapeFirst (x.text fun p => Code.ofPiece parameters (.hole p)) ++ [Code.backtick] := by
    rw [cuts_iff.1 h, text_ofPieces fun c => rfl]
    exact (Code.ofBody_eq_ok_iff.1 hcode).2
  refine ⟨fun p hp => ?_, ⟨_, hinner, hliteral⟩, ?_, ?_⟩
  -- A question mark or a colon of the code can come from a gap only: a substitution holds neither.
  · obtain ⟨t, ht, -, hpiece⟩ := h.exists_target hcode hp
    exact ⟨t, ht, hpiece⟩
  · intro hmem
    rw [hliteral] at hmem
    have hinside : '?' ∈ Code.escapeFirst (x.text fun p => Code.ofPiece parameters (.hole p)) := by
      simpa [Code.backtick] using hmem
    rcases hinner.mem hinside with hc | hc
    · rcases mem_text hc with ⟨gap, hgap, hc⟩ | ⟨p, hp, hc⟩
      · exact (h.gaps gap hgap).question hc
      · exact h.not_mem_ofPiece hcode (by decide) (by decide) hp hc
    · cases hc
  · have htext : NoneBehind ':' isWord (x.text fun p => Code.ofPiece parameters (.hole p)) := by
      refine noneBehind_text (fun gap hgap => (h.gaps gap hgap).colon) fun p hp => ⟨?_, ?_⟩
      · exact h.not_mem_ofPiece hcode (by decide) (by decide) hp
      · obtain ⟨t, -, -, hpiece⟩ := h.exists_target hcode hp
        exact ⟨'$', _, hpiece, by decide⟩
    rw [hliteral, List.cons_append]
    refine noneBehind_cons.2 ⟨fun heq => absurd heq (by decide), ?_⟩
    refine (hinner.noneBehind htext (by decide) (by decide)).append ?_ ?_
    · exact noneBehind_cons.2 ⟨fun heq => absurd heq (by decide), noneBehind_nil⟩
    · rintro d ⟨⟩
      decide

end Segments

namespace Code

variable {parameters : Parameters} {start : Nat} {body code : List Char} {c : Char} {p : Placeholder}

/-- A character that makes up no placeholder. -/
theorem not_mem_text_of_mem_scan (hc : c ∉ ['$', '?', ':']) (hword : isWord c = false) (hp : .hole p ∈ scan body) :
    c ∉ p.text := by
  obtain ⟨behind, hlongest⟩ := (Segments.cuts_scan body).isLongest (Segments.mem_items_ofPieces.2 hp)
  exact hlongest.not_mem_text hc hword

/-- A character that makes up no substitution. -/
theorem not_mem_ofPiece_of_mem_scan (h : ofBody parameters start body = .ok code) (hc : c ∉ ['$', '{', '}'])
    (hword : isWord c = false) (hp : .hole p ∈ scan body) : c ∉ ofPiece parameters (.hole p) :=
  (Segments.cuts_scan body).not_mem_ofPiece h hc hword (Segments.mem_items_ofPieces.2 hp)

end Code

/-- A body is cut in one way into gaps and placeholders. The scanner finds the placeholders where they
stand, and resolving them changes the text in no other place. -/
theorem Code.exists_cut_rewritten (body : List Char) :
    ∃ x : Segments Placeholder, x.Cuts body ∧ (∀ y : Segments Placeholder, y.Cuts body → y = x) ∧
      (∀ start, x.Locates start (occurrences start (scan body))) ∧
      ∀ parameters start code, ofBody parameters start body = .ok code → x.Rewritten parameters code := by
  refine ⟨.ofPieces (scan body), Segments.cuts_iff.2 rfl, fun y hy => Segments.cuts_iff.1 hy,
    fun start => Segments.locates_occurrences start _, fun parameters start code hcode => ?_⟩
  exact Segments.Cuts.rewritten (Segments.cuts_iff.2 rfl) hcode

/-- Here a dollar sign and a colon stand in front of placeholders, and one placeholder stands between two
backticks. -/
theorem Code.exists_cut_rewritten_adjacent :
    ofBody [⟨1, .int, some "a", false, none⟩] 0 "$$1::a`?`".toList = .ok "`$${$1}:${$a}\\`${$1}``".toList ∧
      ∃ x : Segments Placeholder, x.Cuts "$$1::a`?`".toList ∧
        x.Rewritten [⟨1, .int, some "a", false, none⟩] "`$${$1}:${$a}\\`${$1}``".toList := by
  have h : ofBody [⟨1, .int, some "a", false, none⟩] 0 "$$1::a`?`".toList =
      .ok "`$${$1}:${$a}\\`${$1}``".toList := by
    decide +kernel
  obtain ⟨x, hcuts, -, -, hrewritten⟩ := exists_cut_rewritten "$$1::a`?`".toList
  exact ⟨h, x, hcuts, hrewritten _ _ _ h⟩

end AnnotatedSql
