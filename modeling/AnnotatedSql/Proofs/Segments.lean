import AnnotatedSql.Proofs.Text
import AnnotatedSql.Source.Placeholder
/-!
# Gaps and placeholders

A body is cut in one way only into gaps, in which no placeholder starts, and placeholders that are as
long as they can be. The scanner finds this cut (`Segments.cuts_iff`), and the bytes of each
placeholder in it (`Segments.locates_occurrences`).
-/

namespace AnnotatedSql

open Text (byteLength isWord)

/-- Texts and items by turns: the text in front of the first item, then each item with the text
behind it. -/
structure Segments (α : Type) where
  front : List Char
  tail : List (α × List Char)
  deriving DecidableEq, Repr

namespace Segments

variable {α β : Type} {a : α} {c : Char} {x y : Segments α}

def empty : Segments α := ⟨[], []⟩

def consChar (c : Char) (x : Segments α) : Segments α := ⟨c :: x.front, x.tail⟩

def consItem (a : α) (x : Segments α) : Segments α := ⟨[], (a, x.front) :: x.tail⟩

def items (x : Segments α) : List α := x.tail.map Prod.fst

def gaps (x : Segments α) : List (List Char) := x.front :: x.tail.map Prod.snd

def map (f : α → β) (x : Segments α) : Segments β := ⟨x.front, x.tail.map fun s => (f s.1, s.2)⟩

/-- The whole text, where each item stands for a text of its own. -/
def text (f : α → List Char) (x : Segments α) : List Char :=
  x.front ++ x.tail.flatMap fun s => f s.1 ++ s.2

@[simp] theorem items_empty : (empty : Segments α).items = [] := rfl

@[simp] theorem items_consChar : (x.consChar c).items = x.items := rfl

@[simp] theorem items_consItem : (x.consItem a).items = a :: x.items := rfl

@[simp] theorem map_empty (f : α → β) : (empty : Segments α).map f = empty := rfl

@[simp] theorem map_consChar (f : α → β) : (x.consChar c).map f = (x.map f).consChar c := rfl

@[simp] theorem map_consItem (f : α → β) : (x.consItem a).map f = (x.map f).consItem (f a) := rfl

@[simp] theorem items_map (f : α → β) : (x.map f).items = x.items.map f := by
  simp [items, map]

@[simp] theorem gaps_map (f : α → β) : (x.map f).gaps = x.gaps := by
  simp [gaps, map]

theorem eq_of_items_of_gaps (hitems : x.items = y.items) (hgaps : x.gaps = y.gaps) : x = y := by
  obtain ⟨front, tail⟩ := x
  obtain ⟨front', tail'⟩ := y
  simp only [gaps, List.cons.injEq] at hgaps
  have htail : tail = tail' := (List.zip_of_prod hitems hgaps.2).trans (List.zip_of_prod rfl rfl).symm
  rw [hgaps.1, htail]

@[simp] theorem text_empty (f : α → List Char) : (empty : Segments α).text f = [] := rfl

@[simp] theorem text_consChar (f : α → List Char) : (x.consChar c).text f = c :: x.text f := rfl

@[simp] theorem text_consItem (f : α → List Char) : (x.consItem a).text f = f a ++ x.text f := by
  simp [text, consItem]

theorem text_map (f : α → β) (g : β → List Char) : (x.map f).text g = x.text fun a => g (f a) := by
  simp [text, map, List.flatMap_map]

theorem text_cons (f : α → List Char) (front gap : List Char) (tail : List (α × List Char)) :
    text f ⟨front, (a, gap) :: tail⟩ = front ++ (f a ++ text f ⟨gap, tail⟩) := by
  simp [text]

@[simp] theorem consChar_inj {d : Char} : x.consChar c = y.consChar d ↔ c = d ∧ x = y := by
  obtain ⟨f, t⟩ := x
  obtain ⟨g, u⟩ := y
  simp [consChar, and_assoc]

@[simp] theorem consItem_inj {b : α} : x.consItem a = y.consItem b ↔ a = b ∧ x = y := by
  obtain ⟨f, t⟩ := x
  obtain ⟨g, u⟩ := y
  simp [consItem, and_assoc]

@[simp] theorem consChar_ne_empty : x.consChar c ≠ empty := by
  simp [consChar, empty]

@[simp] theorem consItem_ne_empty : x.consItem a ≠ empty := by
  simp [consItem, empty]

@[simp] theorem consChar_ne_consItem : x.consChar c ≠ y.consItem a := by
  simp [consChar, consItem]

/-- Segments end, or start with a character of a gap, or start with an item. -/
theorem eq_empty_or_cons (x : Segments α) :
    x = empty ∨ (∃ c y, x = consChar c y) ∨ ∃ a y, x = consItem a y := by
  obtain ⟨front, tail⟩ := x
  rcases front with - | ⟨c, front⟩
  · rcases tail with - | ⟨⟨a, gap⟩, tail⟩
    · exact .inl rfl
    · exact .inr (.inr ⟨a, ⟨gap, tail⟩, rfl⟩)
  · exact .inr (.inl ⟨c, ⟨front, tail⟩, rfl⟩)

/-- The gaps and placeholders that pieces make. -/
def ofPieces : List Piece → Segments Placeholder
  | [] => empty
  | .literal c :: pieces => (ofPieces pieces).consChar c
  | .hole p :: pieces => (ofPieces pieces).consItem p

theorem mem_items_ofPieces {pieces : List Piece} {p : Placeholder} :
    p ∈ (ofPieces pieces).items ↔ .hole p ∈ pieces := by
  induction pieces with
  | nil => simp [ofPieces]
  | cons piece pieces ih => cases piece <;> simp [ofPieces, ih]

theorem items_ofPieces_append (u v : List Piece) : (ofPieces (u ++ v)).items = (ofPieces u).items ++ (ofPieces v).items := by
  induction u with
  | nil => rfl
  | cons piece u ih => cases piece <;> simp [ofPieces, ih]

/-- Pieces that keep characters as they are make the text of the segments. -/
theorem text_ofPieces {f : Piece → List Char} (hf : ∀ c, f (.literal c) = [c]) (pieces : List Piece) :
    (ofPieces pieces).text (fun p => f (.hole p)) = pieces.flatMap f := by
  induction pieces with
  | nil => rfl
  | cons piece pieces ih => cases piece <;> simp [ofPieces, hf, ih]

end Segments

/-! ## Where placeholders start and end -/

/-- No character of a kind stands directly behind the given one. -/
def NoneBehind (a : Char) (q : Char → Bool) (s : List Char) : Prop :=
  ∀ d, [a, d] <:+: s → q d = false

section NoneBehind

variable {a c : Char} {q : Char → Bool} {s t : List Char}

theorem noneBehind_nil : NoneBehind a q [] := by
  intro d h
  simp at h

theorem noneBehind_cons :
    NoneBehind a q (c :: s) ↔ (c = a → ∀ d, s.head? = some d → q d = false) ∧ NoneBehind a q s := by
  have hpair : ∀ d, [a, d] <:+: c :: s ↔ (c = a ∧ s.head? = some d) ∨ [a, d] <:+: s := by
    intro d
    rw [List.infix_cons_iff, List.cons_prefix_cons]
    apply or_congr_left
    apply and_congr eq_comm
    cases s <;> simp [List.cons_prefix_cons, eq_comm]
  unfold NoneBehind
  constructor
  · intro h
    exact ⟨fun heq d hd => h d ((hpair d).2 (.inl ⟨heq, hd⟩)), fun d hd => h d ((hpair d).2 (.inr hd))⟩
  · rintro ⟨hhead, hs⟩ d hd
    rcases (hpair d).1 hd with ⟨heq, hd⟩ | hd
    · exact hhead heq d hd
    · exact hs d hd

theorem NoneBehind.of_infix (h : NoneBehind a q t) (hs : s <:+: t) : NoneBehind a q s :=
  fun d hd => h d (hd.trans hs)

theorem NoneBehind.append (hs : NoneBehind a q s) (ht : NoneBehind a q t)
    (hhead : ∀ d, t.head? = some d → q d = false) : NoneBehind a q (s ++ t) := by
  induction s with
  | nil => exact ht
  | cons c s ih =>
    rw [noneBehind_cons] at hs
    refine noneBehind_cons.2 ⟨fun heq d hd => ?_, ih hs.2⟩
    rcases s with - | ⟨e, s⟩
    · exact hhead d hd
    · exact hs.1 heq d hd

theorem NoneBehind.append_of_not_mem (ha : a ∉ s) (ht : NoneBehind a q t) : NoneBehind a q (s ++ t) := by
  induction s with
  | nil => exact ht
  | cons c s ih =>
    rw [List.mem_cons, not_or] at ha
    exact noneBehind_cons.2 ⟨fun heq => absurd heq.symm ha.1, ih ha.2⟩

end NoneBehind

/-- No placeholder starts at a character with the given one behind it. -/
def IsPlainAt (c : Char) (next : Option Char) : Prop :=
  c ≠ '?' ∧ (c = '$' → ∀ d, next = some d → d.isDigit = false) ∧ (c = ':' → ∀ d, next = some d → isWord d = false)

/-- No placeholder starts in a text. -/
structure IsGap (gap : List Char) : Prop where
  question : '?' ∉ gap
  dollar : NoneBehind '$' Char.isDigit gap
  colon : NoneBehind ':' isWord gap

theorem isGap_nil : IsGap [] :=
  ⟨List.not_mem_nil, noneBehind_nil, noneBehind_nil⟩

theorem isGap_cons {c : Char} {gap : List Char} : IsGap (c :: gap) ↔ IsPlainAt c gap.head? ∧ IsGap gap := by
  constructor
  · rintro ⟨hq, hd, hc⟩
    rw [List.mem_cons, not_or] at hq
    rw [noneBehind_cons] at hd hc
    exact ⟨⟨Ne.symm hq.1, hd.1, hc.1⟩, hq.2, hd.2, hc.2⟩
  · rintro ⟨⟨hq, hd, hc⟩, hgap⟩
    refine ⟨?_, noneBehind_cons.2 ⟨hd, hgap.dollar⟩, noneBehind_cons.2 ⟨hc, hgap.colon⟩⟩
    rw [List.mem_cons, not_or]
    exact ⟨Ne.symm hq, hgap.question⟩

namespace Placeholder

/-- A placeholder is well formed and cannot be longer in front of the text behind it. -/
def IsLongest (behind : List Char) : Placeholder → Prop
  | position digits =>
    digits ≠ [] ∧ (∀ d ∈ digits, d.isDigit = true) ∧ ∀ d, behind.head? = some d → d.isDigit = false
  | question => True
  | name word => word ≠ [] ∧ (∀ d ∈ word, isWord d = true) ∧ ∀ d, behind.head? = some d → isWord d = false

theorem take?_eq_none_iff {c : Char} {cs : List Char} : take? (c :: cs) = none ↔ IsPlainAt c cs.head? := by
  have hrun : ∀ q : Char → Bool, cs.takeWhile q = [] ↔ ∀ d, cs.head? = some d → q d = false := by
    intro q
    cases cs with
    | nil => simp
    | cons d ds => cases h : q d <;> simp [h]
  by_cases hdollar : c = '$'
  · subst hdollar
    simp only [IsPlainAt, take?]
    cases h : cs.takeWhile Char.isDigit with
    | nil => simpa using (hrun _).1 h
    | cons d ds => simpa [h] using (hrun Char.isDigit).not.1 (by simp [h])
  · by_cases hcolon : c = ':'
    · subst hcolon
      simp only [IsPlainAt, take?]
      cases h : cs.takeWhile isWord with
      | nil => simpa using (hrun _).1 h
      | cons d ds => simpa [h] using (hrun isWord).not.1 (by simp [h])
    · by_cases hquestion : c = '?'
      · simp [IsPlainAt, take?, hquestion]
      · simp [IsPlainAt, take?, hdollar, hcolon, hquestion]

theorem isLongest_of_take? {text rest : List Char} {p : Placeholder} (h : take? text = some (p, rest)) :
    p.IsLongest rest := by
  unfold take? at h
  split at h
  · rename_i cs
    split at h
    · cases h
    · rename_i hne
      cases h
      exact ⟨hne, fun d hd => List.mem_takeWhile_imp hd, fun d hd => Text.head?_dropWhile cs d hd⟩
  · cases h
    trivial
  · rename_i cs
    split at h
    · cases h
    · rename_i hne
      cases h
      exact ⟨hne, fun d hd => List.mem_takeWhile_imp hd, fun d hd => Text.head?_dropWhile cs d hd⟩
  · cases h

theorem take?_text_append {p : Placeholder} {behind : List Char} (h : p.IsLongest behind) :
    take? (p.text ++ behind) = some (p, behind) := by
  cases p with
  | position digits =>
    obtain ⟨hne, hdigits, hstop⟩ := h
    simp only [text, List.cons_append, take?, Text.takeWhile_append_stop hdigits hstop,
      Text.dropWhile_append_stop hdigits hstop]
  | question => rfl
  | name word =>
    obtain ⟨hne, hword, hstop⟩ := h
    simp only [text, List.cons_append, take?, Text.takeWhile_append_stop hword hstop,
      Text.dropWhile_append_stop hword hstop]

theorem exists_text_eq_cons (p : Placeholder) : ∃ c cs, p.text = c :: cs ∧ c.isDigit = false ∧ isWord c = false := by
  cases p with
  | position digits => exact ⟨'$', digits, rfl, by decide, by decide⟩
  | question => exact ⟨'?', [], rfl, by decide, by decide⟩
  | name word => exact ⟨':', word, rfl, by decide, by decide⟩

end Placeholder

theorem scan_of_take? {text rest : List Char} {p : Placeholder} (h : Placeholder.take? text = some (p, rest)) :
    scan text = .hole p :: scan rest := by
  cases text with
  | nil => cases h
  | cons c cs =>
    rw [scan]
    split
    · rename_i q behind htake
      rw [h] at htake
      cases htake
      rfl
    · rename_i hnone
      rw [h] at hnone
      cases hnone

theorem scan_of_plain {c : Char} {cs : List Char} (h : IsPlainAt c cs.head?) : scan (c :: cs) = .literal c :: scan cs := by
  rw [scan]
  split
  · rename_i q behind htake
    rw [Placeholder.take?_eq_none_iff.2 h] at htake
    cases htake
  · rfl

/-! ## The only cut -/

namespace Segments

variable {x : Segments Placeholder} {body : List Char}

/-- The segments put together are the body, no placeholder starts in a gap, and none could be longer. -/
structure Cuts (x : Segments Placeholder) (body : List Char) : Prop where
  text : x.text Placeholder.text = body
  gaps : ∀ gap ∈ x.gaps, IsGap gap
  longest : ∀ before p gap after, x.tail = before ++ (p, gap) :: after →
    p.IsLongest (Segments.text Placeholder.text ⟨gap, after⟩)

theorem cuts_empty : (empty : Segments Placeholder).Cuts body ↔ body = [] := by
  constructor
  · intro h
    exact h.text.symm
  · rintro rfl
    exact ⟨rfl, by simp [gaps, empty, isGap_nil], by simp [empty]⟩

/-- Whether a character is plain does not depend on the placeholder that stands behind its gap. -/
theorem isPlainAt_head?_text {c : Char} :
    IsPlainAt c (x.text Placeholder.text).head? ↔ IsPlainAt c x.front.head? := by
  obtain ⟨front, tail⟩ := x
  rcases front with - | ⟨d, front⟩
  · rcases tail with - | ⟨⟨p, gap⟩, tail⟩
    · rfl
    · obtain ⟨d, cs, htext, hdigit, hword⟩ := p.exists_text_eq_cons
      simp [IsPlainAt, Segments.text, htext, hdigit, hword]
  · rfl

theorem cuts_consChar {c : Char} :
    (x.consChar c).Cuts body ↔ ∃ behind, body = c :: behind ∧ Placeholder.take? body = none ∧ x.Cuts behind := by
  constructor
  · intro h
    have hgap := h.gaps (c :: x.front) List.mem_cons_self
    rw [isGap_cons] at hgap
    refine ⟨x.text Placeholder.text, h.text.symm, ?_, rfl, ?_, h.longest⟩
    · rw [← h.text]
      exact Placeholder.take?_eq_none_iff.2 (isPlainAt_head?_text.2 hgap.1)
    · intro gap hg
      rcases List.mem_cons.1 hg with rfl | hg
      · exact hgap.2
      · exact h.gaps gap (List.mem_cons_of_mem _ hg)
  · rintro ⟨behind, rfl, hnone, h⟩
    refine ⟨congrArg (c :: ·) h.text, ?_, h.longest⟩
    intro gap hg
    rcases List.mem_cons.1 hg with rfl | hg
    · refine isGap_cons.2 ⟨isPlainAt_head?_text.1 ?_, h.gaps _ List.mem_cons_self⟩
      rw [h.text]
      exact Placeholder.take?_eq_none_iff.1 hnone
    · exact h.gaps gap (List.mem_cons_of_mem _ hg)

theorem cuts_consItem {p : Placeholder} :
    (x.consItem p).Cuts body ↔ ∃ behind, Placeholder.take? body = some (p, behind) ∧ x.Cuts behind := by
  constructor
  · intro h
    refine ⟨x.text Placeholder.text, ?_, rfl, fun gap hg => h.gaps gap (List.mem_cons_of_mem _ hg), ?_⟩
    · rw [← h.text, text_consItem]
      exact Placeholder.take?_text_append (h.longest [] p x.front x.tail rfl)
    · intro before q gap after htail
      exact h.longest ((p, x.front) :: before) q gap after (congrArg _ htail)
  · rintro ⟨behind, htake, h⟩
    refine ⟨?_, ?_, ?_⟩
    · rw [text_consItem, h.text, Placeholder.eq_append_of_take? htake]
    · intro gap hg
      rcases List.mem_cons.1 hg with rfl | hg
      · exact isGap_nil
      · exact h.gaps gap hg
    · intro before q gap after htail
      rcases before with - | ⟨s, before⟩
      · cases htail
        have hlongest := Placeholder.isLongest_of_take? htake
        rw [← h.text] at hlongest
        exact hlongest
      · exact h.longest before q gap after (List.cons.inj htail).2

/-- The scanner finds the one cut of a body. -/
theorem cuts_iff : x.Cuts body ↔ x = ofPieces (scan body) := by
  -- A cut starts with a character of a gap exactly where the scanner takes no placeholder.
  fun_induction scan body generalizing x with
  | case1 =>
    rcases x.eq_empty_or_cons with rfl | ⟨c, y, rfl⟩ | ⟨p, y, rfl⟩
    · simp [cuts_empty, ofPieces]
    · simp [cuts_consChar, ofPieces]
    · simp [cuts_consItem, ofPieces, Placeholder.take?]
  | case2 c cs p rest htake _ ih =>
    rcases x.eq_empty_or_cons with rfl | ⟨d, y, rfl⟩ | ⟨q, y, rfl⟩
    · simp [cuts_empty, ofPieces, consItem_ne_empty.symm]
    · simp [cuts_consChar, ofPieces, htake]
    · simp only [cuts_consItem, htake, Option.some.injEq, Prod.mk.injEq, ofPieces, consItem_inj, ← ih]
      constructor
      · rintro ⟨behind, ⟨rfl, rfl⟩, h⟩
        exact ⟨rfl, h⟩
      · rintro ⟨rfl, h⟩
        exact ⟨rest, ⟨rfl, rfl⟩, h⟩
  | case3 c cs htake ih =>
    rcases x.eq_empty_or_cons with rfl | ⟨d, y, rfl⟩ | ⟨q, y, rfl⟩
    · simp [cuts_empty, ofPieces, consChar_ne_empty.symm]
    · simp only [cuts_consChar, htake, List.cons.injEq, true_and, ofPieces, consChar_inj, ← ih]
      constructor
      · rintro ⟨behind, ⟨rfl, rfl⟩, h⟩
        exact ⟨rfl, h⟩
      · rintro ⟨rfl, h⟩
        exact ⟨cs, ⟨rfl, rfl⟩, h⟩
    · simp [cuts_consItem, ofPieces, consChar_ne_consItem.symm, htake]

theorem cuts_scan (body : List Char) : (ofPieces (scan body)).Cuts body :=
  cuts_iff.2 rfl

/-- The occurrences are the placeholders in order, each at the bytes that it takes up in a text that
starts at byte `start`. -/
structure Locates (x : Segments Placeholder) (start : Nat) (os : List Occurrence) : Prop where
  placeholders : os.map (·.placeholder) = x.items
  spans : ∀ before p gap after, x.tail = before ++ (p, gap) :: after →
    os[before.length]? =
      some ⟨p, ⟨start + byteLength (Segments.text Placeholder.text ⟨x.front, before⟩), byteLength p.text⟩⟩

theorem locates_occurrences (start : Nat) (pieces : List Piece) :
    (ofPieces pieces).Locates start (occurrences start pieces) := by
  induction pieces generalizing start with
  | nil => exact ⟨rfl, by simp [ofPieces, empty]⟩
  | cons piece pieces ih =>
    cases piece with
    | literal c =>
      obtain ⟨hitems, hspans⟩ := ih (start + c.utf8Size)
      refine ⟨hitems, fun before p gap after htail => ?_⟩
      have := hspans before p gap after htail
      simpa [occurrences, ofPieces, consChar, Segments.text, Nat.add_assoc] using this
    | hole q =>
      obtain ⟨hitems, hspans⟩ := ih (start + byteLength q.text)
      refine ⟨congrArg (q :: ·) hitems, fun before p gap after htail => ?_⟩
      rcases before with - | ⟨s, before⟩
      · cases htail
        simp [occurrences, ofPieces, consItem, Segments.text]
      · obtain rfl := (List.cons.inj htail).1
        have := hspans before p gap after (List.cons.inj htail).2
        simpa [occurrences, ofPieces, consItem, Segments.text, Nat.add_assoc] using this

end Segments
end AnnotatedSql
