import AnnotatedSql.Proofs.Segments
import AnnotatedSql.Template
import Mathlib.Data.List.Forall2
import Mathlib.Data.List.Infix
/-!
# Filling a template

A skeleton is a template that can be cut in one way only: no hole opens in its literals, and the name of
each hole ends where the first closing stands. Filling it puts a value in place of each hole and keeps the
literals (`fill_text`). It does not matter what the values contain, because they are not looked at again.
-/

namespace AnnotatedSql.Template

open Text (after? after?_eq_some_iff cut?)

variable {values : List (List Char × List Char)} {name lit rest behind : List Char} {x : Segments (List Char)}

/-- A hole as it stands in a template. -/
def mark (name : List Char) : List Char :=
  opening ++ name ++ closing

/-- What a hole becomes: the value of its name, or what it was. -/
def filled (values : List (List Char × List Char)) (name : List Char) : List Char :=
  (value? values name).getD (mark name)

/-- A name that the hole around it does not run into. -/
structure IsHoleName (name : List Char) : Prop where
  head : name.head? ≠ some '{'
  closing : ¬ Template.closing <:+: name
  last : name.getLast? ≠ some '}'

instance (name : List Char) : Decidable (IsHoleName name) :=
  decidable_of_iff (name.head? ≠ some '{' ∧ ¬ closing <:+: name ∧ name.getLast? ≠ some '}')
    ⟨fun h => ⟨h.1, h.2.1, h.2.2⟩, fun h => ⟨h.head, h.closing, h.last⟩⟩

/-- Literals in which no hole opens, by turns with holes. -/
structure IsSkeleton (x : Segments (List Char)) : Prop where
  gaps : ∀ lit ∈ x.gaps, ¬ opening <:+: lit
  items : ∀ name ∈ x.items, IsHoleName name

instance (x : Segments (List Char)) : Decidable (IsSkeleton x) :=
  decidable_of_iff ((∀ lit ∈ x.gaps, ¬ opening <:+: lit) ∧ ∀ name ∈ x.items, IsHoleName name)
    ⟨fun h => ⟨h.1, h.2⟩, fun h => ⟨h.gaps, h.items⟩⟩

/-! ## One step of the filling -/

theorem fill_nil : fill values [] = [] := by
  rw [fill]

theorem fill_brace : fill values ('{' :: '{' :: '{' :: rest) = '{' :: fill values ('{' :: '{' :: rest) := by
  rw [fill]

theorem fill_plain {c : Char} (h : c = '{' → rest.head? ≠ some '{') :
    fill values (c :: rest) = c :: fill values rest := by
  rw [fill]
  · rintro r rfl rfl
    exact h rfl rfl
  · rintro r rfl rfl
    exact h rfl rfl

theorem fill_open (h : rest.head? ≠ some '{') (hcut : cut? closing rest = some (name, behind)) :
    fill values ('{' :: '{' :: rest) = filled values name ++ fill values behind := by
  rw [fill]
  · split
    · rename_i hnone
      rw [hcut] at hnone
      cases hnone
    · rename_i name' behind' hsome
      rw [hcut] at hsome
      cases hsome
      rfl
  · rintro r rfl
    exact h rfl

/-- A hole ends at the first closing behind its name. -/
theorem cut?_mark (hclosing : ¬ closing <:+: name) (hlast : name.getLast? ≠ some '}') (rest : List Char) :
    cut? closing (name ++ (closing ++ rest)) = some (name, rest) := by
  induction name with
  | nil => rfl
  | cons c name ih =>
    rw [List.infix_cons_iff, not_or] at hclosing
    have hrest : name.getLast? ≠ some '}' := by
      cases name with
      | nil => simp
      | cons d name => rwa [List.getLast?_cons_cons] at hlast
    -- a closing at the first character would stand in the name, or be made of its last character
    have hnone : after? closing (c :: (name ++ (closing ++ rest))) = none := by
      cases name with
      | nil =>
        have hc : '}' ≠ c := by simpa [eq_comm] using hlast
        exact if_neg hc
      | cons d name =>
        by_contra hsome
        obtain ⟨t, ht⟩ := Option.ne_none_iff_exists'.1 hsome
        have heq := after?_eq_some_iff.1 ht
        simp only [closing, List.cons_append, List.nil_append, List.cons.injEq] at heq
        obtain ⟨rfl, rfl, -⟩ := heq
        exact hclosing.1 ⟨name, rfl⟩
    rw [List.cons_append, cut?, hnone, ih hclosing.2 hrest]
    rfl

/-- A hole is filled whatever follows it. -/
theorem fill_mark_append (h : IsHoleName name) (rest : List Char) :
    fill values (mark name ++ rest) = filled values name ++ fill values rest := by
  have hhead : (name ++ (closing ++ rest)).head? ≠ some '{' := by
    cases name with
    | nil => simp [closing]
    | cons c name => exact h.head
  have hmark : mark name ++ rest = '{' :: '{' :: (name ++ (closing ++ rest)) := by
    simp [mark, opening]
  rw [hmark, fill_open hhead (cut?_mark h.closing h.last rest)]

/-- A literal is kept, also when it ends with the brace in front of a hole. -/
theorem fill_literal_append (h : ¬ opening <:+: lit) (hrest : rest = [] ∨ opening <+: rest) :
    fill values (lit ++ rest) = lit ++ fill values rest := by
  induction lit with
  | nil => rfl
  | cons c lit ih =>
    rw [List.infix_cons_iff, not_or] at h
    rw [List.cons_append, List.cons_append, ← ih h.2]
    by_cases hplain : c = '{' → (lit ++ rest).head? ≠ some '{'
    · exact fill_plain hplain
    · rw [Classical.not_imp, not_not] at hplain
      obtain ⟨rfl, hhead⟩ := hplain
      -- two braces in a row do not stand in the literal, so the second one opens a hole
      cases lit with
      | nil =>
        rcases hrest with rfl | ⟨t, rfl⟩
        · cases hhead
        · exact fill_brace
      | cons d lit =>
        have hd : d = '{' := by simpa using hhead
        subst hd
        exact absurd ⟨lit, rfl⟩ h.1

/-! ## The whole filling -/

theorem isSkeleton_cons {front : List Char} {tail : List (List Char × List Char)} :
    IsSkeleton ⟨front, (name, lit) :: tail⟩ ↔ ¬ opening <:+: front ∧ IsHoleName name ∧ IsSkeleton ⟨lit, tail⟩ := by
  constructor
  · rintro ⟨hgaps, hitems⟩
    obtain ⟨hfront, hgaps⟩ := List.forall_mem_cons.1 hgaps
    obtain ⟨hname, hitems⟩ := List.forall_mem_cons.1 hitems
    exact ⟨hfront, hname, hgaps, hitems⟩
  · rintro ⟨hfront, hname, hgaps, hitems⟩
    exact ⟨List.forall_mem_cons.2 ⟨hfront, hgaps⟩, List.forall_mem_cons.2 ⟨hname, hitems⟩⟩

/-- Filling a skeleton keeps its literals and puts what belongs there in place of its holes. -/
theorem fill_text (h : IsSkeleton x) : fill values (x.text mark) = x.text (filled values) := by
  obtain ⟨front, tail⟩ := x
  induction tail generalizing front with
  | nil =>
    have hfront : ¬ opening <:+: front := h.gaps front List.mem_cons_self
    have hfill : fill values (front ++ []) = front ++ fill values [] := fill_literal_append hfront (.inl rfl)
    rwa [fill_nil] at hfill
  | cons hole tail ih =>
    obtain ⟨name, lit⟩ := hole
    obtain ⟨hfront, hname, hrest⟩ := isSkeleton_cons.1 h
    have hopens : opening <+: mark name ++ Segments.text mark ⟨lit, tail⟩ := by
      simp [mark, List.prefix_append]
    simp only [Segments.text_cons]
    rw [fill_literal_append hfront (.inr hopens), fill_mark_append hname, ih lit hrest]

/-- A template that is a skeleton renders as the text of the skeleton. -/
theorem toList_render {template : String} {values : List (String × String)} (h : IsSkeleton x)
    (htemplate : template.toList = x.text mark) :
    (render template values).toList = x.text (filled (values.map fun (n, v) => (n.toList, v.toList))) := by
  rw [render, String.toList_ofList, htemplate, fill_text h]

/-! ## Without values -/

/-- Where no name has a value nothing changes, also behind an opening that is never closed. -/
theorem fill_without_values (template : List Char) : fill [] template = template := by
  fun_induction fill [] template with
  | case1 => rfl
  | case2 rest ih => rw [ih]
  | case3 rest _ hcut => rfl
  | case4 rest _ name behind hcut _ ih =>
    have hrest := Text.eq_append_of_cut? hcut
    rw [ih, hrest]
    simp [value?, opening]
  | case5 c rest _ _ ih => rw [ih]

/-! ## What stands in place of a hole -/

/-- A value stands in place of a hole: the first one that is given for its name, or the hole itself if there is none. -/
def StandsFor (values : List (String × String)) (name value : List Char) : Prop :=
  (∃ front rest, values = front ++ (String.ofList name, String.ofList value) :: rest ∧
      ∀ given ∈ front, given.1 ≠ String.ofList name) ∨
    ((∀ given ∈ values, given.1 ≠ String.ofList name) ∧ value = mark name)

theorem filled_eq (values : List (String × String)) (name : List Char) :
    filled (values.map fun (n, v) => (n.toList, v.toList)) name =
      ((values.find? fun given => given.1 = String.ofList name).map (·.2.toList)).getD (mark name) := by
  have hsame : ((fun x : List Char × List Char => x.1 == name) ∘ fun given : String × String =>
      (given.1.toList, given.2.toList)) = fun given => decide (given.1 = String.ofList name) := by
    funext given
    simp [← String.toList_inj, Bool.beq_eq_decide_eq]
  rw [filled, value?, List.find?_map, hsame, Option.map_map]
  rfl

/-- What stands in place of a hole is determined, and it is put there. -/
theorem standsFor_iff {values : List (String × String)} {value : List Char} :
    StandsFor values name value ↔ filled (values.map fun (n, v) => (n.toList, v.toList)) name = value := by
  rw [filled_eq]
  constructor
  · rintro (⟨front, rest, hvalues, hfront⟩ | ⟨hnone, rfl⟩)
    · have hfind : values.find? (fun given => given.1 = String.ofList name) =
          some (String.ofList name, String.ofList value) :=
        List.find?_eq_some_iff_append.2 ⟨by simp, front, rest, hvalues, by simpa using hfront⟩
      rw [hfind, Option.map_some, Option.getD_some, String.toList_ofList]
    · rw [List.find?_eq_none.2 (by simpa using hnone)]
      rfl
  · rintro rfl
    cases hfind : values.find? fun given => given.1 = String.ofList name with
    | none => exact .inr ⟨by simpa using hfind, rfl⟩
    | some given =>
      obtain ⟨hname, front, rest, hvalues, hfront⟩ := List.find?_eq_some_iff_append.1 hfind
      have hgiven : given = (String.ofList name, String.ofList given.2.toList) := by
        rw [String.ofList_toList, ← of_decide_eq_true hname]
      rw [hgiven] at hvalues
      exact .inl ⟨front, rest, hvalues, by simpa using hfront⟩

/-- Each hole has given way to what stands in its place, and nothing else has changed. -/
structure Fills (values : List (String × String)) (x y : Segments (List Char)) : Prop where
  gaps : y.gaps = x.gaps
  items : List.Forall₂ (StandsFor values) x.items y.items

theorem fills_iff {values : List (String × String)} {y : Segments (List Char)} :
    Fills values x y ↔ y = x.map (filled (values.map fun (n, v) => (n.toList, v.toList))) := by
  have hitems : List.Forall₂ (StandsFor values) x.items y.items ↔
      x.items.map (filled (values.map fun (n, v) => (n.toList, v.toList))) = y.items := by
    rw [← List.forall₂_eq_eq_eq, List.forall₂_map_left_iff]
    exact ⟨List.Forall₂.imp fun _ _ => standsFor_iff.1, List.Forall₂.imp fun _ _ => standsFor_iff.2⟩
  constructor
  · intro h
    refine Segments.eq_of_items_of_gaps ?_ (h.gaps.trans (Segments.gaps_map _).symm)
    rw [Segments.items_map]
    exact (hitems.1 h.items).symm
  · rintro rfl
    exact ⟨Segments.gaps_map _, hitems.2 (Segments.items_map _).symm⟩

/-! ## Rendering -/

/-- A skeleton is rendered with what stands in place of its holes, and what the values contain does not matter; without
values every template is rendered as it is. -/
theorem render_once :
    (∀ (x : Segments (List Char)) (values : List (String × String)), IsSkeleton x →
      ∃ y, (∀ z, Fills values x z ↔ z = y) ∧ render (String.ofList (x.text mark)) values = String.ofList (y.text id)) ∧
    ∀ template, render template [] = template := by
  constructor
  · intro x values h
    refine ⟨_, fun z => fills_iff, ?_⟩
    rw [render, String.toList_ofList, fill_text h, Segments.text_map]
    rfl
  · intro template
    rw [render, List.map_nil, fill_without_values, String.ofList_toList]

/-- Here a brace stands in front of a hole, another hole has braces in its name and no value, a third has an empty name,
and the values look like holes. -/
theorem render_once_braces :
    ∃ x : Segments (List Char), IsSkeleton x ∧
      x.text mark = "\x7b\x7b\x7bf\x7d\x7d()\x7b\x7ba\x7b\x7bb\x7d\x7d\x7b\x7b\x7d\x7d\x7b".toList ∧
      render "\x7b\x7b\x7bf\x7d\x7d()\x7b\x7ba\x7b\x7bb\x7d\x7d\x7b\x7b\x7d\x7d\x7b"
          [("f", "\x7b\x7b\x7d\x7d\x7b"), ("f", "x"), ("", "\x7b\x7bf\x7d\x7d")] =
        "\x7b\x7b\x7b\x7d\x7d\x7b()\x7b\x7ba\x7b\x7bb\x7d\x7d\x7b\x7bf\x7d\x7d\x7b" ∧
      render "\x7b\x7b\x7b\x7bf\x7d\x7d\x7b\x7b\x7bx" [] = "\x7b\x7b\x7b\x7bf\x7d\x7d\x7b\x7b\x7bx" := by
  let x : Segments (List Char) := ⟨['{'], [(['f'], ['(', ')']), (['a', '{', '{', 'b'], []), ([], ['{'])]⟩
  have hx : IsSkeleton x := by decide
  have htext : x.text mark =
      "\x7b\x7b\x7bf\x7d\x7d()\x7b\x7ba\x7b\x7bb\x7d\x7d\x7b\x7b\x7d\x7d\x7b".toList := by decide
  obtain ⟨hskeleton, hwithout⟩ := render_once
  obtain ⟨y, hy, hrender⟩ :=
    hskeleton x [("f", "\x7b\x7b\x7d\x7d\x7b"), ("f", "x"), ("", "\x7b\x7bf\x7d\x7d")] hx
  refine ⟨x, hx, htext, ?_, hwithout _⟩
  rw [htext, String.ofList_toList] at hrender
  rw [hrender, ← (hy _).1 (fills_iff.2 rfl)]
  decide

end AnnotatedSql.Template
