import AnnotatedSql.Proofs.Artifacts
import Mathlib.Algebra.GroupWithZero.Nat
/-!
# The comment of a declaration

A declaration starts with a comment that documents its arguments, and descriptions are copied into it as they
are. The comment ends where the mark that closes comments stands first. No name, type or other part of a
declaration holds or completes the mark, so every closing but the one of the comment's own last line stands
inside a description (`Procedure.IsCompiled.closings_render`), and the comment ends where it should exactly when
no description has one (`Compilation.closesAtEnd_iff`).
-/

namespace AnnotatedSql

open Identifier (IsScriptName)

namespace Comment

variable {c : Char} {s t u v : List Char}

/-- What closes a comment. -/
def closing : List Char := ['*', '/']

/-- The number of places at which a text closes a comment. -/
def closings : List Char → Nat
  | [] => 0
  | c :: s => (if c = '*' ∧ s.head? = some '/' then 1 else 0) + closings s

theorem closings_cons (h : c ≠ '*') (s : List Char) : closings (c :: s) = closings s := by
  simp [closings, h]

theorem closings_closing_append (s : List Char) : closings (closing ++ s) = closings s + 1 := by
  simp [closing, closings, Nat.add_comm]

/-- No closing is made of the end of one text and the start of another. -/
theorem closings_append (h : s.getLast? ≠ some '*' ∨ t.head? ≠ some '/') :
    closings (s ++ t) = closings s + closings t := by
  induction s with
  | nil => simp [closings]
  | cons c s ih =>
    cases s with
    | nil =>
      have hnone : ¬ (c = '*' ∧ t.head? = some '/') := by simpa [Classical.or_iff_not_imp_left] using h
      simp [closings, hnone]
    | cons d s =>
      rw [List.getLast?_cons_cons] at h
      rw [List.cons_append, closings, ih h, ← Nat.add_assoc]
      rfl

theorem closings_of_not_mem (h : '*' ∉ s) : closings s = 0 := by
  induction s with
  | nil => rfl
  | cons c s ih =>
    rw [List.mem_cons, not_or] at h
    rw [closings_cons (Ne.symm h.1), ih h.2]

theorem closings_eq_zero_iff : closings s = 0 ↔ ¬ closing <:+: s := by
  induction s with
  | nil => simp [closings, closing]
  | cons c s ih =>
    have hstarts : closing <+: c :: s ↔ c = '*' ∧ s.head? = some '/' := by
      cases s <;> simp [closing, List.cons_prefix_cons, eq_comm]
    rw [List.infix_cons_iff, not_or, ← ih, hstarts, closings]
    split <;> simp_all

/-- A text with the mark in its middle has one closing for it, and those on either side. -/
theorem closings_middle (u v : List Char) : closings (u ++ (closing ++ v)) = closings u + closings v + 1 := by
  rw [closings_append (.inr (by simp [closing])), closings_closing_append]
  rfl

/-- A text closes a comment at one place and at no other. -/
def ClosesOnlyAt (s before behind : List Char) : Prop :=
  ∀ u v, s = u ++ (closing ++ v) ↔ u = before ∧ v = behind

/-- If nothing in front of the mark and nothing behind it closes, the text is cut in no other way. -/
theorem eq_of_closings_eq_zero (hu : closings u = 0) (hv : closings v = 0)
    (h : u ++ (closing ++ v) = s ++ (closing ++ t)) : s = u ∧ t = v := by
  rcases List.append_eq_append_iff.1 h with ⟨w, rfl, hw⟩ | ⟨w, rfl, hw⟩
  · rcases w with - | ⟨c, - | ⟨d, w⟩⟩
    · simpa [eq_comm] using hw
    · simp [closing] at hw
    · obtain ⟨-, -, rfl⟩ : '*' = c ∧ '/' = d ∧ v = w ++ (closing ++ t) := by simpa [closing] using hw
      exact absurd ⟨w, t, by simp⟩ (closings_eq_zero_iff.1 hv)
  · rcases w with - | ⟨c, - | ⟨d, w⟩⟩
    · simpa [eq_comm] using hw
    · simp [closing] at hw
    · obtain ⟨rfl, rfl, -⟩ : '*' = c ∧ '/' = d ∧ t = w ++ (closing ++ v) := by simpa [closing] using hw
      exact absurd ⟨s, w, by simp [closing]⟩ (closings_eq_zero_iff.1 hu)

theorem closesOnlyAt_iff : ClosesOnlyAt s u v ↔ s = u ++ (closing ++ v) ∧ closings s = 1 := by
  constructor
  · intro h
    have hs := (h u v).2 ⟨rfl, rfl⟩
    have hu : closings u = 0 := by
      refine closings_eq_zero_iff.2 ?_
      rintro ⟨x, y, rfl⟩
      obtain ⟨hx, -⟩ := (h x (y ++ (closing ++ v))).1 (by simp [hs])
      simpa [closing] using congrArg List.length hx
    have hv : closings v = 0 := by
      refine closings_eq_zero_iff.2 ?_
      rintro ⟨x, y, rfl⟩
      obtain ⟨hx, -⟩ := (h (u ++ (closing ++ x)) y).1 (by simp [hs])
      simpa [closing] using congrArg List.length hx
    exact ⟨hs, by rw [hs, closings_middle, hu, hv]⟩
  · rintro ⟨rfl, hone⟩ x y
    rw [closings_middle] at hone
    constructor
    · intro h
      exact eq_of_closings_eq_zero (by omega) (by omega) h
    · rintro ⟨rfl, rfl⟩
      rfl

end Comment

open Comment

/-! ## The comment of one declaration -/

/-- How many closings the description of an argument has. -/
def Argument.closings (a : Argument) : Nat :=
  match a.description with
  | some text => Comment.closings text.toList
  | none => 0

theorem Argument.closings_eq_zero_iff {a : Argument} :
    a.closings = 0 ↔ ∀ t, a.description = some t → ¬ closing <:+: t.toList := by
  unfold closings
  cases a.description with
  | none => simp
  | some text => simp [Comment.closings_eq_zero_iff]

theorem Argument.closings_docLine {a : Argument} (hname : IsScriptName a.exposed.toList) :
    Comment.closings a.docLine.toList = a.closings := by
  have hstar : '*' ∉ a.exposed.toList := hname.not_mem (by decide) (by decide)
  have hfront : Comment.closings (" * @param " ++ a.exposed).toList = 0 := by
    rw [String.toList_append, Comment.closings_append (.inl (by decide +kernel)), Comment.closings_of_not_mem hstar]
    decide +kernel
  unfold docLine closings
  cases a.description with
  | none => simpa using hfront
  | some text =>
    rw [String.toList_append, Comment.closings_append (.inr (by simp)), hfront, String.toList_append,
      Comment.closings_append (.inl (by simp))]
    simp [Comment.closings_cons, Comment.closings]

/-- Lines behind line feeds have the closings that each of them has. -/
theorem Comment.closings_append_lines (s : List Char) (lines : List (List Char)) :
    closings (s ++ lines.flatMap ('\n' :: ·)) = closings s + (lines.map closings).sum := by
  induction lines generalizing s with
  | nil => simp
  | cons line lines ih =>
    rw [List.flatMap_cons, closings_append (.inr (by simp)), ih, closings_cons (by decide), List.map_cons,
      List.sum_cons]

namespace Signature

variable {s : Signature}

/-- The closings that stand in descriptions. -/
def closings (s : Signature) : Nat :=
  (s.map Argument.closings).sum

theorem closings_eq_zero_iff :
    s.closings = 0 ↔ ∀ a ∈ s, ∀ t, a.description = some t → ¬ closing <:+: t.toList := by
  simp [closings, List.sum_eq_zero_iff_forall_eq_nat, Argument.closings_eq_zero_iff]

end Signature

namespace ModuleKind

/-- The text of a declaration in front of the mark that is to close its comment. -/
def commentText (p : Procedure) : String :=
  "/**" ++ p.signature.documentation ++ "\n "

/-- The comment of a declaration ends at its own last line and nowhere before, and what stands behind it is the
declaration. -/
def ClosesAtEnd (mode : Mode) (p : Procedure) : Prop :=
  ClosesOnlyAt (declarations.render mode p).toList (commentText p).toList ('\n' :: (declarationLine mode p).toList)

theorem toList_render_comment (mode : Mode) (p : Procedure) :
    (declarations.render mode p).toList =
      (commentText p).toList ++ (closing ++ '\n' :: (declarationLine mode p).toList) := by
  rw [render_declarations]
  simp [commentText, closing]

end ModuleKind

namespace Procedure

variable {p : Procedure}

theorem IsCompiled.closings_declarationLine (h : p.IsCompiled) (mode : Mode) :
    closings (ModuleKind.declarationLine mode p).toList = 0 := by
  refine closings_of_not_mem fun hmem => ?_
  rcases ModuleKind.mem_declarationLine h mode _ hmem with hword | hmark
  · exact absurd hword (by decide)
  · exact absurd hmark (by decide +kernel)

/-- Every description adds its closings to the one that the declaration needs. -/
theorem IsCompiled.closings_render (h : p.IsCompiled) (mode : Mode) :
    closings (ModuleKind.declarations.render mode p).toList = p.signature.closings + 1 := by
  have hlines : (p.signature.map (·.docLine.toList)).map closings = p.signature.map Argument.closings := by
    rw [List.map_map]
    exact List.map_congr_left fun a ha => Argument.closings_docLine (h.hygienic.names a ha).1
  have hopen : closings "/**".toList = 0 := by decide +kernel
  have hend : closings [' ', '*', '/'] = 1 := by decide
  rw [ModuleKind.toList_render_declarations, closings_append_lines, List.map_append, List.sum_append, hlines, hopen]
  simp [hend, h.closings_declarationLine mode, Signature.closings]

theorem IsCompiled.closesAtEnd_declarations_iff (h : p.IsCompiled) (mode : Mode) :
    ModuleKind.ClosesAtEnd mode p ↔ ∀ a ∈ p.signature, ∀ t, a.description = some t → ¬ closing <:+: t.toList := by
  unfold ModuleKind.ClosesAtEnd
  rw [closesOnlyAt_iff, ← Signature.closings_eq_zero_iff, h.closings_render mode]
  simp [ModuleKind.toList_render_comment]

end Procedure

namespace Compilation

variable {lints : List Lint} {steps : List Step} {inputs : List SourceText} {c : Batch}

/-- A comment has one closing more than the descriptions in it, and ends at its own last line exactly when these
have none. -/
theorem closesAtEnd_iff (hsteps : ∀ step ∈ steps, step.KeepsCompiled) (h : compile lints steps inputs = .ok c)
    {p : Procedure} (hp : p ∈ c.procedures) (mode : Mode) :
    closings (ModuleKind.declarations.render mode p).toList = p.signature.closings + 1 ∧
      (ModuleKind.ClosesAtEnd mode p ↔
        ∀ a ∈ p.signature, ∀ t, a.description = some t → ¬ closing <:+: t.toList) := by
  have hcompiled := isCompiled_of_mem hsteps h hp
  exact ⟨hcompiled.closings_render mode, hcompiled.closesAtEnd_declarations_iff mode⟩

/-- Here one description ends with half of the mark and the next one starts with the other half. -/
theorem closesAtEnd_iff_halves :
    ∃ c p, compile [] [fun b => (b.report [⟨.info, "count", "counted", none⟩], none)]
        [⟨"q", "q.sql", "-- @param {Int} $1 /* 2 *\n-- @param {Int} $2 / 2\nselect $1, $2"⟩] = .ok c ∧
      p ∈ c.procedures ∧ p.signature.map (·.description) = [some "/* 2 *", some "/ 2"] ∧
      ∀ mode, ModuleKind.ClosesAtEnd mode p := by
  have hsteps : ∀ step ∈ [fun b : Batch => (b.report [⟨.info, "count", "counted", none⟩], (none : Option StepFailure))],
      Step.KeepsCompiled step := by
    simp only [List.mem_singleton, forall_eq]
    exact fun b hb => hb
  have h : compile [] [fun b => (b.report [⟨.info, "count", "counted", none⟩], none)]
      [⟨"q", "q.sql", "-- @param {Int} $1 /* 2 *\n-- @param {Int} $2 / 2\nselect $1, $2"⟩] =
      .ok ⟨[⟨"q", "q.sql", "-- @param {Int} $1 /* 2 *\n-- @param {Int} $2 / 2\nselect $1, $2"⟩], [],
        [.ofStatement ⟨"q", "q.sql", [⟨1, .int, none, false, some "/* 2 *"⟩, ⟨2, .int, none, false, some "/ 2"⟩], [],
          "`select $\x7b$1\x7d, $\x7b$2\x7d`", true⟩],
        [⟨.info, "count", "counted", none⟩]⟩ := by
    decide +kernel
  refine ⟨_, _, h, List.mem_singleton_self _, by decide +kernel, fun mode => ?_⟩
  exact (closesAtEnd_iff hsteps h (List.mem_singleton_self _) mode).2.2 (by decide +kernel)

/-- A description with the mark ends the comment, and what it says behind the mark stands outside. -/
theorem not_closesAtEnd_description :
    ∃ c p, compile [] [] [⟨"q", "q.sql", "-- @param {Int} $1 the key */ alert(1) /*\nselect $1"⟩] = .ok c ∧
      p ∈ c.procedures ∧
      ModuleKind.declarations.render .execute p = "/**\n * @param $1 the key */ alert(1) /*\n */\n" ++
        "export const q: ($1: number) => runtime.PrismaPromise<number>;" ∧
      closings (ModuleKind.declarations.render .execute p).toList = 2 ∧ ¬ ModuleKind.ClosesAtEnd .execute p := by
  have h : compile [] [] [⟨"q", "q.sql", "-- @param {Int} $1 the key */ alert(1) /*\nselect $1"⟩] =
      .ok ⟨[⟨"q", "q.sql", "-- @param {Int} $1 the key */ alert(1) /*\nselect $1"⟩], [],
        [.ofStatement ⟨"q", "q.sql", [⟨1, .int, none, false, some "the key */ alert(1) /*"⟩], [],
          "`select $\x7b$1\x7d`", true⟩], []⟩ := by
    decide +kernel
  have htext : ModuleKind.declarations.render .execute (.ofStatement
      ⟨"q", "q.sql", [⟨1, .int, none, false, some "the key */ alert(1) /*"⟩], [], "`select $\x7b$1\x7d`", true⟩) =
      "/**\n * @param $1 the key */ alert(1) /*\n */\n" ++
        "export const q: ($1: number) => runtime.PrismaPromise<number>;" := by
    decide +kernel
  have htwo : closings ("/**\n * @param $1 the key */ alert(1) /*\n */\n" ++
      "export const q: ($1: number) => runtime.PrismaPromise<number>;").toList = 2 := by
    decide +kernel
  refine ⟨_, _, h, List.mem_singleton_self _, htext, by rw [htext, htwo], ?_⟩
  unfold ModuleKind.ClosesAtEnd
  rw [closesOnlyAt_iff, htext, htwo]
  simp

end Compilation
end AnnotatedSql
