import AnnotatedSql.Proofs.Operations
import Mathlib.Data.List.Induction
/-!
# Batches are seen whole or not at all

Whatever operations are performed on a new batch, its statements are those of all its inputs at the last reading that
succeeded, and its procedures are those of all statements at the last finish, as long as nobody has moved them on
since. So procedures that are taken out of it belong to one whole reading (`Batch.whole`).
-/

namespace AnnotatedSql

/-! ## What was done last -/

/-- `op` is the last of some operations for which `P` holds, which also sees what was done before an operation. -/
structure IsLast (P : List Operation → Operation → Prop) (ops before : List Operation) (op : Operation)
    (behind : List Operation) : Prop where
  split : ops = before ++ op :: behind
  holds : P before op
  last : ∀ pre next post, behind = pre ++ next :: post → ¬ P (before ++ op :: pre) next

/-- A list holds what it was filled with last if it has not been emptied since, and nothing otherwise. -/
def HoldsLast {α : Type} (fills : List Operation → Operation → Prop) (empties : Operation)
    (content : List Operation → List α → Prop) (ops : List Operation) (held : List α) : Prop :=
  (∃ before op behind, IsLast fills ops before op behind ∧ empties ∉ behind ∧ content before held) ∨
    (held = [] ∧ ∀ before op behind, IsLast fills ops before op behind → empties ∈ behind)

namespace IsLast

variable {P : List Operation → Operation → Prop} {ops before behind : List Operation} {op next : Operation}

theorem concat_self (h : P ops op) : IsLast P (ops ++ [op]) ops op [] :=
  ⟨rfl, h, by simp⟩

theorem concat (h : IsLast P ops before op behind) (hnext : ¬ P ops next) :
    IsLast P (ops ++ [next]) before op (behind ++ [next]) where
  split := by rw [h.split, List.append_assoc, List.cons_append]
  holds := h.holds
  last pre o post hsplit := by
    rcases List.eq_nil_or_concat post with rfl | ⟨post, last, rfl⟩
    · obtain ⟨rfl, hlast⟩ := List.append_inj' hsplit rfl
      cases hlast
      rwa [← h.split]
    · rw [List.concat_eq_append, ← List.cons_append, ← List.append_assoc] at hsplit
      exact h.last pre o post (List.append_inj_left' hsplit rfl)

/-- The last one was there before, or it is the one that has been added. -/
theorem of_concat (h : IsLast P (ops ++ [next]) before op behind) :
    behind = [] ∧ P ops next ∨ ∃ post, behind = post ++ [next] ∧ IsLast P ops before op post := by
  obtain ⟨hsplit, hholds, hlast⟩ := h
  rcases List.eq_nil_or_concat behind with rfl | ⟨post, last, rfl⟩
  · obtain ⟨rfl, hop⟩ := List.append_inj' hsplit rfl
    cases hop
    exact .inl ⟨rfl, hholds⟩
  · rw [List.concat_eq_append, ← List.cons_append, ← List.append_assoc] at hsplit
    obtain ⟨hops, hnext⟩ := List.append_inj' hsplit rfl
    cases hnext
    refine .inr ⟨post, List.concat_eq_append, hops, hholds, fun pre o post' hpost => ?_⟩
    exact hlast pre o (post' ++ [next]) (by rw [hpost, List.concat_eq_append]; simp)

end IsLast

/-- A list that some operations fill, one empties and the others leave alone holds what it was filled with last. -/
theorem holdsLast {α : Type} {fills : List Operation → Operation → Prop} {empties : Operation}
    {content : List Operation → List α → Prop} (held : List Operation → List α) (start : held [] = [])
    (fill : ∀ ops op, fills ops op → content ops (held (ops ++ [op])))
    (empty : ∀ ops, held (ops ++ [empties]) = [])
    (keep : ∀ ops op, ¬ fills ops op → op ≠ empties → held (ops ++ [op]) = held ops) (ops : List Operation) :
    HoldsLast fills empties content ops (held ops) := by
  induction ops using List.reverseRecOn with
  | nil => exact .inr ⟨start, fun before op behind h => absurd h.split (by simp)⟩
  | append_singleton ops op ih =>
    by_cases hfills : fills ops op
    · exact .inl ⟨ops, op, [], .concat_self hfills, by simp, fill ops op hfills⟩
    · -- what was done last before is still what was done last
      have hbehind : ∀ before o behind, IsLast fills (ops ++ [op]) before o behind →
          ∃ post, behind = post ++ [op] ∧ IsLast fills ops before o post := fun before o behind h =>
        h.of_concat.resolve_left fun hself => hfills hself.2
      by_cases hempties : op = empties
      · subst hempties
        refine .inr ⟨empty ops, fun before o behind h => ?_⟩
        obtain ⟨post, rfl, -⟩ := hbehind before o behind h
        simp
      · rw [keep ops op hfills hempties]
        rcases ih with ⟨before, o, behind, hlast, hnone, hcontent⟩ | ⟨hnil, hall⟩
        · exact .inl ⟨before, o, behind ++ [op], hlast.concat hfills, by simp [hnone, Ne.symm hempties], hcontent⟩
        · refine .inr ⟨hnil, fun before o behind h => ?_⟩
          obtain ⟨post, rfl, hpost⟩ := hbehind before o behind h
          exact List.mem_append_left _ (hall before o post hpost)

/-! ## Statements and procedures -/

namespace Operation

variable {b : Batch} {op : Operation} {r : Batch × Option StepFailure}

theorem Effect.statements_eq (h : Effect b op r) (hparse : op = parse → r.2 ≠ none) (hfinish : op ≠ finish) :
    r.1.statements = b.statements := by
  cases h with
  | parsed => exact absurd rfl (hparse rfl)
  | finished => exact absurd rfl hfinish
  | checkNames | unparsed | clean | errors | noted | reported | replaced | taken => rfl

theorem Effect.procedures_eq (h : Effect b op r) (hfinish : op ≠ finish) (htake : op ≠ takeProcedures) :
    r.1.procedures = b.procedures := by
  cases h with
  | finished => exact absurd rfl hfinish
  | taken => exact absurd rfl htake
  | checkNames | parsed | unparsed | clean | errors | noted | reported | replaced => rfl

end Operation

namespace Batch

/-- What was read from all sources of a batch. -/
def Reading (b : Batch) (statements : List Statement) : Prop :=
  List.Forall₂ (fun i s => Statement.ofSource i = .ok s) b.inputs statements

/-- A reading of the sources that succeeds. -/
def ReadsAll (start : Batch) (before : List Operation) (op : Operation) : Prop :=
  op = .parse ∧ (op.step (start.after before)).2 = none

theorem reading_of_parse {b : Batch} (h : (parse b).2 = none) : b.Reading (parse b).1.statements := by
  unfold parse at h ⊢
  cases hread : readAll b.inputs with
  | ok statements => exact readAll_eq_ok_iff.1 hread
  | error error => simp [hread] at h

/-- The statements are those of the last reading that succeeded, until they are turned into procedures. -/
theorem holdsLast_statements (inputs : List SourceText) (ops : List Operation) :
    HoldsLast (ReadsAll (.ofInputs inputs)) .finish
      (fun before statements => ((ofInputs inputs).after before).Reading statements) ops
      ((ofInputs inputs).after ops).statements := by
  refine holdsLast (fun ops => ((ofInputs inputs).after ops).statements) rfl ?_ ?_ ?_ ops
  · rintro ops op ⟨rfl, hsucceeds⟩
    rw [after_concat]
    exact reading_of_parse hsucceeds
  · intro ops
    rw [after_concat]
    rfl
  · intro ops op hreads hfinish
    rw [after_concat]
    exact (op.effect _).statements_eq (fun hparse hnone => hreads ⟨hparse, hnone⟩) hfinish

/-- The procedures are those of the statements at the last finish, until they are taken. -/
theorem holdsLast_procedures (inputs : List SourceText) (ops : List Operation) :
    HoldsLast (fun _ op => op = .finish) .takeProcedures
      (fun before procedures => procedures = ((ofInputs inputs).after before).statements.map .ofStatement) ops
      ((ofInputs inputs).after ops).procedures := by
  refine holdsLast (fun ops => ((ofInputs inputs).after ops).procedures) rfl ?_ ?_ ?_ ops
  · rintro ops op rfl
    rw [after_concat]
    rfl
  · intro ops
    rw [after_concat]
    rfl
  · intro ops op hfinish htake
    rw [after_concat]
    exact (op.effect _).procedures_eq hfinish htake

/-- Procedures of one whole reading: they were made of what the reading gave before there was another reading, and
nobody has taken them since. -/
def OfReading (start : Batch) (ops : List Operation) (procedures : List Procedure) : Prop :=
  ∃ before between behind, ops = before ++ .parse :: between ++ .finish :: behind ∧
    IsLast (ReadsAll start) (before ++ .parse :: between) before .parse between ∧ .finish ∉ between ∧
    .finish ∉ behind ∧ .takeProcedures ∉ behind ∧
    List.Forall₂ (fun i p => ∃ s, Statement.ofSource i = .ok s ∧ p = .ofStatement s) (start.after before).inputs
      procedures

/-- What a batch can be seen to hold after some operations. -/
structure Whole (start : Batch) (ops : List Operation) : Prop where
  statements : HoldsLast (ReadsAll start) .finish (fun before statements => (start.after before).Reading statements) ops
    (start.after ops).statements
  procedures : HoldsLast (fun _ op => op = .finish) .takeProcedures
    (fun before procedures => procedures = (start.after before).statements.map .ofStatement) ops
    (start.after ops).procedures
  signatures : ∀ p ∈ (start.after ops).procedures, p.signature = .ofParameters p.statement.parameters
  taken : ∀ before behind, ops = before ++ .takeProcedures :: behind →
    (start.after before).takeProcedures.1 = [] ∨ OfReading start before (start.after before).takeProcedures.1

variable {inputs : List SourceText} {ops : List Operation}

theorem ofReading_procedures (inputs : List SourceText) (ops : List Operation) :
    ((ofInputs inputs).after ops).procedures = [] ∨
      OfReading (.ofInputs inputs) ops ((ofInputs inputs).after ops).procedures := by
  rcases holdsLast_procedures inputs ops with ⟨before, op, behind, hlast, hnone, hprocedures⟩ | ⟨hnil, -⟩
  · obtain ⟨rfl, rfl, hfinish⟩ := hlast
    have hbehind : .finish ∉ behind := by
      intro hmem
      obtain ⟨pre, post, rfl⟩ := List.append_of_mem hmem
      exact hfinish pre .finish post rfl rfl
    -- the statements that were turned into procedures came from a reading, if there were any
    rcases holdsLast_statements inputs before with ⟨first, op, between, hread, hbetween, hreading⟩ | ⟨hnil, -⟩
    · have hop := hread.holds.1
      subst hop
      refine .inr ⟨first, between, behind, ?_, ?_, hbetween, hbehind, hnone, ?_⟩
      · rw [← hread.split]
      · rwa [hread.split] at hread
      · rw [hprocedures, List.forall₂_map_right_iff]
        exact List.Forall₂.imp (fun i s hs => ⟨s, hs, rfl⟩) hreading
    · exact .inl (by rw [hprocedures, hnil, List.map_nil])
  · exact .inl hnil

theorem signature_eq (inputs : List SourceText) (ops : List Operation) :
    ∀ p ∈ ((ofInputs inputs).after ops).procedures, p.signature = .ofParameters p.statement.parameters := by
  rcases holdsLast_procedures inputs ops with ⟨_, _, _, -, -, hprocedures⟩ | ⟨hnil, -⟩
  · intro p hp
    rw [hprocedures] at hp
    obtain ⟨s, -, rfl⟩ := List.mem_map.1 hp
    rfl
  · simp [hnil]

/-- No sequence of operations on a new batch shows a part of it. -/
theorem whole (inputs : List SourceText) (ops : List Operation) : Whole (.ofInputs inputs) ops where
  statements := holdsLast_statements inputs ops
  procedures := holdsLast_procedures inputs ops
  signatures := signature_eq inputs ops
  taken before _ _ := ofReading_procedures inputs before

/-- What is taken here was read before the inputs were replaced by one that cannot be read. -/
example :
    ((ofInputs [⟨"q", "q.sql", "select 1"⟩]).after
      [.parse, .finish, .replaceInputs [⟨"r", "r.sql", "select $1"⟩], .parse]).takeProcedures.1 =
        [.ofStatement ⟨"q", "q.sql", [], [], "`select 1`", true⟩] := by
  decide +kernel

end Batch
end AnnotatedSql
