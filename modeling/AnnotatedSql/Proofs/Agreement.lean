import AnnotatedSql.Proofs.Artifacts
/-!
# The texts of a procedure agree

A procedure is written three times, and callers of one text rely on the others: the functions must be the same in
both kinds of module, and a declaration must name the arguments in the order in which the functions take and bind
them. All of this can be read back from the texts (`Procedure.Agrees`), because no name, type or description has
the characters at which they are split.
-/

namespace AnnotatedSql

open Text (cut?)

/-! ## Splitting a text -/

namespace Text

variable {m : Char} {mark s : List Char} {parts : List (List Char)}

theorem length_lt_of_cut? {front rest : List Char} (h : cut? (m :: mark) s = some (front, rest)) :
    rest.length < s.length := by
  rw [eq_append_of_cut? h]
  simp only [List.length_append, List.length_cons]
  omega

/-- A text split at a mark, from left to right. The mark is given by its first character and the others. -/
def splitAt (m : Char) (mark text : List Char) : List (List Char) :=
  match _h : cut? (m :: mark) text with
  | none => [text]
  | some (front, rest) => front :: splitAt m mark rest
termination_by text.length
decreasing_by exact length_lt_of_cut? _h

/-- The items of a list that is written with a mark between them. An empty text is a list without items. -/
def itemsAt (m : Char) (mark text : List Char) : List (List Char) :=
  if text = [] then [] else splitAt m mark text

theorem cut?_eq_none (mark : List Char) (h : m ∉ s) : cut? (m :: mark) s = none := by
  induction s with
  | nil => rfl
  | cons c s ih =>
    rw [List.mem_cons, not_or] at h
    have hnone : after? (m :: mark) (c :: s) = none := if_neg h.1
    rw [cut?, hnone, ih h.2]
    rfl

theorem splitAt_of_cut? {front rest : List Char} (h : cut? (m :: mark) s = some (front, rest)) :
    splitAt m mark s = front :: splitAt m mark rest := by
  rw [splitAt]
  split
  · rename_i hnone
    rw [h] at hnone
    cases hnone
  · rename_i hsome
    rw [h] at hsome
    cases hsome
    rfl

theorem splitAt_of_not_mem (mark : List Char) (h : m ∉ s) : splitAt m mark s = [s] := by
  rw [splitAt]
  split
  · rfl
  · rename_i hsome
    rw [cut?_eq_none mark h] at hsome
    cases hsome

theorem splitAt_intercalate (mark : List Char) (h : ∀ part ∈ parts, m ∉ part) (hne : parts ≠ []) :
    splitAt m mark ((m :: mark).intercalate parts) = parts := by
  induction parts with
  | nil => exact absurd rfl hne
  | cons part parts ih =>
    rw [List.forall_mem_cons] at h
    cases parts with
    | nil => simpa using splitAt_of_not_mem mark h.1
    | cons next parts =>
      rw [List.intercalate_cons_cons, List.append_assoc, splitAt_of_cut? (cut?_append mark h.1 _), ih h.2 (by simp)]

/-- Items that are not empty and do not have the first character of the mark are read back. -/
theorem itemsAt_intercalate (mark : List Char) (h : ∀ part ∈ parts, part ≠ [] ∧ m ∉ part) :
    itemsAt m mark ((m :: mark).intercalate parts) = parts := by
  cases parts with
  | nil => rfl
  | cons part parts =>
    have hne : (m :: mark).intercalate (part :: parts) ≠ [] := by
      intro hnil
      have hsplit := splitAt_intercalate mark (fun part hpart => (h part hpart).2) (List.cons_ne_nil part parts)
      rw [hnil, splitAt_of_not_mem mark List.not_mem_nil] at hsplit
      exact (h part List.mem_cons_self).1 (List.cons.inj hsplit).1.symm
    unfold itemsAt
    rw [if_neg hne]
    exact splitAt_intercalate mark (fun part hpart => (h part hpart).2) (List.cons_ne_nil part parts)

end Text

/-! ## What agrees -/

/-- The keys of the positions from one to the last. -/
def Position.keysTo (last : Nat) : List (List Char) :=
  (List.range' 1 last).map fun n => (key n).toList

/-- A text that binds names to values, each kind in brackets with commas between them. Without names it is empty. -/
def Scope.Binds (text : List Char) (names values : List (List Char)) : Prop :=
  if names = [] then values = [] ∧ text = []
  else ∃ left right, text = "const[".toList ++ (left ++ ("]=[".toList ++ (right ++ "];".toList))) ∧
    ']' ∉ left ∧ ']' ∉ right ∧ namesIn left = names ∧ namesIn right = values

/-- The type that a declaration gives to values of a type. -/
def ScalarType.text : ScalarType → String
  | int | float => "number"
  | bigInt => "number | bigint"
  | boolean => "boolean"
  | string => "string"
  | dateTime => "Date"
  | json => "runtime.InputJsonObject"
  | bytes => "Uint8Array"
  | decimal => "number | runtime.Decimal"

/-- The type that a declaration gives to an argument. Nothing is known of one that no line declares. -/
def Argument.typeText (a : Argument) : String :=
  a.type.elim "unknown" ScalarType.text ++ if a.optional then " | null" else ""

/-- The texts of a procedure agree: its functions do behind their names, and with them the arguments that they list
and bind, the lines of its documentation and its typed parameters. -/
structure Procedure.Agrees (p : Procedure) (mode : Mode) : Prop where
  commonJs : ModuleKind.commonJs.render mode p =
    "exports." ++ p.name ++ "=async function" ++ ModuleKind.functionText mode p
  esModule : ModuleKind.esModule.render mode p =
    "export async function " ++ p.name ++ ModuleKind.functionText mode p
  formals : Scope.namesIn p.signature.formals.toList = Position.keysTo p.signature.length
  initializer : Scope.Binds p.signature.initializer.toList (p.signature.map fun a => ("$" ++ a.exposed).toList)
    (Position.keysTo p.signature.length)
  lines : ∃ docs, Header.linesOf (ModuleKind.declarations.render mode p).toList =
      "/**".toList :: (docs ++ [" */".toList, (ModuleKind.declarationLine mode p).toList]) ∧
    List.Forall₂ (fun a line => (" * @param " ++ a.exposed).toList <+: line) p.signature docs
  lineCount : (Header.linesOf (ModuleKind.declarations.render mode p).toList).length = p.signature.length + 3
  typed : Text.itemsAt ',' [' '] p.signature.typed.toList =
    p.signature.map fun a => (a.exposed ++ ": " ++ a.typeText).toList

theorem clientType_eq (type : Option ScalarType) (optional : Bool) :
    clientType type optional = type.elim "unknown" ScalarType.text ++ if optional then " | null" else "" := by
  have hknown : ∀ t : ScalarType, t.clientName = t.text := fun t => by cases t <;> rfl
  cases type <;> cases optional <;> simp [clientType, hknown]

theorem Argument.typed_eq (a : Argument) : a.typed = a.exposed ++ ": " ++ a.typeText := by
  rw [typed, clientType_eq, typeText]

namespace Signature

variable {s : Signature}

theorem formals_eq_keysTo (h : s.Hygienic) : s.map (·.formal.toList) = Position.keysTo s.length := by
  have hformals := congrArg (List.map String.toList) h.formals
  rwa [List.map_map, List.map_map] at hformals

theorem binds_initializer (h : s.Hygienic) :
    Scope.Binds s.initializer.toList (s.map fun a => ("$" ++ a.exposed).toList) (Position.keysTo s.length) := by
  unfold Scope.Binds
  by_cases hs : s = []
  · subst hs
    exact ⟨rfl, rfl⟩
  · rw [if_neg (by simpa using hs)]
    refine ⟨_, _, toList_initializer hs, ?_, ?_, namesIn_bindings h, ?_⟩
    · exact Scope.not_mem_intercalate (isScriptName_of_mem_bindings h)
    · exact Scope.not_mem_intercalate (isScriptName_of_mem_formals h)
    · rw [namesIn_formals h, formals_eq_keysTo h]

theorem itemsAt_typed (h : s.Hygienic) : Text.itemsAt ',' [' '] s.typed.toList = s.map (·.typed.toList) := by
  unfold typed
  rw [String.toList_intercalate, List.map_map]
  refine Text.itemsAt_intercalate [' '] (List.forall_mem_map.2 fun a ha => ?_)
  refine ⟨?_, Argument.comma_not_mem_typed (h.names a ha).1⟩
  simp [Argument.typed]

end Signature

namespace Procedure

variable {p : Procedure}

/-- The texts of a procedure that was made of a source agree. -/
theorem IsCompiled.agrees (h : p.IsCompiled) (mode : Mode) : p.Agrees mode where
  commonJs := ModuleKind.render_commonJs mode p
  esModule := ModuleKind.render_esModule mode p
  formals := by rw [Signature.namesIn_formals h.hygienic, Signature.formals_eq_keysTo h.hygienic]
  initializer := Signature.binds_initializer h.hygienic
  lines := by
    refine ⟨_, ModuleKind.linesOf_render_declarations h mode, ?_⟩
    rw [List.forall₂_map_right_iff, List.forall₂_same]
    exact fun a _ => ⟨_, String.toList_append.symm⟩
  lineCount := by
    rw [ModuleKind.linesOf_render_declarations h mode]
    simp
  typed := by
    simp only [← Argument.typed_eq]
    exact Signature.itemsAt_typed h.hygienic

end Procedure

namespace Compilation

variable {lints : List Lint} {steps : List Step} {inputs : List SourceText} {c : Batch}

/-- Whatever the sources of a batch contain, the texts of each of its procedures agree. -/
theorem agrees_of_mem (hsteps : ∀ step ∈ steps, step.KeepsCompiled) (h : compile lints steps inputs = .ok c)
    {p : Procedure} (hp : p ∈ c.procedures) (mode : Mode) : p.Agrees mode :=
  (isCompiled_of_mem hsteps h hp).agrees mode

/-- Here the alias is the name of a hole, and the description and the code hold what looks like holes. -/
theorem agrees_of_mem_holes :
    ∃ c p, compile [] [fun b => (b.report [⟨.info, "count", "counted", none⟩], none)]
        [⟨"name", "name.sql", "-- @param {Int} $2:code \x7b\x7bname\x7d\x7d\n\x7b\x7bargs\x7d\x7d :code"⟩] = .ok c ∧
      p ∈ c.procedures ∧ p.signature.map (·.exposed) = ["$1", "code"] ∧
      p.signature.map (·.description) = [none, some "\x7b\x7bname\x7d\x7d"] ∧
      p.code = "`\x7b\x7bargs\x7d\x7d $\x7b$code\x7d`" ∧ ∀ mode, p.Agrees mode := by
  have hsteps : ∀ step ∈ [fun b : Batch => (b.report [⟨.info, "count", "counted", none⟩], (none : Option StepFailure))],
      Step.KeepsCompiled step := by
    simp only [List.mem_singleton, forall_eq]
    exact fun b hb => hb
  have h : compile [] [fun b => (b.report [⟨.info, "count", "counted", none⟩], none)]
      [⟨"name", "name.sql", "-- @param {Int} $2:code \x7b\x7bname\x7d\x7d\n\x7b\x7bargs\x7d\x7d :code"⟩] =
      .ok ⟨[⟨"name", "name.sql", "-- @param {Int} $2:code \x7b\x7bname\x7d\x7d\n\x7b\x7bargs\x7d\x7d :code"⟩], [],
        [.ofStatement ⟨"name", "name.sql", [⟨2, .int, some "code", false, some "\x7b\x7bname\x7d\x7d"⟩], [],
          "`\x7b\x7bargs\x7d\x7d $\x7b$code\x7d`", true⟩],
        [⟨.warning, "lint", "'name' never declares $1, the argument will be untyped", some "name.sql"⟩,
          ⟨.info, "count", "counted", none⟩]⟩ := by
    decide +kernel
  exact ⟨_, _, h, List.mem_singleton_self _, by decide +kernel, by decide +kernel, rfl,
    agrees_of_mem hsteps h (List.mem_singleton_self _)⟩

end Compilation
end AnnotatedSql
