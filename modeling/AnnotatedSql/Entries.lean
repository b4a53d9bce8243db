/-!
# Named entries

An ordered list of entries that are found by name. Putting an entry replaces the one of that
name where it stands, or comes last if there is none, so the order of the other names never
changes. Directories, objects and tables hold their members in this way.
-/

namespace AnnotatedSql

/-- Named entries in order. -/
abbrev Entries (α : Type) := List (String × α)

namespace Entries

variable {α : Type}

/-- The entry of a name: the first one, should a name stand twice. -/
def get? (entries : Entries α) (name : String) : Option α :=
  match entries with
  | [] => none
  | (n, a) :: rest => if n = name then some a else get? rest name

/-- Puts an entry in the place of the one of that name, or last. -/
def put (entries : Entries α) (name : String) (a : α) : Entries α :=
  match entries with
  | [] => [(name, a)]
  | (n, b) :: rest => if n = name then (name, a) :: rest else (n, b) :: put rest name a

/-- Removes the entries of a name. -/
def remove (entries : Entries α) (name : String) : Entries α :=
  entries.filter fun (n, _) => n ≠ name

/-- The names in order. -/
def names (entries : Entries α) : List String :=
  entries.map Prod.fst

@[simp] theorem get?_nil (name : String) : get? ([] : Entries α) name = none := rfl

@[simp] theorem get?_put_self (entries : Entries α) (name : String) (a : α) :
    (entries.put name a).get? name = some a := by
  induction entries with
  | nil => simp [put, get?]
  | cons e rest ih =>
    obtain ⟨n, b⟩ := e
    by_cases h : n = name <;> simp [put, get?, h, ih]

theorem get?_put_of_ne (entries : Entries α) {name other : String} (a : α) (h : other ≠ name) :
    (entries.put name a).get? other = entries.get? other := by
  induction entries with
  | nil => simp [put, get?, Ne.symm h]
  | cons e rest ih =>
    obtain ⟨n, b⟩ := e
    by_cases hn : n = name
    · subst hn; simp [put, get?, Ne.symm h]
    · simp [put, get?, hn, ih]

theorem get?_put (entries : Entries α) (name other : String) (a : α) :
    (entries.put name a).get? other = if other = name then some a else entries.get? other := by
  split
  · next h => subst h; exact get?_put_self ..
  · next h => exact get?_put_of_ne _ _ h

/-- A name keeps its place when its entry is replaced. -/
theorem names_put (entries : Entries α) (name : String) (a : α) :
    (entries.put name a).names =
      if name ∈ entries.names then entries.names else entries.names ++ [name] := by
  induction entries with
  | nil => simp [put, names]
  | cons e rest ih =>
    obtain ⟨n, b⟩ := e
    by_cases h : n = name
    · simp [put, names, h]
    · simp only [names] at ih
      by_cases hm : name ∈ rest.map Prod.fst <;> simp_all [put, names, Ne.symm h]

theorem put_of_not_mem {entries : Entries α} {name : String} (a : α) (h : name ∉ entries.names) :
    entries.put name a = entries ++ [(name, a)] := by
  induction entries with
  | nil => rfl
  | cons e rest ih =>
    obtain ⟨n, b⟩ := e
    rw [names, List.map_cons, List.mem_cons, not_or] at h
    rw [put, if_neg (Ne.symm h.1), ih h.2, List.cons_append]

/-- What holds of all entries and of a new one holds of all entries when that is put. -/
theorem forall_mem_put {entries : Entries α} {name : String} {a : α} {holds : α → Prop}
    (h : ∀ e ∈ entries, holds e.2) (ha : holds a) : ∀ e ∈ entries.put name a, holds e.2 := by
  induction entries with
  | nil => exact List.forall_mem_singleton.2 ha
  | cons first rest ih =>
    obtain ⟨n, b⟩ := first
    rw [List.forall_mem_cons] at h
    rw [put]
    split
    · exact List.forall_mem_cons.2 ⟨ha, h.2⟩
    · exact List.forall_mem_cons.2 ⟨h.1, ih h.2⟩

theorem nodup_names_put {entries : Entries α} (h : entries.names.Nodup) (name : String) (a : α) :
    (entries.put name a).names.Nodup := by
  rw [names_put]
  split
  · exact h
  · rename_i hname
    refine List.nodup_append.2 ⟨h, by simp, ?_⟩
    rintro n hn m hm rfl
    exact hname (List.mem_singleton.1 hm ▸ hn)

/-- Of two entries that are put under one name the last one counts. -/
theorem put_put (entries : Entries α) (name : String) (a b : α) :
    (entries.put name a).put name b = entries.put name b := by
  induction entries with
  | nil => simp [put]
  | cons e rest ih =>
    obtain ⟨n, c⟩ := e
    by_cases h : n = name <;> simp [put, h, ih]

theorem mem_of_get? {entries : Entries α} {name : String} {a : α}
    (h : entries.get? name = some a) : (name, a) ∈ entries := by
  induction entries with
  | nil => simp at h
  | cons e rest ih =>
    obtain ⟨n, b⟩ := e
    by_cases hn : n = name
    · simp_all [get?]
    · simp only [get?, hn, if_false] at h
      exact List.mem_cons_of_mem _ (ih h)

end Entries
end AnnotatedSql
