import AnnotatedSql.Disk.Write
import Mathlib.Data.List.Basic
import Mathlib.Logic.Function.Basic
/-!
# The places that paths denote

There are no links, so a path denotes one place whatever the disk holds (`Disk.denoted`). A path that leads anywhere
leads to the place that it denotes (`Disk.eq_denoted_of_locate`), and what an operation sees of a disk is what stands
at such places without what is below them (`Disk.kindAt?`). Putting a file or an empty directory into a directory
changes that at one place (`Disk.kindAt?_put`).
-/

namespace AnnotatedSql

namespace Path

theorem pieces_append_slash (front rest : List Char) : pieces (front ++ '/' :: rest) = pieces front ++ pieces rest :=
  List.splitOn_append_cons_self front rest

theorem pieces_ne_nil (path : List Char) : pieces path ≠ [] :=
  List.splitOn_ne_nil '/' path

end Path

namespace Disk

/-- What stands at a place, without what is below it. -/
inductive Kind
  | file (content : ByteArray)
  | dir

def Tree.kind : Tree → Kind
  | .file content => .file content
  | .dir _ => .dir

/-- What stands at a place of the disk, without what is below it. -/
def kindAt? (d : Disk) (place : Place) : Option Kind :=
  (d.at? place).map Tree.kind

/-- The place from which a path is followed. -/
def start (d : Disk) (path : List Char) : Place :=
  if Path.isRooted path then [] else d.workingDir

/-- The place that a path denotes: its pieces followed without looking at what is there. -/
def denoted (d : Disk) (path : String) : Place :=
  (Path.pieces path.toList).foldl step (d.start path.toList)

variable {d : Disk} {place other : Place} {content : ByteArray}

/-! ## Kinds -/

theorem kindAt?_eq_none_iff : d.kindAt? place = none ↔ d.at? place = none :=
  Option.map_eq_none_iff

theorem kindAt?_eq_file_iff : d.kindAt? place = some (.file content) ↔ d.at? place = some (.file content) := by
  unfold kindAt?
  constructor
  · intro h
    obtain ⟨t, hat, hkind⟩ := Option.map_eq_some_iff.1 h
    cases t with
    | file c =>
      cases hkind
      exact hat
    | dir es => cases hkind
  · intro h
    rw [h]
    rfl

theorem kindAt?_eq_dir_iff : d.kindAt? place = some .dir ↔ ∃ es, d.at? place = some (.dir es) := by
  unfold kindAt?
  constructor
  · intro h
    obtain ⟨t, hat, hkind⟩ := Option.map_eq_some_iff.1 h
    cases t with
    | file c => cases hkind
    | dir es => exact ⟨es, hat⟩
  · rintro ⟨es, h⟩
    rw [h]
    rfl

theorem at?_append (above below : Place) : d.at? (above ++ below) = (d.at? above).bind (·.at? below) := by
  unfold at?
  generalize d.root = t
  induction above generalizing t with
  | nil => simp
  | cons name above ih => simp [Tree.at?_cons, Option.bind_assoc, ih]

theorem kindAt?_append (above : Place) {below : Place} (h : below ≠ []) (hdir : d.kindAt? above ≠ some .dir) :
    d.kindAt? (above ++ below) = none := by
  obtain ⟨name, below, rfl⟩ := List.exists_cons_of_ne_nil h
  rw [kindAt?_eq_none_iff, at?_append]
  cases hat : d.at? above with
  | none => rfl
  | some t =>
    cases t with
    | file c => exact Tree.at?_file c name below
    | dir es => exact absurd (kindAt?_eq_dir_iff.2 ⟨es, hat⟩) hdir

/-- Whatever stands on a disk stands in directories. -/
theorem kindAt?_above {kind : Kind} (h : d.kindAt? place = some kind) {above : Place} (habove : above <+: place)
    (hne : above ≠ place) : d.kindAt? above = some .dir := by
  obtain ⟨below, rfl⟩ := habove
  by_contra hdir
  rw [kindAt?_append above (by simpa using hne) hdir] at h
  cases h

theorem kindAt?_dropLast (h : d.kindAt? place = some .dir) : d.kindAt? place.dropLast = some .dir := by
  by_cases hne : place.dropLast = place
  · rwa [hne]
  · exact kindAt?_above h (List.dropLast_prefix place) hne

/-! ## Following paths -/

theorem follow_cons (place : Place) (piece : List Char) (rest : List (List Char)) :
    d.follow place (piece :: rest) =
      match d.kindAt? place with
      | none => .error .notFound
      | some (.file _) => .error .notADirectory
      | some .dir => d.follow (step place piece) rest := by
  unfold kindAt?
  rw [follow]
  cases d.at? place with
  | none => rfl
  | some t => cases t <;> rfl

theorem follow_cons_eq_ok_iff {piece : List Char} {rest : List (List Char)} :
    d.follow place (piece :: rest) = .ok other ↔
      d.kindAt? place = some .dir ∧ d.follow (step place piece) rest = .ok other := by
  rw [follow_cons]
  split <;> simp_all

theorem follow_append (place : Place) (front rest : List (List Char)) :
    d.follow place (front ++ rest) = (d.follow place front).bind (d.follow · rest) := by
  induction front generalizing place with
  | nil => rfl
  | cons piece front ih =>
    rw [List.cons_append, follow_cons, follow_cons]
    cases d.kindAt? place with
    | none => rfl
    | some kind =>
      cases kind with
      | file c => rfl
      | dir => exact ih (step place piece)

theorem follow_append_eq_ok_iff {front rest : List (List Char)} :
    d.follow place (front ++ rest) = .ok other ↔
      ∃ middle, d.follow place front = .ok middle ∧ d.follow middle rest = .ok other := by
  rw [follow_append]
  cases d.follow place front <;> simp [Except.bind]

theorem eq_foldl_of_follow {pieces : List (List Char)} (h : d.follow place pieces = .ok other) :
    other = pieces.foldl step place := by
  induction pieces generalizing place with
  | nil =>
    cases h
    rfl
  | cons piece rest ih => exact ih (follow_cons_eq_ok_iff.1 h).2

theorem locate_eq_ok_iff {path : List Char} :
    d.locate path = .ok place ↔ path ≠ [] ∧ d.follow (d.start path) (Path.pieces path) = .ok place := by
  unfold locate start
  by_cases h : path = [] <;> simp [h]

theorem eq_denoted_of_locate {path : String} (h : d.locate path.toList = .ok place) : place = d.denoted path :=
  eq_foldl_of_follow (locate_eq_ok_iff.1 h).2

/-- A path that does not lead to a directory leads into one, with a name as its last piece. -/
theorem exists_name_of_locate {path : List Char} (h : d.locate path = .ok place) (hdir : d.kindAt? place ≠ some .dir) :
    ∃ front name above, Path.pieces path = front ++ [name] ∧ name ∉ [[], ['.'], ['.', '.']] ∧
      place = above ++ [String.ofList name] ∧ d.kindAt? above = some .dir := by
  obtain ⟨-, hfollow⟩ := locate_eq_ok_iff.1 h
  obtain ⟨front, piece, hpieces⟩ := (List.eq_nil_or_concat' _).resolve_left (Path.pieces_ne_nil path)
  rw [hpieces, follow_append_eq_ok_iff] at hfollow
  obtain ⟨above, -, hlast⟩ := hfollow
  obtain ⟨habove, hstep⟩ := follow_cons_eq_ok_iff.1 hlast
  cases hstep
  unfold step at hdir ⊢
  split_ifs at hdir ⊢ with hhere hup
  · exact absurd habove hdir
  · exact absurd (kindAt?_dropLast habove) hdir
  · exact ⟨front, piece, above, hpieces, by simpa [hup] using hhere, rfl, habove⟩

theorem exists_above_of_locate {path : List Char} (h : d.locate path = .ok place) (hdir : d.kindAt? place ≠ some .dir) :
    ∃ above name, place = above ++ [name] ∧ d.kindAt? above = some .dir := by
  obtain ⟨front, name, above, -, -, hplace, habove⟩ := exists_name_of_locate h hdir
  exact ⟨above, _, hplace, habove⟩

/-! ## Reading -/

theorem readText_eq (d : Disk) (path : String) :
    d.readText path =
      match d.locate path.toList with
      | .error fault => .error fault
      | .ok place =>
        match d.kindAt? place with
        | none => .error .notFound
        | some .dir => .error .isADirectory
        | some (.file content) =>
          match String.fromUTF8? content with
          | none => .error .notText
          | some text => .ok text := by
  unfold readText find kindAt?
  cases d.locate path.toList with
  | error fault => rfl
  | ok place =>
    dsimp only
    cases d.at? place with
    | none => rfl
    | some t => cases t <;> rfl

theorem readText_eq_ok_iff {path text : String} :
    d.readText path = .ok text ↔
      ∃ place content, d.locate path.toList = .ok place ∧ d.kindAt? place = some (.file content) ∧
        String.fromUTF8? content = some text := by
  rw [readText_eq]
  constructor
  · intro h
    split at h
    · cases h
    · rename_i place hplace
      split at h
      · cases h
      · cases h
      · rename_i content hfile
        split at h
        · cases h
        · rename_i old htext
          cases h
          exact ⟨place, content, hplace, hfile, htext⟩
  · rintro ⟨place, content, hplace, hfile, htext⟩
    simp [hplace, hfile, htext]

/-- Paths that denote one place lead to one text. -/
theorem text_unique {path path' text text' : String} (h : d.readText path = .ok text)
    (h' : d.readText path' = .ok text') (hsame : d.denoted path = d.denoted path') : text = text' := by
  obtain ⟨place, content, hplace, hfile, htext⟩ := readText_eq_ok_iff.1 h
  obtain ⟨place', content', hplace', hfile', htext'⟩ := readText_eq_ok_iff.1 h'
  rw [eq_denoted_of_locate hplace, hsame, ← eq_denoted_of_locate hplace', hfile', Option.some.injEq, Kind.file.injEq]
    at hfile
  rw [← hfile, htext', Option.some.injEq] at htext
  exact htext.symm

/-! ## Putting -/

/-- Putting a tree with nothing below it in the place of a file, or of nothing in a directory, changes what stands at
that place and nowhere else. -/
theorem kindAt?_put {above : Place} (habove : d.kindAt? above = some .dir) {name : String}
    (hdir : d.kindAt? (above ++ [name]) ≠ some .dir) {leaf : Tree} (hleaf : leaf.entries = []) :
    (d.put (above ++ [name]) leaf).kindAt? = Function.update d.kindAt? (above ++ [name]) (some leaf.kind) := by
  have hself : (d.put (above ++ [name]) leaf).at? (above ++ [name]) = some leaf := by
    refine Tree.at?_put_self _ _ _ fun upTo c hupTo hne hat => ?_
    have hfile : d.kindAt? upTo = some (.file c) := kindAt?_eq_file_iff.2 hat
    rcases List.prefix_concat_iff.1 hupTo with h | h
    · exact hne h
    · by_cases hup : upTo = above
      · rw [hup, habove] at hfile
        cases hfile
      · rw [kindAt?_above habove h hup] at hfile
        cases hfile
  have hkind : (d.put (above ++ [name]) leaf).kindAt? (above ++ [name]) = some leaf.kind := by
    rw [kindAt?, hself]
    rfl
  funext other
  by_cases hother : other = above ++ [name]
  · rw [hother, hkind, Function.update_self]
  · rw [Function.update_of_ne hother]
    by_cases hup : other <+: above ++ [name]
    · -- above the changed place there are directories, before and after
      rw [kindAt?_above hkind hup hother]
      rcases List.prefix_concat_iff.1 hup with h | h
      · exact absurd h hother
      · by_cases hsame : other = above
        · rw [hsame, habove]
        · rw [kindAt?_above habove h hsame]
    · by_cases hdown : above ++ [name] <+: other
      · -- below it there is nothing, before and after
        obtain ⟨below, rfl⟩ := hdown
        have hbelow : below ≠ [] := by
          rintro rfl
          exact hother (List.append_nil _)
        rw [kindAt?_append _ hbelow hdir, kindAt?_eq_none_iff, at?_append, hself]
        obtain ⟨n, below, rfl⟩ := List.exists_cons_of_ne_nil hbelow
        simp [Tree.at?_cons, hleaf]
      · exact congrArg (Option.map Tree.kind) (Tree.at?_put_of_apart _ _ _ _ hup hdown)

/-! ## Joined paths -/

theorem start_append {front : List Char} (h : front ≠ []) (rest : List Char) :
    d.start (front ++ rest) = d.start front := by
  unfold start Path.isRooted
  rw [List.head?_append_of_ne_nil _ h]

/-- A name that leads one directory down. -/
def IsPlainName (name : String) : Prop :=
  '/' ∉ name.toList ∧ name.toList ∉ [[], ['.'], ['.', '.']]

instance (name : String) : Decidable (IsPlainName name) :=
  inferInstanceAs (Decidable (_ ∧ _))

theorem step_of_isPlainName {name : String} (h : IsPlainName name) (place : Place) :
    step place name.toList = place ++ [name] := by
  obtain ⟨-, hname⟩ := h
  simp only [List.mem_cons, List.not_mem_nil, or_false, not_or] at hname
  unfold step
  rw [if_neg (not_or.2 ⟨hname.1, hname.2.1⟩), if_neg hname.2.2, String.ofList_toList]

theorem start_of_isPlainName {name : String} (h : IsPlainName name) : d.start name.toList = d.workingDir := by
  unfold start
  rw [if_neg]
  intro hrooted
  exact h.1 (List.mem_of_mem_head? (by simpa [Path.isRooted] using hrooted))

theorem foldl_step_append_slash {name : String} (h : IsPlainName name) (front : List Char) (place : Place) :
    (Path.pieces (front ++ '/' :: name.toList)).foldl step place = (Path.pieces front).foldl step place ++ [name] := by
  have hname : Path.pieces name.toList = [name.toList] := List.splitOn_eq_singleton h.1
  rw [Path.pieces_append_slash, hname, List.foldl_concat, step_of_isPlainName h]

/-- A name in a directory denotes a place in what the directory denotes. -/
theorem denoted_join (d : Disk) (dir : String) {name : String} (h : IsPlainName name) :
    d.denoted (Path.join dir name) = d.denoted dir ++ [name] := by
  unfold denoted Path.join
  rcases List.eq_nil_or_concat' dir.toList with hnil | ⟨front, c, hconcat⟩
  · have hname : Path.pieces name.toList = [name.toList] := List.splitOn_eq_singleton h.1
    rw [hnil, List.getLast?_nil, String.toList_append, hnil, List.nil_append, hname, List.foldl_cons, List.foldl_nil,
      step_of_isPlainName h, start_of_isPlainName h]
    rfl
  · have hstart : ∀ rest, d.start (dir.toList ++ rest) = d.start dir.toList := start_append (by simp [hconcat])
    rw [hconcat, List.getLast?_concat, ← hconcat]
    split
    · rename_i hc
      cases hc
    · rename_i hc
      cases hc
      -- the slash at the end of the directory's path adds a piece that leads nowhere
      have hdir : ∀ place, (Path.pieces dir.toList).foldl step place = (Path.pieces front).foldl step place := by
        intro place
        rw [hconcat, Path.pieces_append_slash, List.foldl_append]
        rfl
      rw [String.toList_append, hstart, hdir, hconcat, List.append_assoc, List.singleton_append,
        foldl_step_append_slash h]
    · rw [String.toList_append, String.toList_append, List.append_assoc, hstart]
      exact foldl_step_append_slash h _ _

end Disk
end AnnotatedSql
