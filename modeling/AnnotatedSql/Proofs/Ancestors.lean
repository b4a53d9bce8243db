import AnnotatedSql.Proofs.Places
import AnnotatedSql.Proofs.Text
/-!
# The paths above a path

The paths above a path are the one right above it and those above that one, and a path goes on from the one right above
it with one piece, behind pieces that lead nowhere (`Path.exists_pieces_of_endsWell`, `Disk.LeadsOn`). So what holds of
the paths above follows by induction from the top (`Disk.tidy_induction`). Where no file stands among them, a path leads
to the place that it denotes unless a directory is missing (`Disk.locateAbove_cases`).
-/

namespace AnnotatedSql

namespace Path

/-- A piece that leads nowhere. -/
def IsIdle (piece : List Char) : Prop :=
  piece = [] ∨ piece = ['.']

/-- A piece counts for taking a path apart where it stands behind others. -/
def Counts (front : List (List Char)) (piece : List Char) : Prop :=
  piece ≠ [] ∧ (piece = ['.'] → front = [])

instance (front : List (List Char)) (piece : List Char) : Decidable (Counts front piece) :=
  inferInstanceAs (Decidable (_ ∧ _))

/-- For each piece that counts, the pieces up to it. -/
def endsOf (ps : List (List Char)) : List (List (List Char)) :=
  (List.range ps.length).filterMap fun i => if Counts (ps.take i) (ps.getD i []) then some (ps.take (i + 1)) else none

/-- A path that ends with a piece that counts. -/
def EndsWell (path : String) : Prop :=
  ∃ front piece, pieces path.toList = front ++ [piece] ∧ Counts front piece

/-- A path from which taking pieces away leaves nothing but paths of this kind. -/
def IsTidy (path : String) : Prop :=
  path = "" ∨ path = "/" ∨ EndsWell path

variable {path dir : String} {ps front idle : List (List Char)} {piece : List Char}

theorem ends_eq (path : List Char) : ends path = (endsOf (pieces path)).map (['/'].intercalate ·) := by
  unfold ends endsOf
  rw [List.map_filterMap]
  refine List.filterMap_congr fun i hi => ?_
  have hfront : (pieces path).take i = [] ↔ i = 0 := by
    rw [List.take_eq_nil_iff]
    simp [pieces_ne_nil]
  by_cases h : Counts ((pieces path).take i) ((pieces path).getD i [])
  · rw [if_pos h, if_neg]
    · rfl
    · rintro (hnil | ⟨hdot, hi⟩)
      · exact h.1 hnil
      · exact hi (hfront.1 (h.2 hdot))
  · rw [if_neg h, if_pos]
    · rfl
    · unfold Counts at h
      rw [hfront] at h
      tauto

theorem endsOf_concat (ps : List (List Char)) (piece : List Char) :
    endsOf (ps ++ [piece]) = endsOf ps ++ if Counts ps piece then [ps ++ [piece]] else [] := by
  unfold endsOf
  rw [List.length_append, List.length_singleton, List.range_succ, List.filterMap_append]
  congr 1
  · refine List.filterMap_congr fun i hi => ?_
    have hlt := List.mem_range.1 hi
    rw [List.take_append_of_le_length hlt.le, List.take_append_of_le_length hlt, List.getD_eq_getElem?_getD,
      List.getD_eq_getElem?_getD, List.getElem?_append_left hlt]
  · by_cases h : Counts ps piece <;> simp [h, List.take_of_length_le]

/-- Nothing is above pieces none of which counts; other pieces end at the last one that counts. -/
theorem endsOf_cases (ps : List (List Char)) :
    (endsOf ps = [] ∧ (∀ piece ∈ ps, IsIdle piece) ∧ ps.head? ≠ some ['.']) ∨
      ∃ front piece idle, ps = front ++ piece :: idle ∧ Counts front piece ∧ (∀ piece ∈ idle, IsIdle piece) ∧
        endsOf ps = endsOf front ++ [front ++ [piece]] := by
  induction ps using List.reverseRecOn with
  | nil => exact .inl ⟨rfl, by simp, by simp⟩
  | append_singleton ps last ih =>
    rw [endsOf_concat]
    by_cases hlast : Counts ps last
    · exact .inr ⟨ps, last, [], rfl, hlast, by simp, by rw [if_pos hlast]⟩
    · have hidle : IsIdle last := by
        unfold IsIdle
        unfold Counts at hlast
        tauto
      rw [if_neg hlast, List.append_nil]
      rcases ih with ⟨hnil, hall, hhead⟩ | ⟨front, piece, idle, rfl, hpiece, hrest, hends⟩
      · refine .inl ⟨hnil, List.forall_mem_append.2 ⟨hall, by simpa using hidle⟩, ?_⟩
        cases ps with
        | nil =>
          simp only [List.nil_append, List.head?_cons, ne_eq, Option.some.injEq]
          unfold Counts at hlast
          rintro rfl
          simp at hlast
        | cons p ps => exact hhead
      · exact .inr ⟨front, piece, idle ++ [last], by simp, hpiece,
          List.forall_mem_append.2 ⟨hrest, by simpa using hidle⟩, hends⟩

/-- The path with these pieces. -/
def ofPieces (ps : List (List Char)) : String :=
  String.ofList (['/'].intercalate ps)

theorem pieces_ofPieces (hne : ps ≠ []) (h : ∀ piece ∈ ps, '/' ∉ piece) : pieces (ofPieces ps).toList = ps := by
  rw [ofPieces, String.toList_ofList]
  exact List.splitOn_intercalate '/' h hne

theorem isRooted_iff {path : List Char} : isRooted path = true ↔ ∃ ps, ps ≠ [] ∧ pieces path = [] :: ps := by
  constructor
  · intro h
    obtain ⟨rest, rfl⟩ := List.head?_eq_some_iff.1 (by simpa [isRooted] using h)
    exact ⟨pieces rest, pieces_ne_nil rest, by rw [← List.nil_append ('/' :: rest), pieces_append_slash]; rfl⟩
  · rintro ⟨ps, hne, h⟩
    obtain ⟨next, rest, rfl⟩ := List.exists_cons_of_ne_nil hne
    have hpath : ['/'].intercalate (pieces path) = path := List.intercalate_splitOn '/'
    rw [← hpath, h, ← List.nil_append ([] :: next :: rest), Text.intercalate_append_cons]
    rfl

theorem parents_of_pieces (h : pieces path.toList = front ++ [piece]) (hpiece : Counts front piece) :
    parents path = (endsOf front).reverse.map ofPieces ++ [if isRooted path.toList then "/" else ""] := by
  unfold parents
  rw [ends_eq, h, endsOf_concat, if_pos hpiece, List.map_append, List.reverse_append, ← List.map_reverse]
  simp [ofPieces]

/-- A path goes on from the one right above it with the last of its pieces. Those in between lead nowhere. -/
theorem exists_pieces_of_endsWell (h : EndsWell path) :
    ∃ dir skipped piece, parents path = dir :: parents dir ∧ (∀ s ∈ skipped, IsIdle s) ∧ piece ≠ [] ∧
      ((dir = "" ∧ isRooted path.toList = false ∧ skipped = [] ∧ pieces path.toList = [piece]) ∨
        (dir = "/" ∧ isRooted path.toList = true ∧ pieces path.toList = [] :: skipped ++ [piece]) ∨
        (EndsWell dir ∧ isRooted path.toList = isRooted dir.toList ∧
          pieces path.toList = pieces dir.toList ++ (skipped ++ [piece]))) := by
  obtain ⟨front, piece, hpieces, hpiece⟩ := h
  have hparents := parents_of_pieces hpieces hpiece
  rcases endsOf_cases front with ⟨hnil, hidle, hhead⟩ | ⟨above, last, idle, rfl, hlast, hidle, hends⟩
  · rw [hnil] at hparents
    cases front with
    | nil =>
      have hrooted : isRooted path.toList = false := by
        rw [← Bool.not_eq_true, isRooted_iff, hpieces]
        rintro ⟨ps, hne, h⟩
        cases h
        exact hne rfl
      rw [hrooted] at hparents
      exact ⟨"", [], piece, hparents, by simp, hpiece.1, .inl ⟨rfl, hrooted, rfl, hpieces⟩⟩
    | cons first skipped =>
      rw [List.forall_mem_cons] at hidle
      have hfirst : first = [] := hidle.1.resolve_right fun h => hhead (by rw [h]; rfl)
      subst hfirst
      have hrooted : isRooted path.toList = true := isRooted_iff.2 ⟨skipped ++ [piece], by simp, hpieces⟩
      rw [hrooted] at hparents
      exact ⟨"/", skipped, piece, hparents, hidle.2, hpiece.1, .inr (.inl ⟨rfl, hrooted, hpieces⟩)⟩
  · have hslash : ∀ p ∈ above ++ [last], '/' ∉ p := by
      intro p hp
      have hmem : p ∈ path.toList.splitOn '/' := by
        change p ∈ pieces path.toList
        rw [hpieces]
        simp only [List.mem_append, List.mem_cons, List.not_mem_nil, or_false] at hp ⊢
        tauto
      exact Text.not_mem_of_mem_splitOn hmem
    have hdir : pieces (ofPieces (above ++ [last])).toList = above ++ [last] := pieces_ofPieces (by simp) hslash
    have hrooted : isRooted path.toList = isRooted (ofPieces (above ++ [last])).toList := by
      rw [Bool.eq_iff_iff, isRooted_iff, isRooted_iff, hpieces, hdir]
      cases above with
      | nil => simp [hlast.1]
      | cons first above => simp
    refine ⟨ofPieces (above ++ [last]), idle, piece, ?_, hidle, hpiece.1,
      .inr (.inr ⟨⟨above, last, hdir, hlast⟩, hrooted, by rw [hpieces, hdir]; simp⟩)⟩
    rw [hparents, parents_of_pieces hdir hlast, hends, hrooted]
    simp

theorem EndsWell.isTidy (h : EndsWell path) : IsTidy path :=
  .inr (.inr h)

theorem EndsWell.ne_empty (h : EndsWell path) : path ≠ "" := by
  obtain ⟨front, piece, hpieces, hne, -⟩ := h
  rintro rfl
  cases front with
  | nil =>
    cases hpieces
    exact hne rfl
  | cons first front => simp [pieces] at hpieces

theorem EndsWell.getLast?_ne_slash (h : EndsWell path) : path.toList.getLast? ≠ some '/' := by
  obtain ⟨front, piece, hpieces, hne, -⟩ := h
  have hslash : '/' ∉ piece := by
    have hmem : piece ∈ path.toList.splitOn '/' := by
      change piece ∈ pieces path.toList
      simp [hpieces]
    exact Text.not_mem_of_mem_splitOn hmem
  have hpath : ['/'].intercalate (pieces path.toList) = path.toList := List.intercalate_splitOn '/'
  rw [hpieces, Text.intercalate_append_cons, List.flatMap_nil, List.append_nil] at hpath
  rw [← hpath, List.getLast?_append_of_ne_nil _ hne]
  exact fun hlast => hslash (List.mem_of_getLast? hlast)

end Path

namespace Disk

open AnnotatedSql.Path (EndsWell IsIdle IsTidy)

variable {d d' : Disk} {place : Place} {path : String} {idle : List (List Char)}

/-! ## Going on from the path right above -/

/-- The place that a path leads to, where the empty path leads to the working directory. -/
def locateAbove (d : Disk) (path : String) : Except Fault Place :=
  if path = "" then .ok d.workingDir else d.locate path.toList

theorem step_of_isIdle {piece : List Char} (h : IsIdle piece) (place : Place) : step place piece = place :=
  if_pos h

theorem foldl_step_idle (h : ∀ piece ∈ idle, IsIdle piece) (place : Place) : idle.foldl step place = place := by
  induction idle with
  | nil => rfl
  | cons piece idle ih =>
    rw [List.forall_mem_cons] at h
    rw [List.foldl_cons, step_of_isIdle h.1, ih h.2]

theorem follow_idle_append (hdir : d.kindAt? place = some .dir) (h : ∀ piece ∈ idle, IsIdle piece)
    (rest : List (List Char)) : d.follow place (idle ++ rest) = d.follow place rest := by
  induction idle with
  | nil => rfl
  | cons piece idle ih =>
    rw [List.forall_mem_cons] at h
    rw [List.cons_append, follow_cons, hdir]
    dsimp only
    rw [step_of_isIdle h.1, ih h.2]

theorem kindAt?_of_follow {pieces : List (List Char)} (hne : pieces ≠ []) {target : Place}
    (h : d.follow place pieces = .ok target) : d.kindAt? place = some .dir := by
  obtain ⟨piece, rest, rfl⟩ := List.exists_cons_of_ne_nil hne
  exact (follow_cons_eq_ok_iff.1 h).1

theorem start_of_locate {path : List Char} (h : d.locate path = .ok place) : d.kindAt? (d.start path) = some .dir :=
  kindAt?_of_follow (Path.pieces_ne_nil path) (locate_eq_ok_iff.1 h).2

theorem follow_of_kindAt?_eq_none {pieces : List (List Char)} (h : d.kindAt? place = none) (hne : pieces ≠ []) :
    d.follow place pieces = .error .notFound := by
  obtain ⟨piece, rest, rfl⟩ := List.exists_cons_of_ne_nil hne
  rw [follow_cons, h]

theorem locate_root (d : Disk) : d.locate "/".toList = d.follow [] [[], []] := rfl

theorem locate_root_of_dir (h : d.kindAt? [] = some .dir) : d.locate "/".toList = .ok [] := by
  rw [locate_root, ← List.append_nil [[], []]]
  exact follow_idle_append h (by simp [IsIdle]) []

/-- A path leads on from where the path right above it leads: the skipped pieces lead nowhere, and the last piece leads
one step further. -/
structure LeadsOn (path dir : String) (skipped : List (List Char)) (piece : List Char) : Prop where
  parents : Path.parents path = dir :: Path.parents dir
  tidy : IsTidy dir
  idle : ∀ s ∈ skipped, IsIdle s
  start : ∀ d : Disk, d.start path.toList = d.start dir.toList
  denoted : ∀ d : Disk, d.denoted path = step (d.denoted dir) piece
  locate : ∀ d : Disk, d.locate path.toList = (d.locateAbove dir).bind (d.follow · (skipped ++ [piece]))

theorem exists_leadsOn (h : EndsWell path) : ∃ dir skipped piece, LeadsOn path dir skipped piece := by
  have hnil : path.toList ≠ [] := by simpa using h.ne_empty
  obtain ⟨dir, skipped, piece, hparents, hskipped, hne, hcases⟩ := Path.exists_pieces_of_endsWell h
  refine ⟨dir, skipped, piece, ?_⟩
  rcases hcases with ⟨rfl, hrooted, rfl, hpieces⟩ | ⟨rfl, hrooted, hpieces⟩ | ⟨hdir, hrooted, hpieces⟩
  · have hstart : ∀ d : Disk, d.start path.toList = d.workingDir := by simp [start, hrooted]
    refine ⟨hparents, .inl rfl, hskipped, hstart, fun d => ?_, fun d => ?_⟩
    · rw [denoted, hstart, hpieces]
      rfl
    · rw [locate, if_neg hnil, hrooted, hpieces]
      rfl
  · have hstart : ∀ d : Disk, d.start path.toList = [] := by simp [start, hrooted]
    refine ⟨hparents, .inr (.inl rfl), hskipped, hstart, fun d => ?_, fun d => ?_⟩
    · rw [denoted, hstart, hpieces, List.cons_append, List.foldl_cons, List.foldl_append, foldl_step_idle hskipped]
      rfl
    · rw [locateAbove, if_neg (by decide), locate_root, locate, if_neg hnil, hrooted, hpieces, List.cons_append,
        if_pos rfl, follow_cons, follow_cons]
      cases hroot : d.kindAt? [] with
      | none => rfl
      | some kind =>
        cases kind with
        | file content => rfl
        | dir =>
          dsimp only
          rw [step_of_isIdle (.inl rfl), follow_cons, hroot]
          rfl
  · have hstart : ∀ d : Disk, d.start path.toList = d.start dir.toList := by simp [start, hrooted]
    have hdirNil : dir.toList ≠ [] := by simpa using hdir.ne_empty
    refine ⟨hparents, .inr (.inr hdir), hskipped, hstart, fun d => ?_, fun d => ?_⟩
    · rw [denoted, denoted, hstart, hpieces, List.foldl_append, List.foldl_append, foldl_step_idle hskipped]
      rfl
    · rw [locateAbove, if_neg hdir.ne_empty, locate, locate, if_neg hnil, if_neg hdirNil, hpieces, hrooted,
        follow_append]

/-- A path leads one step on from a directory that the path right above it leads to. -/
theorem LeadsOn.locate_of_dir {dir : String} {skipped : List (List Char)} {piece : List Char} {above : Place}
    (h : LeadsOn path dir skipped piece) (habove : d.locateAbove dir = .ok above) (hdir : d.kindAt? above = some .dir) :
    d.locate path.toList = .ok (step above piece) := by
  rw [h.locate, habove, Except.bind, follow_idle_append hdir h.idle, follow_cons, hdir]
  rfl

/-- Where a path leads anywhere the path right above it leads to a directory. -/
theorem LeadsOn.exists_locateAbove {dir : String} {skipped : List (List Char)} {piece : List Char}
    (h : LeadsOn path dir skipped piece) (hplace : d.locate path.toList = .ok place) :
    ∃ above, d.locateAbove dir = .ok above ∧ d.kindAt? above = some .dir := by
  rw [h.locate] at hplace
  cases habove : d.locateAbove dir with
  | error fault =>
    rw [habove] at hplace
    cases hplace
  | ok above =>
    rw [habove] at hplace
    exact ⟨above, rfl, kindAt?_of_follow (by simp) hplace⟩

/-- What holds of the empty path and of the root, and of a path if it holds of the one right above it, holds of every
tidy path. -/
theorem tidy_induction {P : (path : String) → IsTidy path → Prop} (empty : P "" (.inl rfl))
    (root : P "/" (.inr (.inl rfl)))
    (below : ∀ path dir skipped piece (hpath : EndsWell path) (hleads : LeadsOn path dir skipped piece),
      P dir hleads.tidy → P path hpath.isTidy) (path : String) (h : IsTidy path) : P path h := by
  induction hparents : Path.parents path generalizing path with
  | nil =>
    rcases h with rfl | rfl | h
    · exact empty
    · exact root
    · obtain ⟨dir, skipped, piece, hleads⟩ := exists_leadsOn h
      rw [hleads.parents] at hparents
      cases hparents
  | cons dir above ih =>
    rcases h with rfl | rfl | h
    · exact empty
    · exact root
    · obtain ⟨dir, skipped, piece, hleads⟩ := exists_leadsOn h
      rw [hleads.parents, List.cons.injEq] at hparents
      obtain ⟨rfl, rfl⟩ := hparents
      exact below _ _ _ _ h hleads (ih _ hleads.tidy rfl)

/-- All that is above a tidy path is tidy. -/
theorem isTidy_of_mem_parents (h : IsTidy path) : ∀ above ∈ Path.parents path, IsTidy above := by
  induction path, h using tidy_induction with
  | empty => exact List.forall_mem_nil _
  | root => exact List.forall_mem_nil _
  | below path dir skipped piece _ hleads ih =>
    rw [hleads.parents]
    exact List.forall_mem_cons.2 ⟨hleads.tidy, ih⟩

/-- All that is above a tidy path is followed from where it is. -/
theorem start_of_mem_parents (h : IsTidy path) (d : Disk) :
    ∀ above ∈ Path.parents path, d.start above.toList = d.start path.toList := by
  induction path, h using tidy_induction with
  | empty => exact List.forall_mem_nil _
  | root => exact List.forall_mem_nil _
  | below path dir skipped piece _ hleads ih =>
    rw [hleads.parents, hleads.start]
    exact List.forall_mem_cons.2 ⟨rfl, ih⟩

theorem eq_denoted_of_locateAbove (h : d.locateAbove path = .ok place) : place = d.denoted path := by
  unfold locateAbove at h
  split at h
  · rename_i hempty
    cases h
    rw [hempty]
    rfl
  · exact eq_denoted_of_locate h

theorem locateAbove_of_endsWell (h : EndsWell path) (d : Disk) : d.locateAbove path = d.locate path.toList :=
  if_neg h.ne_empty

/-- All that is above a path that leads anywhere is a directory. -/
theorem kindAt?_of_mem_parents (h : IsTidy path) (hplace : d.locateAbove path = .ok place) :
    ∀ above ∈ Path.parents path, d.kindAt? (d.denoted above) = some .dir := by
  induction path, h using tidy_induction generalizing place with
  | empty => exact List.forall_mem_nil _
  | root => exact List.forall_mem_nil _
  | below path dir skipped piece hpath hleads ih =>
    rw [locateAbove_of_endsWell hpath] at hplace
    obtain ⟨above, habove, hdir⟩ := hleads.exists_locateAbove hplace
    rw [hleads.parents]
    refine List.forall_mem_cons.2 ⟨?_, ih habove⟩
    rw [← eq_denoted_of_locateAbove habove, hdir]

theorem kindAt?_of_mem_parents_of_locate (h : EndsWell path) (hplace : d.locate path.toList = .ok place) :
    ∀ above ∈ Path.parents path, d.kindAt? (d.denoted above) = some .dir :=
  kindAt?_of_mem_parents h.isTidy ((locateAbove_of_endsWell h d).trans hplace)

/-- Where no file stands in the way, a path leads to the place that it denotes unless a directory is missing. -/
theorem locateAbove_cases (h : IsTidy path) (hstart : d.kindAt? (d.start path.toList) = some .dir)
    (hfree : ∀ above ∈ Path.parents path, ∀ content, d.kindAt? (d.denoted above) ≠ some (.file content)) :
    d.locateAbove path = .ok (d.denoted path) ∨ d.locateAbove path = .error .notFound := by
  induction path, h using tidy_induction with
  | empty => exact .inl rfl
  | root => exact .inl (locate_root_of_dir hstart)
  | below path dir skipped piece hpath hleads ih =>
    rw [hleads.parents, List.forall_mem_cons] at hfree
    rw [locateAbove_of_endsWell hpath, hleads.denoted]
    rcases ih (hleads.start d ▸ hstart) hfree.2 with hdir | hdir
    · cases hkind : d.kindAt? (d.denoted dir) with
      | none =>
        rw [hleads.locate, hdir]
        exact .inr (follow_of_kindAt?_eq_none hkind (List.concat_ne_nil piece skipped))
      | some kind =>
        cases kind with
        | file content => exact absurd hkind (hfree.1 content)
        | dir => exact .inl (hleads.locate_of_dir hdir hkind)
    · rw [hleads.locate, hdir]
      exact .inr rfl

end Disk
end AnnotatedSql
