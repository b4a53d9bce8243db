import AnnotatedSql.Proofs.Ancestors
import AnnotatedSql.Proofs.Writing
/-!
# Making the directories above a path

Where no file stands in the way, making a directory and what is missing above it succeeds (`Disk.exists_makeChain`), and
directories are all that is added, at places that were empty (`Disk.Grows`, `Disk.grows_makeChain`). Above a path that
leads to a file nothing has to be made (`Disk.withParent_eq_self`), so a new text there changes what no other path reads
as (`Disk.readText_writeText_of_ne`).
-/

namespace AnnotatedSql.Disk

open AnnotatedSql.Path (EndsWell IsTidy)

variable {d d' : Disk} {place : Place} {path text : String}

theorem withoutSlashes_eq_self {path : List Char} (h : path.getLast? ≠ some '/') : withoutSlashes path = path := by
  unfold withoutSlashes
  rw [List.dropWhile_eq_self_iff.2, List.reverse_reverse]
  intro hpos hlast
  have hnil : path ≠ [] := by simpa using List.ne_nil_of_length_pos hpos
  rw [← List.head_eq_getElem_zero (List.ne_nil_of_length_pos hpos), List.head_reverse, beq_iff_eq] at hlast
  exact h (by rw [List.getLast?_eq_some_getLast hnil, hlast])

/-! ## Making directories -/

theorem makeDir_eq (h : path = "/" ∨ EndsWell path) (d : Disk) :
    d.makeDir path =
      match d.locate path.toList with
      | .error fault => .error fault
      | .ok place =>
        match d.at? place with
        | some _ => .error .alreadyExists
        | none => .ok (d.put place (.dir [])) := by
  have hsame : (if withoutSlashes path.toList = [] then path.toList else withoutSlashes path.toList) = path.toList := by
    rcases h with rfl | h
    · rfl
    · rw [withoutSlashes_eq_self h.getLast?_ne_slash, ite_self]
  unfold makeDir
  dsimp only
  rewrite [hsame]
  rfl

theorem exists_put_of_makeDir (h : path = "/" ∨ EndsWell path) (hmake : d.makeDir path = .ok d') :
    ∃ place, d.locate path.toList = .ok place ∧ d.kindAt? place = none ∧ d' = d.put place (.dir []) := by
  rw [makeDir_eq h] at hmake
  split at hmake
  · cases hmake
  · rename_i place hplace
    split at hmake
    · cases hmake
    · rename_i hat
      cases hmake
      exact ⟨place, hplace, kindAt?_eq_none_iff.2 hat, rfl⟩

theorem makeDir_of_dir (h : path = "/" ∨ EndsWell path) (hplace : d.locate path.toList = .ok place)
    (hdir : d.kindAt? place = some .dir) : d.makeDir path = .error .alreadyExists := by
  obtain ⟨es, hes⟩ := kindAt?_eq_dir_iff.1 hdir
  rw [makeDir_eq h, hplace]
  dsimp only
  rw [hes]

theorem isDir_of_locate (hplace : d.locate path.toList = .ok place) (hdir : d.kindAt? place = some .dir) :
    d.isDir path = true := by
  obtain ⟨es, hes⟩ := kindAt?_eq_dir_iff.1 hdir
  simp [isDir, find, hplace, hes, Tree.isDir]

theorem exists_makeDir (h : path = "/" ∨ EndsWell path) (hplace : d.locate path.toList = .ok place)
    (hnone : d.kindAt? place = none) :
    ∃ made, d.makeDir path = .ok made ∧ made.locate path.toList = .ok place ∧ made.kindAt? place = some .dir := by
  have hmake : d.makeDir path = .ok (d.put place (.dir [])) := by
    rw [makeDir_eq h, hplace]
    dsimp only
    rw [kindAt?_eq_none_iff.1 hnone]
  obtain ⟨above, name, rfl, habove⟩ := exists_above_of_locate hplace (by simp [hnone])
  refine ⟨_, hmake, (keeps_makeDir hmake).locate hplace, ?_⟩
  rw [kindAt?_put habove (by simp [hnone]) rfl, Function.update_self]
  rfl

/-- Where no file stands a directory is made, or found. -/
theorem makeDir_of_locate (h : path = "/" ∨ EndsWell path) (hplace : d.locate path.toList = .ok place)
    (hfile : ∀ content, d.kindAt? place ≠ some (.file content)) :
    (∃ made, d.makeDir path = .ok made ∧ made.locate path.toList = .ok place ∧ made.kindAt? place = some .dir) ∨
      (d.makeDir path = .error .alreadyExists ∧ d.isDir path = true ∧ d.kindAt? place = some .dir) := by
  cases hkind : d.kindAt? place with
  | none => exact .inl (exists_makeDir h hplace hkind)
  | some kind =>
    cases kind with
    | file content => exact absurd hkind (hfile content)
    | dir => exact .inr ⟨makeDir_of_dir h hplace hkind, isDir_of_locate hplace hkind, rfl⟩

theorem makeChain_of_locate (h : path = "/" ∨ EndsWell path) (hplace : d.locate path.toList = .ok place)
    (hfile : ∀ content, d.kindAt? place ≠ some (.file content)) (above : List String) :
    ∃ d', d.makeChain (path :: above) = (d', none) ∧ d'.locate path.toList = .ok place ∧
      d'.kindAt? place = some .dir := by
  have hne : path ≠ "" := by
    rcases h with rfl | h
    · decide
    · exact h.ne_empty
  rw [makeChain, if_neg hne]
  rcases makeDir_of_locate h hplace hfile with ⟨made, hmake, hmade, hdir⟩ | ⟨hmake, hisDir, hdir⟩
  · exact ⟨made, by rw [hmake], hmade, hdir⟩
  · exact ⟨d, by simp [hmake, hisDir], hplace, hdir⟩

/-- Where no file stands in the way a directory is made, and first all that is missing above it. -/
theorem exists_makeChain (h : IsTidy path) (hstart : d.kindAt? (d.start path.toList) = some .dir)
    (hfree : ∀ above ∈ path :: Path.parents path, ∀ content, d.kindAt? (d.denoted above) ≠ some (.file content)) :
    ∃ d', d.makeChain (path :: Path.parents path) = (d', none) ∧ d'.locateAbove path = .ok (d.denoted path) ∧
      d'.kindAt? (d.denoted path) = some .dir := by
  induction path, h using tidy_induction with
  | empty => exact ⟨d, rfl, rfl, hstart⟩
  | root => exact makeChain_of_locate (.inl rfl) (locate_root_of_dir hstart) (hfree "/" List.mem_cons_self) []
  | below path dir skipped piece hpath hleads ih =>
    rw [List.forall_mem_cons] at hfree
    simp only [locateAbove_of_endsWell hpath]
    rcases locateAbove_cases hpath.isTidy hstart hfree.2 with hplace | hmissing
    · rw [locateAbove_of_endsWell hpath] at hplace
      exact makeChain_of_locate (.inr hpath) hplace hfree.1 _
    · rw [locateAbove_of_endsWell hpath] at hmissing
      rw [hleads.parents] at hfree ⊢
      obtain ⟨d₁, hchain, hbase, hdir⟩ := ih (hleads.start d ▸ hstart) hfree.2
      have hkeeps : Keeps ∅ d d₁ := by
        have hmade := keeps_makeChain d (dir :: Path.parents dir)
        rwa [hchain] at hmade
      have hplace : d₁.locate path.toList = .ok (d.denoted path) := by
        rw [hleads.denoted]
        exact hleads.locate_of_dir hbase hdir
      have hfile : ∀ content, d₁.kindAt? (d.denoted path) ≠ some (.file content) := by
        intro content hcontent
        exact hfree.1 content ((hkeeps.file _ (Set.notMem_empty _) content).1 hcontent)
      have hmake : d.makeDir path = .error .notFound := by rw [makeDir_eq (.inr hpath), hmissing]
      rw [makeChain, if_neg hpath.ne_empty, hmake]
      simp only [hchain]
      rcases makeDir_of_locate (.inr hpath) hplace hfile with ⟨made, hmade, hlocate, hkind⟩ | ⟨hmade, hisDir, hkind⟩
      · exact ⟨made, by rw [hmade], hlocate, hkind⟩
      · exact ⟨d₁, by simp [hmade, hisDir], hplace, hkind⟩

/-! ## What is made -/

/-- From one disk to another directories are added at some places where nothing was, and that is all. -/
structure Grows (places : Set Place) (d d' : Disk) : Prop where
  workingDir : d'.workingDir = d.workingDir
  kinds : ∀ place, d'.kindAt? place = d.kindAt? place ∨
    (d.kindAt? place = none ∧ d'.kindAt? place = some .dir ∧ place ∈ places)

namespace Grows

variable {places places' : Set Place} {d'' : Disk}

theorem refl (places : Set Place) (d : Disk) : Grows places d d :=
  ⟨rfl, fun _ => .inl rfl⟩

theorem mono (h : Grows places d d') (hsubset : places ⊆ places') : Grows places' d d' :=
  ⟨h.workingDir, fun place => (h.kinds place).imp_right fun ⟨hnone, hdir, hmem⟩ => ⟨hnone, hdir, hsubset hmem⟩⟩

theorem trans (h : Grows places d d') (h' : Grows places d' d'') : Grows places d d'' := by
  refine ⟨h'.workingDir.trans h.workingDir, fun place => ?_⟩
  rcases h'.kinds place with hsame | ⟨hnone, hdir, hmem⟩
  · rw [hsame]
    exact h.kinds place
  · rcases h.kinds place with hsame | ⟨-, hdir', -⟩
    · exact .inr ⟨hsame ▸ hnone, hdir, hmem⟩
    · rw [hdir'] at hnone
      cases hnone

end Grows

theorem grows_makeDir (h : path = "/" ∨ EndsWell path) (hmake : d.makeDir path = .ok d') :
    Grows {d.denoted path} d d' := by
  obtain ⟨place, hplace, hnone, rfl⟩ := exists_put_of_makeDir h hmake
  obtain ⟨above, name, rfl, habove⟩ := exists_above_of_locate hplace (by simp [hnone])
  refine ⟨rfl, fun other => ?_⟩
  rw [kindAt?_put habove (by simp [hnone]) rfl]
  by_cases hsame : other = above ++ [name]
  · subst hsame
    exact .inr ⟨hnone, Function.update_self .., eq_denoted_of_locate hplace⟩
  · exact .inl (Function.update_of_ne hsame ..)

/-- Only paths of the chain are made directories. -/
theorem grows_makeChain (d : Disk) {chain : List String} (h : ∀ path ∈ chain, IsTidy path) :
    Grows {place | ∃ path ∈ chain, d.denoted path = place} d (d.makeChain chain).1 := by
  induction chain with
  | nil => exact .refl _ d
  | cons path above ih =>
    rw [List.forall_mem_cons] at h
    have habove : Grows {place | ∃ p ∈ path :: above, d.denoted p = place} d (d.makeChain above).1 := by
      refine (ih h.2).mono ?_
      rintro place ⟨p, hp, hplace⟩
      exact ⟨p, List.mem_cons_of_mem _ hp, hplace⟩
    have hself : {d.denoted path} ⊆ {place | ∃ p ∈ path :: above, d.denoted p = place} := by
      rintro place rfl
      exact ⟨path, List.mem_cons_self, rfl⟩
    rcases makeChain_cases d path above with hsame | hsame | ⟨hne, hmade | hmade⟩
    · rw [hsame]
      exact .refl _ d
    · rw [hsame]
      exact habove
    · exact (grows_makeDir (h.1.resolve_left hne) hmade).mono hself
    · have hdenoted := (keeps_makeChain d above).denoted_eq path
      exact habove.trans ((grows_makeDir (h.1.resolve_left hne) hmade).mono (hdenoted ▸ hself))

/-- Without a directory to follow paths from, none is made. -/
theorem makeChain_of_start {chain : List String} (htidy : ∀ path ∈ chain, IsTidy path)
    (hstart : ∀ path ∈ chain, d.kindAt? (d.start path.toList) ≠ some .dir) : (d.makeChain chain).1 = d := by
  induction chain with
  | nil => rfl
  | cons path above ih =>
    rw [List.forall_mem_cons] at htidy hstart
    have habove := ih htidy.2 hstart.2
    have hmake : path ≠ "" → ∀ made, d.makeDir path ≠ .ok made := by
      intro hne made hmade
      obtain ⟨place, hplace, -⟩ := exists_put_of_makeDir (htidy.1.resolve_left hne) hmade
      exact hstart.1 (start_of_locate hplace)
    rcases makeChain_cases d path above with hsame | hsame | ⟨hne, hmade | hmade⟩
    · exact hsame
    · rw [hsame, habove]
    · exact absurd hmade (hmake hne _)
    · rw [habove] at hmade
      exact absurd hmade (hmake hne _)

/-! ## The directory above a file -/

theorem endsWell_of_name {front : List (List Char)} {name : List Char}
    (hpieces : Path.pieces path.toList = front ++ [name]) (hname : name ∉ [[], ['.'], ['.', '.']]) : EndsWell path := by
  simp only [List.mem_cons, List.not_mem_nil, or_false, not_or] at hname
  exact ⟨front, name, hpieces, hname.1, fun hdot => absurd hdot hname.2.1⟩

theorem endsWell_of_locate (hplace : d.locate path.toList = .ok place) (hdir : d.kindAt? place ≠ some .dir) :
    EndsWell path := by
  obtain ⟨front, name, _, hpieces, hname, -, -⟩ := exists_name_of_locate hplace hdir
  exact endsWell_of_name hpieces hname

theorem withParent_of_endsWell (h : EndsWell path) (d : Disk) :
    d.withParent path = (d.makeChain (Path.parents path)).1 := by
  obtain ⟨dir, skipped, piece, hleads⟩ := exists_leadsOn h
  unfold withParent Path.parent?
  rw [hleads.parents]
  rfl

theorem grows_withParent (h : EndsWell path) (d : Disk) :
    Grows {place | ∃ above ∈ Path.parents path, d.denoted above = place} d (d.withParent path) := by
  rw [withParent_of_endsWell h]
  exact grows_makeChain d (isTidy_of_mem_parents h.isTidy)

/-- Nothing has to be made above a path that leads to a file, or to where one can be put. -/
theorem withParent_eq_self (hplace : d.locate path.toList = .ok place) (hdir : d.kindAt? place ≠ some .dir) :
    d.withParent path = d := by
  have hpath := endsWell_of_locate hplace hdir
  obtain ⟨dir, skipped, piece, hleads⟩ := exists_leadsOn hpath
  obtain ⟨above, habove, hkind⟩ := hleads.exists_locateAbove hplace
  rw [withParent_of_endsWell hpath, hleads.parents, makeChain]
  split
  · rfl
  · rename_i hne
    rw [locateAbove, if_neg hne] at habove
    rw [makeDir_of_dir (hleads.tidy.resolve_left hne) habove hkind]

/-! ## Writing where a file is -/

/-- Where a file is given a new content, no other path reads differently. -/
theorem readText_put_file {path : List Char} (hplace : d.locate path = .ok place) {old : ByteArray}
    (hfile : d.kindAt? place = some (.file old)) (new : ByteArray) {other : String} (hother : d.denoted other ≠ place) :
    (d.put place (.file new)).readText other = d.readText other := by
  obtain ⟨above, name, rfl, habove⟩ := exists_above_of_locate hplace (by simp [hfile])
  have hkind : (d.put (above ++ [name]) (.file new)).kindAt? =
      Function.update d.kindAt? (above ++ [name]) (some (.file new)) :=
    kindAt?_put habove (by simp [hfile]) rfl
  have hfollow : ∀ start pieces, (d.put (above ++ [name]) (.file new)).follow start pieces = d.follow start pieces := by
    intro start pieces
    induction pieces generalizing start with
    | nil => rfl
    | cons piece rest ih =>
      rw [follow_cons, follow_cons, hkind]
      by_cases hstart : start = above ++ [name]
      · rw [hstart, Function.update_self, hfile]
      · rw [Function.update_of_ne hstart, ih]
  have hlocate : (d.put (above ++ [name]) (.file new)).locate other.toList = d.locate other.toList := by
    unfold locate
    rw [hfollow]
    rfl
  rw [readText_eq, readText_eq, hlocate, hkind]
  cases h : d.locate other.toList with
  | error fault => rfl
  | ok p =>
    have hp : p ≠ above ++ [name] := eq_denoted_of_locate h ▸ hother
    dsimp only
    rw [Function.update_of_ne hp]

/-- Where a text was found and another one is written, no other path reads differently. -/
theorem readText_writeText_of_ne {old : String} (hfound : d.readText path = .ok old) {outcome : Outcome}
    (h : d.writeText path text = (d', .ok outcome)) {other : String} (hother : d.denoted other ≠ d.denoted path) :
    d'.readText other = d.readText other := by
  obtain ⟨place, content, hplace, hfile, -⟩ := readText_eq_ok_iff.1 hfound
  rcases writeText_cases h with ⟨-, -, rfl⟩ | ⟨-, -, place', hplace', -, rfl⟩
  · rfl
  · rw [withParent_eq_self hplace (by simp [hfile])] at hplace' ⊢
    rw [hplace, Except.ok.injEq] at hplace'
    subst hplace'
    exact readText_put_file hplace hfile _ (eq_denoted_of_locate hplace ▸ hother)

end AnnotatedSql.Disk
