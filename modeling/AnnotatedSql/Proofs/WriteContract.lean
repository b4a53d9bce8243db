import AnnotatedSql.Proofs.Accounting
/-!
# The contract of writing a text

Writing a text to a path comes to one of three things (`Disk.writeText_contract`). The path leads to the text already,
and the disk is left alone; or it leads to the text afterwards, and nothing else has changed but that directories which
were missing above it are there; or writing fails, and all files are as they were. Writing succeeds where a file can be
at the path, whatever directories have to be made for it (`Disk.CanHold`).
-/

namespace AnnotatedSql.Disk

open AnnotatedSql.Path (EndsWell IsTidy)

variable {d d' : Disk} {place : Place} {path text : String}

/-! ## Statements -/

/-- A file can be at a path: its last piece is a name, it is followed from a directory, no file stands in the way, and
no directory in its place. A path such as `a/../a` is above itself, so there the way to it would be a directory in its
place. -/
structure CanHold (d : Disk) (path : String) : Prop where
  name : ∃ front name, Path.pieces path.toList = front ++ [name] ∧ name ∉ [[], ['.'], ['.', '.']]
  start : d.kindAt? (d.start path.toList) = some .dir
  way : ∀ above ∈ Path.parents path, ∀ content, d.kindAt? (d.denoted above) ≠ some (.file content)
  apart : ∀ above ∈ Path.parents path, d.denoted above ≠ d.denoted path
  target : d.kindAt? (d.denoted path) ≠ some .dir

/-- A text is at a path, all that is above the path is a directory, and every other place holds what it held before,
but for directories above the path where nothing was. -/
structure Wrote (d d' : Disk) (path text : String) : Prop where
  has : d'.Has path text
  workingDir : d'.workingDir = d.workingDir
  above : ∀ above ∈ Path.parents path, d'.kindAt? (d.denoted above) = some .dir
  others : ∀ place ≠ d.denoted path, d'.kindAt? place = d.kindAt? place ∨
    (d.kindAt? place = none ∧ d'.kindAt? place = some .dir ∧ ∃ above ∈ Path.parents path, d.denoted above = place)

/-- What is promised about writing a text to a path. -/
structure WriteContract (d : Disk) (path text : String) : Prop where
  unchanged_iff : (d.writeText path text).2 = .ok .unchanged ↔ d.Has path text
  unchanged : (d.writeText path text).2 = .ok .unchanged → (d.writeText path text).1 = d
  written : ∀ d', d.writeText path text = (d', .ok .written) → Wrote d d' path text
  failed : ∀ d' e, d.writeText path text = (d', .error e) → d.SameFiles d'
  again : ∀ d' outcome, d.writeText path text = (d', .ok outcome) → d'.writeText path text = (d', .ok .unchanged)
  succeeds_iff : (∃ d' outcome, d.writeText path text = (d', .ok outcome)) ↔ d.CanHold path

/-! ## Where a file can be -/

theorem CanHold.endsWell (h : d.CanHold path) : EndsWell path := by
  obtain ⟨front, name, hpieces, hname⟩ := h.name
  exact endsWell_of_name hpieces hname

/-- Without a directory to follow it from, nothing is written to a path. -/
theorem start_of_writeText {outcome : Outcome} (hpath : EndsWell path)
    (h : d.writeText path text = (d', .ok outcome)) : d.kindAt? (d.start path.toList) = some .dir := by
  by_contra hstart
  have hsame : d.withParent path = d := by
    rw [withParent_of_endsWell hpath]
    refine makeChain_of_start (isTidy_of_mem_parents hpath.isTidy) ?_
    intro above habove
    rwa [start_of_mem_parents hpath.isTidy d above habove]
  rcases writeText_cases h with ⟨-, hread, -⟩ | ⟨-, -, place, hplace, -⟩
  · obtain ⟨place, -, hplace, -⟩ := readText_eq_ok_iff.1 hread
    exact hstart (start_of_locate hplace)
  · rw [hsame] at hplace
    exact hstart (start_of_locate hplace)

/-- Where a text was written, or found, a file is in a directory, and everything above is a directory. -/
theorem exists_name_of_writeText {outcome : Outcome} (h : d.writeText path text = (d', .ok outcome)) :
    (∃ front name, Path.pieces path.toList = front ++ [name] ∧ name ∉ [[], ['.'], ['.', '.']]) ∧
      (∃ content, d'.kindAt? (d.denoted path) = some (.file content)) ∧
      ∀ above ∈ Path.parents path, d'.kindAt? (d.denoted above) = some .dir := by
  have hkeeps := keeps_writeText d path text
  rw [h] at hkeeps
  obtain ⟨place, content, hplace, hfile, -⟩ := readText_eq_ok_iff.1 (readText_writeText h)
  obtain ⟨front, name, _, hpieces, hname, -, -⟩ := exists_name_of_locate hplace (by simp [hfile])
  refine ⟨⟨front, name, hpieces, hname⟩, ⟨content, ?_⟩, ?_⟩
  · rw [← hkeeps.denoted_eq, ← eq_denoted_of_locate hplace, hfile]
  · intro above hmem
    rw [← hkeeps.denoted_eq]
    exact kindAt?_of_mem_parents_of_locate (endsWell_of_name hpieces hname) hplace above hmem

/-- Where a text was written, or found, a file could be. -/
theorem canHold_of_writeText {outcome : Outcome} (h : d.writeText path text = (d', .ok outcome)) : d.CanHold path := by
  obtain ⟨⟨front, name, hpieces, hname⟩, ⟨content, hfile⟩, habove⟩ := exists_name_of_writeText h
  have hkeeps := keeps_writeText d path text
  rw [h] at hkeeps
  have hapart : ∀ above ∈ Path.parents path, d.denoted above ≠ d.denoted path := by
    intro above hmem hsame
    have hdir := habove above hmem
    rw [hsame, hfile] at hdir
    cases hdir
  refine ⟨⟨front, name, hpieces, hname⟩, start_of_writeText (endsWell_of_name hpieces hname) h, ?_, hapart, ?_⟩
  · intro above hmem old hold
    have hkept := (hkeeps.file _ (hapart above hmem) old).2 hold
    rw [habove above hmem] at hkept
    cases hkept
  · intro hdir
    have hkept := hkeeps.dir _ hdir
    rw [hfile] at hkept
    cases hkept

/-- Once the directories above it are made, a path where a file can be leads to where that is. -/
theorem locate_withParent (h : d.CanHold path) :
    (∃ dir, Path.parent? path = some dir ∧ d.makeDirs dir = (d.withParent path, none)) ∧
      (d.withParent path).locate path.toList = .ok (d.denoted path) := by
  obtain ⟨dir, skipped, piece, hleads⟩ := exists_leadsOn h.endsWell
  have hparent : Path.parent? path = some dir := by rw [Path.parent?, hleads.parents, List.head?_cons]
  have hwith : d.withParent path = (d.makeDirs dir).1 := by rw [withParent, hparent]
  have hway := h.way
  rw [hleads.parents] at hway
  obtain ⟨made, hchain, hbase, hdir⟩ := exists_makeChain hleads.tidy (hleads.start d ▸ h.start) hway
  have hmake : d.makeDirs dir = (made, none) := hchain
  rw [hmake] at hwith
  dsimp only at hwith
  subst hwith
  refine ⟨⟨dir, hparent, hmake⟩, ?_⟩
  rw [hleads.denoted]
  exact hleads.locate_of_dir hbase hdir

theorem writeBytes_of_locate (hpath : EndsWell path) (hplace : d.locate path.toList = .ok place)
    (hdir : d.kindAt? place ≠ some .dir) (content : ByteArray) :
    d.writeBytes path content = .ok (d.put place (.file content)) := by
  unfold writeBytes
  rw [withoutSlashes_eq_self hpath.getLast?_ne_slash]
  simp only [if_true, hplace]
  split
  · rename_i es hes
    exact absurd (kindAt?_eq_dir_iff.2 ⟨es, hes⟩) hdir
  · rfl

/-- Where a file can be, a text is written unless it is found. No directory is made in the file's place, because that is
apart from all that is above. -/
theorem writeText_of_canHold (h : d.CanHold path) (text : String) :
    ∃ d' outcome, d.writeText path text = (d', .ok outcome) := by
  obtain ⟨⟨dir, hparent, hmake⟩, hplace⟩ := locate_withParent h
  have hdir : (d.withParent path).kindAt? (d.denoted path) ≠ some .dir := by
    rcases (grows_withParent h.endsWell d).kinds (d.denoted path) with hsame | ⟨-, -, above, hmem, hsame⟩
    · rw [hsame]
      exact h.target
    · exact absurd hsame (h.apart above hmem)
  have hput := writeBytes_of_locate h.endsWell hplace hdir text.toUTF8
  unfold writeText
  split
  · exact ⟨d, .unchanged, rfl⟩
  · refine ⟨(d.withParent path).put (d.denoted path) (.file text.toUTF8), .written, ?_⟩
    unfold overwrite
    simp only [hparent, hmake, Option.map_none, hput]

/-! ## What is written -/

theorem wrote_of_writeText (h : d.writeText path text = (d', .ok .written)) : Wrote d d' path text := by
  have hkeeps := keeps_writeText d path text
  rw [h] at hkeeps
  obtain ⟨⟨front, name, hpieces, hname⟩, -, habove⟩ := exists_name_of_writeText h
  refine ⟨readText_eq_ok_iff_has.1 (readText_writeText h), hkeeps.workingDir, habove, ?_⟩
  intro other hother
  have hgrows := (grows_withParent (endsWell_of_name hpieces hname) d).kinds other
  rcases writeText_cases h with ⟨hunchanged, -⟩ | ⟨-, -, place, hplace, hdir, rfl⟩
  · cases hunchanged
  · have hdenoted : place = d.denoted path :=
      (eq_denoted_of_locate hplace).trans ((keeps_withParent d path).denoted_eq path)
    obtain ⟨dir, file, rfl, hparent⟩ := exists_above_of_locate hplace hdir
    rw [kindAt?_put hparent hdir rfl, Function.update_of_ne (hdenoted ▸ hother)]
    exact hgrows

/-! ## Where a text is already -/

theorem exists_writeText_of_has {old : String} (h : d.Has path old) (text : String) :
    ∃ d' outcome, d.writeText path text = (d', .ok outcome) :=
  writeText_of_canHold (canHold_of_writeText (writeText_of_readText (readText_eq_ok_iff_has.2 h))) text

/-- Where a text is already, nothing is missing above it, so writing another one changes what stands at one place. -/
theorem kindAt?_writeText_of_has {old : String} {outcome : Outcome} (h : d.Has path old)
    (hwrite : d.writeText path text = (d', .ok outcome)) (hplace : place ≠ d.denoted path) :
    d'.kindAt? place = d.kindAt? place := by
  rcases writeText_outcome hwrite with ⟨rfl, -, rfl⟩ | ⟨rfl, -⟩
  · rfl
  · rcases (wrote_of_writeText hwrite).others place hplace with hsame | ⟨hnone, -, above, hmem, rfl⟩
    · exact hsame
    · obtain ⟨-, -, habove⟩ := exists_name_of_writeText (writeText_of_readText (readText_eq_ok_iff_has.2 h))
      rw [habove above hmem] at hnone
      cases hnone

/-! ## The contract -/

/-- Whatever a disk holds, writing any text to any path keeps the contract. -/
theorem writeText_contract (d : Disk) (path text : String) : WriteContract d path text := by
  have hunchanged : ∀ d', d.writeText path text = (d', .ok .unchanged) → d.Has path text ∧ d' = d := by
    intro d' h
    rcases writeText_outcome h with ⟨-, hhas, hsame⟩ | ⟨hwritten, -⟩
    · exact ⟨hhas, hsame⟩
    · cases hwritten
  constructor
  · constructor
    · intro h
      exact (hunchanged _ (Prod.ext rfl h)).1
    · intro hhas
      rw [writeText_of_readText (readText_eq_ok_iff_has.2 hhas)]
  · intro h
    exact (hunchanged _ (Prod.ext rfl h)).2
  · intro d' h
    exact wrote_of_writeText h
  · intro d' e h
    exact (keeps_of_writeText_error h).sameFiles
  · intro d' outcome h
    exact writeText_of_readText (readText_writeText h)
  · constructor
    · rintro ⟨d', outcome, h⟩
      exact canHold_of_writeText h
    · intro h
      exact writeText_of_canHold h text

/-- Directories that are missing are made, also those that the path leaves again. -/
example : (Disk.empty.writeText "new/dir/../file" "text").2 = .ok .written := by decide +kernel

example : (Disk.empty.writeText "a/../a" "text").2 = .error (.file "a/../a" .isADirectory) := by decide +kernel

end AnnotatedSql.Disk
