import AnnotatedSql.Proofs.Places
import Mathlib.Data.Set.Insert
/-!
# What writing leaves as it was

Writing a file makes directories and gives one place a new content. Nothing goes away, every directory stays one, and
every other file keeps what it holds (`Disk.keeps_writeText`), so whatever was read before at another place reads the
same afterwards (`Disk.Keeps.readText`). Where a file is written it holds the text (`Disk.readText_writeText`).
-/

namespace AnnotatedSql

namespace Disk

/-- From one disk to another no directory goes away, and outside of the changed places the files are the same. -/
structure Keeps (changed : Set Place) (d d' : Disk) : Prop where
  workingDir : d'.workingDir = d.workingDir
  dir : ∀ place, d.kindAt? place = some .dir → d'.kindAt? place = some .dir
  file : ∀ place ∉ changed, ∀ content, d'.kindAt? place = some (.file content) ↔ d.kindAt? place = some (.file content)

variable {d d' d'' : Disk} {changed : Set Place} {place : Place} {path text : String}

namespace Keeps

theorem refl (changed : Set Place) (d : Disk) : Keeps changed d d :=
  ⟨rfl, fun _ h => h, fun _ _ _ => .rfl⟩

theorem trans (h : Keeps changed d d') (h' : Keeps changed d' d'') : Keeps changed d d'' where
  workingDir := h'.workingDir.trans h.workingDir
  dir place hdir := h'.dir place (h.dir place hdir)
  file place hplace content := (h'.file place hplace content).trans (h.file place hplace content)

theorem mono {changed' : Set Place} (h : Keeps changed d d') (hsubset : changed ⊆ changed') : Keeps changed' d d' :=
  ⟨h.workingDir, h.dir, fun place hplace => h.file place fun hmem => hplace (hsubset hmem)⟩

theorem start_eq (h : Keeps changed d d') (path : List Char) : d'.start path = d.start path := by
  unfold start
  rw [h.workingDir]

theorem denoted_eq (h : Keeps changed d d') (path : String) : d'.denoted path = d.denoted path := by
  unfold denoted
  rw [h.start_eq]

theorem follow {pieces : List (List Char)} {target : Place} (h : Keeps changed d d')
    (hfollow : d.follow place pieces = .ok target) : d'.follow place pieces = .ok target := by
  induction pieces generalizing place with
  | nil => exact hfollow
  | cons piece rest ih =>
    obtain ⟨hdir, hrest⟩ := follow_cons_eq_ok_iff.1 hfollow
    exact follow_cons_eq_ok_iff.2 ⟨h.dir place hdir, ih hrest⟩

theorem locate {path : List Char} (h : Keeps changed d d') (hplace : d.locate path = .ok place) :
    d'.locate path = .ok place := by
  obtain ⟨hne, hfollow⟩ := locate_eq_ok_iff.1 hplace
  refine locate_eq_ok_iff.2 ⟨hne, ?_⟩
  rw [h.start_eq]
  exact h.follow hfollow

theorem readText (h : Keeps changed d d') (hpath : d.denoted path ∉ changed) (hread : d.readText path = .ok text) :
    d'.readText path = .ok text := by
  obtain ⟨place, content, hplace, hfile, htext⟩ := readText_eq_ok_iff.1 hread
  rw [← eq_denoted_of_locate hplace] at hpath
  exact readText_eq_ok_iff.2 ⟨place, content, h.locate hplace, (h.file place hpath content).2 hfile, htext⟩

end Keeps

/-! ## Single changes -/

theorem keeps_put {path : List Char} (hplace : d.locate path = .ok place) (hdir : d.kindAt? place ≠ some .dir)
    {leaf : Tree} (hleaf : leaf.entries = [])
    (hchanged : place ∉ changed → d.kindAt? place = none ∧ leaf.kind = .dir) :
    Keeps changed d (d.put place leaf) := by
  obtain ⟨above, name, rfl, habove⟩ := exists_above_of_locate hplace hdir
  have hput := kindAt?_put habove hdir hleaf
  refine ⟨rfl, fun other hother => ?_, fun other hout content => ?_⟩
  · rw [hput, Function.update_of_ne, hother]
    rintro rfl
    exact hdir hother
  · rw [hput]
    by_cases hsame : other = above ++ [name]
    · subst hsame
      obtain ⟨hnone, hkind⟩ := hchanged hout
      simp [hnone, hkind]
    · rw [Function.update_of_ne hsame]

theorem keeps_makeDir (h : d.makeDir path = .ok d') : Keeps ∅ d d' := by
  unfold makeDir at h
  dsimp only at h
  split at h
  · cases h
  · rename_i place hplace
    split at h
    · cases h
    · rename_i hnone
      cases h
      rw [← kindAt?_eq_none_iff] at hnone
      exact keeps_put hplace (by simp [hnone]) rfl fun _ => ⟨hnone, rfl⟩

/-- Making a chain of directories leaves what was there, or what making those above leaves, or one of these with the
first directory made. -/
theorem makeChain_cases (d : Disk) (path : String) (above : List String) :
    (d.makeChain (path :: above)).1 = d ∨ (d.makeChain (path :: above)).1 = (d.makeChain above).1 ∨
      (path ≠ "" ∧ (d.makeDir path = .ok (d.makeChain (path :: above)).1 ∨
        (d.makeChain above).1.makeDir path = .ok (d.makeChain (path :: above)).1)) := by
  generalize hresult : d.makeChain (path :: above) = result
  rw [makeChain] at hresult
  split at hresult
  · subst hresult
    exact .inl rfl
  · rename_i hne
    split at hresult
    · rename_i made hmade
      subst hresult
      exact .inr (.inr ⟨hne, .inl hmade⟩)
    · split at hresult
      · rename_i hchain
        subst hresult
        exact .inr (.inl (by rw [hchain]))
      · rename_i hchain
        split at hresult
        · rename_i made hmade
          subst hresult
          exact .inr (.inr ⟨hne, .inr (by rw [hchain, hmade])⟩)
        · subst hresult
          exact .inr (.inl (by rw [hchain]))
    · subst hresult
      exact .inl rfl

theorem keeps_makeChain (d : Disk) (chain : List String) : Keeps ∅ d (d.makeChain chain).1 := by
  induction chain with
  | nil => exact .refl _ d
  | cons path above ih =>
    rcases makeChain_cases d path above with h | h | ⟨-, h | h⟩
    · rw [h]
      exact .refl _ d
    · rw [h]
      exact ih
    · exact keeps_makeDir h
    · exact ih.trans (keeps_makeDir h)

/-- The disk with the directory above a path made where it is missing. -/
def withParent (d : Disk) (path : String) : Disk :=
  match Path.parent? path with
  | none => d
  | some dir => (d.makeDirs dir).1

theorem keeps_withParent (d : Disk) (path : String) : Keeps ∅ d (d.withParent path) := by
  unfold withParent
  split
  · exact .refl _ d
  · exact keeps_makeChain d _

theorem exists_put_of_writeBytes {content : ByteArray} (h : d.writeBytes path content = .ok d') :
    ∃ place, d.locate path.toList = .ok place ∧ d.kindAt? place ≠ some .dir ∧ d' = d.put place (.file content) := by
  unfold writeBytes at h
  dsimp only at h
  split at h
  · split at h
    · cases h
    · rename_i place hplace
      split at h
      · cases h
      · rename_i hfile
        cases h
        refine ⟨place, hplace, fun hdir => ?_, rfl⟩
        obtain ⟨es, hes⟩ := kindAt?_eq_dir_iff.1 hdir
        exact hfile es hes
  · split at h
    · split at h <;> cases h
    · cases h

/-! ## Writing a text -/

/-- Writing makes the directories above a path, and then either fails or puts the text. -/
theorem overwrite_cases (d : Disk) (path text : String) :
    (∃ e, d.overwrite path text = (d.withParent path, .error e)) ∨
      ∃ d', (d.withParent path).writeBytes path text.toUTF8 = .ok d' ∧
        d.overwrite path text = (d', .ok .written) := by
  unfold overwrite withParent
  cases Path.parent? path with
  | none =>
    dsimp only
    cases d.writeBytes path text.toUTF8 with
    | error cause => exact .inl ⟨_, rfl⟩
    | ok d' => exact .inr ⟨d', rfl, rfl⟩
  | some dir =>
    dsimp only
    cases (d.makeDirs dir).2 with
    | some fault => exact .inl ⟨_, rfl⟩
    | none =>
      dsimp only [Option.map_none]
      cases (d.makeDirs dir).1.writeBytes path text.toUTF8 with
      | error cause => exact .inl ⟨_, rfl⟩
      | ok d' => exact .inr ⟨d', rfl, rfl⟩

theorem fromUTF8?_toUTF8 (text : String) : String.fromUTF8? text.toUTF8 = some text := by
  unfold String.fromUTF8?
  rw [String.toUTF8_eq_toByteArray, dif_pos text.isValidUTF8]
  rfl

theorem eq_toUTF8_of_fromUTF8? {content : ByteArray} {text : String} (h : String.fromUTF8? content = some text) :
    content = text.toUTF8 := by
  unfold String.fromUTF8? at h
  split at h
  · cases h
    rfl
  · cases h

theorem holds_iff : d.holds path text = true ↔ d.readText path = .ok text := by
  unfold holds
  cases d.readText path <;> simp

theorem writeText_of_readText (h : d.readText path = .ok text) : d.writeText path text = (d, .ok .unchanged) := by
  unfold writeText
  rw [if_pos (holds_iff.2 h)]

/-- A text that is found is left alone. Any other is put where its path leads once the directories above are made. -/
theorem writeText_cases {outcome : Outcome} (h : d.writeText path text = (d', .ok outcome)) :
    (outcome = .unchanged ∧ d.readText path = .ok text ∧ d' = d) ∨
      (outcome = .written ∧ d.readText path ≠ .ok text ∧
        ∃ place, (d.withParent path).locate path.toList = .ok place ∧ (d.withParent path).kindAt? place ≠ some .dir ∧
          d' = (d.withParent path).put place (.file text.toUTF8)) := by
  unfold writeText at h
  split at h
  · rename_i hholds
    cases h
    exact .inl ⟨rfl, holds_iff.1 hholds, rfl⟩
  · rename_i hholds
    rcases overwrite_cases d path text with ⟨e, h'⟩ | ⟨made, hput, h'⟩
    · rw [h'] at h
      cases h
    · rw [h'] at h
      cases h
      exact .inr ⟨rfl, fun hread => hholds (holds_iff.2 hread), exists_put_of_writeBytes hput⟩

/-- Writing changes no file but the one at the place that the path denotes. -/
theorem keeps_writeText (d : Disk) (path text : String) : Keeps {d.denoted path} d (d.writeText path text).1 := by
  unfold writeText
  split
  · exact .refl _ d
  · have hmade : Keeps {d.denoted path} d (d.withParent path) := (keeps_withParent d path).mono (Set.empty_subset _)
    rcases overwrite_cases d path text with ⟨e, h⟩ | ⟨d', hput, h⟩
    · rw [h]
      exact hmade
    · rw [h]
      obtain ⟨place, hplace, hdir, rfl⟩ := exists_put_of_writeBytes hput
      refine hmade.trans (keeps_put hplace hdir rfl fun hout => absurd ?_ hout)
      rw [Set.mem_singleton_iff, eq_denoted_of_locate hplace, hmade.denoted_eq]

/-- A text that was written, or found, is there. -/
theorem readText_writeText {outcome : Outcome} (h : d.writeText path text = (d', .ok outcome)) :
    d'.readText path = .ok text := by
  rcases writeText_cases h with ⟨-, hread, rfl⟩ | ⟨-, -, place, hplace, hdir, rfl⟩
  · exact hread
  · obtain ⟨above, name, rfl, habove⟩ := exists_above_of_locate hplace hdir
    have hfile : ((d.withParent path).put (above ++ [name]) (.file text.toUTF8)).kindAt? (above ++ [name]) =
        some (.file text.toUTF8) := by
      rw [kindAt?_put habove hdir rfl, Function.update_self]
      rfl
    have hkeeps : Keeps Set.univ (d.withParent path)
        ((d.withParent path).put (above ++ [name]) (.file text.toUTF8)) :=
      keeps_put hplace hdir rfl (by simp)
    exact readText_eq_ok_iff.2 ⟨_, _, hkeeps.locate hplace, hfile, fromUTF8?_toUTF8 text⟩

end Disk
end AnnotatedSql
