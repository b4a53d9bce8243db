import AnnotatedSql.Collect
import Mathlib.Data.List.Forall2
import Mathlib.Data.List.Nodup
/-!
# Collected sources

The sources of a directory are what those of its files hold that are named for sources (`Collect.mem_of_sources`), and
they are collected unless one of these files is not text (`Collect.exists_sources_iff`). A directory has each name once,
and a stem is what stands in front of the one extension that sources have, so no two sources of a directory have the
same name (`Collect.nodup_names`).
-/

namespace AnnotatedSql

theorem exists_forall₂_iff {α β : Type} {R : α → β → Prop} {as : List α} :
    (∃ bs, List.Forall₂ R as bs) ↔ ∀ a ∈ as, ∃ b, R a b := by
  induction as with
  | nil => simp
  | cons a as ih =>
    rw [List.forall_mem_cons, ← ih]
    constructor
    · rintro ⟨bs, hbs⟩
      obtain ⟨b, rest, hb, hrest, -⟩ := List.forall₂_cons_left_iff.1 hbs
      exact ⟨⟨b, hb⟩, rest, hrest⟩
    · rintro ⟨⟨b, hb⟩, rest, hrest⟩
      exact ⟨b :: rest, .cons hb hrest⟩

namespace Disk

/-- A tree in which every directory has each name once. -/
inductive Tree.WellFormed : Tree → Prop
  | file (content : ByteArray) : WellFormed (.file content)
  | dir {es : Entries Tree} (names : es.names.Nodup) (below : ∀ e ∈ es, WellFormed e.2) : WellFormed (.dir es)

theorem Tree.WellFormed.at? {t u : Tree} {place : Place} (h : t.WellFormed) (hat : t.at? place = some u) :
    u.WellFormed := by
  induction place generalizing t with
  | nil =>
    rw [at?_nil, Option.some.injEq] at hat
    rwa [← hat]
  | cons name below ih =>
    rw [at?_cons, Option.bind_eq_some_iff] at hat
    obtain ⟨t', hget, hat⟩ := hat
    cases h with
    | file content => simp [entries] at hget
    | dir _ hbelow => exact ih (hbelow _ (Entries.mem_of_get? hget)) hat

theorem wellFormed_of_find {d : Disk} (h : d.root.WellFormed) {path : String} {t : Tree} (hfind : d.find path = .ok t) :
    t.WellFormed := by
  unfold find at hfind
  split at hfind
  · cases hfind
  · split at hfind
    · cases hfind
    · rename_i hat
      cases hfind
      exact h.at? hat

end Disk

namespace Path

/-- A name is its stem, a dot and its extension. -/
theorem eq_of_splitName? {name stem extension : List Char} (h : splitName? name = some (stem, extension)) :
    name = stem ++ '.' :: extension := by
  unfold splitName? at h
  split at h
  · cases h
  · rename_i hne
    rw [Option.some.injEq, Prod.mk.injEq] at h
    obtain ⟨rfl, rfl⟩ := h
    cases hdrop : name.reverse.dropWhile (· ≠ '.') with
    | nil => exact absurd (by rw [hdrop]; rfl) hne
    | cons c rest =>
      have hdot : c = '.' := by
        have hhead := List.head?_dropWhile_not (fun c => decide (c ≠ '.')) name.reverse
        rw [hdrop] at hhead
        simpa using hhead
      calc name
        _ = (name.reverse.takeWhile (· ≠ '.') ++ c :: rest).reverse := by
          rw [← hdrop, List.takeWhile_append_dropWhile, List.reverse_reverse]
        _ = rest.reverse ++ '.' :: (name.reverse.takeWhile (· ≠ '.')).reverse := by
          rw [hdot, List.reverse_append, List.reverse_cons, List.append_assoc]
          rfl

theorem eq_of_stem? {extension name stem : String} (h : stem? extension name = some stem) :
    name = stem ++ "." ++ extension := by
  unfold stem? at h
  split at h
  · rename_i front ext hsplit
    split at h
    · rename_i hext
      cases h
      rw [← String.toList_inj, eq_of_splitName? hsplit, hext]
      simp
    · cases h
  · cases h

end Path

namespace Collect

variable {d : Disk} {dir : String} {files : List (String × String × ByteArray)} {inputs : List SourceText}
  {es : Entries Disk.Tree}

/-! ## Files that are sources -/

/-- A file directly in a directory whose name is a stem and the extension of sources. -/
structure Offers (d : Disk) (dir stem file : String) (content : ByteArray) : Prop where
  inside : ∃ entries, d.find dir = .ok (.dir entries) ∧ (file, .file content) ∈ entries
  stem : Path.stem? extension file = some stem

/-- What a file holds as a source, if it is text. -/
def source? (stem file : String) (content : ByteArray) : Option SourceText :=
  (String.fromUTF8? content).map fun text => ⟨stem, file, text⟩

theorem mem_sourceFiles {stem file : String} {content : ByteArray} :
    (stem, file, content) ∈ sourceFiles es ↔
      (file, .file content) ∈ es ∧ Path.stem? extension file = some stem := by
  have hperm := List.mergeSort_perm es fun a b => Text.precedes a.1.toList b.1.toList
  unfold sourceFiles
  rw [List.mem_filterMap]
  constructor
  · rintro ⟨⟨name, t⟩, hmem, heq⟩
    dsimp only at heq
    split at heq
    · rename_i hstem
      cases heq
      exact ⟨hperm.mem_iff.1 hmem, hstem⟩
    · cases heq
  · rintro ⟨hmem, hstem⟩
    exact ⟨(file, .file content), hperm.mem_iff.2 hmem, by simp [hstem]⟩

theorem readAll_eq_ok_iff :
    readAll dir files = .ok inputs ↔ List.Forall₂ (fun f i => source? f.1 f.2.1 f.2.2 = some i) files inputs := by
  induction files generalizing inputs with
  | nil => simp [readAll, eq_comm]
  | cons f files ih =>
    obtain ⟨stem, file, content⟩ := f
    rw [readAll, List.forall₂_cons_left_iff]
    simp only [← ih]
    unfold source?
    cases String.fromUTF8? content with
    | none => simp
    | some text => cases readAll dir files <;> simp [Except.map, eq_comm]

theorem mem_of_readAll (h : readAll dir files = .ok inputs) {i : SourceText} :
    i ∈ inputs ↔ ∃ stem file content, (stem, file, content) ∈ files ∧ source? stem file content = some i := by
  rw [readAll_eq_ok_iff] at h
  have hmap : files.map (fun f => source? f.1 f.2.1 f.2.2) = inputs.map some := by
    rwa [← List.forall₂_eq_eq_eq, List.forall₂_map_left_iff, List.forall₂_map_right_iff]
  calc i ∈ inputs
    _ ↔ some i ∈ inputs.map some := by simp
    _ ↔ _ := by simp only [← hmap, List.mem_map, Prod.exists]

theorem exists_files (d : Disk) (dir : String) :
    ∃ files, sources d dir = readAll dir files ∧
      ∀ stem file content, (stem, file, content) ∈ files ↔ Offers d dir stem file content := by
  unfold sources
  split
  · rename_i entries hfind
    refine ⟨sourceFiles entries, rfl, fun stem file content => mem_sourceFiles.trans ?_⟩
    constructor
    · rintro ⟨hmem, hstem⟩
      exact ⟨⟨entries, hfind, hmem⟩, hstem⟩
    · rintro ⟨⟨es, hes, hmem⟩, hstem⟩
      rw [hfind] at hes
      cases hes
      exact ⟨hmem, hstem⟩
  · rename_i hfind
    refine ⟨[], rfl, fun stem file content => ⟨fun h => absurd h (by simp), ?_⟩⟩
    rintro ⟨⟨entries, hes, -⟩, -⟩
    exact absurd hes (hfind entries)

/-- Sources are collected unless one of the files is not text. -/
theorem exists_sources_iff :
    (∃ inputs, sources d dir = .ok inputs) ↔
      ∀ stem file content, Offers d dir stem file content → ∃ i, source? stem file content = some i := by
  obtain ⟨files, hfiles, hmem⟩ := exists_files d dir
  rw [hfiles]
  simp only [readAll_eq_ok_iff, exists_forall₂_iff, Prod.forall, hmem]

/-- The sources of a directory are what its files hold. -/
theorem mem_of_sources (h : sources d dir = .ok inputs) {i : SourceText} :
    i ∈ inputs ↔ ∃ stem file content, Offers d dir stem file content ∧ source? stem file content = some i := by
  obtain ⟨files, hfiles, hmem⟩ := exists_files d dir
  rw [hfiles] at h
  simp only [mem_of_readAll h, hmem]

/-! ## Names -/

theorem names_readAll (h : readAll dir files = .ok inputs) : inputs.map (·.name) = files.map Prod.fst := by
  have hnames : List.Forall₂ (fun f i => f.1 = i.name) files inputs := by
    refine (readAll_eq_ok_iff.1 h).imp fun f i hi => ?_
    obtain ⟨text, -, rfl⟩ := Option.map_eq_some_iff.1 hi
    rfl
  rwa [eq_comm, ← List.forall₂_eq_eq_eq, List.forall₂_map_left_iff, List.forall₂_map_right_iff]

/-- Different files have different stems, because sources have one extension. -/
theorem nodup_stems (h : es.names.Nodup) : ((sourceFiles es).map Prod.fst).Nodup := by
  have hordered : (Disk.Tree.inOrder es).Pairwise fun a b => a.1 ≠ b.1 := by
    have hperm := List.mergeSort_perm es fun a b => Text.precedes a.1.toList b.1.toList
    exact List.pairwise_map.1 ((hperm.map Prod.fst).nodup_iff.2 h)
  refine List.pairwise_map.2 (hordered.filterMap _ fun a b hne x hx y hy hxy => hne ?_)
  dsimp only at hx hy
  split at hx
  · rename_i hfirst
    cases hx
    split at hy
    · rename_i hsecond
      cases hy
      dsimp only at hxy
      rw [Path.eq_of_stem? hfirst, Path.eq_of_stem? hsecond, hxy]
    · cases hy
  · cases hx

/-- The sources of a directory have different names. -/
theorem nodup_names (hd : d.root.WellFormed) (h : sources d dir = .ok inputs) :
    (inputs.map (·.name)).Nodup := by
  unfold sources at h
  split at h
  · rename_i entries hfind
    rw [names_readAll h]
    cases Disk.wellFormed_of_find hd hfind with
    | dir names below => exact nodup_stems names
  · cases h
    exact List.nodup_nil

end Collect
end AnnotatedSql
