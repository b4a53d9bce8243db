import AnnotatedSql.Proofs.ByteOrder
import AnnotatedSql.Proofs.Collection
import AnnotatedSql.Proofs.Text
import AnnotatedSql.Proofs.Writing
/-!
# Sources in the order of their names

A directory lists its entries in some order. The sources that are collected do not depend on it: they are all files
directly in the directory that are named for sources, in the strict order of the bytes of their names, or else the first
of these files in that order that is not text is reported (`Collect.sources_listed`).
-/

namespace AnnotatedSql

theorem Disk.fromUTF8?_eq_some_iff {content : ByteArray} {text : String} :
    String.fromUTF8? content = some text ↔ text.toUTF8 = content :=
  ⟨fun h => (eq_toUTF8_of_fromUTF8? h).symm, fun h => h ▸ fromUTF8?_toUTF8 text⟩

namespace Path

/-- A name is cut at its last dot, if anything stands in front of that. -/
theorem splitName?_append {stem extension : List Char} (hstem : stem ≠ []) (hdot : '.' ∉ extension) :
    splitName? (stem ++ '.' :: extension) = some (stem, extension) := by
  have hreverse : (stem ++ '.' :: extension).reverse = extension.reverse ++ '.' :: stem.reverse := by simp
  have hfront : ∀ c ∈ extension.reverse, decide (c ≠ '.') = true := by
    intro c hc
    rw [decide_eq_true_iff]
    rintro rfl
    exact hdot (List.mem_reverse.1 hc)
  have hstop : ∀ c, ('.' :: stem.reverse).head? = some c → decide (c ≠ '.') = false := by
    rintro c hc
    cases hc
    decide
  unfold splitName?
  rw [hreverse, Text.dropWhile_append_stop hfront hstop, Text.takeWhile_append_stop hfront hstop, List.tail_cons,
    List.reverse_reverse, List.reverse_reverse]
  cases stem with
  | nil => exact absurd rfl hstem
  | cons c cs => rfl

theorem ne_nil_of_splitName? {name stem extension : List Char} (h : splitName? name = some (stem, extension)) :
    stem ≠ [] := by
  unfold splitName? at h
  split at h
  · cases h
  · rename_i hne
    cases h
    exact hne

/-- A file name has a stem in front of an extension when it is put together from the two. -/
theorem stem?_eq_some_iff {extension name stem : String} (hdot : '.' ∉ extension.toList) :
    stem? extension name = some stem ↔ stem ≠ "" ∧ name = stem ++ "." ++ extension := by
  constructor
  · intro h
    refine ⟨?_, eq_of_stem? h⟩
    unfold stem? at h
    split at h
    · rename_i front ext hsplit
      split at h
      · cases h
        rintro hempty
        exact ne_nil_of_splitName? hsplit (by simpa using congrArg String.toList hempty)
      · cases h
    · cases h
  · rintro ⟨hne, rfl⟩
    have hstem : stem.toList ≠ [] := fun hnil => hne (String.toList_inj.1 hnil)
    have hname : (stem ++ "." ++ extension).toList = stem.toList ++ '.' :: extension.toList := by simp
    unfold stem?
    rw [hname, splitName?_append hstem hdot]
    simp

end Path

namespace Collect

variable {d : Disk} {dir : String} {files : List (String × String × ByteArray)} {inputs : List SourceText}
  {es listing : Entries Disk.Tree} {error : SourceError}

/-- Bytes that are the UTF-8 form of a text. -/
def IsText (content : ByteArray) : Prop :=
  ∃ text : String, text.toUTF8 = content

theorem isText_iff {content : ByteArray} : IsText content ↔ ∃ text, String.fromUTF8? content = some text := by
  simp only [IsText, Disk.fromUTF8?_eq_some_iff]

/-- A file in a listing that is named for a source: its name is a stem, which is not empty, and `.sql`. -/
structure IsSource (listing : Entries Disk.Tree) (stem file : String) (content : ByteArray) : Prop where
  inside : (file, .file content) ∈ listing
  stem_ne : stem ≠ ""
  file_eq : file = stem ++ ".sql"

theorem mem_sourceFiles_iff_isSource {stem file : String} {content : ByteArray} :
    (stem, file, content) ∈ sourceFiles listing ↔ IsSource listing stem file content := by
  have hsuffix : stem ++ "." ++ extension = stem ++ ".sql" := String.append_assoc
  rw [mem_sourceFiles, Path.stem?_eq_some_iff (by decide), hsuffix]
  exact ⟨fun ⟨inside, stem_ne, file_eq⟩ => ⟨inside, stem_ne, file_eq⟩, fun h => ⟨h.inside, h.stem_ne, h.file_eq⟩⟩

/-! ## Reading in turn -/

theorem files_readAll (h : readAll dir files = .ok inputs) : inputs.map (·.file) = files.map (·.2.1) := by
  have hfiles : List.Forall₂ (fun f i => f.2.1 = i.file) files inputs := by
    refine (readAll_eq_ok_iff.1 h).imp fun f i hi => ?_
    obtain ⟨text, -, rfl⟩ := Option.map_eq_some_iff.1 hi
    rfl
  rwa [eq_comm, ← List.forall₂_eq_eq_eq, List.forall₂_map_left_iff, List.forall₂_map_right_iff]

/-- The first file that is not text is reported. -/
theorem exists_of_readAll_error (h : readAll dir files = .error error) :
    ∃ before stem file content after, files = before ++ (stem, file, content) :: after ∧
      (∀ f ∈ before, IsText f.2.2) ∧ ¬ IsText content ∧ error = .unreadable (Path.join dir file) .notText := by
  induction files with
  | nil => cases h
  | cons f files ih =>
    obtain ⟨stem, file, content⟩ := f
    rw [readAll] at h
    split at h
    · rename_i hnone
      cases h
      refine ⟨[], stem, file, content, files, rfl, by simp, ?_, rfl⟩
      rw [isText_iff, hnone]
      simp
    · rename_i text htext
      have hrest : readAll dir files = .error error := by
        cases hread : readAll dir files with
        | error e => rw [hread] at h; cases h; rfl
        | ok inputs => rw [hread] at h; cases h
      obtain ⟨before, stem', file', content', after, rfl, hbefore, hnot, herror⟩ := ih hrest
      refine ⟨(stem, file, content) :: before, stem', file', content', after, rfl, ?_, hnot, herror⟩
      exact List.forall_mem_cons.2 ⟨isText_iff.2 ⟨text, htext⟩, hbefore⟩

/-! ## Listings -/

/-- What collecting the sources of a directory with a given listing comes to. -/
inductive Collected (dir : String) (listing : Entries Disk.Tree) : Except SourceError (List SourceText) → Prop
  | read {inputs : List SourceText}
      (complete : ∀ i, i ∈ inputs ↔ IsSource listing i.name i.file i.content.toUTF8)
      (texts : ∀ stem file content, IsSource listing stem file content → IsText content)
      (sorted : inputs.Pairwise fun a b => Text.bytes a.file < Text.bytes b.file)
      (names : (inputs.map (·.name)).Nodup) (files : (inputs.map (·.file)).Nodup) : Collected dir listing (.ok inputs)
  /-- Of the sources that are not text, the one whose name has the least bytes is reported. -/
  | unreadable {stem file : String} {content : ByteArray} (source : IsSource listing stem file content)
      (notText : ¬ IsText content)
      (first : ∀ stem' file' content', IsSource listing stem' file' content' → ¬ IsText content' →
        file' = file ∨ Text.bytes file < Text.bytes file') :
      Collected dir listing (.error (.unreadable (Path.join dir file) .notText))

theorem pairwise_sourceFiles (h : listing.names.Nodup) :
    (sourceFiles listing).Pairwise fun f g => Text.bytes f.2.1 < Text.bytes g.2.1 := by
  unfold sourceFiles Disk.Tree.inOrder
  refine (Text.pairwise_mergeSort_bytes_lt Prod.fst h).filterMap _ fun a b hlt x hx y hy => ?_
  dsimp only at hx hy
  split at hx
  · cases hx
    split at hy
    · cases hy
      exact hlt
    · cases hy
  · cases hx

/-- The sources of a listing do not depend on its order. -/
theorem sourceFiles_eq_of_perm (h : es.Perm listing) (hnames : listing.names.Nodup) : sourceFiles es = sourceFiles listing := by
  unfold sourceFiles Disk.Tree.inOrder
  rw [Text.mergeSort_eq_of_perm Prod.fst h ((h.map Prod.fst).nodup_iff.2 hnames)]

/-- The sources of a listing that are read are all of its sources, each with the text that the file holds. -/
theorem mem_iff_isSource (h : readAll dir (sourceFiles listing) = .ok inputs) (i : SourceText) :
    i ∈ inputs ↔ IsSource listing i.name i.file i.content.toUTF8 := by
  rw [mem_of_readAll h]
  constructor
  · rintro ⟨stem, file, content, hmem, hi⟩
    obtain ⟨text, htext, rfl⟩ := Option.map_eq_some_iff.1 hi
    rw [Disk.fromUTF8?_eq_some_iff] at htext
    dsimp only
    rw [htext]
    exact mem_sourceFiles_iff_isSource.1 hmem
  · intro hsource
    refine ⟨_, _, _, mem_sourceFiles_iff_isSource.2 hsource, ?_⟩
    exact Option.map_eq_some_iff.2 ⟨i.content, Disk.fromUTF8?_toUTF8 _, rfl⟩

theorem isText_of_readAll (h : readAll dir files = .ok inputs) {f : String × String × ByteArray} (hf : f ∈ files) :
    IsText f.2.2 := by
  obtain ⟨i, hi⟩ := exists_forall₂_iff.1 ⟨inputs, readAll_eq_ok_iff.1 h⟩ f hf
  obtain ⟨text, htext, -⟩ := Option.map_eq_some_iff.1 hi
  exact isText_iff.2 ⟨text, htext⟩

/-- A source with a name of fewer bytes is collected in front. -/
theorem sorted_of_readAll (hnames : listing.names.Nodup) (h : readAll dir (sourceFiles listing) = .ok inputs) :
    inputs.Pairwise fun a b => Text.bytes a.file < Text.bytes b.file := by
  have hfiles : (inputs.map (·.file)).Pairwise fun a b => Text.bytes a < Text.bytes b := by
    rw [files_readAll h, List.pairwise_map]
    exact pairwise_sourceFiles hnames
  rwa [List.pairwise_map] at hfiles

/-- What stands behind a file that is not text has a name of more bytes, and what stands in front of it is text. -/
theorem collected_of_readAll_error (hnames : listing.names.Nodup) (h : readAll dir (sourceFiles listing) = .error error) :
    Collected dir listing (.error error) := by
  obtain ⟨before, stem, file, content, after, hfiles, hbefore, hnot, rfl⟩ := exists_of_readAll_error h
  have hsorted := pairwise_sourceFiles hnames
  rw [hfiles, List.pairwise_append, List.pairwise_cons] at hsorted
  have hmem : (stem, file, content) ∈ sourceFiles listing := by simp [hfiles]
  refine .unreadable (mem_sourceFiles_iff_isSource.1 hmem) hnot ?_
  intro stem' file' content' hsource hnot'
  have hmem' := mem_sourceFiles_iff_isSource.2 hsource
  rw [hfiles, List.mem_append, List.mem_cons] at hmem'
  rcases hmem' with hfront | heq | hbehind
  · exact absurd (hbefore _ hfront) hnot'
  · cases heq
    exact .inl rfl
  · exact .inr (hsorted.2.1.1 _ hbehind)

theorem collected_readAll (hnames : listing.names.Nodup) : Collected dir listing (readAll dir (sourceFiles listing)) := by
  cases h : readAll dir (sourceFiles listing) with
  | error error => exact collected_of_readAll_error hnames h
  | ok inputs =>
    have hsorted := sorted_of_readAll hnames h
    refine .read (mem_iff_isSource h) ?_ hsorted ?_ ?_
    · intro stem file content hsource
      exact isText_of_readAll h (mem_sourceFiles_iff_isSource.2 hsource)
    · rw [names_readAll h]
      exact nodup_stems hnames
    · exact Text.nodup_map_of_pairwise_bytes_lt _ hsorted

/-- A directory gives its sources in one order, or the first of them that is not text, in whatever order it lists its
entries. A path that leads to no directory gives none. -/
theorem sources_listed (hd : d.root.WellFormed) (dir : String) :
    (∃ listing, d.find dir = .ok (.dir listing) ∧ Collected dir listing (sources d dir) ∧
        ∀ (d' : Disk) (listing' : Entries Disk.Tree), d'.find dir = .ok (.dir listing') → listing'.Perm listing →
          sources d' dir = sources d dir) ∨
      (∀ listing, d.find dir ≠ .ok (.dir listing)) ∧ sources d dir = .ok [] := by
  by_cases hdir : ∃ listing, d.find dir = .ok (.dir listing)
  · obtain ⟨listing, hfind⟩ := hdir
    have hnames : Entries.names listing |>.Nodup := by
      cases Disk.wellFormed_of_find hd hfind with
      | dir names below => exact names
    have hsources : ∀ (d' : Disk) (listing' : Entries Disk.Tree), d'.find dir = .ok (.dir listing') →
        sources d' dir = readAll dir (sourceFiles listing') := by
      intro d' listing' hfind'
      unfold sources
      rw [hfind']
    refine .inl ⟨listing, hfind, ?_, ?_⟩
    · rw [hsources d listing hfind]
      exact collected_readAll hnames
    · intro d' listing' hfind' hperm
      rw [hsources d listing hfind, hsources d' listing' hfind', sourceFiles_eq_of_perm hperm hnames]
  · refine .inr ⟨fun listing hfind => hdir ⟨listing, hfind⟩, ?_⟩
    unfold sources
    split
    · rename_i listing hfind
      exact absurd ⟨listing, hfind⟩ hdir
    · rfl

/-- Here the entries are listed from either end. A directory, a name that starts with its only dot and another case of
the extension give no sources. -/
theorem sources_listed_reversed :
    let listing : Entries Disk.Tree := [(".sql", .file "?".toUTF8), ("Z.a.sql", .file "select 1".toUTF8),
      ("a.SQL", .file "?".toUTF8), ("b.sql", .file "select 2".toUTF8), ("c.sql", .dir [])]
    let d : Disk := ⟨.dir [("sources", .dir listing)], []⟩
    let d' : Disk := ⟨.dir [("sources", .dir listing.reverse)], []⟩
    d.root.WellFormed ∧ Collected "sources" listing (sources d "sources") ∧
      sources d "sources" = .ok [⟨"Z.a", "Z.a.sql", "select 1"⟩, ⟨"b", "b.sql", "select 2"⟩] ∧
      sources d' "sources" = sources d "sources" := by
  intro listing d d'
  have hwell : d.root.WellFormed := by
    refine .dir (by decide) (List.forall_mem_singleton.2 (.dir (by decide) ?_))
    simp only [listing, List.forall_mem_cons, List.not_mem_nil, false_imp_iff, implies_true, and_true]
    exact ⟨.file _, .file _, .file _, .file _, .dir (by decide) (by simp)⟩
  have hfind : d.find "sources" = .ok (.dir listing) := by rfl
  have hsources : sources d "sources" = .ok [⟨"Z.a", "Z.a.sql", "select 1"⟩, ⟨"b", "b.sql", "select 2"⟩] := by
    have horder : Disk.Tree.inOrder listing = listing := List.mergeSort_of_pairwise (by decide +kernel)
    rw [sources, hfind]
    dsimp only
    rw [sourceFiles, horder]
    decide +kernel
  rcases sources_listed hwell "sources" with ⟨listing', hfind', hcollected, hindependent⟩ | ⟨hnone, -⟩
  · cases hfind.symm.trans hfind'
    exact ⟨hwell, hcollected, hsources, hindependent d' _ (by rfl) (List.reverse_perm listing)⟩
  · exact absurd hfind (hnone listing)

end Collect
end AnnotatedSql
