import BlockShading.Proofs.Theme.Catalog
import BlockShading.Proofs.Theme.FileTitles
import Mathlib.Data.List.Nodup

/-!
# What a listing holds

A listing keeps of the files in their order the first of each stem, and then the built-in themes
under whose name there is no file. Main statement: its names are the stems of the files and the
names of the built-in themes, each once; the files come first and in order, each the first of its
stem; and a built-in theme is listed as the user's exactly if a file has its name as a stem.
-/

namespace BlockShading

namespace FileTree

/-- The names of the entries of a directory; none if it cannot be read. -/
def namesIn (tree : FileTree) (directory : Path) : List String :=
  match tree.readDir directory with
  | .ok entries => entries.map Entry.name
  | .error _ => []

end FileTree

namespace Theme

variable {tree : FileTree} {directory : Path} {id name : String} {seen : List String}
  {all rest : List ThemeEntry} {entry : ThemeEntry}

/-- Names that have been seen are left out, and all other names are kept. -/
theorem mem_ids_firstOfEach_iff :
    id ∈ (firstOfEach seen all).map ThemeEntry.id ↔
      id ∉ seen ∧ id ∈ all.map ThemeEntry.id := by
  induction all generalizing seen with
  | nil => simp [firstOfEach]
  | cons first rest ih =>
    unfold firstOfEach
    split
    · next hseen =>
      rw [ih, List.map_cons, List.mem_cons]
      have hmem : first.id ∈ seen := List.contains_iff_mem.mp hseen
      constructor
      · exact fun h => ⟨h.1, Or.inr h.2⟩
      · rintro ⟨hnew, rfl | hrest⟩
        · exact absurd hmem hnew
        · exact ⟨hnew, hrest⟩
    · next hseen =>
      have hnew : first.id ∉ seen := fun h => hseen (List.contains_iff_mem.mpr h)
      rw [List.map_cons, List.map_cons, List.mem_cons, List.mem_cons, ih, List.mem_cons, not_or]
      constructor
      · rintro (rfl | h)
        · exact ⟨hnew, Or.inl rfl⟩
        · exact ⟨h.1.2, Or.inr h.2⟩
      · rintro ⟨hid, rfl | hrest⟩
        · exact Or.inl rfl
        · by_cases hsame : id = first.id
          · exact Or.inl hsame
          · exact Or.inr ⟨⟨hsame, hid⟩, hrest⟩

theorem nodup_ids_firstOfEach (seen : List String) (all : List ThemeEntry) :
    ((firstOfEach seen all).map ThemeEntry.id).Nodup := by
  induction all generalizing seen with
  | nil => exact List.nodup_nil
  | cons first rest ih =>
    unfold firstOfEach
    split
    · exact ih seen
    · rw [List.map_cons, List.nodup_cons]
      refine ⟨fun hmem => ?_, ih (first.id :: seen)⟩
      exact (mem_ids_firstOfEach_iff.mp hmem).1 List.mem_cons_self

/-- Of entries with different names those are kept whose names have not been seen. -/
theorem firstOfEach_of_nodup (h : (rest.map ThemeEntry.id).Nodup) :
    firstOfEach seen rest = rest.filter fun entry => entry.id ∉ seen := by
  induction rest generalizing seen with
  | nil => rfl
  | cons first rest ih =>
    obtain ⟨hfirst, hrest⟩ := List.nodup_cons.mp h
    unfold firstOfEach
    split
    · next hseen =>
      have hmem : first.id ∈ seen := List.contains_iff_mem.mp hseen
      rw [ih hrest, List.filter_cons_of_neg (by simpa using hmem)]
    · next hseen =>
      have hnew : first.id ∉ seen := fun hmem => hseen (List.contains_iff_mem.mpr hmem)
      rw [ih hrest, List.filter_cons_of_pos (by simpa using hnew)]
      congr 1
      apply List.filter_congr
      intro other hother
      have hne : other.id ≠ first.id := fun heq => hfirst (heq ▸ List.mem_map_of_mem hother)
      simp [hne]

/-- Entries with different names that come last are kept if none before has their name. -/
theorem firstOfEach_append_of_nodup (h : (rest.map ThemeEntry.id).Nodup) :
    firstOfEach seen (all ++ rest) = firstOfEach seen all ++
      rest.filter fun entry => entry.id ∉ seen ∧ entry.id ∉ all.map ThemeEntry.id := by
  induction all generalizing seen with
  | nil => simpa [firstOfEach] using firstOfEach_of_nodup h
  | cons first all ih =>
    rw [List.cons_append]
    unfold firstOfEach
    split
    · next hseen =>
      have hmem : first.id ∈ seen := List.contains_iff_mem.mp hseen
      rw [ih]
      congr 1
      apply List.filter_congr
      intro other _
      have hne : other.id ∉ seen → other.id ≠ first.id := fun hnew heq => hnew (heq ▸ hmem)
      grind
    · rw [ih, List.cons_append]
      congr 2
      apply List.filter_congr
      intro other _
      grind

/-- Whether a file would be listed as the theme of a name. -/
def IsFileOf (id name : String) : Prop := id ≠ "" ∧ (name = id ++ ".yaml" ∨ name = id ++ ".yml")

theorem isFileOf_iff : IsFileOf id name ↔ isListed name = true ∧ stemOf name = id := by
  constructor
  · rintro ⟨hid, hname | hname⟩
    · exact isListed_of_eq_append hid (Or.inl rfl) hname
    · exact isListed_of_eq_append hid (Or.inr rfl) hname
  · rintro ⟨hlisted, rfl⟩
    exact isListed_cases hlisted

theorem mem_listedFiles : name ∈ listedFiles tree directory ↔
    name ∈ tree.namesIn directory ∧ isListed name = true := by
  unfold listedFiles FileTree.namesIn
  split <;> simp_all

theorem exists_mem_listedFiles_iff :
    (∃ name ∈ listedFiles tree directory, stemOf name = id) ↔
      ∃ name ∈ tree.namesIn directory, IsFileOf id name := by
  simp only [mem_listedFiles, isFileOf_iff, and_assoc]

/-- Whether no file before a file has its stem. -/
def FirstOfStem (names : List String) (file : String) : Prop :=
  ∃ before after, names = before ++ file :: after ∧ ∀ earlier ∈ before, stemOf earlier ≠ stemOf file

theorem FirstOfStem.cons {names : List String} {file first : String} (h : FirstOfStem names file)
    (hfirst : stemOf first ≠ stemOf file) : FirstOfStem (first :: names) file := by
  obtain ⟨before, after, rfl, hbefore⟩ := h
  exact ⟨first :: before, after, rfl, List.forall_mem_cons.mpr ⟨hfirst, hbefore⟩⟩

theorem map_id_userEntry (tree : FileTree) (directory : Path) (files : List String) :
    (files.map (userEntry tree directory)).map ThemeEntry.id = files.map stemOf := by
  rw [List.map_map]
  rfl

theorem stem_not_mem_seen {files : List String} {file : String}
    (h : firstOfEach seen all = files.map (userEntry tree directory)) (hfile : file ∈ files) :
    stemOf file ∉ seen := by
  have hkept : stemOf file ∈ (firstOfEach seen all).map ThemeEntry.id := by
    rw [h, map_id_userEntry]
    exact List.mem_map_of_mem hfile
  exact (mem_ids_firstOfEach_iff.mp hkept).1

/-- Of files in a row those are kept that are the first of their stem. -/
theorem exists_kept_files (tree : FileTree) (directory : Path) (seen names : List String) :
    ∃ files : List String,
      firstOfEach seen (names.map (userEntry tree directory)) =
        files.map (userEntry tree directory) ∧
      files.Sublist names ∧ ∀ file ∈ files, FirstOfStem names file := by
  induction names generalizing seen with
  | nil => exact ⟨[], rfl, List.Sublist.refl _, by simp⟩
  | cons first names ih =>
    rw [List.map_cons]
    unfold firstOfEach
    split
    · next hseen =>
      obtain ⟨files, heq, hsub, hfirst⟩ := ih seen
      refine ⟨files, heq, hsub.cons first, fun file hfile => (hfirst file hfile).cons ?_⟩
      intro hsame
      exact stem_not_mem_seen heq hfile (hsame ▸ List.contains_iff_mem.mp hseen)
    · obtain ⟨files, heq, hsub, hfirst⟩ := ih (stemOf first :: seen)
      refine ⟨first :: files, ?_, hsub.cons_cons first, List.forall_mem_cons.mpr ⟨?_, ?_⟩⟩
      · rw [List.map_cons, ← heq]
        rfl
      · exact ⟨[], names, rfl, by simp⟩
      · intro file hfile
        refine (hfirst file hfile).cons fun hsame => ?_
        exact stem_not_mem_seen heq hfile (hsame ▸ List.mem_cons_self)

/-- In order the first file of a stem is the least one. -/
theorem FirstOfStem.least {names : List String} {file : String} (h : FirstOfStem names file)
    (hsorted : names.Pairwise fun x y => Text.precedes x.toList y.toList = true)
    (hname : name ∈ names) (hstem : stemOf name = stemOf file) :
    name = file ∨ Text.bytes file.toList < Text.bytes name.toList := by
  obtain ⟨before, after, rfl, hbefore⟩ := h
  rcases List.mem_append.mp hname with hearlier | hlater
  · exact absurd hstem (hbefore name hearlier)
  · rcases List.mem_cons.mp hlater with rfl | hlater
    · exact Or.inl rfl
    · have hle := (List.pairwise_cons.mp (List.pairwise_append.mp hsorted).2.1).1 name hlater
      by_cases hsame : name = file
      · exact Or.inl hsame
      · refine Or.inr (Text.bytes_lt_of_precedes hle ?_)
        exact fun heq => hsame (String.toList_inj.mp heq).symm

def builtinEntry (shown : String × Theme) : ThemeEntry := ⟨shown.1, shown.2.name, .builtin⟩

theorem nodup_ids_builtins : ((builtins.map builtinEntry).map ThemeEntry.id).Nodup := by
  decide

/-- Files are those that a listing shows: the first of their stems, and behind them come the
built-in themes whose names are none of the stems. -/
structure Shows (tree : FileTree) (directory : Path) (files : List String) : Prop where
  list_eq : list tree directory = files.map (userEntry tree directory) ++
    (builtins.filter fun shown => shown.1 ∉ files.map stemOf).map builtinEntry
  stems : ∀ id, id ∈ files.map stemOf ↔ ∃ name ∈ tree.namesIn directory, IsFileOf id name
  sublist : files.Sublist (listedFiles tree directory)
  first : ∀ file ∈ files, FirstOfStem (listedFiles tree directory) file

theorem exists_shows (tree : FileTree) (directory : Path) :
    ∃ files, Shows tree directory files := by
  obtain ⟨files, heq, hsub, hfirst⟩ :=
    exists_kept_files tree directory [] (listedFiles tree directory)
  have hstems : ∀ id, id ∈ files.map stemOf ↔ id ∈ (listedFiles tree directory).map stemOf := by
    intro id
    rw [← map_id_userEntry tree directory, ← map_id_userEntry tree directory, ← heq,
      mem_ids_firstOfEach_iff]
    simp
  refine ⟨files, ?_, fun id => ?_, hsub, hfirst⟩
  · have hlist : list tree directory = firstOfEach []
        ((listedFiles tree directory).map (userEntry tree directory) ++
          builtins.map builtinEntry) := rfl
    rw [hlist, firstOfEach_append_of_nodup nodup_ids_builtins, heq, List.filter_map]
    congr 2
    apply List.filter_congr
    intro shown _
    simp only [map_id_userEntry, Function.comp_apply, builtinEntry, ← hstems]
    simp
  · rw [hstems, List.mem_map, exists_mem_listedFiles_iff]

theorem nodup_ids_list (tree : FileTree) (directory : Path) :
    ((list tree directory).map ThemeEntry.id).Nodup :=
  nodup_ids_firstOfEach [] _

namespace Shows

variable {files : List String} {file : String}

theorem ids_eq (h : Shows tree directory files) :
    (list tree directory).map ThemeEntry.id = files.map stemOf ++
      (builtins.filter fun shown => shown.1 ∉ files.map stemOf).map Prod.fst := by
  rw [h.list_eq, List.map_append, map_id_userEntry, List.map_map]
  rfl

theorem increasing (h : Shows tree directory files) :
    files.Pairwise fun x y => Text.bytes x.toList < Text.bytes y.toList := by
  have hnodup := nodup_ids_list tree directory
  rw [h.ids_eq] at hnodup
  have hstems := List.pairwise_map.mp (List.nodup_append.mp hnodup).1
  have hsorted := (listedFiles_sorted tree directory).sublist h.sublist
  refine (hsorted.and hstems).imp fun {x y} hxy => Text.bytes_lt_of_precedes hxy.1 ?_
  exact fun heq => hxy.2 (congrArg stemOf (String.toList_inj.mp heq))

theorem least (h : Shows tree directory files) (hfile : file ∈ files)
    (hname : name ∈ tree.namesIn directory) (hof : IsFileOf (stemOf file) name) :
    name = file ∨ Text.bytes file.toList < Text.bytes name.toList := by
  obtain ⟨hlisted, hstem⟩ := isFileOf_iff.mp hof
  exact (h.first file hfile).least (listedFiles_sorted tree directory)
    (mem_listedFiles.mpr ⟨hname, hlisted⟩) hstem

/-- Of the two files with a stem the one with the longer extension is shown. -/
theorem yaml_mem (h : Shows tree directory files) (hid : id ≠ "")
    (hyaml : id ++ ".yaml" ∈ tree.namesIn directory) : id ++ ".yaml" ∈ files := by
  obtain ⟨file, hfile, hstem⟩ :=
    List.mem_map.mp ((h.stems id).mpr ⟨_, hyaml, hid, Or.inl rfl⟩)
  have hle : Text.bytes (id ++ ".yaml").toList < Text.bytes (id ++ ".yml").toList := by
    apply Text.bytes_lt_of_precedes
    · rw [String.toList_append, String.toList_append, Text.precedes_append]
      decide
    · rw [String.toList_append, String.toList_append, Ne, List.append_cancel_left_eq]
      decide
  have hlisted := (mem_listedFiles.mp (h.sublist.subset hfile)).2
  rcases isFileOf_iff.mpr ⟨hlisted, hstem⟩ with ⟨-, rfl | rfl⟩
  · exact hfile
  · rcases h.least hfile hyaml (hstem.symm ▸ ⟨hid, Or.inl rfl⟩) with hsame | hlt
    · exact hsame ▸ hfile
    · exact absurd hlt (List.lt_asymm hle)

theorem id_mem (h : Shows tree directory files) (hid : id ∈ builtins.map Prod.fst) :
    id ∈ (list tree directory).map ThemeEntry.id := by
  obtain ⟨shown, hshown, rfl⟩ := List.mem_map.mp hid
  rw [h.ids_eq, List.mem_append]
  by_cases hstem : shown.1 ∈ files.map stemOf
  · exact Or.inl hstem
  · exact Or.inr (List.mem_map_of_mem (List.mem_filter.mpr ⟨hshown, by simpa using hstem⟩))

theorem source_eq_user_iff (h : Shows tree directory files) (hentry : entry ∈ list tree directory) :
    entry.source = .user ↔ ∃ name ∈ tree.namesIn directory, IsFileOf entry.id name := by
  rw [← h.stems]
  rw [h.list_eq, List.mem_append] at hentry
  rcases hentry with huser | hbuiltin
  · obtain ⟨file, hfile, rfl⟩ := List.mem_map.mp huser
    exact ⟨fun _ => List.mem_map_of_mem hfile, fun _ => rfl⟩
  · obtain ⟨shown, hshown, rfl⟩ := List.mem_map.mp hbuiltin
    have hstem : shown.1 ∉ files.map stemOf := by simpa using (List.mem_filter.mp hshown).2
    exact ⟨fun huser => (by cases huser), fun hmem => absurd hmem hstem⟩

end Shows

/-- An entry that a file of a directory is listed with. -/
structure ListedAs (tree : FileTree) (directory : Path) (file : String) (entry : ThemeEntry) :
    Prop where
  of_file : IsFileOf entry.id file
  title : FileTitle (tree.readText (directory.join file)) entry.id entry.title
  source : entry.source = .user

theorem listedAs_userEntry (hfile : isListed name = true) :
    ListedAs tree directory name (userEntry tree directory name) where
  of_file := isFileOf_iff.mpr ⟨hfile, rfl⟩
  title := fileTitle_userEntry tree directory name
  source := rfl

theorem Shows.listedAs {files : List String} (h : Shows tree directory files) :
    List.Forall₂ (ListedAs tree directory) files (files.map (userEntry tree directory)) := by
  rw [List.forall₂_map_right_iff, List.forall₂_same]
  exact fun file hfile => listedAs_userEntry (mem_listedFiles.mp (h.sublist.subset hfile)).2

/-- A listing has no name twice. First come the files of the user in the order of their names, one
for each stem and the first that has it, each under the title that its text shows; so a stem with
both extensions has the title of `id.yaml`. Then come the built-in themes in their order, those
under whose names there is no file. So every built-in name is there once, as the user's exactly if
there is a file for it. -/
theorem list_merges_sources (tree : FileTree) (directory : Path) :
    let listed := list tree directory
    let names := tree.namesIn directory
    (listed.map ThemeEntry.id).Nodup ∧
      builtins.map builtinEntry =
        [⟨"default-dark", "Default Dark", .builtin⟩, ⟨"default-light", "Default Light", .builtin⟩] ∧
      (∃ (files : List String) (users : List ThemeEntry),
        listed = users ++
          (builtins.map builtinEntry).filter (fun entry => entry.id ∉ users.map ThemeEntry.id) ∧
        List.Forall₂ (ListedAs tree directory) files users ∧
        (files.Pairwise fun x y => Text.bytes x.toList < Text.bytes y.toList) ∧
        (∀ id, id ∈ users.map ThemeEntry.id ↔ ∃ name ∈ names, IsFileOf id name) ∧
        ∀ file ∈ files, file ∈ names ∧ ∀ name ∈ names, ∀ id, IsFileOf id file → IsFileOf id name →
          name = file ∨ Text.bytes file.toList < Text.bytes name.toList) ∧
      (∀ id, id ≠ "" → id ++ ".yaml" ∈ names →
        ∃ entry ∈ listed, entry.id = id ∧ ListedAs tree directory (id ++ ".yaml") entry) ∧
      ∀ id ∈ builtins.map Prod.fst, (listed.map ThemeEntry.id).count id = 1 ∧
        ∀ entry ∈ listed, entry.id = id →
          (entry.source = .user ↔ ∃ name ∈ names, IsFileOf id name) := by
  intro listed names
  obtain ⟨files, h⟩ := exists_shows tree directory
  have hnodup : (listed.map ThemeEntry.id).Nodup := nodup_ids_list tree directory
  refine ⟨hnodup, rfl, ⟨files, files.map (userEntry tree directory), ?_, h.listedAs, h.increasing,
    ?_, ?_⟩, ?_, ?_⟩
  · rw [List.filter_map, map_id_userEntry]
    exact h.list_eq
  · rw [map_id_userEntry]
    exact h.stems
  · intro file hfile
    have hlisted := mem_listedFiles.mp (h.sublist.subset hfile)
    refine ⟨hlisted.1, fun name hname id hid hof => h.least hfile hname ?_⟩
    rwa [(isFileOf_iff.mp hid).2]
  · intro id hid hyaml
    refine ⟨userEntry tree directory (id ++ ".yaml"), ?_, (isListed_yaml hid).2,
      listedAs_userEntry (isListed_yaml hid).1⟩
    change _ ∈ list tree directory
    rw [h.list_eq]
    exact List.mem_append_left _ (List.mem_map_of_mem (h.yaml_mem hid hyaml))
  · intro id hid
    refine ⟨List.count_eq_one_of_mem hnodup (h.id_mem hid), ?_⟩
    rintro entry hentry rfl
    exact h.source_eq_user_iff hentry

end Theme

end BlockShading
