import BlockShading.Proofs.Files.Directories
import BlockShading.Proofs.Text.Order
import BlockShading.Theme.Catalog

/-!
# Listed themes and loaded themes

A listing finds a theme by going through a directory, loading finds it by the path of one file.
Both agree on files with the extension `yaml` and on built-in themes. A file with the extension
`yml` is listed only if there is no other of the same stem, and loading does not look at it.
-/

namespace BlockShading

namespace Path

/-- A name is cut at its last dot, if something is in front of it. -/
theorem splitName_of_eq_append {name : String} {stem extension : List Char}
    (hname : name.toList = stem ++ '.' :: extension) (hextension : '.' ∉ extension) :
    splitName name =
      if stem = [] then (name, none)
      else (String.ofList stem, some (String.ofList extension)) := by
  have htail : ((stem ++ '.' :: extension).reverse.takeWhile (· != '.')).reverse = extension := by
    rw [List.reverse_append, List.reverse_cons, List.append_assoc, List.takeWhile_append_of_pos]
    · simp
    · intro c hc
      simpa using fun h : c = '.' => hextension (h ▸ List.mem_reverse.mp hc)
  have hlength : (stem ++ '.' :: extension).length - extension.length - 1 = stem.length := by
    simp only [List.length_append, List.length_cons]
    omega
  unfold splitName
  simp only [hname, htail, hlength, List.take_left]
  cases stem <;> simp

theorem exists_last_dot {cs : List Char} (h : '.' ∈ cs) :
    ∃ stem extension, cs = stem ++ '.' :: extension ∧ '.' ∉ extension := by
  obtain ⟨after, before, hsplit, hafter⟩ := List.eq_append_cons_of_mem (List.mem_reverse.mpr h)
  refine ⟨before.reverse, after.reverse, ?_, by simpa using hafter⟩
  simpa using congrArg List.reverse hsplit

/-- A name that has an extension is its stem, a dot and the extension. -/
theorem eq_append_of_splitName {name extension : String}
    (h : (splitName name).2 = some extension) :
    (splitName name).1 ≠ "" ∧ name = (splitName name).1 ++ "." ++ extension := by
  by_cases hdot : '.' ∈ name.toList
  · obtain ⟨stem, rest, hname, hrest⟩ := exists_last_dot hdot
    have hcut := splitName_of_eq_append hname hrest
    by_cases hstem : stem = []
    · rw [hcut, if_pos hstem] at h
      cases h
    · rw [if_neg hstem] at hcut
      rw [hcut] at h ⊢
      cases h
      refine ⟨by simpa using hstem, String.toList_inj.mp ?_⟩
      simp [hname]
  · simp [splitName, hdot] at h

theorem splitName_append {stem extension : String} (hstem : stem ≠ "")
    (hextension : '.' ∉ extension.toList) :
    splitName (stem ++ "." ++ extension) = (stem, some extension) := by
  have hname : (stem ++ "." ++ extension).toList = stem.toList ++ '.' :: extension.toList := by
    simp
  rw [splitName_of_eq_append hname hextension, if_neg (by simpa using hstem)]
  simp

end Path

namespace FileTree

/-- A directory that can be read, and whose entries can be reached by their names. -/
structure Readable (tree : FileTree) (directory : Path) (entries : List Entry) : Prop where
  listing : tree.readDir directory = .ok entries
  no_slash : ∀ entry ∈ entries, '/' ∉ entry.name.toList
  reached : ∀ entry ∈ entries, tree.has (directory.join entry.name) = true

end FileTree

namespace Theme

variable {tree : FileTree} {directory : Path} {entries : List Entry} {id name : String}
  {entry : ThemeEntry}

theorem isListed_cases (h : isListed name = true) :
    stemOf name ≠ "" ∧ (name = stemOf name ++ ".yaml" ∨ name = stemOf name ++ ".yml") := by
  unfold isListed at h
  split at h
  · next extension hextension =>
    obtain ⟨hstem, hname⟩ := Path.eq_append_of_splitName hextension
    rw [Bool.or_eq_true, beq_iff_eq, beq_iff_eq] at h
    rcases h with rfl | rfl
    · exact ⟨hstem, Or.inl (hname.trans (String.append_assoc ..))⟩
    · exact ⟨hstem, Or.inr (hname.trans (String.append_assoc ..))⟩
  · cases h

theorem isListed_of_eq_append {extension : String} (hid : id ≠ "")
    (hextension : extension = "yaml" ∨ extension = "yml")
    (hname : name = id ++ ("." ++ extension)) : isListed name = true ∧ stemOf name = id := by
  have hdot : '.' ∉ extension.toList := by
    rcases hextension with rfl | rfl <;> decide
  have hcut : Path.splitName name = (id, some extension) := by
    rw [hname, ← String.append_assoc]
    exact Path.splitName_append hid hdot
  simpa [isListed, stemOf, hcut] using hextension

/-- The file that is loaded under a name would also be listed under it. -/
theorem isListed_yaml (hid : id ≠ "") :
    isListed (id ++ ".yaml") = true ∧ stemOf (id ++ ".yaml") = id :=
  isListed_of_eq_append hid (Or.inl rfl) rfl

theorem isName_yaml (hid : '/' ∉ id.toList) : Path.IsName (id ++ ".yaml") := by
  have hletter : 'y' ∈ (id ++ ".yaml").toList := by simp
  have hne : ∀ other : String, 'y' ∉ other.toList → id ++ ".yaml" ≠ other := by
    rintro other hother rfl
    exact hother hletter
  exact ⟨by simp [hid], hne _ (by decide), hne _ (by decide), hne _ (by decide)⟩

theorem mem_listedFiles_iff (h : tree.Readable directory entries) :
    name ∈ listedFiles tree directory ↔ name ∈ entries.map Entry.name ∧ isListed name = true := by
  rw [listedFiles, h.listing, List.mem_mergeSort, List.mem_filter]

theorem listedFiles_sorted (tree : FileTree) (directory : Path) :
    (listedFiles tree directory).Pairwise fun x y => Text.precedes x.toList y.toList := by
  unfold listedFiles
  split
  · exact List.Pairwise.nil
  · apply List.pairwise_mergeSort
    · intro x y z
      exact Text.precedes_trans _ _ _
    · intro x y
      exact Text.precedes_total _ _

theorem load_value (tree : FileTree) (directory : Path) (id : String) :
    (load tree directory id).value =
      if tree.has (userFile directory id) then ofFile tree (userFile directory id)
      else builtin id := by
  simp only [load]
  split <;> rfl

/-- Loading finds a file of the user only if the directory has it. -/
theorem mem_of_has_userFile (h : tree.Readable directory entries) (hid : '/' ∉ id.toList)
    (hhas : tree.has (userFile directory id) = true) : id ++ ".yaml" ∈ entries.map Entry.name := by
  unfold FileTree.has at hhas
  cases hentry : tree.entry (userFile directory id) with
  | error e =>
    rw [hentry] at hhas
    cases hhas
  | ok found =>
    obtain ⟨hmem, hname⟩ := FileTree.entry_join (isName_yaml hid) h.listing hentry
    exact hname ▸ List.mem_map_of_mem hmem

/-- Without a file of the user the built-in themes are looked through. -/
theorem load_of_not_mem (h : tree.Readable directory entries) (hid : '/' ∉ id.toList)
    (hmem : id ++ ".yaml" ∉ entries.map Entry.name) :
    (load tree directory id).value = builtin id := by
  rw [load_value, if_neg]
  exact fun hhas => hmem (mem_of_has_userFile h hid hhas)

theorem has_of_mem (h : tree.Readable directory entries) (hmem : name ∈ entries.map Entry.name) :
    tree.has (directory.join name) = true := by
  obtain ⟨found, hfound, rfl⟩ := List.mem_map.mp hmem
  exact h.reached found hfound

theorem no_slash_of_mem (h : tree.Readable directory entries)
    (hmem : name ∈ entries.map Entry.name) : '/' ∉ name.toList := by
  obtain ⟨found, hfound, rfl⟩ := List.mem_map.mp hmem
  exact h.no_slash found hfound

/-- A built-in theme has a name that a file could have, and is found under it. -/
theorem builtins_spec {theme : Theme} (h : (id, theme) ∈ builtins) :
    id ≠ "" ∧ '/' ∉ id.toList ∧ builtin id = .ok theme := by
  simp only [builtins, List.mem_cons, List.not_mem_nil, or_false, Prod.mk.injEq] at h
  rcases h with ⟨rfl, rfl⟩ | ⟨rfl, rfl⟩
  · exact ⟨by decide, by decide, rfl⟩
  · exact ⟨by decide, by decide, rfl⟩

theorem ofYaml_of_tokens {text : String} {found : Option (List Yaml.Token)}
    (h : Yaml.tokens? text = found) :
    ofYaml text =
      match (found.bind Yaml.Document.ofTokens?).bind ThemeData.ofDocument? with
      | none => .error .malformed
      | some data => ofData data := by
  subst h
  rfl

/-- A built-in theme is what the text under its name says. -/
theorem builtin_eq_ofYaml (id : String) :
    builtin id =
      match builtinTexts.lookup id with
      | some text => ofYaml text
      | none => .error (.unknown id) := by
  have hdark : ofYaml defaultDarkText = .ok defaultDark :=
    (ofYaml_of_tokens (Yaml.tokens?_ofList _)).trans (by decide +kernel)
  have hlight : ofYaml defaultLightText = .ok defaultLight :=
    (ofYaml_of_tokens (Yaml.tokens?_ofList _)).trans (by decide +kernel)
  simp only [builtin, builtins, builtinTexts, List.lookup_cons, List.lookup_nil]
  cases id == "default-dark" with
  | true => simp [hdark]
  | false =>
    cases id == "default-light" with
    | true => simp [hlight]
    | false => rfl

/-- What is kept is the first of its name. -/
theorem first_of_mem_firstOfEach {seen : List String} {all : List ThemeEntry}
    (h : entry ∈ firstOfEach seen all) :
    entry.id ∉ seen ∧ ∃ before after, all = before ++ entry :: after ∧
      ∀ earlier ∈ before, earlier.id ≠ entry.id := by
  induction all generalizing seen with
  | nil => cases h
  | cons first rest ih =>
    unfold firstOfEach at h
    split at h
    · next hseen =>
      obtain ⟨hnew, before, after, rfl, hbefore⟩ := ih h
      refine ⟨hnew, first :: before, after, rfl, ?_⟩
      intro earlier hearlier
      rcases List.mem_cons.mp hearlier with rfl | hearlier
      · intro hsame
        exact hnew (hsame ▸ List.contains_iff_mem.mp hseen)
      · exact hbefore earlier hearlier
    · next hseen =>
      rcases List.mem_cons.mp h with rfl | h
      · exact ⟨fun hmem => hseen (List.contains_iff_mem.mpr hmem), [], rest, rfl, by simp⟩
      · obtain ⟨hnew, before, after, rfl, hbefore⟩ := ih h
        rw [List.mem_cons, not_or] at hnew
        refine ⟨hnew.2, first :: before, after, rfl, ?_⟩
        intro earlier hearlier
        rcases List.mem_cons.mp hearlier with rfl | hearlier
        · exact fun hsame => hnew.1 hsame.symm
        · exact hbefore earlier hearlier

/-- An entry of a listing stands for the first file with its name, or for a built-in theme whose
name no file has. -/
theorem mem_list_cases (h : entry ∈ list tree directory) :
    (∃ before name after, listedFiles tree directory = before ++ name :: after ∧
      entry = userEntry tree directory name ∧ ∀ earlier ∈ before, stemOf earlier ≠ entry.id) ∨
      ∃ theme, (entry.id, theme) ∈ builtins ∧ entry.source = .builtin ∧
        ∀ name ∈ listedFiles tree directory, stemOf name ≠ entry.id := by
  obtain ⟨-, before, after, hsplit, hbefore⟩ := first_of_mem_firstOfEach h
  have hbuiltin : (∃ shown ∈ builtins, entry = ⟨shown.1, shown.2.name, .builtin⟩) →
      (listedFiles tree directory).map (userEntry tree directory) ⊆ before →
      ∃ theme, (entry.id, theme) ∈ builtins ∧ entry.source = .builtin ∧
        ∀ name ∈ listedFiles tree directory, stemOf name ≠ entry.id := by
    rintro ⟨⟨id, theme⟩, htheme, rfl⟩ husers
    exact ⟨theme, htheme, rfl, fun name hname =>
      hbefore _ (husers (List.mem_map_of_mem hname))⟩
  rcases List.append_eq_append_iff.mp hsplit with ⟨middle, rfl, hback⟩ | ⟨middle, hfront, hback⟩
  · have hmem : entry ∈ middle ++ entry :: after := by simp
    rw [← hback] at hmem
    obtain ⟨shown, hshown, heq⟩ := List.mem_map.mp hmem
    exact Or.inr (hbuiltin ⟨shown, hshown, heq.symm⟩ (List.subset_append_left _ _))
  · cases middle with
    | nil =>
      have hmem : entry ∈ entry :: after := List.mem_cons_self
      rw [hback, List.nil_append] at hmem
      obtain ⟨shown, hshown, heq⟩ := List.mem_map.mp hmem
      refine Or.inr (hbuiltin ⟨shown, hshown, heq.symm⟩ ?_)
      rw [hfront, List.append_nil]
      exact List.Subset.refl _
    | cons first rest =>
      cases hback
      obtain ⟨front, back, hfiles, rfl, hrest⟩ := List.map_eq_append_iff.mp hfront
      obtain ⟨name, others, rfl, rfl, -⟩ := List.map_eq_cons_iff.mp hrest
      refine Or.inl ⟨front, name, others, hfiles, rfl, fun earlier hearlier => ?_⟩
      exact hbefore _ (List.mem_map_of_mem hearlier)

/-- Of two files with the same stem the one with the longer extension comes first. -/
theorem not_precedes_yml (id : String) :
    Text.precedes (id ++ ".yml").toList (id ++ ".yaml").toList = false := by
  rw [String.toList_append, String.toList_append, Text.precedes_append]
  decide

/-- A file `id.yml` is the first of its name only if there is no file `id.yaml`, which would be
listed in front of it. -/
theorem yaml_not_mem_of_yml_first (h : tree.Readable directory entries) (hid : id ≠ "")
    {before after : List String}
    (hfiles : listedFiles tree directory = before ++ (id ++ ".yml") :: after)
    (hbefore : ∀ earlier ∈ before, stemOf earlier ≠ id) :
    id ++ ".yaml" ∉ entries.map Entry.name := by
  intro hyaml
  obtain ⟨hlists, hsame⟩ := isListed_yaml hid
  have hin := (mem_listedFiles_iff h).mpr ⟨hyaml, hlists⟩
  have hsorted := listedFiles_sorted tree directory
  have hfalse := not_precedes_yml id
  rw [hfiles] at hin hsorted
  rcases List.mem_append.mp hin with hfront | hback
  · exact hbefore _ hfront hsame
  · have hle := (List.pairwise_cons.mp (List.pairwise_append.mp hsorted).2.1).1
    rcases List.mem_cons.mp hback with hequal | hlater
    · have htotal := Text.precedes_total (id ++ ".yml").toList (id ++ ".yml").toList
      rw [hequal] at hfalse
      rw [hfalse] at htotal
      cases htotal
    · rw [hle _ hlater] at hfalse
      cases hfalse

/-- A theme that is listed from a file `id.yaml` is loaded from that file, and a built-in theme
that is listed is loaded as it is. A theme listed from a file `id.yml` is not loaded: there is no
file `id.yaml` then, and loading goes on to the built-in themes. -/
theorem list_entry_loads (h : tree.Readable directory entries)
    (hentry : entry ∈ list tree directory) :
    (entry.source = .user →
      ∃ name ∈ entries.map Entry.name, isListed name = true ∧
        entry = userEntry tree directory name ∧
        ((name = entry.id ++ ".yaml" ∧ tree.has (userFile directory entry.id) = true ∧
            (load tree directory entry.id).value = ofFile tree (directory.join name)) ∨
          (name = entry.id ++ ".yml" ∧ entry.id ++ ".yaml" ∉ entries.map Entry.name ∧
            (load tree directory entry.id).value = builtin entry.id))) ∧
      (entry.source = .builtin →
        ∃ theme, (entry.id, theme) ∈ builtins ∧
          (load tree directory entry.id).value = .ok theme) := by
  rcases mem_list_cases hentry with
    ⟨before, name, after, hfiles, rfl, hbefore⟩ | ⟨theme, htheme, hsource, hnone⟩
  · refine ⟨fun _ => ?_, fun hsource => by cases hsource⟩
    have hname : name ∈ listedFiles tree directory := by
      rw [hfiles]
      simp
    obtain ⟨hmem, hlisted⟩ := (mem_listedFiles_iff h).mp hname
    obtain ⟨hstem, hcases⟩ := isListed_cases hlisted
    refine ⟨name, hmem, hlisted, rfl, ?_⟩
    rcases hcases with hyaml | hyml
    · left
      have hfile : userFile directory (stemOf name) = directory.join name :=
        congrArg directory.join hyaml.symm
      have hhas := has_of_mem h hmem
      rw [← hfile] at hhas
      refine ⟨hyaml, hhas, ?_⟩
      exact (load_value tree directory (stemOf name)).trans (by rw [if_pos hhas, hfile])
    · right
      have hslash : '/' ∉ (stemOf name).toList := by
        have hno := no_slash_of_mem h hmem
        rw [hyml, String.toList_append, List.mem_append, not_or] at hno
        exact hno.1
      have hother : stemOf name ++ ".yaml" ∉ entries.map Entry.name := by
        rw [hyml] at hfiles
        exact yaml_not_mem_of_yml_first h hstem hfiles hbefore
      exact ⟨hyml, hother, load_of_not_mem h hslash hother⟩
  · refine ⟨fun huser => ?_, fun _ => ?_⟩
    · rw [hsource] at huser
      cases huser
    · obtain ⟨hid, hslash, hfound⟩ := builtins_spec htheme
      refine ⟨theme, htheme, (load_of_not_mem h hslash fun hyaml => ?_).trans hfound⟩
      obtain ⟨hlists, hsame⟩ := isListed_yaml hid
      exact hnone _ ((mem_listedFiles_iff h).mpr ⟨hyaml, hlists⟩) hsame

/-- A file that takes the place of a built-in theme, and a theme in a file `solar.yml`. -/
def mixedFiles : List Entry :=
  [.file "default-dark.yaml" (.text "name: My Dark\n"),
    .file "solar.yml" (.text "version: 1\nname: Solar\neditor:\n  background: \"#FDF6E3\"\n")]

def mixedThemes : FileTree where
  entries := [.dir "t" mixedFiles]
  here := []

theorem mixedThemes_readable : mixedThemes.Readable ⟨"t"⟩ mixedFiles where
  listing := rfl
  no_slash := by decide
  reached := by decide +kernel

theorem mixedThemes_list :
    list mixedThemes ⟨"t"⟩ =
      [⟨"default-dark", "My Dark", .user⟩, ⟨"solar", "Solar", .user⟩,
        ⟨"default-light", "Default Light", .builtin⟩] := by
  have hfiles : listedFiles mixedThemes ⟨"t"⟩ = ["default-dark.yaml", "solar.yml"] := by
    rw [listedFiles, mixedThemes_readable.listing]
    exact List.mergeSort_of_pairwise (by decide)
  rw [list, hfiles]
  decide +kernel

theorem list_entry_loads_mixedThemes :
    mixedThemes.Readable ⟨"t"⟩ mixedFiles ∧
      (load mixedThemes ⟨"t"⟩ "default-dark").value =
        ofFile mixedThemes ⟨"t/default-dark.yaml"⟩ ∧
      (load mixedThemes ⟨"t"⟩ "default-light").value = .ok defaultLight := by
  have hfirst : ⟨"default-dark", "My Dark", .user⟩ ∈ list mixedThemes ⟨"t"⟩ := by
    rw [mixedThemes_list]
    exact List.mem_cons_self
  have hlast : ⟨"default-light", "Default Light", .builtin⟩ ∈ list mixedThemes ⟨"t"⟩ := by
    rw [mixedThemes_list]
    simp
  have hdark := list_entry_loads mixedThemes_readable hfirst
  have hlight := list_entry_loads mixedThemes_readable hlast
  refine ⟨mixedThemes_readable, ?_, ?_⟩
  · obtain ⟨name, -, -, -, ⟨rfl, -, hload⟩ | ⟨-, hother, -⟩⟩ := hdark.1 rfl
    · exact hload
    · exact absurd (by decide) hother
  · obtain ⟨theme, htheme, hload⟩ := hlight.2 rfl
    obtain ⟨-, -, hfound⟩ := builtins_spec htheme
    exact hload.trans hfound.symm

/-- The theme in `solar.yml` is listed and could be read, but it is not found by its name. -/
theorem solar_listed_not_loaded :
    ⟨"solar", "Solar", .user⟩ ∈ list mixedThemes ⟨"t"⟩ ∧
      (load mixedThemes ⟨"t"⟩ "solar").value = .error (.unknown "solar") ∧
      (ofFile mixedThemes ⟨"t/solar.yml"⟩).toOption =
        some ⟨"Solar", ⟨0xFD, 0xF6, 0xE3, 0xFF⟩, Category.baseColors⟩ := by
  refine ⟨by rw [mixedThemes_list]; simp, ?_, by decide +kernel⟩
  exact load_of_not_mem mixedThemes_readable (by decide) (by decide)

end Theme

end BlockShading
