import BlockShading.Command.Plan
import BlockShading.Proofs.Files.PathOrder
import BlockShading.Proofs.Text.Order
import Mathlib.Data.List.Basic
import Mathlib.Data.List.Forall2
import Mathlib.Data.List.Nodup

/-!
# The files that arguments stand for

A directory is gone through depth first, and only the entries of one directory at a time are sorted.
Main statement: what comes out is in the order of whole paths, holds every file at any depth that can
be shaded, and holds nothing else. An argument that is no directory is taken as it is, and a command
without arguments is refused.
-/

namespace BlockShading

namespace Entry

variable {root found other : Entry} {path : Path} {name : String} {names : List String}
  {entries : List Entry}

/-- Induction on entries: a directory after all that is in it. -/
theorem induction_on_entries {P : Entry → Prop} (file : ∀ name content, P (.file name content))
    (dir : ∀ name entries, (∀ entry ∈ entries, P entry) → P (.dir name entries)) :
    ∀ entry, P entry
  | .file name content => file name content
  | .dir name entries => dir name entries fun entry hentry => by
    have := List.sizeOf_lt_of_mem hentry
    exact induction_on_entries file dir entry
termination_by entry => sizeOf entry

/-- Names lead from an entry to one at or below it. -/
inductive Leads : Entry → List String → Entry → Prop
  | here (entry : Entry) : Leads entry [] entry
  | down {name : String} {entries : List Entry} {entry found : Entry} {names : List String}
      (hentry : entry ∈ entries) (h : Leads entry names found) :
      Leads (.dir name entries) (entry.name :: names) found

/-- Each directory at or below an entry can be followed by its path, and its entries have names that
tell them apart. -/
def Readable (path : Path) (root : Entry) : Prop :=
  ∀ names name entries, Leads root names (.dir name entries) →
    FileTree.fault? (path.descend names) = none ∧ (entries.map Entry.name).Nodup ∧
      ∀ entry ∈ entries, Path.IsName entry.name

theorem readable_file (path : Path) (name : String) (content : Content) :
    Readable path (.file name content) := by
  intro names directory entries h
  cases h

theorem readable_dir (hfault : FileTree.fault? path = none)
    (hnodup : (entries.map Entry.name).Nodup) (hnames : ∀ entry ∈ entries, Path.IsName entry.name)
    (hbelow : ∀ entry ∈ entries, Readable (path.join entry.name) entry) :
    Readable path (.dir name entries) := by
  intro names directory inner h
  cases h with
  | here => exact ⟨hfault, hnodup, hnames⟩
  | down hentry h => exact hbelow _ hentry _ _ _ h

namespace Readable

theorem here (h : Readable path (.dir name entries)) : FileTree.fault? path = none ∧
    (entries.map Entry.name).Nodup ∧ ∀ entry ∈ entries, Path.IsName entry.name :=
  h [] name entries (.here _)

theorem below (h : Readable path (.dir name entries)) {entry : Entry} (hentry : entry ∈ entries) :
    Readable (path.join entry.name) entry := by
  intro names inner below hleads
  have hdown := h _ inner below (.down hentry hleads)
  rwa [Path.descend_cons] at hdown

theorem isName_of_leads (h : Readable path root) (hleads : Leads root names found) :
    ∀ name ∈ names, Path.IsName name := by
  induction hleads generalizing path with
  | here => simp
  | down hentry _ ih =>
    rw [List.forall_mem_cons]
    exact ⟨h.here.2.2 _ hentry, ih (h.below hentry)⟩

/-- Names lead to one entry only. -/
theorem leads_unique (h : Readable path root) (hfound : Leads root names found)
    (hother : Leads root names other) : found = other := by
  induction hfound generalizing path with
  | here =>
    cases hother
    rfl
  | @down name entries entry _ names hentry _ ih =>
    generalize htarget : entry.name :: names = target at hother
    cases hother with
    | here => cases htarget
    | @down _ _ second _ _ hsecond hleads =>
      obtain ⟨hname, rfl⟩ := List.cons.inj htarget
      have hsame : entry = second :=
        List.inj_on_of_nodup_map h.here.2.1 hentry hsecond hname
      subst hsame
      exact ih (h.below hentry) hleads

end Readable

end Entry

namespace Command

variable {tree : FileTree} {path file : Path} {entry : Entry} {name : String}
  {entries : List Entry}

theorem mem_found_iff : file ∈ found path ↔ file = path ∧ Language.ofPath file = .java := by
  unfold found
  cases h : Language.ofPath path with
  | plainText =>
    refine iff_of_false (by simp [Language.hasTrees]) ?_
    rintro ⟨rfl, hjava⟩
    rw [h] at hjava
    cases hjava
  | java =>
    simp only [Language.hasTrees, if_true, List.mem_singleton]
    constructor
    · rintro rfl
      exact ⟨rfl, h⟩
    · exact And.left

theorem filesBelow_eq_map (path : Path) (entries : List Entry) :
    filesBelow path entries =
      entries.map fun entry => (entry.name, filesAt (path.join entry.name) entry) := by
  induction entries with
  | nil => rw [filesBelow, List.map_nil]
  | cons entry rest ih => rw [filesBelow, ih, List.map_cons]

/-- The entries of a directory in the order of their names, each with the files found there. -/
def sortedBelow (path : Path) (entries : List Entry) : List (String × List Path) :=
  (entries.map fun entry => (entry.name, filesAt (path.join entry.name) entry)).mergeSort
    fun x y => Text.precedes x.1.toList y.1.toList

theorem filesAt_dir (h : FileTree.fault? path = none) :
    filesAt path (.dir name entries) = (sortedBelow path entries).flatMap (·.2) := by
  rw [filesAt, filesBelow_eq_map, h]
  rfl

theorem mem_sortedBelow_iff {found : String × List Path} :
    found ∈ sortedBelow path entries ↔
      ∃ entry ∈ entries, (entry.name, filesAt (path.join entry.name) entry) = found := by
  rw [sortedBelow, List.mem_mergeSort, List.mem_map]

/-- The files found at an entry are those at or below it that can be shaded. -/
theorem mem_filesAt_iff (h : entry.Readable path) :
    file ∈ filesAt path entry ↔ ∃ names last content, entry.Leads names (.file last content) ∧
      file = path.descend names ∧ Language.ofPath file = .java := by
  induction entry using Entry.induction_on_entries generalizing path with
  | file name content =>
    rw [filesAt, mem_found_iff]
    constructor
    · rintro ⟨rfl, hjava⟩
      exact ⟨[], name, content, .here _, rfl, hjava⟩
    · rintro ⟨names, last, text, hleads, rfl, hjava⟩
      cases hleads
      exact ⟨rfl, hjava⟩
  | dir name entries ih =>
    rw [filesAt_dir h.here.1, List.mem_flatMap]
    constructor
    · rintro ⟨found, hfound, hfile⟩
      obtain ⟨entry, hentry, rfl⟩ := mem_sortedBelow_iff.mp hfound
      obtain ⟨names, last, content, hleads, hpath, hjava⟩ :=
        (ih entry hentry (h.below hentry)).mp hfile
      exact ⟨entry.name :: names, last, content, .down hentry hleads, hpath, hjava⟩
    · rintro ⟨names, last, content, hleads, hpath, hjava⟩
      cases hleads with
      | @down _ _ entry _ names hentry hleads =>
        refine ⟨_, mem_sortedBelow_iff.mpr ⟨entry, hentry, rfl⟩, ?_⟩
        exact (ih entry hentry (h.below hentry)).mpr ⟨names, last, content, hleads, hpath, hjava⟩

theorem steps_of_mem_filesAt (h : entry.Readable path) (hpath : path.text ≠ "")
    (hfile : file ∈ filesAt path entry) :
    ∃ names : List String, file.steps = path.steps ++ names.map .name := by
  obtain ⟨names, last, content, hleads, rfl, -⟩ := (mem_filesAt_iff h).mp hfile
  exact ⟨names, Path.steps_descend (h.isName_of_leads hleads) hpath⟩

/-- The names of the entries of one directory are in strict order once they are sorted. -/
theorem sortedBelow_pairwise (h : (entries.map Entry.name).Nodup) :
    (sortedBelow path entries).Pairwise fun x y =>
      Text.bytes x.1.toList < Text.bytes y.1.toList := by
  have hordered : (sortedBelow path entries).Pairwise fun x y =>
      Text.precedes x.1.toList y.1.toList := by
    apply List.pairwise_mergeSort
    · intro x y z
      exact Text.precedes_trans _ _ _
    · intro x y
      exact Text.precedes_total _ _
  have hapart : (sortedBelow path entries).Pairwise fun x y => x.1 ≠ y.1 := by
    rw [← List.pairwise_map]
    have hperm := (List.mergeSort_perm (entries.map fun entry =>
      (entry.name, filesAt (path.join entry.name) entry))
      fun x y => Text.precedes x.1.toList y.1.toList).map Prod.fst
    refine hperm.nodup_iff.mpr ?_
    rwa [List.map_map]
  refine hordered.imp₂ (fun x y hle hne => ?_) hapart
  exact Text.bytes_lt_of_precedes hle fun heq => hne (String.toList_inj.mp heq)

/-- Though only the entries of each directory are sorted, all files come in the order of paths. -/
theorem filesAt_pairwise (h : entry.Readable path) (hpath : path.text ≠ "") :
    (filesAt path entry).Pairwise Path.Before := by
  induction entry using Entry.induction_on_entries generalizing path with
  | file name content =>
    rw [filesAt, found]
    split
    · exact List.pairwise_singleton _ _
    · exact List.Pairwise.nil
  | dir name entries ih =>
    obtain ⟨hfault, hnodup, hnames⟩ := h.here
    rw [filesAt_dir hfault, List.pairwise_flatMap]
    have hjoined : ∀ entry ∈ entries, (path.join entry.name).text ≠ "" := fun entry hentry =>
      Path.join_ne_empty (hnames entry hentry).ne_empty
    constructor
    · intro found hfound
      obtain ⟨entry, hentry, rfl⟩ := mem_sortedBelow_iff.mp hfound
      exact ih entry hentry (h.below hentry) (hjoined entry hentry)
    · refine (sortedBelow_pairwise hnodup).imp_of_mem ?_
      intro x y hx hy hlt p hp q hq
      obtain ⟨first, hfirst, rfl⟩ := mem_sortedBelow_iff.mp hx
      obtain ⟨second, hsecond, rfl⟩ := mem_sortedBelow_iff.mp hy
      obtain ⟨more, hmore⟩ := steps_of_mem_filesAt (h.below hfirst) (hjoined first hfirst) hp
      obtain ⟨rest, hrest⟩ := steps_of_mem_filesAt (h.below hsecond) (hjoined second hsecond) hq
      rw [Path.steps_join (hnames first hfirst) hpath, List.append_assoc] at hmore
      rw [Path.steps_join (hnames second hsecond) hpath, List.append_assoc] at hrest
      exact Path.before_of_lt hlt hmore hrest

/-- What a path argument stands for. An argument that is no directory stands for itself. A directory
stands for the files at any depth in it that can be shaded, in the order of their paths; directories
are never among them. -/
structure StandsFor (tree : FileTree) (path : Path) (files : List Path) : Prop where
  itself : tree.hasDir path = false → files = [path]
  inOrder : tree.hasDir path = true → files.Pairwise Path.Before ∧ files.Nodup
  exactly : ∀ name entries, tree.entry path = .ok (.dir name entries) → ∀ file, file ∈ files ↔
    ∃ names last content, (Entry.dir name entries).Leads names (.file last content) ∧
      file = path.descend names ∧ Language.ofPath file = .java
  no_directory : ∀ name entries, tree.entry path = .ok (.dir name entries) →
    ∀ names inner below, (Entry.dir name entries).Leads names (.dir inner below) →
      path.descend names ∉ files

theorem hasDir_eq_true_iff : tree.hasDir path = true ↔
    ∃ name entries, tree.entry path = .ok (.dir name entries) := by
  unfold FileTree.hasDir
  cases tree.entry path with
  | error => simp
  | ok found => cases found <;> simp [Entry.isDir]

theorem expand_of_not_hasDir (h : tree.hasDir path = false) : expand tree path = [path] := by
  unfold expand
  split
  · next name entries hentry =>
    rw [hasDir_eq_true_iff.mpr ⟨name, entries, hentry⟩] at h
    cases h
  · rfl

theorem expand_dir (h : tree.entry path = .ok (.dir name entries)) :
    expand tree path = filesAt path (.dir name entries) := by
  rw [expand, h]

theorem text_ne_empty_of_entry (h : tree.entry path = .ok entry) : path.text ≠ "" := by
  unfold FileTree.entry at h
  split at h
  · cases h
  · next hplace => exact (FileTree.locate_eq_ok hplace).1

theorem expand_standsFor (h : ∀ entry, tree.entry path = .ok entry → entry.Readable path) :
    StandsFor tree path (expand tree path) where
  itself := expand_of_not_hasDir
  inOrder := by
    intro hdir
    obtain ⟨name, entries, hentry⟩ := hasDir_eq_true_iff.mp hdir
    rw [expand_dir hentry]
    have hordered := filesAt_pairwise (h _ hentry) (text_ne_empty_of_entry hentry)
    exact ⟨hordered, Path.nodup_of_pairwise_before hordered⟩
  exactly := by
    intro name entries hentry file
    rw [expand_dir hentry]
    exact mem_filesAt_iff (h _ hentry)
  no_directory := by
    intro name entries hentry names inner below hleads hmem
    have hreadable := h _ hentry
    rw [expand_dir hentry, mem_filesAt_iff hreadable] at hmem
    obtain ⟨others, last, content, hfile, hpath, -⟩ := hmem
    -- The same path would lead both to a directory and to a file.
    have hsame := Path.descend_inj (hreadable.isName_of_leads hleads)
      (hreadable.isName_of_leads hfile) (text_ne_empty_of_entry hentry) hpath
    subst hsame
    cases hreadable.leads_unique hleads hfile

theorem make_of_paths {args : Arguments} (settings : Settings) (tree : FileTree)
    (hlist : args.listThemes = false)
    (hbackground : ∀ text, args.background = some text → ∃ color, Color.ofHex text = .ok color) :
    (args.paths = [] → Plan.make args settings tree = .error .noInput) ∧
      (args.paths ≠ [] → ∃ plan, Plan.make args settings tree = .ok plan ∧
        plan.mode = .annotate ((args.paths.flatMap (expand tree)).map .ofPath)) := by
  obtain ⟨background, hread⟩ : ∃ background, readBackground args = .ok background := by
    unfold readBackground
    cases htext : args.background with
    | none => exact ⟨none, rfl⟩
    | some text =>
      obtain ⟨color, hcolor⟩ := hbackground text htext
      exact ⟨some color, by simp [hcolor]⟩
  constructor
  · intro hpaths
    simp [Plan.make, hread, hlist, hpaths]
  · intro hpaths
    simp [Plan.make, hread, hlist, hpaths]

/-- Arguments in a file tree that can be read are taken one after the other, each for the files it
stands for. Only a command without arguments is refused. A directory can be read if it can be
followed by its path, which takes fewer than 4096 bytes, and the names in a tree are texts. -/
theorem make_annotates_in_order {args : Arguments} (settings : Settings)
    (hlist : args.listThemes = false)
    (hbackground : ∀ text, args.background = some text → ∃ color, Color.ofHex text = .ok color)
    (hreadable : ∀ path ∈ args.paths, ∀ entry, tree.entry path = .ok entry →
      entry.Readable path) :
    (args.paths = [] → Plan.make args settings tree = .error .noInput) ∧
      (args.paths ≠ [] → ∃ plan parts, Plan.make args settings tree = .ok plan ∧
        plan.mode = .annotate (parts.flatten.map .ofPath) ∧
        List.Forall₂ (StandsFor tree) args.paths parts) := by
  obtain ⟨hrefused, hplanned⟩ := make_of_paths settings tree hlist hbackground
  refine ⟨hrefused, fun hpaths => ?_⟩
  obtain ⟨plan, hplan, hmode⟩ := hplanned hpaths
  refine ⟨plan, args.paths.map (expand tree), hplan, hmode, ?_⟩
  rw [List.forall₂_map_right_iff, List.forall₂_same]
  exact fun path hpath => expand_standsFor (hreadable path hpath)

/-- The entries of a directory with a package, a source of the same name and a directory that is
named like a source. -/
def packageEntries : List Entry :=
  [.dir "x.java" [.file "C.java" (.text "")], .file "pkg.java" (.text ""),
    .dir "pkg" [.file "notes.txt" (.text ""), .file "B.JAVA" (.binary [255])]]

def packageTree : FileTree where
  entries := [.dir "w" [.dir "src" packageEntries]]
  here := ["w"]

def packageArguments : Arguments :=
  { paths := [⟨"src/"⟩, ⟨"gone.txt"⟩], background := some "#102030" }

theorem packageTree_entry : packageTree.entry ⟨"src/"⟩ = .ok (.dir "src" packageEntries) := rfl

theorem packageTree_readable : ∀ path ∈ packageArguments.paths, ∀ entry,
    packageTree.entry path = .ok entry → entry.Readable path := by
  intro path hpath entry hentry
  simp only [packageArguments, List.mem_cons, List.not_mem_nil, or_false] at hpath
  obtain rfl | rfl := hpath
  · cases packageTree_entry.symm.trans hentry
    refine Entry.readable_dir (by decide +kernel) (by decide) (by decide) ?_
    simp only [packageEntries, List.forall_mem_cons, List.not_mem_nil, IsEmpty.forall_iff,
      implies_true, and_true]
    refine ⟨?_, Entry.readable_file _ _ _, ?_⟩
    · refine Entry.readable_dir (by decide +kernel) (by decide) (by decide) ?_
      simp [Entry.readable_file]
    · refine Entry.readable_dir (by decide +kernel) (by decide) (by decide) ?_
      simp [Entry.readable_file]
  · have hgone : packageTree.entry ⟨"gone.txt"⟩ = .error .notFound := rfl
    rw [hgone] at hentry
    cases hentry

/-- The package comes before the source of the same name, and the directory that is named like a
source is gone through. -/
theorem make_annotates_in_order_packageTree :
    ∃ plan files, Plan.make packageArguments Settings.default packageTree = .ok plan ∧
      plan.mode = .annotate ((files ++ [⟨"gone.txt"⟩]).map .ofPath) ∧
      files.Pairwise Path.Before ∧
      ⟨"src/pkg/B.JAVA"⟩ ∈ files ∧ ⟨"src/pkg.java"⟩ ∈ files ∧
      Path.Before ⟨"src/pkg/B.JAVA"⟩ ⟨"src/pkg.java"⟩ ∧
      ⟨"src/x.java/C.java"⟩ ∈ files ∧ ⟨"src/x.java"⟩ ∉ files := by
  have hbackground : ∀ text, packageArguments.background = some text →
      ∃ color, Color.ofHex text = .ok color := by
    rintro text ⟨⟩
    exact ⟨⟨0x10, 0x20, 0x30, 0xFF⟩, rfl⟩
  obtain ⟨plan, parts, hplan, hmode, hparts⟩ :=
    (make_annotates_in_order Settings.default rfl hbackground packageTree_readable).2 (by decide)
  obtain ⟨files, rest, hfiles, hrest, rfl⟩ := List.forall₂_cons_left_iff.mp hparts
  obtain ⟨last, others, hlast, hothers, rfl⟩ := List.forall₂_cons_left_iff.mp hrest
  cases hothers
  have hgone : last = [⟨"gone.txt"⟩] := hlast.itself (by decide +kernel)
  have hlisted := hfiles.exactly _ _ packageTree_entry
  have hunder : Path.steps ⟨"src/pkg/B.JAVA"⟩ = [.name "src"] ++ ["pkg", "B.JAVA"].map .name := by
    decide +kernel
  have hbeside : Path.steps ⟨"src/pkg.java"⟩ = [.name "src"] ++ ["pkg.java"].map .name := by
    decide +kernel
  refine ⟨plan, files, hplan, ?_, (hfiles.inOrder (by decide +kernel)).1, ?_, ?_, ?_, ?_, ?_⟩
  · simpa [hgone] using hmode
  · exact (hlisted _).mpr ⟨["pkg", "B.JAVA"], "B.JAVA", .binary [255],
      .down (.tail _ (.tail _ (.head _))) (.down (.tail _ (.head _)) (.here _)), by decide +kernel,
      by decide +kernel⟩
  · exact (hlisted _).mpr ⟨["pkg.java"], "pkg.java", .text "",
      .down (.tail _ (.head _)) (.here _), by decide +kernel, by decide +kernel⟩
  · exact Path.before_of_lt (by decide +kernel) hunder hbeside
  · exact (hlisted _).mpr ⟨["x.java", "C.java"], "C.java", .text "",
      .down (.head _) (.down (.head _) (.here _)), by decide +kernel, by decide +kernel⟩
  · exact hfiles.no_directory _ _ packageTree_entry ["x.java"] "x.java" _
      (.down (.head _) (.here _))

/-- Without a path there is nothing to do, not even for no files. -/
theorem no_paths_refused :
    let args : Arguments := {}
    args.listThemes = false ∧ args.background = none ∧ args.paths = [] ∧
      Plan.make args Settings.default packageTree = .error .noInput ∧
      PlanError.noInput.message = "No input files" ∧
      ¬ ∃ plan, Plan.make args Settings.default packageTree = .ok plan ∧
        plan.mode = .annotate [] := by
  refine ⟨rfl, rfl, rfl, rfl, rfl, ?_⟩
  rintro ⟨plan, hplan, -⟩
  cases hplan

end Command

end BlockShading
