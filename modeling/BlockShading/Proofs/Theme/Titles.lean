import BlockShading.Proofs.Theme.Listing
import BlockShading.Proofs.Theme.Reading
import BlockShading.Proofs.Yaml.Entries

/-!
# Titles and names

A theme is listed under a title that is taken from a line of its file, and has the name that its
file has when it is read as YAML. Main statement: the two agree for a file that gives its name on a
line `name: value` at the left, after lines of entries with other keys at any depth, empty lines and
comments, if the value is written without escapes and nothing stands behind it. They do not agree in
general: a comment behind the name is part of the title.
-/

namespace BlockShading

open Yaml

/-- The name in a theme is the text under the key `name`. -/
theorem ThemeData.name_of_hasEntry {document : Document} {data : ThemeData} {style : Yaml.Style}
    {text : String} (hdata : ofDocument? document = some data)
    (hentry : document.root.HasEntry (.scalar .plain none "name") (.scalar style none text)) :
    data.name = text := by
  obtain ⟨fields, hfields, hdata⟩ := Option.bind_eq_some_iff.mp hdata
  obtain ⟨version, -, hdata⟩ := Option.bind_eq_some_iff.mp hdata
  obtain ⟨name, hname, hdata⟩ := Option.bind_eq_some_iff.mp hdata
  have hdata : data.name = name := by
    obtain ⟨author, -, hdata⟩ := Option.bind_eq_some_iff.mp hdata
    obtain ⟨description, -, hdata⟩ := Option.bind_eq_some_iff.mp hdata
    obtain ⟨background, -, hdata⟩ := Option.bind_eq_some_iff.mp hdata
    obtain ⟨blocks, -, hdata⟩ := Option.bind_eq_some_iff.mp hdata
    cases hdata
    rfl
  obtain ⟨field, hfield, hvalue⟩ := Option.bind_eq_some_iff.mp hname
  rw [Document.field?_of_hasEntry hentry hfields hfield] at hvalue
  cases hvalue
  exact hdata

namespace Theme

variable {cs line rest key value written : List Char} {j k : Nat} {style : Yaml.Style}

def titleOf? (cs : List Char) : Option String := (Text.splitOn '\n' cs).findSome? titleOnLine?

theorem titleOf?_line (h : '\n' ∉ line) :
    titleOf? (line ++ '\n' :: cs) = (titleOnLine? line).or (titleOf? cs) := by
  rw [titleOf?, Text.splitOn_append_cons, Text.splitOn_of_not_mem h, List.findSome?_append]
  simp [titleOf?]

theorem titleOnLine?_eq_none (h : ∀ rest, Text.trim line ≠ "name:".toList ++ rest) :
    titleOnLine? line = none := by
  rw [titleOnLine?, Option.map_eq_none_iff]
  cases hafter : Text.after? "name:".toList (Text.trim line) with
  | none => rfl
  | some rest => exact absurd (Text.eq_append_of_after? hafter) (h rest)

theorem isBlank_of_mem_replicate {c : Char} (h : c ∈ List.replicate j ' ') :
    Text.isBlank c = true := by
  rw [List.eq_of_mem_replicate h]
  rfl

theorem titleOnLine?_blanks (j : Nat) : titleOnLine? (List.replicate j ' ') = none := by
  have htrim : Text.trim (List.replicate j ' ' ++ ([] ++ [])) = [] :=
    Text.trimBoth_eq (fun _ => isBlank_of_mem_replicate) (List.forall_mem_nil _) ⟨by simp, by simp⟩
  rw [List.append_nil, List.append_nil] at htrim
  exact titleOnLine?_eq_none fun rest => by simp [htrim]

theorem titleOnLine?_comment (j : Nat) (text : List Char) :
    titleOnLine? (List.replicate j ' ' ++ '#' :: text) = none := by
  obtain ⟨tail, htrim⟩ : ∃ tail, Text.trim (List.replicate j ' ' ++ ([] ++ '#' :: text)) =
      [] ++ '#' :: tail :=
    Text.exists_trimBoth_eq (fun _ => isBlank_of_mem_replicate) (by simp [Text.isBlank]) (by decide)
  rw [List.nil_append] at htrim
  exact titleOnLine?_eq_none fun rest => by simp [htrim]

theorem isBlank_of_isNameChar {c : Char} (hc : isNameChar c = true) : Text.isBlank c = false := by
  have hrange : 45 ≤ c.toNat ∧ c.toNat ≤ 122 := by
    unfold isNameChar Char.isAlphanum Char.isAlpha Char.isUpper Char.isLower Char.isDigit at hc
    simp [UInt32.le_iff_toNat_le] at hc
    rcases hc with (hc | rfl) | rfl
    · omega
    · decide
    · decide
  simp [Text.isBlank]
  omega

theorem titleOnLine?_key (hkey : IsKey key) (hname : key ≠ "name".toList) (tail : List Char) :
    titleOnLine? (List.replicate k ' ' ++ (key ++ ':' :: tail)) = none := by
  have hhead : ∀ d ∈ (key ++ [':']).head?, Text.isBlank d = false := by
    obtain ⟨c, others, rfl⟩ := List.exists_cons_of_ne_nil hkey.ne_nil
    intro d hd
    cases hd
    exact isBlank_of_isNameChar (hkey.name c List.mem_cons_self)
  obtain ⟨tail', htrim⟩ := Text.exists_trimBoth_eq (fun _ => isBlank_of_mem_replicate) hhead
    (by decide : Text.isBlank ':' = false)
  refine titleOnLine?_eq_none fun rest heq => hname ?_
  rw [Text.trim, htrim] at heq
  -- the key is what comes before the first colon
  have hword := congrArg (List.takeWhile (· != ':')) heq
  have hcolon : ∀ c ∈ key, (c != ':') = true :=
    fun c hc => bne_iff_ne.mpr (ne_of_isNameChar (hkey.name c hc) rfl)
  rw [List.takeWhile_append_of_pos hcolon] at hword
  simpa using hword

/-- Empty lines and comments have no title. -/
theorem titleOf?_leads (h : Leads j cs k rest) :
    titleOf? (List.replicate j ' ' ++ cs) = titleOf? (List.replicate k ' ' ++ rest) := by
  induction h with
  | here h => rfl
  | @blank j k cs rest h ih =>
    rw [← ih, List.replicate_succ', List.append_assoc, List.singleton_append]
  | @newline j k cs rest h ih =>
    rw [titleOf?_line (by simp), titleOnLine?_blanks, Option.none_or, ← ih]
    rfl
  | @comment j k text cs rest htext h ih =>
    have hline : '\n' ∉ List.replicate j ' ' ++ '#' :: text := by
      have hbreak : '\n' ∉ text := fun hmem => Bool.false_ne_true (htext _ hmem).symm
      simp [hbreak]
    rw [← List.append_assoc, titleOf?_line hline, titleOnLine?_comment, Option.none_or, ← ih]
    rfl

/-- A line with another key has no title. -/
theorem titleOf?_key (hkey : IsKey key) (hname : key ≠ "name".toList) (tail : List Char)
    (htail : '\n' ∉ tail) :
    titleOf? (List.replicate k ' ' ++ (key ++ ':' :: (tail ++ '\n' :: cs))) = titleOf? cs := by
  have hnewline : '\n' ∉ key := fun hmem => ne_of_isNameChar (hkey.name _ hmem) rfl rfl
  have hline : List.replicate k ' ' ++ (key ++ ':' :: (tail ++ '\n' :: cs)) =
      List.replicate k ' ' ++ (key ++ ':' :: tail) ++ '\n' :: cs := by simp
  rw [hline, titleOf?_line (by simp [hnewline, htail]), titleOnLine?_key hkey hname, Option.none_or]

/-- Lines with other keys have no title. -/
theorem titleOf?_block (h : Block "name".toList k line rest) :
    titleOf? (List.replicate k ' ' ++ line) = titleOf? rest := by
  induction h with
  | @entry k key text written cs style hkey hname hwritten =>
    exact titleOf?_key hkey hname (' ' :: written) (by simp [hwritten.not_mem_newline])
  | @nested k k' key cs inner rest hkey hname hleads hk hinner ih =>
    rw [← ih, ← titleOf?_leads hleads]
    exact titleOf?_key hkey hname [] List.not_mem_nil
  | append hfirst hleads hrest ihfirst ihrest =>
    rw [ihfirst, ← ihrest, ← titleOf?_leads hleads]
    rfl

/-- Neither white space nor quotes are lost from the ends of a text that is written in some way, if
they are taken from the ends of what is written. -/
def IsTitle (value : List Char) : Yaml.Style → Prop
  | .plain => Text.Trimmed (fun c => Text.isBlank c || c == '\x27' || c == '\x22') value
  | .double => Text.Trimmed (· == '\x27') value
  | _ => True

theorem trimmed_quoted {p : Char → Bool} {mark : Char} (hmark : p mark = false)
    (value : List Char) : Text.Trimmed p (mark :: value ++ [mark]) := by
  refine ⟨by simpa using hmark, fun c hc => ?_⟩
  rw [List.getLast?_concat] at hc
  cases hc
  exact hmark

theorem trimBoth_quoted {p : Char → Bool} {mark : Char} (hmark : p mark = true)
    (hvalue : ∀ c ∈ value, p c = false) : Text.trimBoth p (mark :: value ++ [mark]) = value := by
  have htrim : Text.trimBoth p ([mark] ++ (value ++ [mark])) = value :=
    Text.trimBoth_eq (by simpa using hmark) (by simpa using hmark) (.of_forall hvalue)
  exact htrim

/-- Only the value is left of what is written. -/
theorem trimBoth_written (hwritten : Written style value written) (htitle : IsTitle value style) :
    Text.Trimmed Text.isBlank written ∧
      Text.trimBoth (· == '\x27') (Text.trimBoth (· == '\x22') written) = value := by
  cases hwritten with
  | plain first more hwords hstart =>
    have htrimmed : Text.Trimmed _ (first ++ blankBefore more) := htitle
    refine ⟨htrimmed.mono fun c hc => ?_, ?_⟩
    · simp_all
    · rw [Text.trimBoth_eq_self (htrimmed.mono fun c hc => ?_),
        Text.trimBoth_eq_self (htrimmed.mono fun c hc => ?_)]
      · simp_all
      · simp_all
  | quoted single text htext =>
    have hquote : ∀ c ∈ value, (c == quoteMark single) = false :=
      fun c hc => beq_eq_false_iff_ne.mpr (htext.no_quote c hc)
    cases single with
    | true =>
      refine ⟨trimmed_quoted (by decide) value, ?_⟩
      rw [Text.trimBoth_eq_self (trimmed_quoted (by decide) value)]
      exact trimBoth_quoted (by decide) hquote
    | false =>
      refine ⟨trimmed_quoted (by decide) value, ?_⟩
      have hinner : Text.trimBoth (· == '\x22') (quoteMark false :: value ++ [quoteMark false]) =
        value := trimBoth_quoted (by decide) hquote
      rw [hinner]
      exact Text.trimBoth_eq_self htitle

theorem titleOnLine?_name (hwritten : Written style value written) (htitle : IsTitle value style) :
    titleOnLine? ("name:".toList ++ ' ' :: written) = some (String.ofList value) := by
  obtain ⟨htrimmed, hvalue⟩ := trimBoth_written hwritten htitle
  obtain ⟨c, others, hne, -⟩ := hwritten.exists_cons
  have hline : Text.trim ("name:".toList ++ ' ' :: written) = "name:".toList ++ ' ' :: written := by
    refine Text.trimBoth_eq_self ⟨by simp [Text.isBlank], fun d hd => htrimmed.last d ?_⟩
    simpa [hne] using hd
  have hword : Text.trim ([' '] ++ (written ++ [])) = written :=
    Text.trimBoth_eq (by simp [Text.isBlank]) (by simp) htrimmed
  rw [List.append_nil, List.singleton_append] at hword
  rw [titleOnLine?, hline, Text.after?_append, Option.map_some, hword, hvalue]

/-- A text gives a name on a line `name: value` at the left, after lines of entries with other keys
at any depth, and nothing stands behind the value. -/
inductive NamedOnLine (text : String) (value : List Char) : Prop
  | intro {style : Yaml.Style} {written rest next : List Char} {k : Nat}
    (hreaches : Reaches "name".toList text.toList
      ("name".toList ++ ':' :: ' ' :: (written ++ '\n' :: rest)))
    (hwritten : Written style value written) (htitle : IsTitle value style)
    (hleads : Leads 0 rest k next) (hk : k = 0 ∨ next = [])

namespace NamedOnLine

variable {text : String}

/-- Such a text is listed under its name. -/
theorem title?_eq (h : NamedOnLine text value) : title? text = some (String.ofList value) := by
  obtain @⟨style, written, rest, next, k, hreaches, hwritten, htitle, -, -⟩ := h
  have hline : titleOf? text.toList =
      titleOf? ("name".toList ++ ':' :: ' ' :: (written ++ '\n' :: rest)) := by
    cases hreaches with
    | first hfirst => exact titleOf?_leads hfirst
    | later hfirst hblock hrest =>
      exact (titleOf?_leads hfirst).trans ((titleOf?_block hblock).trans (titleOf?_leads hrest))
  have hsplit : "name".toList ++ ':' :: ' ' :: (written ++ '\n' :: rest) =
      "name:".toList ++ ' ' :: written ++ '\n' :: rest := by simp
  have hnewline : '\n' ∉ "name:".toList ++ ' ' :: written := by
    simp [hwritten.not_mem_newline]
  change titleOf? text.toList = _
  rw [hline, hsplit, titleOf?_line hnewline, titleOnLine?_name hwritten htitle, Option.some_or]

/-- Such a text is read as a theme of its name. -/
theorem name_eq {theme : Theme} (h : NamedOnLine text value) (htheme : ofYaml text = .ok theme) :
    theme.name = String.ofList value := by
  obtain @⟨style, written, rest, next, k, hreaches, hwritten, -, hleads, hk⟩ := h
  unfold ofYaml at htheme
  split at htheme
  · cases htheme
  · next data hdata =>
    obtain ⟨document, hdocument, hdata⟩ := Option.bind_eq_some_iff.mp hdata
    have hentry := Document.hasEntry_of_reaches (by decide) hreaches hwritten hleads hk hdocument
    rw [(ofData_eq_ok htheme).2.2]
    exact ThemeData.name_of_hasEntry hdata hentry

end NamedOnLine

theorem has_of_readText {tree : FileTree} {path : Path} {text : String}
    (h : tree.readText path = .ok text) : tree.has path = true := by
  unfold FileTree.readText at h
  unfold FileTree.has
  split at h
  · cases h
  all_goals simp_all [Except.isOk, Except.toBool]

/-- A theme in a file `id.yaml` is listed once, under the title on the first line of the file that
has one, and is loaded as what the file says as YAML. Title and name are the same if the file gives
the name on a line of its own. -/
theorem listed_title_loaded_name (tree : FileTree) (directory : Path) (id : String) {text : String}
    {theme : Theme} (hid : id ≠ "") (hfile : id ++ ".yaml" ∈ tree.namesIn directory)
    (htext : tree.readText (userFile directory id) = .ok text) (htheme : ofYaml text = .ok theme) :
    (load tree directory id).value = .ok theme ∧
      ((list tree directory).map ThemeEntry.id).count id = 1 ∧
      ∀ entry ∈ list tree directory, entry.id = id →
        entry = ⟨id, (title? text).getD id, .user⟩ ∧
          ∀ value, NamedOnLine text value → entry.title = theme.name := by
  have hload : (load tree directory id).value = .ok theme := by
    rw [load_value, if_pos (has_of_readText htext), ofFile, htext]
    exact htheme
  obtain ⟨files, hshows⟩ := exists_shows tree directory
  have hlisted : ⟨id, (title? text).getD id, .user⟩ ∈ list tree directory := by
    rw [hshows.list_eq, List.mem_append]
    refine Or.inl (List.mem_map.mpr ⟨id ++ ".yaml", hshows.yaml_mem hid hfile, ?_⟩)
    have hjoin : directory.join (id ++ ".yaml") = userFile directory id := rfl
    rw [userEntry, hjoin, htext, (isListed_yaml hid).2]
  have hnodup := nodup_ids_list tree directory
  refine ⟨hload, List.count_eq_one_of_mem hnodup (List.mem_map_of_mem hlisted), ?_⟩
  intro entry hentry hsame
  have hunique : entry = ⟨id, (title? text).getD id, .user⟩ :=
    List.inj_on_of_nodup_map hnodup hentry hlisted hsame
  refine ⟨hunique, fun value hnamed => ?_⟩
  rw [hunique, hnamed.title?_eq, hnamed.name_eq htheme, Option.getD_some]

/-- A theme file with a comment, an entry and a section in front of the name. -/
def duskText : String :=
  "# dusk\nversion: 1\neditor:\n  background: '#2E3440'\nname: Dusk Light\n"

def duskThemes : FileTree where
  entries := [.dir "t" [.file "dusk.yaml" (.text duskText)]]
  here := []

theorem duskText_named : NamedOnLine duskText "Dusk Light".toList := by
  have hversion : Written .plain _ _ :=
    .plain "1".toList [] (by decide) (by simp [isIndicator])
  have hbackground : Written .single _ _ := .quoted true "#2E3440".toList (by decide)
  have hname : Written .plain _ _ :=
    .plain "Dusk".toList ["Light".toList] (by decide) (by simp [isIndicator])
  have hstart {k : Nat} {cs : List Char} (hcs : cs.head?.all (fun c => decide (Begins c)) = true) :
      Leads k cs k cs := .here fun c hc => by simpa [Option.mem_def.mp hc] using hcs
  have hblock : Block "name".toList 0 _
      ("name".toList ++ ':' :: ' ' :: ("Dusk".toList ++ blankBefore ["Light".toList] ++ ['\n'])) :=
    (Block.entry "version".toList (by decide) (by decide) hversion).append (hstart (by decide))
      (.nested "editor".toList (by decide) (by decide) (.blank (.blank (hstart (by decide))))
        (by decide) (.entry "background".toList (by decide) (by decide) hbackground))
  have hreaches := Reaches.later
    (.comment " dusk".toList (by simp [isBreak]) (hstart (by decide))) hblock (hstart (by decide))
  have htitle : IsTitle "Dusk Light".toList .plain :=
    ⟨by simp [Text.isBlank], by simp [Text.isBlank]⟩
  have hlast : Leads 0 [] 0 [] := hstart rfl
  exact .intro (by simpa [duskText, quoteMark] using hreaches) hname htitle hlast (Or.inl rfl)

theorem listed_title_loaded_name_dusk :
    "dusk.yaml" ∈ duskThemes.namesIn ⟨"t"⟩ ∧ NamedOnLine duskText "Dusk Light".toList ∧
      (load duskThemes ⟨"t"⟩ "dusk").value =
        .ok ⟨"Dusk Light", ⟨0x2E, 0x34, 0x40, 0xFF⟩, Category.baseColors⟩ ∧
      ∀ entry ∈ list duskThemes ⟨"t"⟩, entry.id = "dusk" →
        entry.source = .user ∧ entry.title = "Dusk Light" := by
  have htheme : ofYaml duskText =
      .ok ⟨"Dusk Light", ⟨0x2E, 0x34, 0x40, 0xFF⟩, Category.baseColors⟩ := by
    decide +kernel
  obtain ⟨hload, -, hentries⟩ := listed_title_loaded_name duskThemes ⟨"t"⟩ "dusk" (by decide)
    (by decide) (by decide +kernel) htheme
  refine ⟨by decide, duskText_named, hload, fun entry hentry hid => ?_⟩
  obtain ⟨hsame, htitle⟩ := hentries entry hentry hid
  exact ⟨by rw [hsame], htitle _ duskText_named⟩

def daylightText : String :=
  "version: 1\nname: Solar # daylight\neditor:\n  background: \"#FDF6E3\"\n"

def daylightThemes : FileTree where
  entries := [.dir "t" [.file "solar.yaml" (.text daylightText)]]
  here := []

/-- The comment is part of the title and not of the name. -/
theorem daylight_title_ne_name :
    ⟨"solar", "Solar # daylight", .user⟩ ∈ list daylightThemes ⟨"t"⟩ ∧
      (load daylightThemes ⟨"t"⟩ "solar").value =
        .ok ⟨"Solar", ⟨0xFD, 0xF6, 0xE3, 0xFF⟩, Category.baseColors⟩ := by
  have hfiles : listedFiles daylightThemes ⟨"t"⟩ = ["solar.yaml"] := by
    have hlisting : daylightThemes.readDir ⟨"t"⟩ =
      .ok [.file "solar.yaml" (.text daylightText)] := rfl
    rw [listedFiles, hlisting]
    exact List.mergeSort_of_pairwise (by decide)
  refine ⟨?_, by decide +kernel⟩
  rw [list, hfiles]
  decide +kernel

end Theme

end BlockShading
