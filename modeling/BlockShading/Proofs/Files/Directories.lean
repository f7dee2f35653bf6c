import BlockShading.FileTree
import BlockShading.Proofs.Text.Words

/-!
# Entries of a directory by their paths

A name that is joined to the path of a directory adds one segment to it, whether or not the path
ends in a slash. Main statement: what such a path leads to is an entry of the directory that has
this name.
-/

namespace BlockShading

namespace Path

structure IsName (name : String) : Prop where
  no_slash : '/' ∉ name.toList
  ne_empty : name ≠ ""
  ne_here : name ≠ "."
  ne_up : name ≠ ".."

instance (name : String) : Decidable (IsName name) :=
  decidable_of_iff ('/' ∉ name.toList ∧ name ≠ "" ∧ name ≠ "." ∧ name ≠ "..")
    ⟨fun h => ⟨h.1, h.2.1, h.2.2.1, h.2.2.2⟩,
      fun h => ⟨h.no_slash, h.ne_empty, h.ne_here, h.ne_up⟩⟩

/-- A path with a name joined to it has the name as one more segment; an empty last segment of the
path gives way to it. -/
theorem segments_join {base : Path} {name : String} (hname : '/' ∉ name.toList)
    (hbase : base.text ≠ "") :
    (base.join name).isAbsolute = base.isAbsolute ∧
      ∃ front, (base.segments = front ∨ base.segments = front ++ [""]) ∧
        (base.join name).segments = front ++ [name] := by
  have hrelative : name.toList.head? ≠ some '/' := fun h => hname (List.mem_of_head? h)
  have hchars : base.text.toList ≠ [] := by simpa using hbase
  have hhead : ∀ more, (base.text.toList ++ more).head? = base.text.toList.head? := by
    obtain ⟨c, cs, hcs⟩ := List.exists_cons_of_ne_nil hchars
    simp [hcs]
  have hlast : Text.splitOn '/' name.toList = [name.toList] := Text.splitOn_of_not_mem hname
  unfold join
  rw [if_neg hrelative]
  by_cases hslash : base.text.toList.getLast? = some '/'
  · rw [if_pos (Or.inr hslash)]
    obtain ⟨front, hfront⟩ := List.getLast?_eq_some_iff.mp hslash
    refine ⟨?_, (Text.splitOn '/' front).map String.ofList, Or.inr ?_, ?_⟩
    · simp [isAbsolute, hhead]
    · simp [segments, hfront, Text.splitOn_append_cons, Text.splitOn]
    · simp [segments, hfront, Text.splitOn_append_cons, hlast]
  · rw [if_neg (by simp [hbase, hslash])]
    refine ⟨?_, base.segments, Or.inl rfl, ?_⟩
    · simp [isAbsolute, hhead]
    · simp [segments, Text.splitOn_append_cons, hlast]

end Path

namespace FileTree

variable {tree : FileTree} {place found : List String} {directory : Path} {name : String}
  {entries : List Entry} {entry : Entry}

/-- Segments are followed one part after the other. -/
theorem follow_append (xs ys : List String) :
    tree.follow place (xs ++ ys) = (tree.follow place xs).bind fun middle =>
      tree.follow middle ys := by
  induction xs generalizing place with
  | nil => rfl
  | cons segment rest ih =>
    simp only [List.cons_append, follow, ih]
    split
    · rfl
    · rfl
    · split
      · rfl
      · split
        · rfl
        · split
          · rfl
          · split <;> rfl

theorem follow_empty (h : tree.follow place [""] = .ok found) : found = place := by
  unfold follow at h
  split at h
  · cases h
  · cases h
  · cases h
    rfl

theorem follow_name (hname : Path.IsName name) (h : tree.follow place [name] = .ok found) :
    found = place ++ [name] := by
  unfold follow at h
  split at h
  · cases h
  · cases h
  · rw [if_neg (by simp [hname.ne_empty, hname.ne_here]), if_neg hname.ne_up] at h
    split at h
    · cases h
    · split at h
      · cases h
      · cases h
        rfl

/-- What is one name further down from a directory is an entry of it with that name. -/
theorem find?_append_single {inner : List Entry} {directoryName : String} {names : List String}
    (h : Entry.find? entries names = some (.dir directoryName inner)) (name : String) :
    Entry.find? entries (names ++ [name]) = inner.find? fun e => e.name == name := by
  induction names generalizing entries with
  | nil => cases h
  | cons next rest ih =>
    cases rest with
    | nil =>
      rw [Entry.find?] at h
      simp only [List.cons_append, List.nil_append, Entry.find?, h]
    | cons second others =>
      rw [Entry.find?] at h
      · rw [List.cons_append, List.cons_append, Entry.find?]
        · split at h
          · next found => exact ih h
          · cases h
        · simp
      · simp

theorem entryAt?_append_single {directoryName : String}
    (h : tree.entryAt? place = some (.dir directoryName entries)) (name : String) :
    tree.entryAt? (place ++ [name]) = entries.find? fun e => e.name == name := by
  cases place with
  | nil =>
    cases h
    rfl
  | cons first rest => exact find?_append_single h name

theorem locate_eq_ok {path : Path} (h : tree.locate path = .ok place) :
    path.text ≠ "" ∧ tree.follow (tree.origin path) path.segments = .ok place := by
  unfold locate at h
  split at h
  · cases h
  · next hfault =>
    refine ⟨fun hempty => ?_, h⟩
    simp [fault?, hempty] at hfault

/-- The path of a directory with a name joined to it leads one name further down. -/
theorem locate_join (hname : Path.IsName name) (hdirectory : tree.locate directory = .ok place)
    (h : tree.locate (directory.join name) = .ok found) : found = place ++ [name] := by
  obtain ⟨hbase, hplace⟩ := locate_eq_ok hdirectory
  obtain ⟨-, hfound⟩ := locate_eq_ok h
  obtain ⟨habsolute, front, hfront, hjoined⟩ := Path.segments_join hname.no_slash hbase
  have horigin : tree.origin (directory.join name) = tree.origin directory := by
    rw [origin, origin, habsolute]
  have hmiddle : tree.follow (tree.origin directory) front = .ok place := by
    rcases hfront with hfront | hfront
    · rwa [hfront] at hplace
    · -- An empty last segment stays in the directory.
      rw [hfront, follow_append] at hplace
      cases hstart : tree.follow (tree.origin directory) front with
      | error e =>
        rw [hstart] at hplace
        cases hplace
      | ok middle =>
        rw [hstart] at hplace
        rw [follow_empty hplace]
  rw [horigin, hjoined, follow_append, hmiddle] at hfound
  exact follow_name hname hfound

/-- What is found under a name in a directory is one of its entries and has that name. -/
theorem entry_join (hname : Path.IsName name) (hdirectory : tree.readDir directory = .ok entries)
    (h : tree.entry (directory.join name) = .ok entry) : entry ∈ entries ∧ entry.name = name := by
  unfold readDir at hdirectory
  split at hdirectory
  · cases hdirectory
  · cases hdirectory
  next hentry =>
  cases hdirectory
  unfold FileTree.entry at hentry h
  split at hentry
  · cases hentry
  next place hplace =>
  split at h
  · cases h
  next found hfound =>
  split at hentry
  next hdir =>
    cases hentry
    rw [locate_join hname hplace hfound, entryAt?_append_single hdir] at h
    split at h
    next hfind =>
      cases h
      exact ⟨List.mem_of_find?_eq_some hfind, by simpa using List.find?_some hfind⟩
    next => cases h
  next => cases hentry

end FileTree

end BlockShading
