import BlockShading.Proofs.Text.Words
import BlockShading.Theme.Catalog

/-!
# Titles of files

A line shows a title if without white space around it begins with `name:`; the title is the rest
without white space around it, then without double quotes and then without single quotes. A file is
listed under the title on the first of its lines that shows one, and under its stem if there is no
such line or the file has no text.
-/

namespace BlockShading.Theme

variable {line : List Char} {title : String}

/-- Whether a line shows a title, step by step as the title is freed of what is around it. -/
def LineShows (line : List Char) (title : String) : Prop :=
  ∃ rest value bare, Text.Trims Text.isBlank line ("name:".toList ++ rest) ∧
    Text.Trims Text.isBlank rest value ∧ Text.Trims (· == '\x22') value bare ∧
    Text.Trims (· == '\x27') bare title.toList

theorem lineShows_iff : LineShows line title ↔ titleOnLine? line = some title := by
  rw [titleOnLine?, Option.map_eq_some_iff]
  constructor
  · rintro ⟨rest, value, bare, hline, hvalue, hbare, htitle⟩
    refine ⟨rest, ?_, ?_⟩
    · rw [Text.trim, Text.trims_iff.mp hline, Text.after?_append]
    · rw [Text.trim, Text.trims_iff.mp hvalue, Text.trims_iff.mp hbare, Text.trims_iff.mp htitle,
        String.ofList_toList]
  · rintro ⟨rest, hafter, rfl⟩
    have hline : Text.trim line = "name:".toList ++ rest := Text.eq_append_of_after? hafter
    refine ⟨rest, _, _, Text.trims_iff.mpr hline, Text.trims_trimBoth .., Text.trims_trimBoth ..,
      ?_⟩
    rw [String.toList_ofList]
    exact Text.trims_trimBoth ..

theorem titleOnLine?_eq_none_iff : titleOnLine? line = none ↔ ∀ title, ¬ LineShows line title := by
  simp only [lineShows_iff, Option.eq_none_iff_forall_ne_some, ne_eq]

/-- The title that a file is listed under, by what can be read of it and its stem. -/
inductive FileTitle (read : Except FileError String) (stem : String) : String → Prop
  | shown {text title : String} {before after : List (List Char)} {line : List Char}
      (htext : read = .ok text) (hlines : Text.Parts '\n' text.toList (before ++ line :: after))
      (hbefore : ∀ earlier ∈ before, ∀ other, ¬ LineShows earlier other)
      (hline : LineShows line title) : FileTitle read stem title
  | untitled {text : String} {lines : List (List Char)} (htext : read = .ok text)
      (hlines : Text.Parts '\n' text.toList lines)
      (hnone : ∀ line ∈ lines, ∀ other, ¬ LineShows line other) : FileTitle read stem stem
  | unread {cause : FileError} (hcause : read = .error cause) : FileTitle read stem stem

theorem fileTitle_userEntry (tree : FileTree) (directory : Path) (name : String) :
    FileTitle (tree.readText (directory.join name)) (stemOf name)
      (userEntry tree directory name).title := by
  unfold userEntry
  cases hread : tree.readText (directory.join name) with
  | error cause => exact .unread rfl
  | ok text =>
    have hlines := Text.parts_splitOn '\n' text.toList
    change FileTitle _ _ ((title? text).getD (stemOf name))
    cases htitle : title? text with
    | none =>
      refine .untitled rfl hlines fun line hline => titleOnLine?_eq_none_iff.mp ?_
      exact List.findSome?_eq_none_iff.mp htitle line hline
    | some title =>
      obtain ⟨before, line, after, hsplit, hline, hbefore⟩ := List.findSome?_eq_some_iff.mp htitle
      exact .shown rfl (hsplit ▸ hlines) (fun earlier hearlier =>
        titleOnLine?_eq_none_iff.mp (hbefore earlier hearlier)) (lineShows_iff.mpr hline)

end BlockShading.Theme
