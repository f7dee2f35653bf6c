import BlockShading.Command.Output
import BlockShading.Proofs.Color.Hex
import BlockShading.Proofs.Text.Positions

/-!
# Reading decorations off their lines

A line of output has the path, two positions, the name of a category and a color. Each of them ends
where a mark stands that it cannot hold itself, or after a fixed number of characters, and the path
is the same in every line. So a line tells its decoration wherever it stands in the output, also if
the path holds line breaks. Main statement: the text printed for a file tells its decorations, and
so what would be printed of them as JSON.
-/

namespace BlockShading

namespace Text

/-- Two words in front of a mark that neither holds are the same if the texts are. -/
theorem append_cons_inj {p : Char → Bool} {a b x y : List Char} {mark : Char}
    (ha : ∀ c ∈ a, p c = true) (hb : ∀ c ∈ b, p c = true) (hmark : p mark = false) :
    a ++ mark :: x = b ++ mark :: y ↔ a = b ∧ x = y := by
  constructor
  · intro h
    have hword := congrArg (List.takeWhile p) h
    rw [List.takeWhile_append_of_pos ha, List.takeWhile_append_of_pos hb] at hword
    obtain rfl : a = b := by simpa [hmark] using hword
    simpa using h
  · rintro ⟨rfl, rfl⟩
    rfl

theorem toDigits_append_cons_inj {m n : Nat} {x y : List Char} {mark : Char}
    (hmark : mark.isDigit = false) :
    Nat.toDigits 10 m ++ mark :: x = Nat.toDigits 10 n ++ mark :: y ↔ m = n ∧ x = y := by
  have hdigits : ∀ k, ∀ c ∈ Nat.toDigits 10 k, c.isDigit = true := fun k c hc =>
    Nat.isDigit_of_mem_toDigits (by decide) (by decide) hc
  rw [append_cons_inj (hdigits m) (hdigits n) hmark]
  refine and_congr_left fun _ => ⟨fun h => ?_, fun h => by rw [h]⟩
  have hvalue := congrArg (Nat.ofDigitChars 10 · 0) h
  simpa using hvalue

/-- Texts written one after the other tell what was written, if each can be told from whatever
follows it. -/
theorem flatMap_inj_of_append_inj {α : Type} {write : α → List Char} {valid : α → Prop}
    (hwrite : ∀ {a b x y}, valid a → valid b → write a ++ x = write b ++ y → a = b ∧ x = y)
    (hne : ∀ a, write a ≠ []) {xs ys : List α} (hxs : ∀ a ∈ xs, valid a)
    (hys : ∀ b ∈ ys, valid b) (h : xs.flatMap write = ys.flatMap write) : xs = ys := by
  induction xs generalizing ys with
  | nil =>
    cases ys with
    | nil => rfl
    | cons b ys => simp [hne b] at h
  | cons a xs ih =>
    cases ys with
    | nil => simp [hne a] at h
    | cons b ys =>
      rw [List.flatMap_cons, List.flatMap_cons] at h
      obtain ⟨rfl, hrest⟩ := hwrite (hxs a List.mem_cons_self) (hys b List.mem_cons_self) h
      rw [ih (fun c hc => hxs c (List.mem_cons_of_mem a hc))
        (fun c hc => hys c (List.mem_cons_of_mem a hc)) hrest]

end Text

theorem Category.name_append_cons_inj {a b : Category} {x y : List Char} :
    a.name.toList ++ ' ' :: x = b.name.toList ++ ' ' :: y ↔ a = b ∧ x = y := by
  have hletters : ∀ c : Category, ∀ letter ∈ c.name.toList, (letter != ' ') = true := by
    intro c
    apply List.all_eq_true.mp
    cases c <;> rfl
  have hname : ∀ c d : Category, c.name.toList = d.name.toList ↔ c = d := by
    intro c d
    cases c <;> cases d <;> simp [name]
  rw [Text.append_cons_inj (hletters a) (hletters b) (by decide), hname]

/-- Whether a decoration is a stretch of a text and is drawn in the usual style. -/
structure Decoration.LiesIn (lines : LineIndex) (d : Decoration) : Prop where
  ordered : d.extent.start ≤ d.extent.stop
  inText : d.extent.stop ≤ lines.size
  style : d.style = .default

namespace Command

open Text

variable {path : Path} {lines : LineIndex} {a b : Nat} {d e : Decoration} {x y : List Char}

theorem toList_positionText (lines : LineIndex) (offset : Nat) :
    (positionText lines offset).toList =
      Nat.toDigits 10 ((lines.position offset).1 + 1) ++
        ':' :: Nat.toDigits 10 ((lines.position offset).2 + 1) := by
  simp [positionText, toString]

theorem toList_line (path : Path) (lines : LineIndex) (d : Decoration) :
    (endLine (decorationLine path lines d)).toList =
      path.text.toList ++ ':' :: ((positionText lines d.extent.start).toList ++
        '-' :: ((positionText lines d.extent.stop).toList ++
          ' ' :: (d.category.name.toList ++ ' ' :: (d.color.toHex.toList ++ ['\n'])))) := by
  simp [endLine, decorationLine, toString]

theorem positionText_append_cons_inj {mark : Char} (hmark : mark.isDigit = false)
    (ha : a ≤ lines.size) (hb : b ≤ lines.size) :
    (positionText lines a).toList ++ mark :: x = (positionText lines b).toList ++ mark :: y ↔
      a = b ∧ x = y := by
  rw [← lines.position_inj ha hb, Prod.ext_iff]
  simp only [toList_positionText, List.append_assoc, List.cons_append]
  rw [toDigits_append_cons_inj (by decide), toDigits_append_cons_inj hmark,
    Nat.add_right_cancel_iff, Nat.add_right_cancel_iff, and_assoc]

/-- A line tells its decoration, whatever follows the line. -/
theorem line_append_inj (hd : d.LiesIn lines) (he : e.LiesIn lines)
    (h : (endLine (decorationLine path lines d)).toList ++ x =
      (endLine (decorationLine path lines e)).toList ++ y) : d = e ∧ x = y := by
  -- The path is the same in both lines; then each part ends at the mark behind it.
  have hdstart := Nat.le_trans hd.ordered hd.inText
  have hestart := Nat.le_trans he.ordered he.inText
  simp only [toList_line, List.append_assoc, List.cons_append, List.append_cancel_left_eq,
    List.cons.injEq, true_and] at h
  rw [positionText_append_cons_inj (by decide) hdstart hestart,
    positionText_append_cons_inj (by decide) hd.inText he.inText, Category.name_append_cons_inj,
    Rgb.toHex_append_inj] at h
  obtain ⟨hstart, hstop, hcategory, hcolor, hrest⟩ := h
  have hstyle := hd.style.trans he.style.symm
  refine ⟨?_, (List.cons.inj hrest).2⟩
  obtain ⟨⟨_, _⟩, _, _, _⟩ := d
  obtain ⟨⟨_, _⟩, _, _, _⟩ := e
  simp only at hstart hstop hcategory hcolor hstyle
  rw [hstart, hstop, hcategory, hcolor, hstyle]

theorem toList_textOutput (path : Path) (lines : LineIndex) (decorations : List Decoration) :
    (textOutput path lines decorations).toList =
      decorations.flatMap fun d => (endLine (decorationLine path lines d)).toList := by
  simp [textOutput, List.flatMap_map]

/-- The text printed for a file tells its decorations, and with them the JSON of any file that has
them. -/
theorem textOutput_tells_decorations (path : Path) (lines : LineIndex)
    {first second : List Decoration} (hfirst : ∀ d ∈ first, d.LiesIn lines)
    (hsecond : ∀ d ∈ second, d.LiesIn lines) :
    (textOutput path lines first = textOutput path lines second ↔ first = second) ∧
      (textOutput path lines first = textOutput path lines second →
        ∀ file skipped, jsonOutput file first skipped = jsonOutput file second skipped) := by
  have hsame : textOutput path lines first = textOutput path lines second → first = second := by
    intro h
    rw [← String.toList_inj, toList_textOutput, toList_textOutput] at h
    refine flatMap_inj_of_append_inj line_append_inj ?_ hfirst hsecond h
    intro d
    simp [toList_line]
  refine ⟨⟨hsame, fun h => by rw [h]⟩, fun h file skipped => ?_⟩
  rw [hsame h]

/-- A decoration that ends in the middle of a line break, or after it. -/
def acrossBreak (stop : Nat) : Decoration := ⟨⟨1, stop⟩, ⟨45, 19, 27⟩, .condition, .default⟩

/-- The path looks like the end of a line and the beginning of the next one. -/
theorem textOutput_tells_decorations_acrossBreak :
    let lines := LineIndex.ofString "a\r\né"
    let path : Path := ⟨"x:1:2-1:3 condition #2D131B\nx"⟩
    (∀ stop ∈ [2, 3, 4, 5], (acrossBreak stop).LiesIn lines) ∧
      lines.position 2 = (0, 2) ∧ lines.position 3 = (1, 0) ∧
      textOutput path lines [acrossBreak 2, acrossBreak 3] ≠
        textOutput path lines [acrossBreak 3, acrossBreak 2] := by
  intro lines path
  have hlies : ∀ stop ∈ [2, 3, 4, 5], (acrossBreak stop).LiesIn lines := by
    intro stop hstop
    refine ⟨?_, ?_, rfl⟩ <;> revert stop <;> decide
  refine ⟨hlies, by decide, by decide, fun h => ?_⟩
  have hfirst : ∀ d ∈ [acrossBreak 2, acrossBreak 3], d.LiesIn lines := by
    simp [hlies]
  have hsecond : ∀ d ∈ [acrossBreak 3, acrossBreak 2], d.LiesIn lines := by
    simp [hlies]
  have hsame := (textOutput_tells_decorations path lines hfirst hsecond).1.mp h
  exact absurd hsame (by decide)

end Command

end BlockShading
