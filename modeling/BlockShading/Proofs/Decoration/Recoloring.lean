import BlockShading.Proofs.Decoration.Runs

/-!
# Passes in other colors

Which spans a node has is settled before any color is looked up, and a palette is only asked for
the color of a category. So passes over the same nodes with two palettes differ in colors and in
nothing else, and the opacity of a background makes no difference at all.
-/

namespace BlockShading

def Decoration.recolor (palette : Palette) (d : Decoration) : Decoration :=
  { d with color := (palette.colors.get d.category).blendOver palette.background }

theorem Palette.render_of_opacity (palette : Palette) (opacity : UInt8) (category : Category) :
    (make { palette.background with a := opacity } palette.colors).render category =
      palette.render category := by
  rw [render_eq_blendOver, render_eq_blendOver]
  rfl

namespace Pass

variable {tree : SyntaxTree} {around : Surroundings} (first second : Palette)

theorem colored_recolor (handle : Handle) :
    Setting.colored ⟨tree, second, around⟩ handle =
      (Setting.colored ⟨tree, first, around⟩ handle).map (Decoration.recolor second) := by
  simp only [Setting.colored]
  cases handle.spans tree around with
  | error error => rfl
  | ok spans =>
    rw [List.map_map]
    rfl

theorem flatMap_colored_recolor (handles : List Handle) :
    handles.flatMap (Setting.colored ⟨tree, second, around⟩) =
      (handles.flatMap (Setting.colored ⟨tree, first, around⟩)).map
        (Decoration.recolor second) := by
  rw [List.map_flatMap]
  congr 1
  funext handle
  exact colored_recolor first second handle

theorem account_eq_of_palettes (handles : List Handle) :
    Setting.account ⟨tree, first, around⟩ handles =
      Setting.account ⟨tree, second, around⟩ handles := by
  simp only [Setting.account, Report.mk.injEq, true_and]
  refine ⟨?_, rfl⟩
  rw [flatMap_colored_recolor first second, List.length_map]

/-- A visit sees nothing of a palette but the colors it gives. -/
theorem visit_congr {first second : Palette}
    (h : ∀ category, first.render category = second.render category) :
    visit ⟨tree, first, around⟩ = visit ⟨tree, second, around⟩ := by
  have hdecorate : Setting.decorate ⟨tree, first, around⟩ =
      Setting.decorate ⟨tree, second, around⟩ := by
    funext span
    simp only [Setting.decorate, h]
  funext state handle
  simp only [visit, hdecorate]

/-- Two passes over the same nodes report the same and draw the same extents, categories and styles
in the same order. The color of a decoration is that of its category over the background of the
palette, whose opacity does not matter. -/
theorem run_recolors (tree : SyntaxTree) (around : Surroundings) (handles : List Handle)
    (drawn : Array Decoration) (first second : Palette) :
    let one := run ⟨tree, first, around⟩ drawn handles
    let other := run ⟨tree, second, around⟩ drawn handles
    one.report = other.report ∧
      (∃ added again : List Decoration,
        one.decorations.toList = drawn.toList ++ added ∧
        other.decorations.toList = drawn.toList ++ again ∧ added.length = again.length ∧
        (∀ (i : Nat) (d e : Decoration), added[i]? = some d → again[i]? = some e →
          d.extent = e.extent ∧ d.category = e.category ∧ d.style = e.style) ∧
        (∀ d ∈ added, d.color = (first.colors.get d.category).blendOver first.background) ∧
        ∀ e ∈ again, e.color = (second.colors.get e.category).blendOver second.background) ∧
      ∀ opacity, run ⟨tree, .make { first.background with a := opacity } first.colors, around⟩
        drawn handles = one := by
  intro one other
  have hcolor : ∀ palette : Palette,
      ∀ d ∈ handles.flatMap (Setting.colored ⟨tree, palette, around⟩),
        d.color = (palette.colors.get d.category).blendOver palette.background := by
    intro palette d hd
    obtain ⟨handle, -, hcolored⟩ := List.mem_flatMap.mp hd
    rw [color_of_mem_colored hcolored]
  have hagain : handles.flatMap (Setting.colored ⟨tree, second, around⟩) =
      (handles.flatMap (Setting.colored ⟨tree, first, around⟩)).map (Decoration.recolor second) :=
    flatMap_colored_recolor first second handles
  refine ⟨?_, ⟨_, _, decorations_run .., decorations_run .., ?_, ?_, hcolor first, hcolor second⟩,
    ?_⟩
  · simp only [one, other, report_run]
    exact account_eq_of_palettes first second handles
  · rw [hagain, List.length_map]
  · intro i d e hd he
    rw [hagain, List.getElem?_map, hd, Option.map_some, Option.some.injEq] at he
    rw [← he]
    exact ⟨rfl, rfl, rfl⟩
  · intro opacity
    simp only [one, run, visit_congr (Palette.render_of_opacity first opacity)]

end Pass

end BlockShading
