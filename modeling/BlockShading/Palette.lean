import BlockShading.Blend
import BlockShading.Category

/-!
# Palettes

A palette fixes a background and a color for each category, and holds each color as it looks on
that background. `Palette.render_eq_blendOver` says that the held values are never anything else.
-/

namespace BlockShading

/-- A background, a color for every category, and the colors drawn over the background. -/
structure Palette where
  background : Color
  colors : PerCategory Color
  rendered : PerCategory Rgb
  rendered_eq : rendered = PerCategory.ofFn fun c => (colors.get c).blendOver background
  deriving DecidableEq

namespace Palette

def make (background : Color) (colors : PerCategory Color) : Palette where
  background := background
  colors := colors
  rendered := PerCategory.ofFn fun c => (colors.get c).blendOver background
  rendered_eq := rfl

def stock (background : Color) : Palette := make background Category.baseColors

def render (palette : Palette) (category : Category) : Rgb := palette.rendered.get category

/-- The drawn color of a category is its color over the background. -/
theorem render_eq_blendOver (palette : Palette) (category : Category) :
    palette.render category = (palette.colors.get category).blendOver palette.background := by
  rw [render, palette.rendered_eq, PerCategory.get_ofFn]

end Palette

end BlockShading
