import BlockShading.Log
import BlockShading.Theme.Basic

/-!
# Theme sessions

A session holds the palette in use and reacts to changes of the theme. A change of the color scheme
replaces the background and keeps the colors; a theme replaces both. Either asks for everything to
be drawn again, also when the background is the same as before. A palette that was taken from the
session earlier is a value and does not change with it.
-/

namespace BlockShading

/-- The palette in use and the number of times that drawing was asked for. -/
structure ThemeSession where
  palette : Palette
  refreshes : Nat

namespace ThemeSession

def start (palette : Palette) : ThemeSession := ⟨palette, 0⟩

def replace (session : ThemeSession) (palette : Palette) : ThemeSession :=
  { session with palette := palette }

def install (session : ThemeSession) (background : Color) (colors : PerCategory Color) :
    ThemeSession :=
  ⟨Palette.make background colors, session.refreshes + 1⟩

def changeScheme (session : ThemeSession) (background : Color) : Logged (Bool × ThemeSession) :=
  let changed := session.palette.background != background
  let note := if changed then "" else ", unchanged"
  ⟨(changed, session.install background session.palette.colors),
    [Log.note .info .session s!"Scheme changed (background {background.toHex}{note})"]⟩

def applyTheme (session : ThemeSession) (theme : Theme) : Logged ThemeSession :=
  ⟨session.install theme.background theme.blocks,
    [Log.note .info .session s!"Applying theme {theme.name}"]⟩

end ThemeSession

end BlockShading
