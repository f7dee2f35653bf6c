import BlockShading.Color
import BlockShading.Rounding

/-!
# Drawing a translucent color over a background

Each channel of the result is the mean of the color's and the background's channel, weighted by
the color's opacity. The mean is computed on the scale from zero to one with 24 significant
binary digits, every step rounded, and the result is the nearest channel value.
-/

namespace BlockShading

namespace Blend

/-- Every intermediate value keeps 24 significant binary digits. -/
def round (q : Rat) : Rat := Rounding.toDigits 24 q

def unit (value : UInt8) : Rat := round ((value.toNat : Rat) / 255)

def clamp (q : Rat) : Rat := if q < 0 then 0 else if 255 < q then 255 else q

def weighted (value background opacity : UInt8) : Rat :=
  let alpha := unit opacity
  let mean := round (round (unit value * alpha) + round (unit background * round (1 - alpha)))
  clamp (round (round (mean * 255) + mkRat 1 2))

/-- One channel drawn with the given opacity over one channel of the background. -/
def channel (value background opacity : UInt8) : UInt8 :=
  (weighted value background opacity).floor.toNat.toUInt8

end Blend

namespace Color

/-- Draws a color over a background, whose own opacity does not matter. -/
def blendOver (color background : Color) : Rgb where
  r := Blend.channel color.r background.r color.a
  g := Blend.channel color.g background.g color.a
  b := Blend.channel color.b background.b color.a

end Color

end BlockShading
