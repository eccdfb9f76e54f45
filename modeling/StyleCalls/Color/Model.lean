import StyleCalls.Color.Conversion
import StyleCalls.Color.Delta
import StyleCalls.Color.Notation

/-! What color adjustment needs to know about colors. -/

namespace StyleCalls

/-- `test` tells colors from other text; `adjust` moves the channels of a color. -/
structure ColorModel where
  test : Text → Bool
  adjust : Text → Deltas → Text

namespace Color

/-- Percentage points as a part of one, computed in double precision. -/
def points (d : Delta) : Single := (d / 100).convert

/-- The hue turns by degrees, the other channels move by percentage points within their range. -/
def Hsla.adjust (P : Palette) (c : Hsla) (d : Deltas) : Hsla :=
  ⟨P.shiftHue c.hue d.h.convert, (c.saturation + points d.s).clampUnit,
    (c.lightness + points d.l).clampUnit, (c.alpha + points d.a).clampUnit⟩

def Rgba.adjust (P : Palette) (c : Rgba) (d : Deltas) : Rgba :=
  P.toRgba ((P.toHsla c).adjust P d)

/-- Colors as stylesheets write them. Text that is no color stays as it is. -/
def model (P : Palette) : ColorModel where
  test t := (read? P t).isSome
  adjust t d := match read? P t with
    | some c => write P (c.adjust P d)
    | none => t

/-- The colors of a host that brings no model of its own. -/
def css : ColorModel := model .standard

end Color
end StyleCalls
