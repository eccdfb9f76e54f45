import StyleCalls.Binary.Arith

/-! Colors by red, green and blue and by hue, saturation and lightness, in single precision, and
what it takes to go from one to the other. -/

namespace StyleCalls.Color

/-- All channels from 0 to 1. -/
structure Rgba where
  red : Single
  green : Single
  blue : Single
  alpha : Single
deriving DecidableEq

/-- The hue in degrees, any number of turns; the other channels from 0 to 1. -/
structure Hsla where
  hue : Single
  saturation : Single
  lightness : Single
  alpha : Single
deriving DecidableEq

/-- What is asked of a library of colors: channels for bytes and bytes for channels, the way from one
kind of color to the other and back, and a hue moved by degrees. Conversions keep alpha, but for
bringing it into its range. -/
structure Palette where
  ofByte : Nat → Single
  toByte : Single → Nat
  toHsla : Rgba → Hsla
  toRgba : Hsla → Rgba
  shiftHue : Single → Single → Single
  toByte_lt : ∀ x, toByte x < 256
  alpha_toHsla : ∀ c, (toHsla c).alpha = c.alpha.clampUnit
  alpha_toRgba : ∀ c, (toRgba c).alpha = c.alpha.clampUnit

end StyleCalls.Color
