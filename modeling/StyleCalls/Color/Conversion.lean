import StyleCalls.Color.Space

/-! The palette that colors are adjusted with. Every conversion brings its channels back into their
range; a hue is left as it is. -/

namespace StyleCalls.Color

/-! Bytes -/

/-- A channel given by a byte: the byte times the rounded inverse of 255. -/
def ofByte (n : Nat) : Single := Binary.ofNat n * (1 / 255)

/-- A channel as a byte, a half to the even neighbour. NaN counts as the greatest. -/
def toByte (x : Single) : Nat :=
  match x * 255 with
  | .finite false m e => min 255 (nearestEven (Binary.scale m e) (Binary.scale 1 (-e)))
  | .finite true .. => 0
  | .infinite true => 0
  | _ => 255

theorem toByte_lt (x : Single) : toByte x < 256 := by
  unfold toByte
  split <;> omega

/-! Hue, saturation and lightness -/

def Rgba.clamp (c : Rgba) : Rgba :=
  ⟨c.red.clampUnit, c.green.clampUnit, c.blue.clampUnit, c.alpha.clampUnit⟩

def Hsla.clamp (c : Hsla) : Hsla :=
  ⟨c.hue, c.saturation.clampUnit, c.lightness.clampUnit, c.alpha.clampUnit⟩

/-- The greatest and the least of three channels, with the sixth of the circle that the greatest
one stands for and the difference of the other two, which moves the hue off it. -/
structure Extremes where
  max : Single
  min : Single
  separation : Single
  sixth : Single

def extremes (r g b : Single) : Extremes :=
  let two : Extremes := if g.lt r then ⟨r, g, g - b, 0⟩ else ⟨g, r, b - r, 2⟩
  if two.max.lt b then ⟨b, two.min, r - g, 4⟩
  else if b.lt two.min then { two with min := b }
  else two

def Rgba.toHsla (c : Rgba) : Hsla :=
  let e := extremes c.red c.green c.blue
  let sum := e.max + e.min
  let lightness := sum / 2
  if e.max.compare? e.min = some .eq then Hsla.clamp ⟨0, 0, lightness, c.alpha⟩
  else
    let d := e.max - e.min
    let saturation := if Binary.lt 1 sum then d / (2 - sum) else d / sum
    Hsla.clamp ⟨(e.separation / d + e.sixth) * 60, saturation, lightness, c.alpha⟩

/-- The hue within one turn. Hues too small for full precision count as zero, and so does a full
turn that rounding leaves over. -/
def turn (hue : Single) : Single :=
  let h := hue - (hue / 360).floor * 360
  if h.isSubnormal || Binary.le 360 h then 0 else h

/-- The sixth of the circle that holds a hue given in sixths. -/
def sixth? (h : Single) : Option Nat :=
  (List.range 6).find? fun i => (Binary.ofNat i).le h && h.lt (Binary.ofNat i + 1)

def Hsla.toRgba (c : Hsla) : Rgba :=
  let chroma := (1 - (c.lightness * 2 - 1).abs) * c.saturation
  let h := turn c.hue / 60
  let between := chroma * (1 - ((h - (h * (1 / 2)).floor * 2) - 1).abs)
  let base := c.lightness - chroma * (1 / 2)
  let (r, g, b) : Single × Single × Single := match sixth? h with
    | some 0 => (chroma, between, 0)
    | some 1 => (between, chroma, 0)
    | some 2 => (0, chroma, between)
    | some 3 => (0, between, chroma)
    | some 4 => (between, 0, chroma)
    | _ => (chroma, 0, between)
  Rgba.clamp ⟨r + base, g + base, b + base, c.alpha⟩

theorem alpha_toHsla (c : Rgba) : c.toHsla.alpha = c.alpha.clampUnit := by
  unfold Rgba.toHsla
  simp only
  split <;> rfl

theorem alpha_toRgba (c : Hsla) : c.toRgba.alpha = c.alpha.clampUnit := rfl

def Palette.standard : Palette where
  ofByte := Color.ofByte
  toByte := Color.toByte
  toHsla := Rgba.toHsla
  toRgba := Hsla.toRgba
  shiftHue hue degrees := hue + degrees
  toByte_lt := Color.toByte_lt
  alpha_toHsla := Color.alpha_toHsla
  alpha_toRgba := Color.alpha_toRgba

end StyleCalls.Color
