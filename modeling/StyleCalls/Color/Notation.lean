import StyleCalls.Color.Space
import StyleCalls.Decimal.Nearest
import StyleCalls.Decimal.Shortest

/-! How stylesheets write colors: `#rgb` and its longer forms, keywords, `rgb()` and `hsl()`. -/

namespace StyleCalls.Color
variable (P : Palette)

def opaqueOf (r g b : Nat) : Rgba := ⟨P.ofByte r, P.ofByte g, P.ofByte b, 1⟩

def keywords : List (String × Nat × Nat × Nat) := [
  ("black", 0x00, 0x00, 0x00), ("silver", 0xC0, 0xC0, 0xC0), ("gray", 0x80, 0x80, 0x80),
  ("grey", 0x80, 0x80, 0x80), ("white", 0xFF, 0xFF, 0xFF), ("maroon", 0x80, 0x00, 0x00),
  ("red", 0xFF, 0x00, 0x00), ("purple", 0x80, 0x00, 0x80), ("fuchsia", 0xFF, 0x00, 0xFF),
  ("green", 0x00, 0x80, 0x00), ("lime", 0x00, 0xFF, 0x00), ("olive", 0x80, 0x80, 0x00),
  ("yellow", 0xFF, 0xFF, 0x00), ("navy", 0x00, 0x00, 0x80), ("blue", 0x00, 0x00, 0xFF),
  ("teal", 0x00, 0x80, 0x80), ("aqua", 0x00, 0xFF, 0xFF)]

def ofKeyword? (t : Text) : Option Rgba :=
  if t = "transparent".toList then some ⟨0, 0, 0, 0⟩
  else (keywords.find? (·.1.toList = t)).map fun (_, r, g, b) => opaqueOf P r g b

def hexDigit? (c : Char) : Option Nat :=
  if '0' ≤ c && c ≤ '9' then some (c.toNat - '0'.toNat)
  else if 'a' ≤ c && c ≤ 'f' then some (c.toNat - 'a'.toNat + 10)
  else none

/-- The digits after `#`: one or two for each channel, those of alpha last and optional. -/
def ofHex? (t : Text) : Option Rgba := do
  let withAlpha (c : Rgba) (a : Nat) : Rgba := { c with alpha := Binary.ofNat a / 255 }
  match ← t.mapM hexDigit? with
  | [r, g, b] => some (opaqueOf P (17 * r) (17 * g) (17 * b))
  | [r, g, b, a] => some (withAlpha (opaqueOf P (17 * r) (17 * g) (17 * b)) (17 * a))
  | [r, r', g, g', b, b'] => some (opaqueOf P (16 * r + r') (16 * g + g') (16 * b + b'))
  | [r, r', g, g', b, b', a, a'] =>
    some (withAlpha (opaqueOf P (16 * r + r') (16 * g + g') (16 * b + b')) (16 * a + a'))
  | _ => none

def number? (t : Text) : Option Single := do
  let x : Single := (← Decimal.read? t).toBinary
  if x.isFinite then some x else none

/-- A percentage as a part of one, and any other number divided by `whole`. -/
def portion? (whole : Single) (t : Text) : Option Single :=
  match Text.before? ['%'] t with
  | some t => (number? t).map fun x => (x / 100).clampUnit
  | none => (number? t).map fun x => (x / whole).clampUnit

/-- The text without any number of copies of `stop` at its end. -/
def dropEnds (stop : Text) (t : Text) : Text := go t.length t
where
  go : Nat → Text → Text
    | 0, t => t
    | n + 1, t =>
      match Text.before? stop t with
      | some t => go n t
      | none => t

/-- A percentage by its number; the sign may be repeated or left out. -/
def percent? (t : Text) : Option Single :=
  (number? (dropEnds ['%'] t)).map fun x => (x / 100).clampUnit

def isSeparator (c : Char) : Bool := c = ',' || c = '/' || Unicode.isBlank c

/-- The color of a functional notation with three channels and alpha. -/
def ofChannels? (function x y z : Text) (alpha : Single) : Option Rgba := do
  if function = "rgb".toList || function = "rgba".toList then
    return ⟨← portion? 255 x, ← portion? 255 y, ← portion? 255 z, alpha⟩
  else if function = "hsl".toList || function = "hsla".toList then
    return P.toRgba ⟨← number? (dropEnds "deg".toList x), ← percent? y, ← percent? z, alpha⟩
  else none

/-- Functional notation: the last parenthesis ends the text, and commas, slashes and blanks all
separate. -/
def ofFunction? (t : Text) : Option Rgba :=
  match t.span (· != '(') with
  | (function, _ :: inner) => do
    match Text.pieces isSeparator (← Text.before? [')'] inner) with
    | [x, y, z] => ofChannels? P (Text.trim function) x y z 1
    | [x, y, z, a] => ofChannels? P (Text.trim function) x y z (← portion? 1 a)
    | _ => none
  | (_, []) => none

/-- Reads a color in any case and between any blanks. -/
def read? (t : Text) : Option Rgba :=
  match Text.asciiLower (Text.trim t) with
  | '#' :: hex => ofHex? P hex
  | t => ofKeyword? P t <|> ofFunction? P t

def hexByte (n : Nat) : Text :=
  [Nat.digitChar (n / 16), Nat.digitChar (n % 16)]

/-- `#rrggbb` if nothing shines through, else `rgba()` with alpha to three places. -/
def write (c : Rgba) : Text :=
  let (r, g, b) := (P.toByte c.red, P.toByte c.green, P.toByte c.blue)
  if Binary.le 1 c.alpha then '#' :: hexByte r ++ hexByte g ++ hexByte b
  else
    let alpha := (c.alpha * 1000).round / 1000
    "rgba(".toList ++ [','].intercalate
      [Decimal.digitsOf r, Decimal.digitsOf g, Decimal.digitsOf b, alpha.text] ++ [')']

end StyleCalls.Color
