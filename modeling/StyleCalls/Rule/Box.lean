import StyleCalls.Text.Basic

/-! Box properties: shorthands for all four sides and the longhands of one side. -/

namespace StyleCalls

inductive Side where
  | top
  | right
  | bottom
  | left
deriving DecidableEq

def Side.all : List Side := [top, right, bottom, left]

def Side.name : Side → Text
  | top => "top".toList
  | right => "right".toList
  | bottom => "bottom".toList
  | left => "left".toList

inductive BoxProperty where
  | margin
  | padding
  | borderWidth
  | borderStyle
  | borderColor
deriving DecidableEq

namespace BoxProperty

def all : List BoxProperty := [margin, padding, borderWidth, borderStyle, borderColor]

def shorthand : BoxProperty → Text
  | margin => "margin".toList
  | padding => "padding".toList
  | borderWidth => "border-width".toList
  | borderStyle => "border-style".toList
  | borderColor => "border-color".toList

def longhand : BoxProperty → Side → Text
  | margin, s => "margin-".toList ++ s.name
  | padding, s => "padding-".toList ++ s.name
  | borderWidth, s => "border-".toList ++ s.name ++ "-width".toList
  | borderStyle, s => "border-".toList ++ s.name ++ "-style".toList
  | borderColor, s => "border-".toList ++ s.name ++ "-color".toList

/-- The box property and side that a longhand in any case stands for. -/
def ofLonghand? (property : Text) : Option (BoxProperty × Side) :=
  all.findSome? fun b => Side.all.findSome? fun s =>
    if property.eqIgnoringAsciiCase (b.longhand s) then some (b, s) else none

/-- The part of a shorthand value that is meant for a side: of one value all sides take it, of two
the first is vertical, of three the second is horizontal, and four go around from the top. -/
def valueFor? (side : Side) (value : Text) : Option Text :=
  match Text.pieces Unicode.isBlank value, side with
  | [a], _ => some a
  | [v, _], .top => some v
  | [v, _], .bottom => some v
  | [_, h], _ => some h
  | [t, _, _], .top => some t
  | [_, _, b], .bottom => some b
  | [_, h, _], _ => some h
  | [t, _, _, _], .top => some t
  | [_, r, _, _], .right => some r
  | [_, _, b, _], .bottom => some b
  | [_, _, _, l], .left => some l
  | _, _ => none

end BoxProperty
end StyleCalls
