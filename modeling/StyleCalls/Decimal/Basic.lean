import StyleCalls.Text.Basic

/-! Decimal numerals, positional and with an exponent. -/

namespace StyleCalls

/-- `digits · 10 ^ exp`, negated if `neg`. -/
structure Decimal where
  neg : Bool
  digits : Nat
  exp : Int
deriving DecidableEq

namespace Decimal

def isDigit (c : Char) : Bool := '0' ≤ c && c ≤ '9'

def valueOf (t : Text) : Nat := t.foldl (fun n c => 10 * n + (c.toNat - '0'.toNat)) 0

def digitsOf (n : Nat) : Text := Nat.toDigits 10 n

/-- A sign in front, and what follows it. -/
def readSign : Text → Bool × Text
  | '+' :: t => (false, t)
  | '-' :: t => (true, t)
  | t => (false, t)

/-- The longest run of digits with at most one point: whole part, fraction and the rest. -/
def readRun (t : Text) : Text × Text × Text :=
  match t.dropWhile isDigit with
  | '.' :: rest => (t.takeWhile isDigit, rest.takeWhile isDigit, rest.dropWhile isDigit)
  | rest => (t.takeWhile isDigit, [], rest)

/-- `none` where there is no digit on either side of the point. -/
def ofRun? (neg : Bool) (whole fraction : Text) (exp : Int) : Option Decimal :=
  if whole.isEmpty && fraction.isEmpty then none
  else some ⟨neg, valueOf (whole ++ fraction), exp - fraction.length⟩

/-- The exponent after the digits, zero if the text ends there. -/
def readExponent? : Text → Option Int
  | [] => some 0
  | c :: t =>
    let (neg, ds) := readSign t
    if (c = 'e' || c = 'E') && !ds.isEmpty && ds.all isDigit then
      some (if neg then -(valueOf ds : Int) else valueOf ds)
    else none

/-- A whole text as a numeral: sign, digits with at most one point, exponent. -/
def read? (t : Text) : Option Decimal := do
  let (neg, t) := readSign t
  let (whole, fraction, rest) := readRun t
  ofRun? neg whole fraction (← readExponent? rest)

/-- The power of ten of the first digit. -/
def leading (d : Decimal) : Int := d.exp + (digitsOf d.digits).length - 1

/-- Digits and point without an exponent, and without a point for a whole number. -/
def positional (d : Decimal) : Text :=
  let ds := digitsOf d.digits
  if 0 ≤ d.exp then ds ++ List.replicate d.exp.toNat '0'
  else
    let places := (-d.exp).toNat
    if ds.length ≤ places then ['0', '.'] ++ List.replicate (places - ds.length) '0' ++ ds
    else ds.take (ds.length - places) ++ ['.'] ++ ds.drop (ds.length - places)

/-- One digit before the point, the power of ten after an `e`. -/
def scientific (d : Decimal) : Text :=
  let exponent :=
    if d.leading < 0 then '-' :: digitsOf d.leading.natAbs else digitsOf d.leading.natAbs
  match digitsOf d.digits with
  | [] => []
  | [c] => c :: 'e' :: exponent
  | c :: ds => c :: '.' :: ds ++ 'e' :: exponent

end Decimal
end StyleCalls
