import StyleCalls.Binary.Basic
import StyleCalls.Decimal.Basic

/-! The shortest decimal that reads back as a given binary number, and the texts made from it. -/

namespace StyleCalls.Binary
variable {F : Format}

/-- Compares `c · 10 ^ k` with `n · 2 ^ j`. -/
def compareDecimal (c : Nat) (k : Int) (n : Nat) (j : Int) : Ordering :=
  compare (c * Nat.pow 10 k.toNat * Nat.pow 2 (-j).toNat)
    (n * Nat.pow 2 j.toNat * Nat.pow 10 (-k).toNat)

/-- Whether `c · 10 ^ k` rounds to `m · 2 ^ e`. The numbers that do reach halfway to the neighbour
on either side; the neighbour below a power of two is only half a place away. -/
def readsBack (F : Format) (m : Nat) (e : Int) (c : Nat) (k : Int) : Bool :=
  let low := if m = Nat.pow 2 (F.precision - 1) && F.minExp < e then 4 * m - 1 else 4 * m - 2
  let fromLow := compareDecimal c k low (e - 2)
  let fromHigh := compareDecimal c k (4 * m + 2) (e - 2)
  if m % 2 = 0 then fromLow != .lt && fromHigh != .gt else fromLow = .gt && fromHigh = .lt

/-- The multiple of `10 ^ k` that reads back, the nearer of two, and the greater of two equally
near. -/
def onGrid? (F : Format) (m : Nat) (e k : Int) : Option Nat :=
  let num := m * Nat.pow 2 e.toNat * Nat.pow 10 (-k).toNat
  let den := Nat.pow 2 (-e).toNat * Nat.pow 10 k.toNat
  let below := num / den
  match readsBack F m e below k, readsBack F m e (below + 1) k with
  | true, true => some (if 2 * (num % den) < den then below else below + 1)
  | true, false => some below
  | false, true => some (below + 1)
  | false, false => none

/-- Grids from just above the number down to beyond its seventeenth digit. -/
def grids (m : Nat) (e : Int) : List Int :=
  let digits n : Int := (Decimal.digitsOf n).length
  let top := digits (scale m e) - digits (scale 1 (-e)) + 1
  (List.range 20).map fun (i : Nat) => top - i

/-- The point of the coarsest grid that has one, which is the decimal of fewest digits. -/
def shortest (F : Format) (neg : Bool) (m : Nat) (e : Int) : Decimal :=
  match (grids m e).findSome? fun k => (onGrid? F m e k).map fun c => (c, k) with
  | some (c, k) => ⟨neg, c, k⟩
  | none => ⟨neg, scale m e * Nat.pow 5 (-e).toNat, min e 0⟩

def sign (neg : Bool) : Text := if neg then ['-'] else []

/-- The shortest decimal without an exponent. -/
def text : Binary F → Text
  | nan => "NaN".toList
  | infinite s => sign s ++ "inf".toList
  | finite s m e => sign s ++ if m = 0 then ['0'] else (shortest F s m e).positional

/-- The shortest decimal, always with a point or an exponent: from `1e16` on and below `0.0001`
with an exponent. -/
def pointedText : Binary F → Text
  | finite s m e =>
    sign s ++
      if m = 0 then "0.0".toList
      else
        let d := shortest F s m e
        if d.leading < -4 || 16 ≤ d.leading then d.scientific
        else if 0 ≤ d.exp then d.positional ++ ['.', '0']
        else d.positional
  | x => x.text

end StyleCalls.Binary
