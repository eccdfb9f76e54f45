import StyleCalls.Binary.Arith
import StyleCalls.Decimal.Nearest

/-! Offsets of color channels. -/

namespace StyleCalls

abbrev Delta := Double

/-- The number that the text begins with, after blanks; zero if there is none. Whatever follows
the number, such as a unit, does not matter. -/
def Delta.parse (t : Text) : Delta :=
  let (neg, t) := Decimal.readSign (Text.trimStart t)
  let (whole, fraction, _) := Decimal.readRun t
  match Decimal.ofRun? neg whole fraction 0 with
  | some d => d.toBinary
  | none => 0

structure Deltas where
  h : Delta := 0
  s : Delta := 0
  l : Delta := 0
  a : Delta := 0
deriving DecidableEq

end StyleCalls
