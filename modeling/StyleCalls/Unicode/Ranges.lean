/-! Sets of characters, each written as an ascending list of code point ranges. -/

namespace StyleCalls.Unicode

/-- Ranges with both ends included, in ascending order. -/
abbrev Ranges := List (Nat × Nat)

/-- Membership. The order lets the search stop at the first range beyond the character. -/
def Ranges.holds (c : Char) : Ranges → Bool
  | [] => false
  | (lo, hi) :: rest => if c.toNat < lo then false else c.toNat ≤ hi || holds c rest

end StyleCalls.Unicode
