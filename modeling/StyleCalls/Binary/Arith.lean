import StyleCalls.Binary.Basic

/-! Sums, products and quotients of binary numbers, their order, and the integers near them. -/

namespace StyleCalls.Binary
variable {F G : Format}

def negate : Binary F → Binary F
  | nan => nan
  | infinite s => infinite !s
  | finite s m e => finite (!s) m e

def abs : Binary F → Binary F
  | nan => nan
  | infinite _ => infinite false
  | finite _ m e => finite false m e

/-- The mantissa with its sign, in units of `2 ^ k` for `k` at most the exponent. -/
def units (neg : Bool) (m : Nat) (e k : Int) : Int :=
  if neg then -(scale m (e - k) : Int) else scale m (e - k)

/-- A sum that is exactly zero is positive, unless both terms are negative. -/
def add : Binary F → Binary F → Binary F
  | nan, _ => nan
  | _, nan => nan
  | infinite s, infinite t => if s = t then infinite s else nan
  | infinite s, finite .. => infinite s
  | finite .., infinite t => infinite t
  | finite s m e, finite t n f =>
    let k := min e f
    let sum := units s m e k + units t n f k
    if sum = 0 then zero (s && t) else ofDyadic (sum < 0) sum.natAbs k

def mul : Binary F → Binary F → Binary F
  | nan, _ => nan
  | _, nan => nan
  | infinite s, infinite t => infinite (s != t)
  | infinite s, finite t n _ => if n = 0 then nan else infinite (s != t)
  | finite s m _, infinite t => if m = 0 then nan else infinite (s != t)
  | finite s m e, finite t n f => ofDyadic (s != t) (m * n) (e + f)

def div : Binary F → Binary F → Binary F
  | nan, _ => nan
  | _, nan => nan
  | infinite _, infinite _ => nan
  | infinite s, finite t _ _ => infinite (s != t)
  | finite s _ _, infinite t => zero (s != t)
  | finite s m e, finite t n f =>
    if n = 0 then (if m = 0 then nan else infinite (s != t))
    else ofRatio (s != t) (scale m (e - f)) (scale n (f - e))

instance : Neg (Binary F) := ⟨negate⟩
instance : Add (Binary F) := ⟨add⟩
instance : Sub (Binary F) := ⟨fun x y => x + -y⟩
instance : Mul (Binary F) := ⟨mul⟩
instance : Div (Binary F) := ⟨div⟩

/-- Order by value, the two zeros equal. Nothing compares with NaN. -/
def compare? : Binary F → Binary F → Option Ordering
  | nan, _ => none
  | _, nan => none
  | infinite s, infinite t => some (if s = t then .eq else if s then .lt else .gt)
  | infinite s, finite .. => some (if s then .lt else .gt)
  | finite .., infinite t => some (if t then .gt else .lt)
  | finite s m e, finite t n f =>
    some (compare (units s m e (min e f)) (units t n f (min e f)))

def lt (x y : Binary F) : Bool := compare? x y = some .lt

def le (x y : Binary F) : Bool := lt x y || compare? x y = some .eq

def isZero : Binary F → Bool
  | finite _ m _ => m = 0
  | _ => false

/-- Nonzero, but too small for a full mantissa. -/
def isSubnormal : Binary F → Bool
  | finite _ m _ => 0 < m && m < Nat.pow 2 (F.precision - 1)
  | _ => false

/-- The value brought into `[0, 1]`; a negative zero and NaN stay what they are. -/
def clampUnit (x : Binary F) : Binary F := if x.lt 0 then 0 else if lt 1 x then 1 else x

/-- The integer that `pick` chooses for the magnitude, under the sign of the number. -/
def toInteger (pick : Nat → Nat → Nat) : Binary F → Binary F
  | finite s m e => if 0 ≤ e then finite s m e else ofRatio s (pick m (scale 1 (-e))) 1
  | x => x

def floor : Binary F → Binary F
  | x@(finite true ..) => toInteger ceilDiv x
  | x => toInteger (· / ·) x

/-- The nearest integer, a half away from zero. -/
def round (x : Binary F) : Binary F := toInteger nearestUp x

/-- The nearest number of another format. -/
def convert : Binary F → Binary G
  | nan => nan
  | infinite s => infinite s
  | finite s m e => ofDyadic s m e

end StyleCalls.Binary
