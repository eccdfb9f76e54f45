/-! Binary floating-point numbers. Each operation is the exact one followed by one rounding, to the
nearest number of the format and to an even mantissa between two equally near. -/

namespace StyleCalls

/-- Mantissas have at most `precision` bits; the last place weighs `2 ^ minExp` to `2 ^ maxExp`. -/
structure Format where
  precision : Nat
  minExp : Int
  maxExp : Int
deriving DecidableEq

def Format.double : Format := ⟨53, -1074, 971⟩

def Format.single : Format := ⟨24, -149, 104⟩

/-- `finite neg m e` stands for `m · 2 ^ e`, negated if `neg`. Zero has a sign too. -/
inductive Binary (F : Format) where
  | nan
  | infinite (neg : Bool)
  | finite (neg : Bool) (mantissa : Nat) (exponent : Int)
deriving DecidableEq

abbrev Double := Binary .double

abbrev Single := Binary .single

/-- `n / d` to the nearest integer, a half to the even neighbour. -/
def nearestEven (n d : Nat) : Nat :=
  let q := n / d
  let twice := 2 * (n % d)
  if twice < d || twice = d && q % 2 = 0 then q else q + 1

/-- `n / d` to the nearest integer, a half upwards. -/
def nearestUp (n d : Nat) : Nat := (2 * n + d) / (2 * d)

def ceilDiv (n d : Nat) : Nat := (n + (d - 1)) / d

namespace Binary
variable {F : Format}

/-- `n · 2 ^ k` for `k` at least zero, else `n`: of a quotient, one side scaled by `k` and the other
by `-k` make a factor of `2 ^ k`. -/
def scale (n : Nat) (k : Int) : Nat := n * Nat.pow 2 k.toNat

def zero (neg : Bool) : Binary F := .finite neg 0 F.minExp

/-- The exponent of the last place of a positive quotient: the least one of the format for which
the mantissa is below `2 ^ precision`. -/
def lastPlace (F : Format) (num den : Nat) : Int :=
  let k : Int := num.log2 - den.log2
  let e := k - F.precision
  max F.minExp (if scale num (-k) < scale den k then e else e + 1)

/-- The number of the format nearest to `num / den`. -/
def ofRatio (neg : Bool) (num den : Nat) : Binary F :=
  if num = 0 then zero neg
  else
    let e := lastPlace F num den
    let m := nearestEven (scale num (-e)) (scale den e)
    let (m, e) := if m = Nat.pow 2 F.precision then (Nat.pow 2 (F.precision - 1), e + 1) else (m, e)
    if F.maxExp < e then .infinite neg else .finite neg m e

/-- The number of the format nearest to `m · 2 ^ e`. -/
def ofDyadic (neg : Bool) (m : Nat) (e : Int) : Binary F := ofRatio neg (scale m e) (scale 1 (-e))

def ofNat (n : Nat) : Binary F := ofRatio false n 1

instance (n : Nat) : OfNat (Binary F) n := ⟨ofNat n⟩

def isFinite : Binary F → Bool
  | finite .. => true
  | _ => false

end Binary
end StyleCalls
