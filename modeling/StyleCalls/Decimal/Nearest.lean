import StyleCalls.Binary.Basic
import StyleCalls.Decimal.Basic

/-! The binary number nearest to a decimal one. -/

namespace StyleCalls.Decimal
variable {F : Format}

/-- From this power of ten on, and below its inverse, every number of either format has ended. -/
def horizon : Int := 400

def toBinary (d : Decimal) : Binary F :=
  if d.digits = 0 then .zero d.neg
  else if horizon < d.leading then .infinite d.neg
  else if d.leading < -horizon then .zero d.neg
  else .ofRatio d.neg (d.digits * Nat.pow 10 d.exp.toNat) (Nat.pow 10 (-d.exp).toNat)

end StyleCalls.Decimal
