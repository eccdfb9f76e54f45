import StyleCalls.Arith.Expr
import StyleCalls.Binary.Arith

/-! The value of an expression, if every part of it has a finite one. -/

namespace StyleCalls.Arith

def finite (x : Double) : Except Error Double := if x.isFinite then .ok x else .error .notFinite

def Op.apply : Op → Double → Double → Except Error Double
  | add, x, y => .ok (x + y)
  | sub, x, y => .ok (x - y)
  | mul, x, y => .ok (x * y)
  | div, x, y => if y.isZero then .error .divisionByZero else .ok (x / y)

namespace Expr

def eval : Expr → Except Error Double
  | num x => finite x
  | neg e => do finite (-(← e.eval))
  | binary op l r => do
    let x ← l.eval
    let y ← r.eval
    finite (← op.apply x y)

def evalText (source : Text) : Except Error Double := do (← parse source).eval

end Expr
end StyleCalls.Arith
