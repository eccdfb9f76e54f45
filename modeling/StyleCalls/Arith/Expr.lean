import StyleCalls.Arith.Scan

/-! Expressions, read from tokens by an automaton that takes one token at a time. Signs bind
tighter than products, products tighter than sums, and both associate to the left. -/

namespace StyleCalls.Arith

inductive Op where
  | add
  | sub
  | mul
  | div
deriving DecidableEq

def Op.symbol : Op → Char
  | add => '+'
  | sub => '-'
  | mul => '*'
  | div => '/'

inductive Expr where
  | num (value : Double)
  | neg (operand : Expr)
  | binary (op : Op) (left right : Expr)
deriving DecidableEq

namespace Expr

/-- Operator first, in parentheses. -/
def text : Expr → Text
  | num x => x.text
  | neg e => "(neg ".toList ++ e.text ++ [')']
  | binary op l r => ['(', op.symbol, ' '] ++ l.text ++ [' '] ++ r.text ++ [')']

end Expr

/-- A left operand with its operator, waiting for the right one. -/
abbrev Pending := Option (Expr × Op)

def Pending.apply (p : Pending) (e : Expr) : Expr :=
  match p with
  | none => e
  | some (l, op) => .binary op l e

/-- What stands before an operand inside one pair of parentheses: a sum, a product, and the minus
signs of the operand itself. -/
structure Frame where
  sum : Pending
  product : Pending
  negations : Nat

def Frame.empty : Frame := ⟨none, none, 0⟩

/-- Where the automaton is: before an operand, or after a term. The frames of the parentheses
around it are listed from the inside out. -/
inductive ParseState where
  | operand (frame : Frame) (outer : List Frame)
  | term (sum : Pending) (term : Expr) (outer : List Frame)

namespace ParseState

def start : ParseState := operand .empty []

/-- The state after a complete operand: its signs and the product it belongs to are applied. -/
def complete (f : Frame) (outer : List Frame) (e : Expr) : ParseState :=
  term f.sum (f.product.apply (Nat.repeat Expr.neg f.negations e)) outer

def step : ParseState → Token → Except Error ParseState
  | operand f outer, .number x => .ok (complete f outer (.num x))
  | operand f outer, .minus => .ok (operand { f with negations := f.negations + 1 } outer)
  | operand f outer, .plus => .ok (operand f outer)
  | operand f outer, .leftParen => .ok (operand .empty (f :: outer))
  | term s e outer, .plus => .ok (operand ⟨some (s.apply e, .add), none, 0⟩ outer)
  | term s e outer, .minus => .ok (operand ⟨some (s.apply e, .sub), none, 0⟩ outer)
  | term s e outer, .star => .ok (operand ⟨s, some (e, .mul), 0⟩ outer)
  | term s e outer, .slash => .ok (operand ⟨s, some (e, .div), 0⟩ outer)
  | term s e (f :: outer), .rightParen => .ok (complete f outer (s.apply e))
  | _, t => .error (.unexpectedToken t)

def finish : ParseState → Except Error Expr
  | term s e [] => .ok (s.apply e)
  | _ => .error .unexpectedEnd

end ParseState

namespace Expr

def ofTokens (ts : List Token) : Except Error Expr := do
  (← ts.foldlM ParseState.step .start).finish

/-- The source is cut into tokens as a whole before any of it is parsed. -/
def parse (source : Text) : Except Error Expr := do ofTokens (← Token.scan source)

end Expr
end StyleCalls.Arith
