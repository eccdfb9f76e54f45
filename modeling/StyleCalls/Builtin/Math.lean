import StyleCalls.Arguments
import StyleCalls.Arith.Eval
import StyleCalls.Unicode.Word

/-! Arithmetic inside stylesheets: `math(expression, unit)`. -/

namespace StyleCalls.Math

/-- Whether a word begins or ends between two characters, either of which may be missing. -/
def isWordEdge (before after : Option Char) : Bool :=
  before.any Unicode.isWord != after.any Unicode.isWord

def pi : Text := "3.141592653589793".toList

/-- Writes out the word `pi`, in any case. -/
def expandPi (before : Option Char) : Text → Text
  | p :: i :: t =>
    if (p = 'p' || p = 'P') && (i = 'i' || i = 'I') && isWordEdge before (some p) &&
        isWordEdge (some i) t.head? then
      pi ++ expandPi (some i) t
    else p :: expandPi (some p) (i :: t)
  | t => t

/-- The unit at the start of a text: a percent sign, or a word of two to four ASCII letters. -/
def unitAt? : Text → Option Text
  | '%' :: _ => some ['%']
  | t =>
    let letters := t.takeWhile Char.isAlpha
    let next := (t.dropWhile Char.isAlpha).head?
    if 2 ≤ letters.length && letters.length ≤ 4 && !next.any Unicode.isWord then some letters
    else none

/-- The unit of the number at the start of a text. The number ends in a digit. -/
def numberUnit? (t : Text) : Option Text :=
  let (_, t) := Decimal.readSign t
  let whole := t.takeWhile Unicode.isWordDigit
  match t.dropWhile Unicode.isWordDigit with
  | '.' :: t =>
    if (t.takeWhile Unicode.isWordDigit).isEmpty then none
    else unitAt? (t.dropWhile Unicode.isWordDigit)
  | t => if whole.isEmpty then none else unitAt? t

/-- The unit of the first number that has one, of those that start at the edge of a word. -/
def firstUnit? (before : Option Char) : Text → Option Text
  | [] => none
  | c :: t =>
    (if isWordEdge before (some c) then numberUnit? (c :: t) else none) <|> firstUnit? (some c) t

def isArithmetic (c : Char) : Bool :=
  c.isDigit || c = '.' || c = '/' || c = '*' || c = '(' || c = ')' || c = '+' || c = '-'

/-- Five decimal places, as far as scaling does not overflow; never a negative zero. -/
def round5 (x : Double) : Double :=
  let r := (x * 100000).round / 100000
  if !r.isFinite then x else if r.isZero then 0 else r

/-- The value of all that is arithmetic in a text; zero if that is no expression. -/
def value (expression : Text) : Double :=
  match Arith.Expr.evalText ((expandPi none expression).filter isArithmetic) with
  | .ok x => round5 x
  | .error _ => 0

/-- The unit is the second argument, or else that of the first number that has one. -/
def run (input : Text) : Text :=
  let args := Arguments.split .commas input
  let expression := args.headD []
  let unit := args[1]?.getD ((firstUnit? none expression).getD [])
  (value expression).text ++ unit

end StyleCalls.Math
