import StyleCalls.Decimal.Shortest
import StyleCalls.Text.Quoted

/-! Tokens of arithmetic, and what can go wrong with them. -/

namespace StyleCalls.Arith

inductive Token where
  | number (value : Double)
  | plus
  | minus
  | star
  | slash
  | leftParen
  | rightParen
  | unknown (byte : UInt8)
deriving DecidableEq

/-- A token as error messages show it; an unknown byte as the character of that code. -/
def Token.text : Token → Text
  | number x => "Num(".toList ++ x.pointedText ++ [')']
  | plus => "Plus".toList
  | minus => "Minus".toList
  | star => "Star".toList
  | slash => "Slash".toList
  | leftParen => "LParen".toList
  | rightParen => "RParen".toList
  | unknown b => "Unknown(".toList ++ Text.quotedChar (Char.ofNat b.toNat) ++ [')']

inductive Error where
  | unexpectedToken (token : Token)
  | unexpectedEnd
  | invalidNumber (numeral : Text)
  | divisionByZero
  | notFinite
deriving DecidableEq

def Error.message : Error → Text
  | unexpectedToken t => "unexpected token ".toList ++ Text.quoted t.text
  | unexpectedEnd => "unexpected end of expression".toList
  | invalidNumber n => "invalid number ".toList ++ Text.quoted n
  | divisionByZero => "division by zero".toList
  | notFinite => "result is not finite".toList

end StyleCalls.Arith
