import StyleCalls.Unicode.Alphabetic
import StyleCalls.Unicode.Mark
import StyleCalls.Unicode.Number
import StyleCalls.Unicode.Recent

/-! Characters that make up words. Names are bounded by `isAlphanumeric`, after Unicode 17.0. Units
and constants inside arithmetic are bounded by `isWord`, which counts joiners too but keeps to
Unicode 16.0: a character that came later ends a word. -/

namespace StyleCalls.Unicode

def isAlphanumeric (c : Char) : Bool := isAlphabetic c || isNumeric c

def isWord (c : Char) : Bool :=
  !isRecent c && (isAlphabetic c || isDecimalDigit c || isJoiner c)

/-- A decimal digit that is part of a word. -/
def isWordDigit (c : Char) : Bool := isWord c && isDecimalDigit c

end StyleCalls.Unicode
