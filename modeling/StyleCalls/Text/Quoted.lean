import StyleCalls.Text.Basic
import StyleCalls.Unicode.Hidden

/-! Text between quotation marks, written so that every character can be told from the page. -/

namespace StyleCalls.Text

/-- A character inside `mark`s. Common controls have letters of their own, the backslash and the
mark a backslash before them, and what cannot be read appears by its code. -/
def escaped (mark c : Char) : Text :=
  if c = '\t' then ['\\', 't']
  else if c = '\n' then ['\\', 'n']
  else if c = '\r' then ['\\', 'r']
  else if c = '\x00' then ['\\', '0']
  else if c = '\\' || c = mark then ['\\', c]
  else if Unicode.isHidden c then "\\u\x7b".toList ++ Nat.toDigits 16 c.toNat ++ ['\x7d']
  else [c]

def quoted (t : Text) : Text := '"' :: t.flatMap (escaped '"') ++ ['"']

def quotedChar (c : Char) : Text := '\'' :: escaped '\'' c ++ ['\'']

end StyleCalls.Text
