import StyleCalls.Text.Basic

/-! Selectors in normal form: one space between compounds, combinators between spaces, a space
after each comma of a list, and text in brackets or parentheses as it was. -/

namespace StyleCalls.Selector

/-- A normal form under construction, its last character first. -/
structure Draft where
  written : Text
  depth : Nat
  pendingBlank : Bool

namespace Draft

def dropSpaces (t : Text) : Text := t.dropWhile (· = ' ')

def opens (c : Char) : Bool := c = '[' || c = '('

def closes (c : Char) : Bool := c = ']' || c = ')'

def isCombinator (c : Char) : Bool := c = '>' || c = '+' || c = '~'

/-- A pending blank becomes one space, but none at the start or after another space. -/
def spaced (d : Draft) : Text :=
  if d.pendingBlank && !d.written.isEmpty && d.written.head? != some ' ' then ' ' :: d.written
  else d.written

def push (d : Draft) (c : Char) : Draft :=
  if 0 < d.depth then
    ⟨c :: d.written, if opens c then d.depth + 1 else if closes c then d.depth - 1 else d.depth,
      d.pendingBlank⟩
  else if Unicode.isBlank c then { d with pendingBlank := true }
  else if isCombinator c then ⟨' ' :: c :: ' ' :: dropSpaces d.written, 0, false⟩
  else if c = ',' then ⟨' ' :: ',' :: dropSpaces d.written, 0, false⟩
  else ⟨c :: d.spaced, if opens c then 1 else 0, false⟩

def finish (d : Draft) : Text := (dropSpaces d.written).reverse

end Draft

def normalize (raw : Text) : Text := (raw.trim.foldl Draft.push ⟨[], 0, false⟩).finish

end StyleCalls.Selector
