import StyleCalls.Pattern.Basic
import StyleCalls.Text.Quoted

/-! A pattern written as a regular expression. -/

namespace StyleCalls.Pattern

/-- The characters with a meaning of their own in regular expressions. -/
def special : Text := "\\.+*?()|[]\x7b\x7d^$#&-~".toList

def literal (name : Text) : Text := name.flatMap fun c => if c ∈ special then ['\\', c] else [c]

def alternatives (names : List Text) : Text := ['|'].intercalate (names.map literal)

def identSource (p : Pattern) : Text :=
  "-?(?P<function>".toList ++ alternatives p.idents ++ [')']

def symbolSource (p : Pattern) : Text :=
  "(?P<simple_function>".toList ++ alternatives p.symbols ++ [')']

def source (p : Pattern) : Text :=
  "(?i)".toList ++
    (if p.symbols.isEmpty then p.identSource
      else if p.idents.isEmpty then p.symbolSource
      else "(?:".toList ++ p.identSource ++ ['|'] ++ p.symbolSource ++ [')']) ++
    "\\(".toList

def summary (p : Pattern) : Text :=
  "FunctionPattern \x7b src: ".toList ++ Text.quoted p.source ++ ", names: ".toList ++
    Nat.toDigits 10 p.size ++ " \x7d".toList

end StyleCalls.Pattern
