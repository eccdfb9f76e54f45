import StyleCalls.Arguments
import StyleCalls.Setting

/-! Functions that calls run. -/

namespace StyleCalls
variable {σ : Type}

/-- Takes arguments and answers with text, in a setting that it may change. Everything about calls
takes it for granted that callbacks answer. -/
abbrev Callback (σ α : Type) := Host σ → α → Setting σ → Text × Setting σ

/-- A function sees the text between its parentheses as it is, or cut at its commas. -/
inductive Function (σ : Type) where
  | raw (run : Callback σ Text)
  | parsedArgs (run : Callback σ (List Text))

namespace Function

def invoke (f : Function σ) (host : Host σ) (args : Text) (s : Setting σ) : Text × Setting σ :=
  match f with
  | raw run => run host args s
  | parsedArgs run => run host (Arguments.split .commas args) s

def summary : Function σ → Text
  | raw _ => "Function::Raw".toList
  | parsedArgs _ => "Function::ParsedArgs".toList

end Function
end StyleCalls
