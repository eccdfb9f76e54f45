import StyleCalls.Arguments
import StyleCalls.Setting

/-! Values of other rules and of the current one. -/

namespace StyleCalls.Query
variable {σ : Type}

/-- An identifier of ASCII letters, digits, hyphens and underscores, after an optional hyphen. -/
def isPlainName (t : Text) : Bool :=
  match (Text.after? ['-'] t).getD t with
  | [] => false
  | c :: t => (c.isAlpha || c = '_') && t.all fun c => c.isAlphanum || c = '-' || c = '_'

/-- The rule that a target names, seen from the current one. Plain names are looked up as they are,
other selectors in normal form. For `top` no rule may be its own ancestor (see `Rules.top?`). -/
def target? (host : Host σ) (s : Setting σ) (target : Text) : Option RuleId :=
  let target := if isPlainName target then target else host.normalize target
  let word := target.asciiLower
  if word = "parent".toList then s.rule?.bind s.rules.parent?
  else if word = "previous".toList then s.rule?.bind s.rules.previous?
  else if word = "next".toList then s.rule?.bind s.rules.next?
  else if word = "top".toList then s.rule?.bind s.rules.top?
  else host.references.get? target

/-- Reads a property of a rule, after expanding it. -/
def read (s : Setting σ) (id : RuleId) (view : View) (property : Text) :
    Option Text × Setting σ :=
  let rules := s.rules.modify id fun r => r.expand view property
  ((rules.get? id).bind fun r => r.value? view property, { s with rules })

/-- The property asked for, or the current one if there is no word for it or the word `default`. -/
def propertyOf (word : Option Text) (current : Text) : Text :=
  match word with
  | some w => if w.eqIgnoringAsciiCase "default".toList then current else w
  | none => current

/-- `query(target, property, fallback)`: a property of the processed target. The fallback also
stands in for an empty value. -/
def run (host : Host σ) (input : Text) (s : Setting σ) : Text × Setting σ :=
  match s.property?, Arguments.split .commas input with
  | some current, target :: args =>
    let property := propertyOf args.head? current
    let (found, s) := match target? host s target with
      | some id => read { s with rules := s.rules.modify id Rule.process } id .processed property
      | none => (none, s)
    let value := found.getD []
    (if value.isEmpty then args[1]?.getD [] else value, s)
  | _, _ => ([], s)

/-- `this(property, fallback)`: a property of the current rule. -/
def runThis (input : Text) (s : Setting σ) : Text × Setting σ :=
  let (property, fallback) := Arguments.uncons input
  match s.rule? with
  | some id =>
    let (found, s) := read s id .declared property
    ((found <|> fallback).getD [], s)
  | none => ([], s)

end StyleCalls.Query
