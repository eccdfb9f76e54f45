import StyleCalls.Host

/-! Where a call happens: what it may read and what it may change. -/

namespace StyleCalls
variable {σ : Type}

/-- Where a call stands: the function being expanded and the declaration around it. -/
structure Context where
  function : Option Text := none
  property : Option Text := none
  rule : Option RuleId := none

def Context.summary (c : Context) : Text :=
  let optional : Option Text → Text
    | none => "None".toList
    | some t => "Some(".toList ++ Text.quoted t ++ [')']
  "Context \x7b function: ".toList ++ optional c.function ++ ", property: ".toList ++
    optional c.property ++ ", rule: ".toList ++
    (if c.rule.isSome then "true" else "false").toList ++ " \x7d".toList

/-- What calls may read and change: the context, if there is one, the rules, and whatever the
functions and subscribers keep in mind. -/
structure Setting (σ : Type) where
  context : Option Context
  rules : Rules
  memory : σ

namespace Setting

/-- Marks the start of a call. -/
def enter (s : Setting σ) (function : Text) : Setting σ :=
  { s with context := s.context.map fun c => { c with function := some function } }

def property? (s : Setting σ) : Option Text := s.context.bind Context.property

def rule? (s : Setting σ) : Option RuleId := s.context.bind Context.rule

/-- Drops the rules that are held neither from outside nor by the context nor as a reference. Links
do not hold rules. -/
def release (s : Setting σ) (host : Host σ) (owned : List RuleId) : Setting σ :=
  let referenced := host.references.entries.map Prod.snd
  { s with rules := s.rules.retain fun id =>
      owned.contains id || referenced.contains id || s.rule? == some id }

end Setting
end StyleCalls
