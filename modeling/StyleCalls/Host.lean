import StyleCalls.Color.Model
import StyleCalls.Hook
import StyleCalls.Rule.Tree
import StyleCalls.Selector
import StyleCalls.Text.Quoted

/-! What the surroundings offer to every call. -/

namespace StyleCalls
variable {σ : Type}

/-- Calls may consult rules by selector, subscribers, and the meaning of colors and selectors. None
of it changes while a text is expanded. -/
structure Host (σ : Type) where
  references : Table Text RuleId := ∅
  hooks : Hooks σ := {}
  colors : ColorModel := Color.css
  normalize : Text → Text := Selector.normalize

namespace Host

/-- Files a rule under its selector in normal form. -/
def addReference (host : Host σ) (selector : Text) (rule : RuleId) : Host σ :=
  { host with references := host.references.insert (host.normalize selector) rule }

/-- The selectors that refer to a rule, and the subscribers. -/
def summary (host : Host σ) : Text :=
  "Process \x7b references: \x7b".toList ++
    ", ".toList.intercalate (host.references.keys.map Text.quoted) ++ "\x7d, hooks: ".toList ++
    host.hooks.summary ++ ", .. \x7d".toList

end Host
end StyleCalls
