import StyleCalls.Rule.Box
import StyleCalls.Table

/-! Rules: declarations under a selector, the values read from them, and links to other rules. -/

namespace StyleCalls

/-- The name of a rule. No two rules ever made share one. -/
structure RuleId where
  index : Nat
deriving DecidableEq

/-- A rule shows its values twice: as declared so far, and as they were when it was processed. -/
inductive View where
  | declared
  | processed
deriving DecidableEq

/-- Links are only names; the rule that a link names may be gone. -/
structure Rule where
  selector : Text
  declarations : List (Text × Text) := []
  parent : Option RuleId := none
  previous : Option RuleId := none
  next : Option RuleId := none
  declared : Table Text Text := ∅
  processedValues : Table Text Text := ∅
  isProcessed : Bool := false

namespace Rule

def values (r : Rule) : View → Table Text Text
  | .declared => r.declared
  | .processed => r.processedValues

def setValues (r : Rule) (values : Table Text Text) : View → Rule
  | .declared => { r with declared := values }
  | .processed => { r with processedValues := values }

/-- Of several declarations of one property the last one counts. -/
def declare (r : Rule) (property value : Text) : Rule :=
  { r with
    declarations := r.declarations ++ [(property, value)]
    declared := r.declared.insert property value }

/-- Takes over the declarations, the first time only. -/
def process (r : Rule) : Rule :=
  if r.isProcessed then r
  else
    { r with
      isProcessed := true
      processedValues := r.processedValues.insertAll r.declarations }

/-- Fills in a longhand from its shorthand, unless the property has a value of its own. -/
def expand (r : Rule) (view : View) (property : Text) : Rule :=
  let values := r.values view
  if values.contains property then r
  else
    let value := do
      let (box, side) ← BoxProperty.ofLonghand? property
      BoxProperty.valueFor? side (← values.get? box.shorthand)
    match value with
    | some v => r.setValues (values.insert property v) view
    | none => r

def value? (r : Rule) (view : View) (property : Text) : Option Text :=
  (r.values view).get? property

end Rule
end StyleCalls
