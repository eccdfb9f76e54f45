import StyleCalls.Rule.Basic

/-! The rules of a stylesheet. A rule is there for as long as someone holds it; links to a rule that
is not there lead nowhere. -/

namespace StyleCalls

structure Rules where
  table : Table RuleId Rule := ∅
  /-- The index of the next rule to be made. -/
  fresh : Nat := 0

namespace Rules

def get? (rs : Rules) (id : RuleId) : Option Rule := rs.table.get? id

def contains (rs : Rules) (id : RuleId) : Bool := rs.table.contains id

/-- Adds a rule under a new name. -/
def create (rs : Rules) (selector : Text) : RuleId × Rules :=
  (⟨rs.fresh⟩, { table := rs.table.insert ⟨rs.fresh⟩ { selector }, fresh := rs.fresh + 1 })

def modify (rs : Rules) (id : RuleId) (f : Rule → Rule) : Rules :=
  { rs with table := rs.table.modify id f }

/-- Keeps only the rules that someone holds. -/
def retain (rs : Rules) (held : RuleId → Bool) : Rules :=
  { rs with table := rs.table.filterKeys held }

/-- The rule that a link of `id` leads to, if both are there. -/
def follow? (rs : Rules) (link : Rule → Option RuleId) (id : RuleId) : Option RuleId := do
  let target ← link (← rs.get? id)
  if rs.contains target then some target else none

def parent? (rs : Rules) (id : RuleId) : Option RuleId := rs.follow? Rule.parent id

def previous? (rs : Rules) (id : RuleId) : Option RuleId := rs.follow? Rule.previous id

def next? (rs : Rules) (id : RuleId) : Option RuleId := rs.follow? Rule.next id

def setParent (rs : Rules) (id parent : RuleId) : Rules :=
  rs.modify id fun r => { r with parent := some parent }

/-- Makes `next` the sibling after `previous`, whatever links either of them had. -/
def link (rs : Rules) (previous next : RuleId) : Rules :=
  (rs.modify previous fun r => { r with next := some next }).modify next
    fun r => { r with previous := some previous }

/-- At most `steps` times from a rule to its parent. The climb that this stands for has no bound,
and on a circle of parents it does not end; here it stops wherever the steps run out. -/
def climb (rs : Rules) : Nat → RuleId → RuleId
  | 0, id => id
  | steps + 1, id =>
    match rs.parent? id with
    | some parent => climb rs steps parent
    | none => id

/-- The ancestor without a parent. If no rule is its own ancestor, there are no more steps to it
than there are rules. Below a circle of parents there is no such ancestor and a query for it has no
answer; the rule given here is just one of the circle. -/
def top? (rs : Rules) (id : RuleId) : Option RuleId := (rs.parent? id).map (rs.climb rs.table.size)

end Rules
end StyleCalls
