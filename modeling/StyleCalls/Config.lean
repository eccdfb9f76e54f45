/-! Options of expansion. -/

namespace StyleCalls

/-- What happens to a call of a name that no function has. -/
inductive Unresolved where
  | remove
  | keep
deriving DecidableEq

structure Config where
  builtins : Bool := false
  unresolved : Unresolved := .remove
  ignoreCase : Bool := false
deriving DecidableEq

end StyleCalls
