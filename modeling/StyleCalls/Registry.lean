import StyleCalls.Builtin.Basic

/-! Functions by name. -/

namespace StyleCalls
variable {σ : Type}

/-- Names that were removed are retired, not forgotten: patterns still recognise them. Each change
of the registry raises its version. -/
structure Registry (σ : Type) where
  entries : Table Text (Function σ) := ∅
  retired : List Text := []
  version : Nat := 0

namespace Registry

def names (r : Registry σ) : List Text := r.entries.keys

/-- Names for patterns to recognise, the registered ones first. -/
def patternNames (r : Registry σ) : List Text := r.names ++ r.retired

/-- Registers a function. One that takes the place of another keeps its position. -/
def add (r : Registry σ) (name : Text) (f : Function σ) : Registry σ :=
  { entries := r.entries.insert name f
    retired := r.retired.filter (· ≠ name)
    version := r.version + 1 }

def contains (r : Registry σ) (name : Text) : Bool := r.entries.contains name

/-- Retires a name, if it is registered. -/
def remove (r : Registry σ) (name : Text) : Registry σ :=
  if r.contains name then
    { entries := r.entries.erase name
      retired := r.retired ++ [name]
      version := r.version + 1 }
  else r

def get? (r : Registry σ) (name : Text) : Option (Function σ) := r.entries.get? name

/-- Puts the functions of the library first, except that a function registered under one of their
names stays in use. -/
def activateBuiltins (r : Registry σ) : Registry σ :=
  let first := Builtin.all.map fun b => (b.name, (r.get? b.name).getD b.function)
  { entries := Table.insertAll ∅ (first ++ r.entries.entries)
    retired := r.retired.filter fun name => (Builtin.ofName? name).isNone
    version := r.version + 1 }

/-- The function of exactly this name or, if case does not matter, the first one whose name differs
in ASCII case alone. -/
def resolve (r : Registry σ) (name : Text) (ignoreCase : Bool) : Option (Function σ) :=
  r.get? name <|>
    if ignoreCase then
      (r.entries.entries.find? fun e => e.1.eqIgnoringAsciiCase name).map Prod.snd
    else none

end Registry
end StyleCalls
