import StyleCalls.Config
import StyleCalls.Pattern.Basic
import StyleCalls.Registry

/-! Expansion of calls. Calls are expanded from right to left, so that whatever a call turns into,
the offsets of the calls still to come stay right and inner calls come before outer ones. -/

namespace StyleCalls
variable {σ : Type}

/-- A call taken out of a text: its arguments, and the text on either side. -/
structure Call where
  before : Text
  args : Text
  after : Text

/-- The call whose name starts at a byte offset, if its parenthesis is ever closed. -/
def Call.at? (t : Text) (offset : Nat) : Option Call := do
  let (before, rest) ← Text.splitAt? offset t
  match rest.dropWhile (· ≠ '(') with
  | [] => none
  | _ :: inner =>
    let (args, after) ← Nesting.inGroup.close? inner
    return ⟨before, args, after⟩

/-- The text with `value` in place of the call. -/
def Call.replace (c : Call) (value : Text) : Text := c.before ++ value ++ c.after

inductive ExpandError where
  | emptyRegistry
deriving DecidableEq

def ExpandError.message : ExpandError → Text
  | emptyRegistry => "no functions registered".toList

/-- A registry with its options, and the last pattern made with the version it was made from. -/
structure Engine (σ : Type) where
  registry : Registry σ := {}
  config : Config := {}
  compiled : Option (Nat × Pattern) := none

namespace Engine

def ofRegistry (r : Registry σ) (config : Config) : Engine σ :=
  { registry := if config.builtins then r.activateBuiltins else r, config }

def ofConfig (config : Config) : Engine σ := ofRegistry {} config

def setRegistry (e : Engine σ) (r : Registry σ) : Engine σ := { e with registry := r }

/-- Makes the pattern anew. Where there is no name to make it from, there is none afterwards. -/
def recompile (e : Engine σ) : Engine σ :=
  { e with compiled := (Pattern.ofNames? e.registry.patternNames).map (e.registry.version, ·) }

/-- Makes the pattern anew if it was made from another version of the registry. -/
def refresh (e : Engine σ) : Engine σ :=
  match e.compiled with
  | some (version, _) => if version = e.registry.version then e else e.recompile
  | none => e.recompile

/-- Expands one call. A call that is never closed is passed over without notice. -/
def expandSite (e : Engine σ) (host : Host σ) (site : Site) (state : Text × Setting σ) :
    Text × Setting σ :=
  let (t, s) := state
  match Call.at? t site.offset with
  | none => (t, s)
  | some call =>
    let s := s.enter site.name
    match e.registry.resolve site.name e.config.ignoreCase with
    | some f =>
      let (value, s) := f.invoke host (Text.trim call.args) s
      (call.replace value, s)
    | none =>
      match e.config.unresolved with
      | .remove => (call.replace [], s)
      | .keep => (t, s)

def expandSites (e : Engine σ) (host : Host σ) (sites : List Site) (t : Text) (s : Setting σ) :
    Text × Setting σ :=
  sites.foldr (e.expandSite host) (t, s)

/-- Expands all calls of a text. Only a text with a parenthesis needs a pattern, and only the lack
of names to make one from is an error. That every expansion comes to an end rests on callbacks that
answer, which a query for `top` below a circle of parents does not (see `Rules.top?`). -/
def apply (e : Engine σ) (host : Host σ) (t : Text) (s : Setting σ) :
    Except ExpandError Text × Engine σ × Setting σ :=
  if '(' ∉ t then (.ok t, e, s)
  else
    let e := e.refresh
    match e.compiled with
    | none => (.error .emptyRegistry, e, s)
    | some (_, pattern) =>
      let (out, s) := e.expandSites host (pattern.findAll t) t s
      (.ok out, e, s)

end Engine
end StyleCalls
