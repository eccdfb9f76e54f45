import StyleCalls.Text.Basic

/-! Reading text with groups in parentheses, quoted strings and escapes. Everything that looks for
the end of a group or the end of an argument moves through the same states. -/

namespace StyleCalls

structure Nesting where
  depth : Nat
  quote : Option Char
  escaped : Bool
deriving DecidableEq

namespace Nesting

def outside : Nesting := ⟨0, none, false⟩

def inGroup : Nesting := ⟨1, none, false⟩

/-- Neither escaped nor inside quotes: the next character counts for what it is. -/
def bare (s : Nesting) : Bool := !s.escaped && s.quote.isNone

/-- A backslash hides the character after it, and quotes hide parentheses. A `)` with nothing to
close is passed over. -/
def step (s : Nesting) (c : Char) : Nesting :=
  if s.escaped then { s with escaped := false }
  else if c = '\\' then { s with escaped := true }
  else match s.quote with
    | some q => if c = q then { s with quote := none } else s
    | none =>
      if c = '"' || c = '\'' then { s with quote := some c }
      else if c = '(' then { s with depth := s.depth + 1 }
      else if c = ')' then { s with depth := s.depth - 1 }
      else s

def run (s : Nesting) (t : Text) : Nesting := t.foldl step s

theorem run_append (s : Nesting) (t u : Text) : s.run (t ++ u) = (s.run t).run u :=
  List.foldl_append

/-- Whether `c` ends the outermost group. -/
def closes (s : Nesting) (c : Char) : Bool := s.bare && s.depth ≤ 1 && c = ')'

/-- The text before and the text after the `)` that ends the outermost group. -/
def close? (s : Nesting) : Text → Option (Text × Text)
  | [] => none
  | c :: t =>
    if s.closes c then some ([], t)
    else (close? (s.step c) t).map fun p => (c :: p.1, p.2)

theorem eq_append_of_close? {s : Nesting} {t inside after : Text}
    (h : s.close? t = some (inside, after)) : t = inside ++ ')' :: after := by
  induction t generalizing s inside with
  | nil => simp [close?] at h
  | cons c t ih =>
    rw [close?] at h
    split at h
    · next hc =>
      obtain ⟨rfl, rfl⟩ := Prod.mk.inj (Option.some.inj h)
      simp only [closes, Bool.and_eq_true, decide_eq_true_eq] at hc
      rw [hc.2, List.nil_append]
    · obtain ⟨⟨b, a⟩, hb, hba⟩ := Option.map_eq_some_iff.1 h
      obtain ⟨rfl, rfl⟩ := Prod.mk.inj hba
      rw [ih hb, List.cons_append]

end Nesting

/-- The byte offset of the `)` that closes the group opened at byte offset `start`. -/
def closingParen? (t : Text) (start : Nat) : Option Nat := do
  let (_, rest) ← t.splitAt? start
  let (inside, _) ← Nesting.outside.close? rest
  return start + Text.size inside

end StyleCalls
