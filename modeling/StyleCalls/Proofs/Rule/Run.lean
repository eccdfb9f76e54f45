import StyleCalls.Builtin.Query
import StyleCalls.Proofs.Rule.Value

/-! What is done with rules, and what becomes of each of them. -/

namespace StyleCalls
variable {σ : Type}

/-- What is done with rules. A read fills in what it shows. -/
inductive Rules.Action where
  | declare (id : RuleId) (property value : Text)
  | process (id : RuleId)
  | read (id : RuleId) (view : View) (property : Text)
  | setParent (id parent : RuleId)
  | link (previous next : RuleId)
deriving DecidableEq

/-- What becomes of the rule `id`. -/
def Rule.act (id : RuleId) (r : Rule) : Rules.Action → Rule
  | .declare i p v => if id = i then r.declare p v else r
  | .process i => if id = i then r.process else r
  | .read i view p => if id = i then r.expand view p else r
  | .setParent i parent => if id = i then { r with parent := some parent } else r
  | .link previous next =>
    let r := if id = previous then { r with next := some next } else r
    if id = next then { r with previous := some previous } else r

namespace Rules

def Action.declaration? (id : RuleId) : Action → Option (Text × Text)
  | .declare i p v => if id = i then some (p, v) else none
  | _ => none

def declarationsOf (id : RuleId) (actions : List Action) : List (Text × Text) :=
  actions.filterMap (Action.declaration? id)

theorem Action.declaration?_eq_some_iff {id : RuleId} {a : Action} {p v : Text} :
    a.declaration? id = some (p, v) ↔ a = .declare id p v := by
  cases a with
  | declare i q w =>
    rw [declaration?, Option.ite_none_right_eq_some, Option.some.injEq, Prod.mk.injEq,
      Action.declare.injEq, eq_comm (a := id)]
  | _ => simp [declaration?]

theorem mem_declarationsOf {id : RuleId} {actions : List Action} {p v : Text} :
    (p, v) ∈ declarationsOf id actions ↔ .declare id p v ∈ actions := by
  simp only [declarationsOf, List.mem_filterMap, Action.declaration?_eq_some_iff, exists_eq_right]

/-- An action declares something under a rule, processes it or reads it, or else changes no more
than its links. -/
theorem Action.cases_at (id : RuleId) (a : Action) :
    (∃ p v, a = .declare id p v) ∨ a = .process id ∨ (∃ view p, a = .read id view p) ∨
      a.declaration? id = none ∧ a ≠ .process id ∧ ∀ r : Rule, ∃ parent previous next,
        r.act id a = { r with parent, previous, next } := by
  have hsame (r : Rule) : ∃ parent previous next, r = { r with parent, previous, next } :=
    ⟨r.parent, r.previous, r.next, rfl⟩
  cases a with
  | declare i p v =>
    rcases eq_or_ne id i with rfl | h
    · exact .inl ⟨p, v, rfl⟩
    · simpa [Rule.act, declaration?, h] using .inr hsame
  | process i =>
    rcases eq_or_ne id i with rfl | h
    · exact .inr (.inl rfl)
    · simpa [Rule.act, declaration?, h, h.symm] using hsame
  | read i view p =>
    rcases eq_or_ne id i with rfl | h
    · exact .inr (.inr (.inl ⟨view, p, rfl⟩))
    · simpa [Rule.act, declaration?, h] using .inr hsame
  | setParent i parent =>
    refine .inr (.inr (.inr ⟨rfl, Action.noConfusion, fun r => ?_⟩))
    rw [Rule.act]
    split
    · exact ⟨some parent, r.previous, r.next, rfl⟩
    · exact hsame r
  | link previous next =>
    refine .inr (.inr (.inr ⟨rfl, Action.noConfusion, fun r => ?_⟩))
    rw [Rule.act]
    split <;> split <;> exact ⟨_, _, _, rfl⟩

end Rules

namespace Rule
open Rules (Action declarationsOf)

@[simp] theorem act_declare (id : RuleId) (r : Rule) (p v : Text) :
    r.act id (.declare id p v) = r.declare p v := if_pos rfl

@[simp] theorem act_process (id : RuleId) (r : Rule) : r.act id (.process id) = r.process :=
  if_pos rfl

@[simp] theorem act_read (id : RuleId) (r : Rule) (view : View) (p : Text) :
    r.act id (.read id view p) = r.expand view p := if_pos rfl

theorem exists_expand_eq (r : Rule) (view : View) (p : Text) :
    ∃ values, r.expand view p = r.setValues values view := by
  obtain ⟨_, hexpand⟩ | ⟨v, _, _, hexpand⟩ := r.expand_cases view p
  · refine ⟨r.values view, ?_⟩
    rw [hexpand]
    cases view <;> rfl
  · exact ⟨_, hexpand⟩

/-! Declarations -/

theorem declarations_expand (r : Rule) (view : View) (p : Text) :
    (r.expand view p).declarations = r.declarations := by
  obtain ⟨values, hexpand⟩ := r.exists_expand_eq view p
  rw [hexpand]
  cases view <;> rfl

theorem declarations_process (r : Rule) : r.process.declarations = r.declarations := by
  unfold process
  split <;> rfl

theorem declarations_act (id : RuleId) (r : Rule) (a : Action) :
    (r.act id a).declarations = r.declarations ++ (a.declaration? id).toList := by
  rcases a.cases_at id with ⟨p, v, rfl⟩ | rfl | ⟨view, p, rfl⟩ | ⟨hnone, _, hlinks⟩
  · rw [act_declare, Action.declaration?, if_pos rfl]
    rfl
  · rw [act_process, declarations_process]
    exact (List.append_nil _).symm
  · rw [act_read, declarations_expand]
    exact (List.append_nil _).symm
  · obtain ⟨_, _, _, hact⟩ := hlinks r
    rw [hact, hnone]
    exact (List.append_nil _).symm

theorem declarationsOf_cons (id : RuleId) (a : Action) (actions : List Action) :
    declarationsOf id (a :: actions) =
      (a.declaration? id).toList ++ declarationsOf id actions := by
  rw [declarationsOf, List.filterMap_cons]
  cases a.declaration? id <;> rfl

theorem declarations_foldl_act (id : RuleId) (r : Rule) (actions : List Action) :
    (actions.foldl (act id) r).declarations = r.declarations ++ declarationsOf id actions := by
  induction actions generalizing r with
  | nil => exact (List.append_nil _).symm
  | cons a actions ih =>
    rw [List.foldl_cons, ih, declarations_act, declarationsOf_cons, List.append_assoc]

/-! Processing -/

theorem isProcessed_expand (r : Rule) (view : View) (p : Text) :
    (r.expand view p).isProcessed = r.isProcessed := by
  obtain ⟨values, hexpand⟩ := r.exists_expand_eq view p
  rw [hexpand]
  cases view <;> rfl

theorem isProcessed_process (r : Rule) : r.process.isProcessed = true := by
  unfold process
  split
  · next h => exact h
  · rfl

theorem isProcessed_act (id : RuleId) (r : Rule) (a : Action) :
    (r.act id a).isProcessed = true ↔ r.isProcessed = true ∨ a = .process id := by
  rcases a.cases_at id with ⟨p, v, rfl⟩ | rfl | ⟨view, p, rfl⟩ | ⟨_, hne, hlinks⟩
  · rw [act_declare]
    exact (or_iff_left Rules.Action.noConfusion).symm
  · rw [act_process, isProcessed_process]
    exact iff_of_true rfl (.inr rfl)
  · rw [act_read, isProcessed_expand]
    exact (or_iff_left Rules.Action.noConfusion).symm
  · obtain ⟨_, _, _, hact⟩ := hlinks r
    rw [hact]
    exact (or_iff_left hne).symm

theorem isProcessed_foldl_act (id : RuleId) (r : Rule) (actions : List Action) :
    (actions.foldl (act id) r).isProcessed = true ↔
      r.isProcessed = true ∨ .process id ∈ actions := by
  induction actions generalizing r with
  | nil => simp
  | cons a actions ih =>
    rw [List.foldl_cons, ih, isProcessed_act, List.mem_cons, or_assoc, eq_comm (a := a)]

/-- Nothing is taken over before the rule is processed. -/
def Sound (r : Rule) : Prop := r.isProcessed = false → r.processedValues = ∅

theorem sound_of_isProcessed {r : Rule} (h : r.isProcessed = true) : r.Sound :=
  fun hfalse => Bool.noConfusion (h.symm.trans hfalse)

theorem Sound.expand {r : Rule} (h : r.Sound) (view : View) (p : Text) :
    (r.expand view p).Sound := by
  intro hprocessed
  rw [isProcessed_expand] at hprocessed
  have hempty := h hprocessed
  obtain ⟨_, hexpand⟩ | ⟨v, _, hderived, hexpand⟩ := r.expand_cases view p
  · rw [hexpand, hempty]
  · cases view with
    | declared => rw [hexpand]; exact hempty
    | processed =>
      -- with nothing taken over there is no shorthand to fill in from
      have hnone (q : Text) : r.value? .processed q = none := by
        rw [value?, values, hempty]
        rfl
      rw [derived?] at hderived
      cases hlonghand : BoxProperty.ofLonghand? p <;> simp [hlonghand, hnone] at hderived

theorem Sound.act {r : Rule} (h : r.Sound) (id : RuleId) (a : Action) : (r.act id a).Sound := by
  rcases a.cases_at id with ⟨p, v, rfl⟩ | rfl | ⟨view, p, rfl⟩ | ⟨_, _, hlinks⟩
  · rw [act_declare]
    exact h
  · rw [act_process]
    exact sound_of_isProcessed r.isProcessed_process
  · rw [act_read]
    exact h.expand view p
  · obtain ⟨_, _, _, hact⟩ := hlinks r
    rw [hact]
    exact h

theorem Sound.foldl_act {r : Rule} (h : r.Sound) (id : RuleId) (actions : List Action) :
    (actions.foldl (Rule.act id) r).Sound := by
  induction actions generalizing r with
  | nil => exact h
  | cons a actions ih => exact ih (h.act id a)

end Rule

/-! The rules of a setting -/

theorem Rules.get?_modify (rs : Rules) (id i : RuleId) (f : Rule → Rule) :
    (rs.modify i f).get? id = (rs.get? id).map fun r => if id = i then f r else r :=
  Table.get?_mapValues ..

theorem Query.read_fst (s : Setting σ) (id : RuleId) (view : View) (p : Text) :
    (Query.read s id view p).1 = (s.rules.get? id).bind (·.shown? view p) := by
  have hmodify := s.rules.get?_modify id id fun r => r.expand view p
  rw [read]
  dsimp only
  rw [hmodify]
  cases s.rules.get? id with
  | none => rfl
  | some r =>
    have hvalue := r.value?_expand view view p p
    rw [if_pos ⟨rfl, rfl⟩] at hvalue
    simpa using hvalue

namespace Setting

/-- Makes a new rule and names it. -/
def create (s : Setting σ) (selector : Text) : RuleId × Setting σ :=
  ((s.rules.create selector).1, { s with rules := (s.rules.create selector).2 })

theorem get?_create (s : Setting σ) (selector : Text) :
    (s.create selector).2.rules.get? (s.create selector).1 = some { selector } :=
  (Table.get?_insert ..).trans (if_pos rfl)

def act (s : Setting σ) : Rules.Action → Setting σ
  | .declare id p v => { s with rules := s.rules.modify id fun r => r.declare p v }
  | .process id => { s with rules := s.rules.modify id Rule.process }
  | .read id view p => (Query.read s id view p).2
  | .setParent id parent => { s with rules := s.rules.setParent id parent }
  | .link previous next => { s with rules := s.rules.link previous next }

theorem get?_act (s : Setting σ) (a : Rules.Action) (id : RuleId) :
    (s.act a).rules.get? id = (s.rules.get? id).map (·.act id a) := by
  cases a with
  | link previous next =>
    rw [act, Rules.link]
    dsimp only
    rw [Rules.get?_modify, Rules.get?_modify, Option.map_map]
    rfl
  | _ => exact Rules.get?_modify ..

/-- Each rule goes its own way. -/
theorem get?_foldl_act (s : Setting σ) (actions : List Rules.Action) (id : RuleId) :
    (actions.foldl act s).rules.get? id =
      (s.rules.get? id).map fun r => actions.foldl (Rule.act id) r := by
  induction actions generalizing s with
  | nil => exact Option.map_id'.symm
  | cons a actions ih =>
    rw [List.foldl_cons, ih, get?_act, Option.map_map]
    rfl

theorem read_foldl_act_create (s : Setting σ) (selector : Text) (actions : List Rules.Action)
    (view : View) (p : Text) :
    (Query.read (actions.foldl act (s.create selector).2) (s.create selector).1 view p).1 =
      (actions.foldl (Rule.act (s.create selector).1) { selector }).shown? view p := by
  rw [Query.read_fst, get?_foldl_act, get?_create]
  rfl

end Setting
end StyleCalls
