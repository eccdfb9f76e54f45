import StyleCalls.Proofs.Rule.Interference

/-! Longhands in several spellings. Each spelling is a property of its own: where it is declared it
has the value last declared for it, and where it is not it has a value of the shorthand or none,
whatever is declared in other spellings. -/

namespace StyleCalls
variable {σ : Type}

/-- The value last declared for a property, of the declarations that a view shows. The processed
view shows those that were made before the rule was processed. -/
def Rules.explicit? (id : RuleId) (actions : List Rules.Action) : View → Text → Option Text
  | .declared, p => Table.last? (declarationsOf id actions) p
  | .processed, p =>
    if .process id ∈ actions then
      Table.last? (declarationsOf id (actions.takeWhile (· ≠ .process id))) p
    else none

namespace Rule
open Rules (Action declarationsOf explicit?)

variable {r : Rule} {id : RuleId} {actions : List Action} {q w : Text}

/-! Declared values -/

theorem value?_declared_act {a : Action}
    (h : a = .read id .declared q → BoxProperty.ofLonghand? q = none) :
    (r.act id a).value? .declared q =
      (Table.last? (a.declaration? id).toList q).or (r.value? .declared q) := by
  rcases a.cases_at id with ⟨p, v, rfl⟩ | rfl | ⟨view, p, rfl⟩ | ⟨hnone, _, hlinks⟩
  · have hlast : Table.last? [(p, v)] q = if q = p then some v else none := Table.last?_singleton ..
    rw [act_declare, value?_declare, Action.declaration?, if_pos rfl, Option.toList_some, hlast]
    simp only [true_and]
    split <;> rfl
  · rw [act_process, value?_process_declared]
    rfl
  · rw [act_read, value?_expand]
    split
    · next hread =>
      obtain ⟨rfl, rfl⟩ := hread
      rw [shown?, derived?, h rfl]
      exact Option.or_none
    · rfl
  · obtain ⟨_, _, _, hact⟩ := hlinks r
    rw [hact, hnone]
    rfl

/-- As long as a property is not filled in, it has the value last declared for it. -/
theorem value?_declared_foldl_act
    (h : .read id .declared q ∈ actions → BoxProperty.ofLonghand? q = none) :
    (actions.foldl (act id) r).value? .declared q =
      (Table.last? (declarationsOf id actions) q).or (r.value? .declared q) := by
  induction actions generalizing r with
  | nil => rfl
  | cons a actions ih =>
    rw [List.foldl_cons, ih fun hmem => h (List.mem_cons_of_mem a hmem),
      value?_declared_act fun ha => h (ha ▸ List.mem_cons_self), declarationsOf_cons,
      Table.last?_append, Option.or_assoc]

/-- Every value is declared or made from a declared value of the shorthand. -/
def Accounted (r : Rule) (id : RuleId) (actions : List Action) : Prop :=
  ∀ q w, r.value? .declared q = some w → .declare id q w ∈ actions ∨
    ∃ b side value, BoxProperty.ofLonghand? q = some (b, side) ∧
      .declare id b.shorthand value ∈ actions ∧ BoxProperty.valueFor? side value = some w

theorem Accounted.append (h : r.Accounted id actions) (more : List Action) :
    r.Accounted id (actions ++ more) := by
  intro q w hvalue
  rcases h q w hvalue with hmem | ⟨b, side, value, hq, hmem, hw⟩
  · exact .inl (List.mem_append_left more hmem)
  · exact .inr ⟨b, side, value, hq, List.mem_append_left more hmem, hw⟩

theorem Accounted.derived (h : r.Accounted id actions)
    (hderived : r.derived? .declared q = some w) :
    ∃ b side value, BoxProperty.ofLonghand? q = some (b, side) ∧
      .declare id b.shorthand value ∈ actions ∧ BoxProperty.valueFor? side value = some w := by
  obtain ⟨⟨b, side⟩, hq, hderived⟩ := Option.bind_eq_some_iff.1 hderived
  obtain ⟨value, hvalue, hw⟩ := Option.bind_eq_some_iff.1 hderived
  refine ⟨b, side, value, hq, ?_, hw⟩
  rcases h _ _ hvalue with hmem | ⟨_, _, _, hshorthand, _⟩
  · exact hmem
  · rw [b.ofLonghand?_shorthand] at hshorthand
    exact absurd hshorthand.symm (Option.some_ne_none _)

theorem Accounted.act (h : r.Accounted id actions) (a : Action) :
    (r.act id a).Accounted id (actions ++ [a]) := by
  intro q w hvalue
  rcases a.cases_at id with ⟨p, v, rfl⟩ | rfl | ⟨view, p, rfl⟩ | ⟨_, _, hlinks⟩
  · rw [act_declare, value?_declare] at hvalue
    split at hvalue
    · next hq =>
      obtain rfl := Option.some.inj hvalue
      exact .inl (List.mem_append_right _ (by rw [hq.2]; exact List.mem_singleton_self _))
    · exact h.append _ q w hvalue
  · rw [act_process, value?_process_declared] at hvalue
    exact h.append _ q w hvalue
  · rw [act_read, value?_expand] at hvalue
    split at hvalue
    · next hq =>
      obtain ⟨rfl, rfl⟩ := hq
      rcases Option.or_eq_some_iff.1 hvalue with hvalue | ⟨_, hderived⟩
      · exact h.append _ q w hvalue
      · exact .inr ((h.append _).derived hderived)
    · exact h.append _ q w hvalue
  · obtain ⟨_, _, _, hact⟩ := hlinks r
    rw [hact] at hvalue
    exact h.append _ q w hvalue

theorem Accounted.foldl_act {before : List Action} (h : r.Accounted id before)
    (actions : List Action) : (actions.foldl (Rule.act id) r).Accounted id (before ++ actions) := by
  induction actions generalizing r before with
  | nil => rwa [List.append_nil]
  | cons a actions ih =>
    rw [List.append_cons]
    exact ih (h.act a)

/-! What is shown of a new rule -/

variable {selector : Text} {view : View} {b : BoxProperty} {side : Side}

theorem takeWhile_ne_append_cons {before : List Action} {a : Action} (h : a ∉ before)
    (after : List Action) :
    (before ++ a :: after).takeWhile (· ≠ a) = before := by
  have hne : ∀ e ∈ before, decide (e ≠ a) = true :=
    fun e he => decide_eq_true fun heq => h (heq ▸ he)
  rw [List.takeWhile_append_of_pos hne, List.takeWhile_cons_of_neg (by simp), List.append_nil]

theorem shown?_processed_new :
    (actions.foldl (act id) { selector }).shown? .processed q =
      (explicit? id actions .processed q).or ((BoxProperty.ofLonghand? q).bind fun x =>
        (explicit? id actions .processed x.1.shorthand).bind (BoxProperty.valueFor? x.2)) := by
  have hsound (actions : List Action) : (actions.foldl (act id) { selector }).Sound :=
    Sound.foldl_act (fun _ => rfl) id actions
  by_cases hmem : .process id ∈ actions
  -- only what comes before the first time the rule is processed gets into the processed view
  · obtain ⟨before, after, rfl, hfirst⟩ := List.eq_append_cons_of_mem hmem
    have hprocessed : (before.foldl (act id) { selector }).isProcessed = false :=
      eq_false_of_ne_true fun h => (isProcessed_foldl_act ..).1 h |>.elim Bool.noConfusion hfirst
    have hvalue (p : Text) : (before.foldl (act id) { selector }).process.value? .processed p =
        explicit? id (before ++ .process id :: after) .processed p := by
      rw [value?_process (hsound before) hprocessed, declarations_foldl_act, explicit?,
        if_pos hmem, takeWhile_ne_append_cons hfirst]
      rfl
    rw [List.foldl_append, List.foldl_cons, act_process,
      shown?_processed_foldl_act (isProcessed_process _), shown?, hvalue]
    simp only [derived?, hvalue]
    rfl
  · have hprocessed : (actions.foldl (act id) { selector }).isProcessed = false :=
      eq_false_of_ne_true fun h => (isProcessed_foldl_act ..).1 h |>.elim Bool.noConfusion hmem
    have hvalue (p : Text) : (actions.foldl (act id) { selector }).value? .processed p =
        explicit? id actions .processed p := by
      rw [value?, values, hsound actions hprocessed, explicit?, if_neg hmem]
      rfl
    rw [shown?, hvalue]
    simp only [derived?, hvalue]
    rfl

theorem shown?_of_explicit (h : explicit? id actions view q = some w) :
    (actions.foldl (act id) { selector }).shown? view q = some w := by
  cases view with
  | declared =>
    have hvalue : (actions.foldl (act id) { selector }).value? .declared q = some w :=
      value?_foldl_act (Option.or_eq_some_iff.2 (.inl h))
    rw [shown?, hvalue, Option.some_or]
  | processed => rw [shown?_processed_new, h, Option.some_or]

theorem shown?_of_not_explicit (hq : BoxProperty.ofLonghand? q = some (b, side))
    (hnone : explicit? id actions view q = none)
    (hread : view = .declared → .read id .declared q ∉ actions) :
    (actions.foldl (act id) { selector }).shown? view q =
      (explicit? id actions view b.shorthand).bind (BoxProperty.valueFor? side) := by
  cases view with
  | declared =>
    have hvalue {p : Text}
        (hp : .read id .declared p ∈ actions → BoxProperty.ofLonghand? p = none) :
        (actions.foldl (act id) { selector }).value? .declared p =
          explicit? id actions .declared p :=
      (value?_declared_foldl_act hp).trans Option.or_none
    have hshorthand := hvalue fun _ => b.ofLonghand?_shorthand
    rw [shown?, hvalue fun hmem => absurd hmem (hread rfl), hnone, Option.none_or, derived?, hq]
    exact congrArg (·.bind (BoxProperty.valueFor? side)) hshorthand
  | processed => rw [shown?_processed_new, hnone, Option.none_or, hq, Option.bind_some]

theorem mem_of_explicit?_eq_some (h : explicit? id actions view q = some w) :
    .declare id q w ∈ actions := by
  cases view with
  | declared => exact Rules.mem_declarationsOf.1 (Table.mem_of_last?_eq_some h)
  | processed =>
    obtain ⟨_, hlast⟩ := Option.ite_none_right_eq_some.1 h
    have hmem := Rules.mem_declarationsOf.1 (Table.mem_of_last?_eq_some hlast)
    exact (List.takeWhile_sublist _).mem hmem

theorem exists_declaration_of_shown? (hq : BoxProperty.ofLonghand? q = some (b, side))
    (hnone : explicit? id actions view q = none)
    (h : (actions.foldl (act id) { selector }).shown? view q = some w) :
    ∃ value, .declare id b.shorthand value ∈ actions ∧
      BoxProperty.valueFor? side value = some w := by
  cases view with
  | declared =>
    have hnew : Rule.Accounted { selector } id [] :=
      fun _ _ hvalue => absurd hvalue.symm (Option.some_ne_none _)
    have haccounted := hnew.foldl_act actions
    rw [List.nil_append] at haccounted
    have hderived : ∃ b side value, BoxProperty.ofLonghand? q = some (b, side) ∧
        .declare id b.shorthand value ∈ actions ∧ BoxProperty.valueFor? side value = some w := by
      rcases Option.or_eq_some_iff.1 h with hvalue | ⟨_, hderived⟩
      · refine (haccounted q w hvalue).resolve_left fun hmem => ?_
        exact Table.last?_eq_none_iff.1 hnone w (Rules.mem_declarationsOf.2 hmem)
      · exact haccounted.derived hderived
    obtain ⟨b', side', value, hq', hmem, hw⟩ := hderived
    obtain ⟨rfl, rfl⟩ := Prod.mk.inj (Option.some.inj (hq.symm.trans hq'))
    exact ⟨value, hmem, hw⟩
  | processed =>
    rw [shown?_of_not_explicit hq hnone nofun] at h
    obtain ⟨value, hvalue, hw⟩ := Option.bind_eq_some_iff.1 h
    exact ⟨value, mem_of_explicit?_eq_some hvalue, hw⟩

end Rule

namespace Setting
open Rules (explicit?)

/-- Whatever is done with a new rule and with others, a longhand shows the value last declared for
it in the spelling that is asked for. In a spelling that is not declared it shows no value but one
of its shorthand, and as long as it was not read before the one that the shorthand gives it. -/
theorem read_eq_explicit_or_derived (s : Setting σ) (selector : Text) (actions : List Rules.Action)
    (view : View) {b : BoxProperty} {side : Side} {q : Text}
    (hq : q.eqIgnoringAsciiCase (b.longhand side) = true) :
    let id := (s.create selector).1
    let read := (Query.read (actions.foldl act (s.create selector).2) id view q).1
    (∀ w, explicit? id actions view q = some w → read = some w) ∧
    (explicit? id actions view q = none →
      (∀ w, read = some w → ∃ value, .declare id b.shorthand value ∈ actions ∧
        BoxProperty.valueFor? side value = some w) ∧
      ((view = .declared → .read id .declared q ∉ actions) →
        read = (explicit? id actions view b.shorthand).bind (BoxProperty.valueFor? side))) := by
  intro id read
  have hread : read = (actions.foldl (Rule.act id) { selector }).shown? view q :=
    read_foldl_act_create ..
  have hlonghand := BoxProperty.ofLonghand?_eq_some_iff.2 hq
  rw [hread]
  exact ⟨fun _ => Rule.shown?_of_explicit, fun hnone =>
    ⟨fun _ => Rule.exists_declaration_of_shown? hlonghand hnone,
      Rule.shown?_of_not_explicit hlonghand hnone⟩⟩

theorem respelledSample_read :
    let s : Setting Unit := ⟨none, {}, ()⟩
    let id := (s.create ".a".toList).1
    let actions : List Rules.Action := [.declare id "padding".toList "4px 2px".toList,
      .read id .processed "padding-top".toList, .declare id "PADDING-top".toList "9px".toList,
      .process id, .declare id "padding-top".toList "1px".toList]
    let now := actions.foldl act (s.create ".a".toList).2
    (Query.read now id .processed "PADDING-top".toList).1 = some "9px".toList ∧
      (Query.read now id .declared "padding-top".toList).1 = some "1px".toList ∧
      (Query.read now id .processed "padding-top".toList).1 = some "4px".toList := by
  intro s id actions now
  have hread (view : View) {q : Text}
      (hq : q.eqIgnoringAsciiCase (BoxProperty.padding.longhand .top) = true) :=
    read_eq_explicit_or_derived s ".a".toList actions view hq
  refine ⟨?_, ?_, ?_⟩
  · exact (hread .processed (by decide)).1 _ (by decide)
  · exact (hread .declared (by decide)).1 _ (by decide)
  · exact (((hread .processed (by decide)).2 (by decide)).2 nofun).trans (by decide)

/-- A longhand that is read in another spelling than its own follows the shorthand. -/
theorem not_forall_explicit_wins : ¬∀ (s : Setting Unit) (selector : Text)
    (actions : List Rules.Action) (view : View) (b : BoxProperty) (side : Side) (p q v w : Text),
    let id := (s.create selector).1
    let now := actions.foldl act (s.create selector).2
    p.eqIgnoringAsciiCase (b.longhand side) = true → explicit? id actions view p = some v →
    q.eqIgnoringAsciiCase p = true → (Query.read now id view q).1 = some w →
      explicit? id actions view q = some w ∨ w = v := by
  intro h
  have hwins := h ⟨none, {}, ()⟩ ".a".toList [.declare ⟨0⟩ "padding".toList "4px".toList,
    .declare ⟨0⟩ "Padding-Top".toList "9px".toList] .declared .padding .top "Padding-Top".toList
    "padding-top".toList "9px".toList "4px".toList (by decide) (by decide) (by decide) (by decide)
  exact absurd hwins (by decide)

end Setting
end StyleCalls
