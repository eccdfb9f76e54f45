import StyleCalls.Proofs.Rule.Run

/-! Values as they were when a rule was processed. Only the declarations made until then show in them,
and nothing that is done later does. -/

namespace StyleCalls
variable {σ : Type}

namespace Rule
open Rules (Action declarationsOf)

theorem value?_process {r : Rule} (hsound : r.Sound) (h : r.isProcessed = false) (p : Text) :
    r.process.value? .processed p = Table.last? r.declarations p := by
  have hprocess : r.process = { r with
      isProcessed := true
      processedValues := r.processedValues.insertAll r.declarations } := by
    rw [process, if_neg (ne_true_of_eq_false h)]
  rw [hprocess, value?, values, hsound h, Table.get?_insertAll]
  exact Option.or_none

/-- What has been taken over stays. -/
theorem shown?_processed_act {r : Rule} (h : r.isProcessed = true) (id : RuleId) (a : Action)
    (p : Text) : (r.act id a).shown? .processed p = r.shown? .processed p := by
  rcases a.cases_at id with ⟨q, v, rfl⟩ | rfl | ⟨view, q, rfl⟩ | ⟨_, _, hlinks⟩
  · rw [act_declare]
    exact shown?_congr rfl fun _ _ _ => rfl
  · rw [act_process, process_of_isProcessed h]
  · rw [act_read, shown?_expand]
  · obtain ⟨_, _, _, hact⟩ := hlinks r
    rw [hact]
    exact shown?_congr rfl fun _ _ _ => rfl

theorem shown?_processed_foldl_act {r : Rule} (h : r.isProcessed = true) (id : RuleId)
    (actions : List Action) (p : Text) :
    (actions.foldl (act id) r).shown? .processed p = r.shown? .processed p := by
  induction actions generalizing r with
  | nil => rfl
  | cons a actions ih =>
    rw [List.foldl_cons, ih ((isProcessed_act id r a).2 (.inl h)), shown?_processed_act h]

end Rule

namespace Setting
open Rules (declarationsOf)

/-- Whatever is done with a new rule, once it is processed each property has the value last declared
for it before that, or else the one its shorthand had then, or none. -/
theorem read_processed_eq (s : Setting σ) (selector : Text) (before after : List Rules.Action)
    (p : Text) :
    let id := (s.create selector).1
    let now := (before ++ .process id :: after).foldl act (s.create selector).2
    let declared? := Table.last? (declarationsOf id before)
    .process id ∉ before →
      (∀ v, declared? p = some v → (Query.read now id .processed p).1 = some v) ∧
      (declared? p = none →
        (∀ (b : BoxProperty) (side : Side), p.eqIgnoringAsciiCase (b.longhand side) = true →
          (Query.read now id .processed p).1 =
            (declared? b.shorthand).bind (BoxProperty.valueFor? side)) ∧
        ((¬∃ (b : BoxProperty) (side : Side), p.eqIgnoringAsciiCase (b.longhand side) = true) →
          (Query.read now id .processed p).1 = none)) := by
  intro id now declared? hfirst
  let new : Rule := { selector }
  let r := before.foldl (Rule.act id) new
  have hsound : r.Sound := Rule.Sound.foldl_act (fun _ => rfl) id before
  have hprocessed : r.isProcessed = false :=
    eq_false_of_ne_true fun h => (Rule.isProcessed_foldl_act ..).1 h |>.elim Bool.noConfusion hfirst
  have hdeclarations : r.declarations = declarationsOf id before :=
    Rule.declarations_foldl_act id new before
  have hvalue (q : Text) : r.process.value? .processed q = declared? q := by
    rw [Rule.value?_process hsound hprocessed, hdeclarations]
  have hread : (Query.read now id .processed p).1 =
      (declared? p).or (r.process.derived? .processed p) := by
    rw [read_foldl_act_create, List.foldl_append, List.foldl_cons, Rule.act_process,
      Rule.shown?_processed_foldl_act r.isProcessed_process, Rule.shown?, hvalue]
  refine ⟨fun v hv => by rw [hread, hv, Option.some_or], fun hnone => ⟨fun b side hp => ?_, ?_⟩⟩
  · rw [hread, hnone, Option.none_or, Rule.derived?, BoxProperty.ofLonghand?_eq_some_iff.2 hp,
      ← hvalue]
    rfl
  · intro hother
    have hlonghand : BoxProperty.ofLonghand? p = none :=
      Option.eq_none_iff_forall_ne_some.2 fun x hx =>
        hother ⟨x.1, x.2, BoxProperty.ofLonghand?_eq_some_iff.1 hx⟩
    rw [hread, hnone, Option.none_or, Rule.derived?, hlonghand]
    rfl

theorem marginSample_read :
    let s : Setting Unit := ⟨none, {}, ()⟩
    let id := (s.create ".a".toList).1
    let before : List Rules.Action :=
      [.declare id "margin".toList "1px 2px".toList, .read id .processed "margin-left".toList]
    let after : List Rules.Action :=
      [.declare id "margin".toList "3px".toList, .declare id "Margin-Left".toList "4px".toList,
        .process id]
    let now := (before ++ .process id :: after).foldl act (s.create ".a".toList).2
    (Query.read now id .processed "Margin-Left".toList).1 = some "2px".toList := by
  intro s id before after now
  have hread := ((read_processed_eq s ".a".toList before after "Margin-Left".toList
    (by decide)).2 (by decide)).1 .margin .left (by decide)
  exact hread.trans (by decide)

end Setting
end StyleCalls
