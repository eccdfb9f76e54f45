import StyleCalls.Proofs.Rule.Snapshot

/-! What a read leaves behind. Of the values taken over by processing no read changes one. Among the
declared values a longhand that was read once keeps the value its shorthand had then. -/

namespace StyleCalls
variable {σ : Type}

namespace Rule
open Rules (Action declarationsOf)

/-! Two rules that show the same, but for some declared values -/

structure AgreeOn (agreed : Text → Prop) (r r' : Rule) : Prop where
  declarations : r'.declarations = r.declarations
  isProcessed : r'.isProcessed = r.isProcessed
  sound : r.Sound
  sound' : r'.Sound
  -- longhands may be filled in on one side only, so what is shown is compared and not the entries
  shown_processed : ∀ q, r'.shown? .processed q = r.shown? .processed q
  value_declared : ∀ q, agreed q → r'.value? .declared q = r.value? .declared q

variable {agreed : Text → Prop} {r r' : Rule}

theorem AgreeOn.shown?_eq (h : AgreeOn agreed r r')
    (hshorthand : ∀ b : BoxProperty, agreed b.shorthand) (view : View) {q : Text}
    (hq : view = .declared → agreed q) : r'.shown? view q = r.shown? view q := by
  cases view with
  | declared =>
    exact shown?_congr (h.value_declared q (hq rfl)) fun b _ _ =>
      h.value_declared b.shorthand (hshorthand b)
  | processed => exact h.shown_processed q

theorem AgreeOn.process (h : AgreeOn agreed r r') : AgreeOn agreed r.process r'.process := by
  cases hprocessed : r.isProcessed with
  | true =>
    rw [process_of_isProcessed hprocessed, process_of_isProcessed (h.isProcessed.trans hprocessed)]
    exact h
  | false =>
    have hvalue (q : Text) : r'.process.value? .processed q = r.process.value? .processed q := by
      rw [value?_process h.sound hprocessed, value?_process h.sound' (h.isProcessed.trans hprocessed),
        h.declarations]
    exact {
      declarations := by rw [declarations_process, declarations_process, h.declarations]
      isProcessed := by rw [isProcessed_process, isProcessed_process]
      sound := sound_of_isProcessed r.isProcessed_process
      sound' := sound_of_isProcessed r'.isProcessed_process
      shown_processed := fun q => shown?_congr (hvalue q) fun b _ _ => hvalue b.shorthand
      value_declared := fun q hq => by
        rw [value?_process_declared, value?_process_declared, h.value_declared q hq] }

theorem AgreeOn.declare (h : AgreeOn agreed r r') (p v : Text) :
    AgreeOn agreed (r.declare p v) (r'.declare p v) where
  declarations := congrArg (· ++ [(p, v)]) h.declarations
  isProcessed := h.isProcessed
  sound := h.sound
  sound' := h.sound'
  shown_processed := h.shown_processed
  value_declared q hq := by rw [value?_declare, value?_declare, h.value_declared q hq]

theorem AgreeOn.expand (h : AgreeOn agreed r r')
    (hshorthand : ∀ b : BoxProperty, agreed b.shorthand) (view : View) (p : Text) :
    AgreeOn agreed (r.expand view p) (r'.expand view p) where
  declarations := by rw [declarations_expand, declarations_expand, h.declarations]
  isProcessed := by rw [isProcessed_expand, isProcessed_expand, h.isProcessed]
  sound := h.sound.expand view p
  sound' := h.sound'.expand view p
  shown_processed q := by rw [shown?_expand, shown?_expand, h.shown_processed]
  value_declared q hq := by
    rw [value?_expand, value?_expand]
    split
    · next hread =>
      obtain ⟨hview, rfl⟩ := hread
      exact h.shown?_eq hshorthand view fun _ => hq
    · exact h.value_declared q hq

theorem AgreeOn.act (h : AgreeOn agreed r r') (hshorthand : ∀ b : BoxProperty, agreed b.shorthand)
    (id : RuleId) (a : Action) : AgreeOn agreed (r.act id a) (r'.act id a) := by
  rcases a.cases_at id with ⟨p, v, rfl⟩ | rfl | ⟨view, p, rfl⟩ | ⟨_, _, hlinks⟩
  · rw [act_declare, act_declare]
    exact h.declare p v
  · rw [act_process, act_process]
    exact h.process
  · rw [act_read, act_read]
    exact h.expand hshorthand view p
  · obtain ⟨_, _, _, hact⟩ := hlinks r
    obtain ⟨_, _, _, hact'⟩ := hlinks r'
    rw [hact, hact']
    exact ⟨h.declarations, h.isProcessed, h.sound, h.sound', h.shown_processed, h.value_declared⟩

theorem AgreeOn.foldl_act (h : AgreeOn agreed r r')
    (hshorthand : ∀ b : BoxProperty, agreed b.shorthand) (id : RuleId) (actions : List Action) :
    AgreeOn agreed (actions.foldl (Rule.act id) r) (actions.foldl (Rule.act id) r') := by
  induction actions generalizing r r' with
  | nil => exact h
  | cons a actions ih => exact ih (h.act hshorthand id a)

theorem agreeOn_expand (hsound : r.Sound) (view : View) (p : Text) :
    AgreeOn (fun q => ¬(view = .declared ∧ q = p)) r (r.expand view p) where
  declarations := declarations_expand r view p
  isProcessed := isProcessed_expand r view p
  sound := hsound
  sound' := hsound.expand view p
  shown_processed := r.shown?_expand view .processed p
  value_declared q hq := by
    rw [value?_expand, if_neg fun h => hq ⟨h.1.symm, h.2⟩]

/-! One declared value -/

theorem value?_act {id : RuleId} {a : Action} {p v : Text}
    (h : (Table.last? (a.declaration? id).toList p).or (r.value? .declared p) = some v) :
    (r.act id a).value? .declared p = some v := by
  rcases a.cases_at id with ⟨q, w, rfl⟩ | rfl | ⟨view, q, rfl⟩ | ⟨hnone, _, hlinks⟩
  · rw [Action.declaration?, if_pos rfl] at h
    rw [act_declare, value?_declare]
    rcases eq_or_ne q p with rfl | hne
    · rw [if_pos ⟨rfl, rfl⟩]
      simpa [Table.last?] using h
    · rw [if_neg fun hp => hne hp.2.symm]
      simpa [Table.last?, hne] using h
  · rw [act_process, value?_process_declared]
    exact h
  · have hvalue : r.value? .declared p = some v := h
    rw [act_read, value?_expand]
    split
    · next hread => rw [← hread.1, ← hread.2, shown?, hvalue, Option.some_or]
    · exact hvalue
  · obtain ⟨_, _, _, hact⟩ := hlinks r
    rw [hnone] at h
    rw [hact]
    exact h

theorem value?_foldl_act {id : RuleId} {actions : List Action} {p v : Text}
    (h : (Table.last? (declarationsOf id actions) p).or (r.value? .declared p) = some v) :
    (actions.foldl (act id) r).value? .declared p = some v := by
  induction actions generalizing r with
  | nil => exact h
  | cons a actions ih =>
    rw [declarationsOf_cons, Table.last?_append, Option.or_assoc] at h
    rw [List.foldl_cons]
    refine ih ?_
    cases hlast : Table.last? (declarationsOf id actions) p with
    | some w => simpa only [hlast, Option.some_or] using h
    | none =>
      rw [hlast, Option.none_or] at h
      rw [Option.none_or]
      exact value?_act h

theorem shown?_declared_act {id : RuleId} {a : Action} {p : Text}
    (h : ∀ d, a.declaration? id = some d →
      d.1 ≠ p ∧ ∀ b s, BoxProperty.ofLonghand? p = some (b, s) → d.1 ≠ b.shorthand) :
    (r.act id a).shown? .declared p = r.shown? .declared p := by
  rcases a.cases_at id with ⟨q, v, rfl⟩ | rfl | ⟨view, q, rfl⟩ | ⟨_, _, hlinks⟩
  · obtain ⟨hne, hshorthand⟩ := h (q, v) (if_pos rfl)
    rw [act_declare]
    refine shown?_congr ?_ fun b s hb => ?_
    · rw [value?_declare, if_neg fun hp => hne hp.2.symm]
    · rw [value?_declare, if_neg fun hp => hshorthand b s hb hp.2.symm]
  · rw [act_process]
    exact shown?_congr (r.value?_process_declared p) fun b _ _ =>
      r.value?_process_declared b.shorthand
  · rw [act_read, shown?_expand]
  · obtain ⟨_, _, _, hact⟩ := hlinks r
    rw [hact]
    exact shown?_congr rfl fun _ _ _ => rfl

/-- As long as neither a property nor its shorthand is declared, the same is shown of it. -/
theorem shown?_declared_foldl_act {id : RuleId} {actions : List Action} {p : Text}
    (h : ∀ d ∈ declarationsOf id actions,
      d.1 ≠ p ∧ ∀ b s, BoxProperty.ofLonghand? p = some (b, s) → d.1 ≠ b.shorthand) :
    (actions.foldl (act id) r).shown? .declared p = r.shown? .declared p := by
  induction actions generalizing r with
  | nil => rfl
  | cons a actions ih =>
    rw [declarationsOf_cons] at h
    have hrest := ih (r := r.act id a) fun d hd => h d (List.mem_append_right _ hd)
    rw [List.foldl_cons, hrest]
    exact shown?_declared_act fun d hd => h d (List.mem_append_left _ (Option.mem_toList.2 hd))

/-- A longhand that has its value from its shorthand alone, and whose shorthand is declared anew. -/
structure Overtaken (r : Rule) (id : RuleId) (p : Text) (actions : List Action) : Prop where
  absent : r.value? .declared p = none
  derived : (r.derived? .declared p).isSome
  undeclared : ∀ v, .declare id p v ∉ actions
  redeclared : ∃ b s v, BoxProperty.ofLonghand? p = some (b, s) ∧
    .declare id b.shorthand v ∈ actions

theorem Overtaken.shown?_foldl_act {id : RuleId} {p : Text} {actions : List Action}
    (h : r.Overtaken id p actions) :
    (actions.foldl (Rule.act id) (r.expand .declared p)).shown? .declared p =
      r.shown? .declared p := by
  obtain ⟨v, hderived⟩ := Option.isSome_iff_exists.1 h.derived
  have hshown : r.shown? .declared p = some v := by rw [shown?, h.absent, hderived, Option.none_or]
  have hlast : Table.last? (declarationsOf id actions) p = none :=
    Table.last?_eq_none_iff.2 fun w hw => h.undeclared w (Rules.mem_declarationsOf.1 hw)
  have hvalue : (actions.foldl (Rule.act id) (r.expand .declared p)).value? .declared p =
      some v := by
    refine value?_foldl_act ?_
    rw [hlast, Option.none_or, value?_expand, if_pos ⟨rfl, rfl⟩, hshown]
  rw [shown?, hvalue, hshown, Option.some_or]

theorem shown?_foldl_act_expand_self {id : RuleId} {p : Text} {actions : List Action}
    (h : ¬r.Overtaken id p actions) :
    (actions.foldl (act id) (r.expand .declared p)).shown? .declared p =
      (actions.foldl (act id) r).shown? .declared p := by
  cases hlast : Table.last? (declarationsOf id actions) p with
  | some w =>
    -- the last declaration is all that counts
    have hshown (r : Rule) : (actions.foldl (act id) r).shown? .declared p = some w := by
      have hvalue : (actions.foldl (act id) r).value? .declared p = some w := by
        refine value?_foldl_act ?_
        rw [hlast, Option.some_or]
      rw [shown?, hvalue, Option.some_or]
    rw [hshown, hshown]
  | none =>
    obtain ⟨_, hexpand⟩ | ⟨v, hvalue, hderived, _⟩ := r.expand_cases .declared p
    · rw [hexpand]
    · have hundeclared := Table.last?_eq_none_iff.1 hlast
      have hrest : ∀ d ∈ declarationsOf id actions, d.1 ≠ p ∧
          ∀ b s, BoxProperty.ofLonghand? p = some (b, s) → d.1 ≠ b.shorthand := by
        rintro ⟨n, w⟩ hd
        refine ⟨fun hn => hundeclared w (hn ▸ hd), ?_⟩
        rintro b s hb rfl
        exact h {
          absent := hvalue
          derived := Option.isSome_of_eq_some hderived
          undeclared := fun w hw => hundeclared w (Rules.mem_declarationsOf.2 hw)
          redeclared := ⟨b, s, w, hb, Rules.mem_declarationsOf.1 hd⟩ }
      rw [shown?_declared_foldl_act hrest, shown?_declared_foldl_act hrest, shown?_expand]

theorem shown?_foldl_act_expand_other (hsound : r.Sound) {view view' : View} {p q : Text}
    (h : ¬(view = .declared ∧ view' = .declared ∧ q = p)) (id : RuleId) (actions : List Action) :
    (actions.foldl (act id) (r.expand view p)).shown? view' q =
      (actions.foldl (act id) r).shown? view' q := by
  obtain ⟨_, hexpand⟩ | ⟨v, _, hderived, _⟩ := r.expand_cases view p
  · rw [hexpand]
  · obtain ⟨x, hlonghand, _⟩ := Option.bind_eq_some_iff.1 hderived
    have hne (b : BoxProperty) : b.shorthand ≠ p := by
      rintro rfl
      rw [b.ofLonghand?_shorthand] at hlonghand
      exact Option.some_ne_none x hlonghand.symm
    have hagree := (agreeOn_expand hsound view p).foldl_act (fun b hb => hne b hb.2) id actions
    exact hagree.shown?_eq (fun b hb => hne b hb.2) view' fun hview' hq =>
      h ⟨hq.1, hview', hq.2⟩

end Rule

namespace Setting

/-- Whatever is done with a new rule and with others, a read of it shows in no later read, except in
one of the same longhand that it gave a value of its own: if the shorthand is declared in between
and the longhand is not, the later read shows again what the first one did. -/
theorem read_foldl_act_read (s : Setting σ) (selector : Text) (before between : List Rules.Action)
    (view view' : View) (p q : Text) (i : RuleId) :
    let id := (s.create selector).1
    let s₀ := before.foldl act (s.create selector).2
    let first := Query.read s₀ id view p
    let kept := (Query.read (between.foldl act first.2) i view' q).1
    let left := (Query.read (between.foldl act s₀) i view' q).1
    let overtaken := i = id ∧ view = .declared ∧ view' = .declared ∧ q = p ∧
      ∃ r, s₀.rules.get? id = some r ∧ r.Overtaken id p between
    (¬overtaken → kept = left) ∧ (overtaken → kept = first.1) := by
  intro id s₀ first kept left overtaken
  let r := before.foldl (Rule.act id) { selector }
  have hsound : r.Sound := Rule.Sound.foldl_act (fun _ => rfl) id before
  have hr : s₀.rules.get? id = some r := by
    rw [get?_foldl_act, get?_create]
    rfl
  have hread (s : Setting σ) : (Query.read (between.foldl act s) i view' q).1 =
      (s.rules.get? i).bind fun r => (between.foldl (Rule.act i) r).shown? view' q := by
    rw [Query.read_fst, get?_foldl_act, Option.bind_map]
    rfl
  have hget : first.2.rules.get? i = (s₀.rules.get? i).map (·.act i (.read id view p)) :=
    s₀.get?_act (.read id view p) i
  have hkept : kept = (s₀.rules.get? i).bind fun r =>
      (between.foldl (Rule.act i) (r.act i (.read id view p))).shown? view' q := by
    refine (hread first.2).trans ?_
    rw [hget, Option.bind_map]
    rfl
  have hleft : left = (s₀.rules.get? i).bind fun r =>
      (between.foldl (Rule.act i) r).shown? view' q := hread s₀
  rw [hkept, hleft]
  rcases eq_or_ne i id with rfl | hother
  · rw [hr, Option.bind_some, Option.bind_some, Rule.act_read]
    constructor
    · intro hnot
      by_cases hsame : view = .declared ∧ view' = .declared ∧ q = p
      · obtain ⟨rfl, rfl, rfl⟩ := hsame
        exact Rule.shown?_foldl_act_expand_self fun h => hnot ⟨rfl, rfl, rfl, rfl, r, hr, h⟩
      · exact Rule.shown?_foldl_act_expand_other hsound hsame id between
    · rintro ⟨_, rfl, rfl, rfl, r', hr', h⟩
      obtain rfl := Option.some.inj (hr.symm.trans hr')
      rw [Query.read_fst, hr, h.shown?_foldl_act]
      rfl
  · refine ⟨fun _ => ?_, fun h => absurd h.1 hother⟩
    simp only [Rule.act, if_neg hother]

/-- A margin that is read once from its shorthand no longer follows it. -/
theorem not_forall_read_eq : ¬∀ (s : Setting Unit) (selector : Text)
    (before between : List Rules.Action) (view view' : View) (p q : Text),
    let id := (s.create selector).1
    let s₀ := before.foldl act (s.create selector).2
    (∀ a ∈ before ++ between, (∃ n v, a = .declare id n v) ∨ a = .process id ∨
      ∃ view n, a = .read id view n) →
    (Query.read (between.foldl act (Query.read s₀ id view p).2) id view' q).1 =
      (Query.read (between.foldl act s₀) id view' q).1 := by
  intro h
  let s : Setting Unit := ⟨none, {}, ()⟩
  have hread := h s ".a".toList [.declare ⟨0⟩ "margin".toList "1px".toList]
    [.declare ⟨0⟩ "margin".toList "2px".toList] .declared .declared "margin-top".toList
    "margin-top".toList fun a ha => .inl ?_
  · exact absurd hread (by decide)
  · rcases List.mem_pair.1 ha with rfl | rfl
    · exact ⟨_, _, rfl⟩
    · exact ⟨_, _, rfl⟩

theorem filledInSample_read :
    let s : Setting Unit := ⟨none, {}, ()⟩
    let id := (s.create ".a".toList).1
    let s₀ := [.declare id "margin".toList "1px".toList].foldl act (s.create ".a".toList).2
    let first := Query.read s₀ id .declared "margin-top".toList
    let between : List Rules.Action := [.declare id "margin".toList "2px".toList]
    (Query.read (between.foldl act first.2) id .declared "margin-top".toList).1 = first.1 ∧
      (Query.read (between.foldl act first.2) id .declared "margin-left".toList).1 =
        (Query.read (between.foldl act s₀) id .declared "margin-left".toList).1 := by
  intro s id s₀ first between
  have hread (q : Text) := read_foldl_act_read s ".a".toList
    [.declare id "margin".toList "1px".toList] between .declared .declared "margin-top".toList q id
  constructor
  · refine (hread _).2 ⟨rfl, rfl, rfl, rfl, _, rfl, ?_⟩
    exact {
      absent := by decide
      derived := by decide
      undeclared := fun v hv => absurd (List.mem_singleton.1 hv) (by simp)
      redeclared := ⟨.margin, .top, "2px".toList, by decide, List.mem_singleton_self _⟩ }
  · exact (hread _).1 fun h => absurd h.2.2.2.1 (by decide)

end Setting
end StyleCalls
