import Mathlib.Data.List.ProdSigma
import StyleCalls.Proofs.Rule.Run

/-! Links between siblings. Each end of a link keeps it until that end is linked anew, so the two ends
agree unless just one of them has been linked elsewhere. -/

namespace StyleCalls
variable {σ : Type}

/-- The siblings that an action links, the one before and the one after. -/
def Rules.Action.links : Action → List (RuleId × RuleId)
  | .link previous next => [(previous, next)]
  | _ => []

namespace Rule
open Rules (Action)

theorem links_expand (r : Rule) (view : View) (p : Text) :
    (r.expand view p).next = r.next ∧ (r.expand view p).previous = r.previous := by
  obtain ⟨values, hexpand⟩ := r.exists_expand_eq view p
  rw [hexpand]
  cases view <;> exact ⟨rfl, rfl⟩

theorem links_process (r : Rule) : r.process.next = r.next ∧ r.process.previous = r.previous := by
  unfold process
  split <;> exact ⟨rfl, rfl⟩

theorem links_act (id : RuleId) (r : Rule) (a : Action) :
    (r.act id a).next = (Table.last? a.links id).or r.next ∧
      (r.act id a).previous = (Table.last? (a.links.map Prod.swap) id).or r.previous := by
  cases a with
  | declare i p v =>
    rw [act]
    split <;> exact ⟨rfl, rfl⟩
  | process i =>
    rw [act]
    split
    · exact r.links_process
    · exact ⟨rfl, rfl⟩
  | read i view p =>
    rw [act]
    split
    · exact r.links_expand view p
    · exact ⟨rfl, rfl⟩
  | setParent i parent =>
    rw [act]
    split <;> exact ⟨rfl, rfl⟩
  | link x y =>
    rw [act, Action.links, List.map_singleton, Table.last?_singleton, Table.last?_singleton]
    dsimp only [Prod.swap]
    constructor <;> split <;> split <;> rfl

end Rule

namespace Rules

theorem contains_iff {rs : Rules} {id : RuleId} :
    rs.contains id = true ↔ ∃ r, rs.get? id = some r := Option.isSome_iff_exists

theorem follow?_eq_some_iff {rs : Rules} {link : Rule → Option RuleId} {id target : RuleId} :
    rs.follow? link id = some target ↔
      (∃ r, rs.get? id = some r ∧ link r = some target) ∧ rs.contains target = true := by
  rw [follow?]
  constructor
  · intro h
    obtain ⟨r, hr, h⟩ := Option.bind_eq_some_iff.1 h
    obtain ⟨t, ht, h⟩ := Option.bind_eq_some_iff.1 h
    obtain ⟨hthere, h⟩ := Option.ite_none_right_eq_some.1 h
    obtain rfl := Option.some.inj h
    exact ⟨⟨r, hr, ht⟩, hthere⟩
  · rintro ⟨⟨r, hr, ht⟩, hthere⟩
    simp [hr, ht, hthere]

theorem get?_retain (rs : Rules) (held : RuleId → Bool) (id : RuleId) :
    (rs.retain held).get? id = if held id then rs.get? id else none :=
  Table.get?_filterKeys held rs.table id

theorem get?_create (rs : Rules) (selector : Text) (id : RuleId) :
    (rs.create selector).2.get? id = if id = ⟨rs.fresh⟩ then some { selector } else rs.get? id :=
  Table.get?_insert ..

/-- The links one way of the rules that are there are the last ones made from them, and none was made
from a rule that is still to come. -/
structure Keeps (rs : Rules) (link : Rule → Option RuleId) (made : List (RuleId × RuleId)) :
    Prop where
  lt_fresh : ∀ id r, rs.get? id = some r → id.index < rs.fresh
  made_lt_fresh : ∀ e ∈ made, e.1.index < rs.fresh
  link_eq : ∀ id r, rs.get? id = some r → link r = Table.last? made id

variable {rs rs' : Rules} {link : Rule → Option RuleId} {made : List (RuleId × RuleId)}

theorem Keeps.create (h : rs.Keeps link made) {selector : Text} (hnew : link { selector } = none) :
    (rs.create selector).2.Keeps link made := by
  have hcases {id : RuleId} {r : Rule} (hr : (rs.create selector).2.get? id = some r) :
      id = ⟨rs.fresh⟩ ∧ r = { selector } ∨ rs.get? id = some r := by
    rw [get?_create] at hr
    split at hr
    · next hid => exact .inl ⟨hid, (Option.some.inj hr).symm⟩
    · exact .inr hr
  refine ⟨fun id r hr => ?_, fun e he => Nat.lt_succ_of_lt (h.made_lt_fresh e he), fun id r hr => ?_⟩
  · obtain ⟨rfl, _⟩ | hr := hcases hr
    · exact Nat.lt_succ_self rs.fresh
    · exact Nat.lt_succ_of_lt (h.lt_fresh id r hr)
  · obtain ⟨rfl, rfl⟩ | hr := hcases hr
    · have hlast : Table.last? made ⟨rs.fresh⟩ = none :=
        Table.last?_eq_none_iff.2 fun y hy => Nat.lt_irrefl _ (h.made_lt_fresh _ hy)
      rw [hnew, hlast]
    · exact h.link_eq id r hr

theorem Keeps.retain (h : rs.Keeps link made) (held : RuleId → Bool) :
    (rs.retain held).Keeps link made := by
  have hget {id : RuleId} {r : Rule} (hr : (rs.retain held).get? id = some r) :
      rs.get? id = some r := by
    rw [get?_retain] at hr
    exact (Option.ite_none_right_eq_some.1 hr).2
  exact ⟨fun id r hr => h.lt_fresh id r (hget hr), h.made_lt_fresh,
    fun id r hr => h.link_eq id r (hget hr)⟩

theorem Keeps.act (h : rs.Keeps link made) {a : Action} {new : List (RuleId × RuleId)}
    (hfresh : rs'.fresh = rs.fresh) (hget : ∀ id, rs'.get? id = (rs.get? id).map (·.act id a))
    (hnew : ∀ e ∈ new, rs.contains e.1 = true)
    (hlink : ∀ id r, link (Rule.act id r a) = (Table.last? new id).or (link r)) :
    rs'.Keeps link (made ++ new) := by
  refine ⟨fun id r hr => ?_, fun e he => ?_, fun id r hr => ?_⟩
  · rw [hget] at hr
    obtain ⟨r₀, hr₀, _⟩ := Option.map_eq_some_iff.1 hr
    exact hfresh ▸ h.lt_fresh id r₀ hr₀
  · rcases List.mem_append.1 he with he | he
    · exact hfresh ▸ h.made_lt_fresh e he
    · obtain ⟨r, hr⟩ := contains_iff.1 (hnew e he)
      exact hfresh ▸ h.lt_fresh e.1 r hr
  · rw [hget] at hr
    obtain ⟨r₀, hr₀, rfl⟩ := Option.map_eq_some_iff.1 hr
    rw [hlink, Table.last?_append, h.link_eq id r₀ hr₀]

theorem Keeps.follow?_iff (h : rs.Keeps link made) {x y : RuleId} (hx : rs.contains x = true)
    (hy : rs.contains y = true) : rs.follow? link x = some y ↔ Table.last? made x = some y := by
  obtain ⟨r, hr⟩ := contains_iff.1 hx
  rw [follow?_eq_some_iff, and_iff_left hy, ← h.link_eq x r hr]
  exact ⟨fun ⟨_, hr', hlink⟩ => Option.some.inj (hr.symm.trans hr') ▸ hlink,
    fun hlink => ⟨r, hr, hlink⟩⟩

end Rules

namespace Setting

/-- Settings that come about from one without rules, and the links made on the way. Rules can be
linked as long as they are there. -/
inductive Reached : List (RuleId × RuleId) → Setting σ → Prop where
  | start (context : Option Context) (memory : σ) : Reached [] ⟨context, {}, memory⟩
  | create {links s} (selector : Text) : Reached links s → Reached links (s.create selector).2
  | drop {links s} (held : RuleId → Bool) : Reached links s →
      Reached links { s with rules := s.rules.retain held }
  | act {links s} (a : Rules.Action) : Reached links s →
      (∀ e ∈ a.links, s.rules.contains e.1 = true ∧ s.rules.contains e.2 = true) →
      Reached (links ++ a.links) (s.act a)

variable {links : List (RuleId × RuleId)} {s : Setting σ}

theorem fresh_act (s : Setting σ) (a : Rules.Action) : (s.act a).rules.fresh = s.rules.fresh := by
  cases a <;> rfl

theorem Reached.keeps_next (h : Reached links s) : s.rules.Keeps Rule.next links := by
  induction h with
  | start context memory => exact ⟨nofun, nofun, nofun⟩
  | create selector _ ih => exact ih.create rfl
  | drop held _ ih => exact ih.retain held
  | @act links s a _ hthere ih =>
    exact ih.act (s.fresh_act a) (s.get?_act a) (fun e he => (hthere e he).1)
      fun id r => (r.links_act id a).1

theorem Reached.keeps_previous (h : Reached links s) :
    s.rules.Keeps Rule.previous (links.map Prod.swap) := by
  induction h with
  | start context memory => exact ⟨nofun, nofun, nofun⟩
  | create selector _ ih => exact ih.create rfl
  | drop held _ ih => exact ih.retain held
  | @act links s a _ hthere ih =>
    rw [List.map_append]
    refine ih.act (s.fresh_act a) (s.get?_act a) (fun e he => ?_) fun id r => (r.links_act id a).2
    obtain ⟨e', he', rfl⟩ := List.mem_map.1 he
    exact (hthere e' he').2

/-- Of two rules that were linked, each still leads to the other unless it was linked elsewhere since,
and two that never were do not lead to each other. -/
theorem next?_iff_previous? (h : Reached links s) {x y : RuleId}
    (hx : s.rules.contains x = true) (hy : s.rules.contains y = true) :
    ((x, y) ∉ links → s.rules.next? x ≠ some y ∧ s.rules.previous? y ≠ some x) ∧
      ∀ before after, links = before ++ (x, y) :: after → (x, y) ∉ after →
        (s.rules.next? x = some y ↔ ∀ z, (x, z) ∉ after) ∧
        (s.rules.previous? y = some x ↔ ∀ w, (w, y) ∉ after) ∧
        ((s.rules.next? x = some y ↔ s.rules.previous? y = some x) ↔
          ((∀ z, (x, z) ∉ after) ↔ ∀ w, (w, y) ∉ after)) := by
  have hnext : s.rules.next? x = some y ↔ Table.last? links x = some y :=
    h.keeps_next.follow?_iff hx hy
  have hprevious : s.rules.previous? y = some x ↔
      Table.last? (links.map Prod.swap) y = some x := h.keeps_previous.follow?_iff hy hx
  constructor
  · intro hnone
    rw [Ne, hnext, Ne, hprevious]
    refine ⟨fun hlast => hnone (Table.mem_of_last?_eq_some hlast), fun hlast => hnone ?_⟩
    exact (List.mem_map_swap ..).1 (Table.mem_of_last?_eq_some hlast)
  · rintro before after rfl hafter
    have hafter' : (y, x) ∉ after.map Prod.swap := mt (List.mem_map_swap ..).1 hafter
    rw [Table.last?_append_cons_iff hafter] at hnext
    rw [List.map_append, List.map_cons, Prod.swap_prod_mk,
      Table.last?_append_cons_iff hafter'] at hprevious
    simp only [List.mem_map_swap] at hprevious
    exact ⟨hnext, hprevious, iff_congr hnext hprevious⟩

/-- Three rules, of which the second was linked after the first and then after the third. -/
def relinked : Setting Unit :=
  [.link ⟨0⟩ ⟨1⟩, .link ⟨2⟩ ⟨1⟩].foldl Setting.act
    (((⟨none, {}, ()⟩ : Setting Unit).create ".a".toList).2.create ".b".toList |>.2.create ".c".toList).2

theorem reached_relinked : Reached [(⟨0⟩, ⟨1⟩), (⟨2⟩, ⟨1⟩)] relinked :=
  .act (.link ⟨2⟩ ⟨1⟩) (.act (.link ⟨0⟩ ⟨1⟩)
    (.create _ (.create _ (.create _ (.start none ())))) (by decide)) (by decide)

theorem relinkedSample_siblings :
    let s : Setting Unit := { relinked with rules := relinked.rules.retain (· ≠ ⟨2⟩) }
    Reached [(⟨0⟩, ⟨1⟩), (⟨2⟩, ⟨1⟩)] s ∧ s.rules.next? ⟨0⟩ = some ⟨1⟩ ∧
      s.rules.previous? ⟨1⟩ ≠ some ⟨0⟩ := by
  intro s
  have hs : Reached [(⟨0⟩, ⟨1⟩), (⟨2⟩, ⟨1⟩)] s := .drop _ reached_relinked
  have hfirst : s.rules.contains ⟨0⟩ = true := by decide
  have hsecond : s.rules.contains ⟨1⟩ = true := by decide
  obtain ⟨hnext, hprevious, _⟩ :=
    (next?_iff_previous? hs hfirst hsecond).2 [] [(⟨2⟩, ⟨1⟩)] rfl (by decide)
  exact ⟨hs, hnext.2 (by simp), fun h => hprevious.1 h ⟨2⟩ (by simp)⟩

theorem not_forall_next?_iff_previous? :
    ¬∀ (links : List (RuleId × RuleId)) (s : Setting Unit) (x y : RuleId), Reached links s →
      s.rules.contains x = true → s.rules.contains y = true →
        (s.rules.next? x = some y ↔ s.rules.previous? y = some x) := by
  intro h
  have hfirst := h _ relinked ⟨0⟩ ⟨1⟩ reached_relinked (by decide) (by decide)
  exact absurd hfirst (by decide)

end Setting
end StyleCalls
