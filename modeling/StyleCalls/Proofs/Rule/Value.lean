import Mathlib.Data.List.Nodup
import StyleCalls.Rule.Basic

/-! What a read shows: the value of the property itself or else the one its shorthand gives it. A read
fills in what it shows, but that shows in no other read of the same moment. -/

namespace StyleCalls

namespace BoxProperty

theorem nodup_asciiLower_longhands :
    ((all.product Side.all).map fun x => (x.1.longhand x.2).asciiLower).Nodup := by decide

theorem mem_product (b : BoxProperty) (s : Side) : (b, s) ∈ all.product Side.all := by
  cases b <;> cases s <;> decide

theorem ofLonghand?_eq_some_iff {p : Text} {b : BoxProperty} {s : Side} :
    ofLonghand? p = some (b, s) ↔ p.eqIgnoringAsciiCase (b.longhand s) = true := by
  have hsound {b : BoxProperty} {s : Side} (h : ofLonghand? p = some (b, s)) :
      p.eqIgnoringAsciiCase (b.longhand s) = true := by
    obtain ⟨b', _, hb⟩ := List.exists_of_findSome?_eq_some h
    obtain ⟨s', _, hs⟩ := List.exists_of_findSome?_eq_some hb
    obtain ⟨hp, hpair⟩ := Option.ite_none_right_eq_some.1 hs
    obtain ⟨rfl, rfl⟩ := Prod.mk.inj (Option.some.inj hpair)
    exact hp
  refine ⟨hsound, fun h => ?_⟩
  cases hfound : ofLonghand? p with
  | none =>
    rw [ofLonghand?, List.findSome?_eq_none_iff] at hfound
    have hnone := List.findSome?_eq_none_iff.1 (hfound b (by cases b <;> decide)) s
      (by cases s <;> decide)
    rw [if_pos h] at hnone
    exact absurd hnone (Option.some_ne_none _)
  | some x =>
    obtain ⟨b', s'⟩ := x
    have hlower : (b'.longhand s').asciiLower = (b.longhand s).asciiLower :=
      (of_decide_eq_true (hsound hfound)).symm.trans (of_decide_eq_true h)
    have hpair := List.inj_on_of_nodup_map nodup_asciiLower_longhands (mem_product b' s')
      (mem_product b s) hlower
    rw [hpair]

theorem ofLonghand?_shorthand (b : BoxProperty) : ofLonghand? b.shorthand = none := by
  cases b <;> decide

end BoxProperty

namespace Rule

/-- The value that a shorthand gives a property. -/
def derived? (r : Rule) (view : View) (p : Text) : Option Text := do
  let (b, s) ← BoxProperty.ofLonghand? p
  BoxProperty.valueFor? s (← r.value? view b.shorthand)

def shown? (r : Rule) (view : View) (p : Text) : Option Text :=
  (r.value? view p).or (r.derived? view p)

theorem derived?_congr {r r' : Rule} {view : View} {p : Text}
    (h : ∀ b s, BoxProperty.ofLonghand? p = some (b, s) →
      r'.value? view b.shorthand = r.value? view b.shorthand) :
    r'.derived? view p = r.derived? view p := by
  rw [derived?, derived?]
  cases hlonghand : BoxProperty.ofLonghand? p with
  | none => rfl
  | some x =>
    have hshorthand := h x.1 x.2 hlonghand
    simp only [Option.bind_eq_bind, Option.bind_some, hshorthand]

theorem shown?_congr {r r' : Rule} {view : View} {p : Text}
    (hvalue : r'.value? view p = r.value? view p)
    (hshorthand : ∀ b s, BoxProperty.ofLonghand? p = some (b, s) →
      r'.value? view b.shorthand = r.value? view b.shorthand) :
    r'.shown? view p = r.shown? view p := by
  rw [shown?, shown?, hvalue, derived?_congr hshorthand]

/-- All that an expansion can do. -/
theorem expand_cases (r : Rule) (view : View) (p : Text) :
    r.shown? view p = r.value? view p ∧ r.expand view p = r ∨
      ∃ v, r.value? view p = none ∧ r.derived? view p = some v ∧
        r.expand view p = r.setValues ((r.values view).insert p v) view := by
  unfold expand
  dsimp only
  split
  · next hthere =>
    obtain ⟨v, hv⟩ := Option.isSome_iff_exists.1 hthere
    have hvalue : r.value? view p = some v := hv
    rw [shown?, hvalue]
    exact .inl ⟨rfl, rfl⟩
  · next habsent =>
    have hvalue : r.value? view p = none := Option.not_isSome_iff_eq_none.1 habsent
    split
    · next v hderived => exact .inr ⟨v, hvalue, hderived, rfl⟩
    · next hderived =>
      have hnone : r.derived? view p = none := hderived
      rw [shown?, hnone, Option.or_none]
      exact .inl ⟨rfl, rfl⟩

theorem value?_setValues (r : Rule) (values : Table Text Text) (view view' : View) (q : Text) :
    (r.setValues values view).value? view' q =
      if view' = view then values.get? q else r.value? view' q := by
  cases view <;> cases view' <;> rfl

theorem value?_expand (r : Rule) (view view' : View) (p q : Text) :
    (r.expand view p).value? view' q =
      if view' = view ∧ q = p then r.shown? view p else r.value? view' q := by
  obtain ⟨hshown, hexpand⟩ | ⟨v, hvalue, hderived, hexpand⟩ := r.expand_cases view p
  · rw [hexpand, hshown]
    split
    · next h => rw [h.1, h.2]
    · rfl
  · rw [hexpand, value?_setValues, Table.get?_insert, shown?, hvalue, hderived, Option.none_or]
    rcases eq_or_ne view' view with rfl | hview
    · rw [if_pos rfl]
      simp only [true_and]
      rfl
    · rw [if_neg hview, if_neg fun h => hview h.1]

/-- No shorthand is filled in, so a read leaves alone what other properties have from theirs. -/
theorem derived?_expand (r : Rule) (view view' : View) (p q : Text) :
    (r.expand view p).derived? view' q = r.derived? view' q := by
  refine derived?_congr fun b _ _ => ?_
  rw [value?_expand]
  split
  · next h =>
    obtain ⟨rfl, rfl⟩ := h
    have hderived : r.derived? view' b.shorthand = none := by
      rw [derived?, BoxProperty.ofLonghand?_shorthand]
      rfl
    rw [shown?, hderived, Option.or_none]
  · rfl

theorem shown?_expand (r : Rule) (view view' : View) (p q : Text) :
    (r.expand view p).shown? view' q = r.shown? view' q := by
  rw [shown?, shown?, derived?_expand, value?_expand]
  split
  · next h =>
    obtain ⟨rfl, rfl⟩ := h
    rw [shown?, Option.or_assoc, Option.or_self]
  · rfl

theorem value?_declare (r : Rule) (view : View) (p q v : Text) :
    (r.declare p v).value? view q =
      if view = .declared ∧ q = p then some v else r.value? view q := by
  cases view with
  | declared =>
    simp only [true_and]
    exact Table.get?_insert ..
  | processed => simp [value?, values, declare]

theorem process_of_isProcessed {r : Rule} (h : r.isProcessed = true) : r.process = r := if_pos h

theorem value?_process_declared (r : Rule) (q : Text) :
    r.process.value? .declared q = r.value? .declared q := by
  unfold process
  split <;> rfl

end Rule
end StyleCalls
