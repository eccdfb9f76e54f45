import Mathlib.Data.Set.Card
import Mathlib.Logic.Relation
import StyleCalls.Proofs.Registry.Lookup
import StyleCalls.Proofs.Rule.Links

/-! The way up from a rule. Where no rule is its own ancestor, each step leaves fewer ancestors, so
the way ends within as many steps as there are rules. -/

namespace StyleCalls.Rules

def ParentOf (rs : Rules) (id parent : RuleId) : Prop := rs.parent? id = some parent

/-- The rules that the way up from a rule comes by, all of which are there. -/
def Ancestor (rs : Rules) : RuleId → RuleId → Prop := Relation.TransGen rs.ParentOf

def Acyclic (rs : Rules) : Prop := ∀ id, ¬rs.Ancestor id id

variable {rs : Rules} {id parent root : RuleId}

/-- It is enough that every rule is made after its parent. -/
theorem acyclic_of_index_lt
    (h : ∀ e ∈ rs.table.entries, ∀ parent ∈ e.2.parent, parent.index < e.1.index) : rs.Acyclic := by
  have hparent {id parent : RuleId} (hp : rs.ParentOf id parent) : parent.index < id.index := by
    obtain ⟨⟨r, hr, hlink⟩, _⟩ := follow?_eq_some_iff.1 hp
    exact h (id, r) (Table.get?_eq_some_iff.1 hr) parent hlink
  have hancestor {id ancestor : RuleId} (hup : rs.Ancestor id ancestor) :
      ancestor.index < id.index := by
    induction hup with
    | single hp => exact hparent hp
    | tail _ hp ih => exact (hparent hp).trans ih
  exact fun id hid => Nat.lt_irrefl _ (hancestor hid)

/-! The number of ancestors -/

def ancestors (rs : Rules) (id : RuleId) : Set RuleId := {a | rs.Ancestor id a}

theorem ancestors_subset (rs : Rules) (id : RuleId) :
    rs.ancestors id ⊆ (rs.table.keys.toFinset : Set RuleId) := by
  intro a ha
  obtain ⟨_, _, hparent⟩ := Relation.TransGen.tail'_iff.1 ha
  have hthere := (follow?_eq_some_iff.1 hparent).2
  rw [List.coe_toFinset]
  exact Table.contains_iff_mem_keys.1 hthere

theorem finite_ancestors (rs : Rules) (id : RuleId) : (rs.ancestors id).Finite :=
  (Finset.finite_toSet _).subset (rs.ancestors_subset id)

theorem ncard_ancestors_le (rs : Rules) (id : RuleId) :
    (rs.ancestors id).ncard ≤ rs.table.size := by
  calc (rs.ancestors id).ncard
      ≤ (rs.table.keys.toFinset : Set RuleId).ncard :=
        Set.ncard_le_ncard (rs.ancestors_subset id) (Finset.finite_toSet _)
    _ = rs.table.keys.toFinset.card := Set.ncard_coe_finset _
    _ ≤ rs.table.keys.length := List.toFinset_card_le _
    _ = rs.table.size := List.length_map _

theorem Acyclic.ncard_ancestors_lt (h : rs.Acyclic) (hparent : rs.parent? id = some parent) :
    (rs.ancestors parent).ncard < (rs.ancestors id).ncard := by
  refine Set.ncard_lt_ncard ⟨fun a ha => ?_, fun hsub => ?_⟩ (rs.finite_ancestors id)
  · exact Relation.TransGen.head hparent ha
  · exact h parent (hsub (Relation.TransGen.single hparent))

/-! The end of the way -/

theorem reflTransGen_climb (rs : Rules) (steps : Nat) (id : RuleId) :
    Relation.ReflTransGen rs.ParentOf id (rs.climb steps id) := by
  induction steps generalizing id with
  | zero => exact .refl
  | succ steps ih =>
    rw [climb]
    cases hparent : rs.parent? id with
    | none => exact .refl
    | some parent => exact .head hparent (ih parent)

theorem Acyclic.parent?_climb (h : rs.Acyclic) {steps : Nat}
    (hsteps : (rs.ancestors id).ncard ≤ steps) : rs.parent? (rs.climb steps id) = none := by
  induction steps generalizing id with
  | zero =>
    cases hparent : rs.parent? id with
    | none => exact hparent
    | some parent =>
      have hlt := h.ncard_ancestors_lt hparent
      omega
  | succ steps ih =>
    rw [climb]
    cases hparent : rs.parent? id with
    | none => exact hparent
    | some parent =>
      have hlt := h.ncard_ancestors_lt hparent
      exact ih (by omega)

theorem eq_of_reflTransGen {id a b : RuleId}
    (ha : Relation.ReflTransGen rs.ParentOf id a)
    (hb : Relation.ReflTransGen rs.ParentOf id b)
    (hatop : rs.parent? a = none) (hbtop : rs.parent? b = none) : a = b := by
  have hunique : Relator.RightUnique rs.ParentOf :=
    fun _ _ _ hp hq => Option.some.inj (hp.symm.trans hq)
  have hend {a b : RuleId} (hatop : rs.parent? a = none)
      (hab : Relation.ReflTransGen rs.ParentOf a b) : a = b := by
    rcases hab.cases_head with heq | ⟨parent, hparent, _⟩
    · exact heq
    · exact absurd (hatop.symm.trans hparent) (Option.some_ne_none parent).symm
  rcases Relation.ReflTransGen.total_of_right_unique hunique ha hb with hab | hba
  · exact hend hatop hab
  · exact (hend hbtop hba).symm

/-- The way up ends at the one ancestor that has no parent. -/
theorem Acyclic.top?_eq_some_iff (h : rs.Acyclic) :
    rs.top? id = some root ↔ rs.Ancestor id root ∧ rs.parent? root = none := by
  rw [top?, Option.map_eq_some_iff]
  constructor
  · rintro ⟨parent, hparent, rfl⟩
    exact ⟨Relation.TransGen.head'_iff.2 ⟨parent, hparent, rs.reflTransGen_climb _ parent⟩,
      h.parent?_climb (rs.ncard_ancestors_le parent)⟩
  · rintro ⟨hup, hroot⟩
    obtain ⟨parent, hparent, hrest⟩ := Relation.TransGen.head'_iff.1 hup
    exact ⟨parent, hparent, eq_of_reflTransGen (rs.reflTransGen_climb _ parent) hrest
      (h.parent?_climb (rs.ncard_ancestors_le parent)) hroot⟩

end StyleCalls.Rules
