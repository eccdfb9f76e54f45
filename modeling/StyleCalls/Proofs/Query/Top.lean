import StyleCalls.Proofs.Query.Fallback

/-! Queries for `top`. They climb from the parent of the current rule, one link at a time, and no
bound is set to that. Where no rule is its own ancestor the climb ends by itself, at the one ancestor
that has no parent. -/

namespace StyleCalls

namespace Rules

/-- From a rule to its parent as long as there is one, in so many turns. -/
inductive ClimbsIn (rs : Rules) : Nat → RuleId → RuleId → Prop where
  | stop {root} : rs.parent? root = none → ClimbsIn rs 0 root root
  | turn {turns id parent root} : rs.parent? id = some parent → ClimbsIn rs turns parent root →
      ClimbsIn rs (turns + 1) id root

variable {rs : Rules} {turns steps : Nat} {id parent root : RuleId}

theorem ClimbsIn.climb_eq (h : rs.ClimbsIn turns id root) (hsteps : turns ≤ steps) :
    rs.climb steps id = root := by
  induction h generalizing steps with
  | stop hroot =>
    cases steps with
    | zero => rfl
    | succ steps => rw [climb, hroot]
  | turn hparent _ ih =>
    obtain ⟨steps, rfl⟩ := Nat.exists_eq_add_of_le' hsteps
    rw [← Nat.add_assoc, climb, hparent]
    exact ih (Nat.le_add_left _ steps)

/-- Each turn leaves fewer ancestors. -/
theorem Acyclic.exists_climbsIn (h : rs.Acyclic) (id : RuleId) :
    ∃ turns root, turns ≤ (rs.ancestors id).ncard ∧ rs.ClimbsIn turns id root := by
  induction hn : (rs.ancestors id).ncard using Nat.strong_induction_on generalizing id with
  | _ n ih =>
    cases hparent : rs.parent? id with
    | none => exact ⟨0, id, Nat.zero_le n, .stop hparent⟩
    | some parent =>
      have hfewer : (rs.ancestors parent).ncard < n := hn ▸ h.ncard_ancestors_lt hparent
      obtain ⟨turns, root, hturns, hclimb⟩ := ih _ hfewer parent rfl
      exact ⟨turns + 1, root, hturns.trans_lt hfewer, .turn hparent hclimb⟩

/-- The climb does not end on a circle of parents. -/
theorem ClimbsIn.not_circle (h : rs.ClimbsIn turns id root) : ¬rs.Ancestor id id := by
  induction h with
  | stop hroot =>
    intro hcircle
    obtain ⟨parent, hparent, _⟩ := Relation.TransGen.head'_iff.1 hcircle
    exact absurd (hroot.symm.trans hparent) (Option.some_ne_none parent).symm
  | turn hparent _ ih =>
    intro hcircle
    obtain ⟨parent, hparent', hback⟩ := Relation.TransGen.head'_iff.1 hcircle
    obtain rfl := Option.some.inj (hparent.symm.trans hparent')
    exact ih (.tail' hback hparent)

/-- Nor below one. -/
theorem ClimbsIn.not_below_circle (h : rs.ClimbsIn turns id root)
    (hbelow : Relation.ReflTransGen rs.ParentOf id a) : ¬rs.Ancestor a a := by
  induction hbelow using Relation.ReflTransGen.head_induction_on generalizing turns with
  | refl => exact h.not_circle
  | head hparent _ ih =>
    cases h with
    | stop hroot => exact absurd (hroot.symm.trans hparent) (Option.some_ne_none _).symm
    | turn hparent' hclimb =>
      obtain rfl := Option.some.inj (hparent.symm.trans hparent')
      exact ih hclimb

theorem top?_eq_none_iff : rs.top? id = none ↔ rs.parent? id = none := Option.map_eq_none_iff

theorem Acyclic.exists_top? (h : rs.Acyclic) (hparent : rs.parent? id = some parent) :
    ∃ turns root, turns ≤ rs.table.size ∧ rs.ClimbsIn turns parent root ∧
      rs.top? id = some root := by
  obtain ⟨turns, root, hturns, hclimb⟩ := h.exists_climbsIn parent
  have hsize : turns ≤ rs.table.size := hturns.trans (rs.ncard_ancestors_le parent)
  refine ⟨turns, root, hsize, hclimb, ?_⟩
  rw [top?, hparent, Option.map_some, hclimb.climb_eq hsize]

theorem Acyclic.top?_eq_top?_parent (h : rs.Acyclic) (hparent : rs.parent? id = some parent)
    (hgrandparent : rs.parent? parent ≠ none) : rs.top? id = rs.top? parent := by
  obtain ⟨root, htop⟩ := Option.ne_none_iff_exists'.1 (mt top?_eq_none_iff.1 hgrandparent)
  obtain ⟨hup, hroot⟩ := h.top?_eq_some_iff.1 htop
  rw [htop, h.top?_eq_some_iff]
  exact ⟨.head hparent hup, hroot⟩

end Rules

/-- The same setting seen from another rule. -/
def Setting.from {σ : Type} (s : Setting σ) (id : RuleId) : Setting σ :=
  { s with context := s.context.map fun c => { c with rule := some id } }

theorem Setting.rule?_from {σ : Type} {s : Setting σ} {current : RuleId}
    (hcurrent : s.rule? = some current) (id : RuleId) : (s.from id).rule? = some id := by
  obtain ⟨c, hc, _⟩ := Option.bind_eq_some_iff.1 hcurrent
  simp [Setting.rule?, Setting.from, hc]

namespace Query
variable {σ : Type} {host : Host σ} {s : Setting σ} {input target property : Text}
  {args : List Text} {current : RuleId}

theorem target?_of_top (htop : (spelled host target).asciiLower = "top".toList)
    (hcurrent : s.rule? = some current) : target? host s target = s.rules.top? current := by
  unfold target?
  rw [← spelled]
  simp [htop, hcurrent]

theorem run_of_target?_eq_none (hproperty : s.property? = some property)
    (hsplit : Arguments.split .commas input = target :: args)
    (hnone : target? host s target = none) : run host input s = (args[1]?.getD [], s) := by
  unfold run
  simp [hproperty, hsplit, hnone]

/-- The climb from the parent of the current rule ends within as many turns as there are rules, at
the one ancestor without a parent, and that is what the query is aimed at. It is aimed at nothing only
where there is no parent, and from a parent that is not the top at the same rule as from below. -/
theorem target?_top (host : Host σ) (s : Setting σ) (hacyclic : s.rules.Acyclic)
    (hcurrent : s.rule? = some current)
    (htop : (spelled host target).asciiLower = "top".toList) :
    (∀ parent, s.rules.parent? current = some parent → ∃ turns root,
      turns ≤ s.rules.table.size ∧ s.rules.ClimbsIn turns parent root ∧
        target? host s target = some root ∧
        ∀ a, s.rules.Ancestor current a ∧ s.rules.parent? a = none ↔ a = root) ∧
    (target? host s target = none ↔ s.rules.parent? current = none) ∧
    (s.rules.parent? current = none → ∀ input property args, s.property? = some property →
      Arguments.split .commas input = target :: args →
        run host input s = (args[1]?.getD [], s)) ∧
    (∀ parent, s.rules.parent? current = some parent → s.rules.parent? parent ≠ none →
      target? host (s.from parent) target = target? host s target) := by
  have htarget : target? host s target = s.rules.top? current := target?_of_top htop hcurrent
  have hnone : target? host s target = none ↔ s.rules.parent? current = none := by
    rw [htarget, Rules.top?_eq_none_iff]
  refine ⟨fun parent hparent => ?_, hnone, fun hparent input property args hproperty hsplit => ?_,
    fun parent hparent hgrandparent => ?_⟩
  · obtain ⟨turns, root, hturns, hclimb, hroot⟩ := hacyclic.exists_top? hparent
    refine ⟨turns, root, hturns, hclimb, htarget.trans hroot, fun a => ?_⟩
    rw [← hacyclic.top?_eq_some_iff, hroot, Option.some.injEq, eq_comm]
  · exact run_of_target?_eq_none hproperty hsplit (hnone.2 hparent)
  · rw [htarget, target?_of_top htop (Setting.rule?_from hcurrent parent)]
    exact (hacyclic.top?_eq_top?_parent hparent hgrandparent).symm

/-- Four rules, each the parent of the next one. The first of them is no longer there. -/
def beheaded : Setting Unit :=
  let start : Setting Unit := ⟨some { property := some "color".toList, rule := some ⟨3⟩ }, {}, ()⟩
  let made := [".a", ".b", ".c", ".d"].foldl (fun s selector => (s.create selector.toList).2) start
  let s := [.setParent ⟨1⟩ ⟨0⟩, .setParent ⟨2⟩ ⟨1⟩, .setParent ⟨3⟩ ⟨2⟩].foldl Setting.act made
  { s with rules := s.rules.retain (· ≠ ⟨0⟩) }

theorem beheaded_target? :
    let host : Host Unit := {}
    (∃ turns, turns ≤ 3 ∧ beheaded.rules.ClimbsIn turns ⟨2⟩ ⟨1⟩) ∧
      target? host (beheaded.from ⟨2⟩) "Top".toList = some ⟨1⟩ ∧
      (run host "TOP, color, red".toList (beheaded.from ⟨1⟩)).1 = "red".toList := by
  intro host
  have hacyclic : beheaded.rules.Acyclic := Rules.acyclic_of_index_lt (by decide)
  have hparent : beheaded.rules.parent? ⟨3⟩ = some ⟨2⟩ := by decide
  have hroot : beheaded.rules.parent? ⟨1⟩ = none := by decide
  have hcurrent : beheaded.rule? = some ⟨3⟩ := rfl
  have hmixed : (spelled host "Top".toList).asciiLower = "top".toList := by decide
  obtain ⟨hclimbs, _, _, hsame⟩ := target?_top host beheaded hacyclic hcurrent hmixed
  obtain ⟨turns, root, hturns, hclimb, htarget, hunique⟩ := hclimbs ⟨2⟩ hparent
  have hgrandparent : beheaded.rules.parent? ⟨2⟩ = some ⟨1⟩ := by decide
  have hup : beheaded.rules.Ancestor ⟨3⟩ ⟨1⟩ := .tail (.single hparent) hgrandparent
  obtain rfl := (hunique ⟨1⟩).1 ⟨hup, hroot⟩
  refine ⟨⟨turns, hturns, hclimb⟩, ?_, ?_⟩
  · rw [hsame ⟨2⟩ hparent (by decide), htarget]
  · have hbelow : (beheaded.from ⟨1⟩).rule? = some ⟨1⟩ := rfl
    have hupper : (spelled host "TOP".toList).asciiLower = "top".toList := by decide
    have hsplit : Arguments.split .commas "TOP, color, red".toList =
        ["TOP".toList, "color".toList, "red".toList] := by decide
    obtain ⟨_, _, hfallback, _⟩ := target?_top host (beheaded.from ⟨1⟩) hacyclic hbelow hupper
    rw [hfallback hroot _ _ _ rfl hsplit]
    rfl

end Query
end StyleCalls
