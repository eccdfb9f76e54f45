import StyleCalls.Proofs.Engine.Cache

/-! A registry in the place of another one. The pattern that an engine keeps is told apart by a
version alone, and the versions of two registries that have nothing in common may agree. -/

namespace StyleCalls
variable {σ : Type}

namespace Engine
open Registry (Change ofChanges)

/-- Expansions and nothing else. -/
def applications (texts : List (Host σ × Text × Setting σ)) : List (Action σ) :=
  texts.map fun (host, t, s) => .apply host t s

theorem InStep.act_apply {e : Engine σ} (h : e.InStep) (host : Host σ) (t : Text) (s : Setting σ) :
    (e.act (.apply host t s)).InStep := by
  rw [act, engine_apply]
  split
  · rw [h.refresh_eq]
    exact e.inStep_recompile
  · exact h

theorem InStep.outcomes_applications {e : Engine σ} (h : e.InStep)
    (texts : List (Host σ × Text × Setting σ)) :
    e.outcomes (applications texts) = freshOutcomes e.config e.registry (applications texts) := by
  induction texts generalizing e with
  | nil => rfl
  | cons text texts ih =>
    obtain ⟨host, t, s⟩ := text
    obtain ⟨compiled, happly⟩ := e.exists_engine_apply_eq host t s
    have hrest := ih (h.act_apply host t s)
    rw [act, happly] at hrest
    rw [applications, List.map_cons, ← applications, outcomes, freshOutcomes, h.outcome_eq, act,
      happly, hrest]

/-- Expansions leave nothing behind in an engine but the pattern of its names. -/
theorem foldl_act_applications_cases {e : Engine σ} (h : e.InStep)
    (texts : List (Host σ × Text × Setting σ)) :
    (∃ text ∈ texts, '(' ∈ text.2.1) ∧ (applications texts).foldl act e = e.recompile ∨
      (¬∃ text ∈ texts, '(' ∈ text.2.1) ∧ (applications texts).foldl act e = e := by
  induction texts generalizing e with
  | nil => exact .inr ⟨by simp, rfl⟩
  | cons text texts ih =>
    obtain ⟨host, t, s⟩ := text
    have hact := e.engine_apply host t s
    rw [applications, List.map_cons, ← applications, List.foldl_cons, act, hact,
      List.exists_mem_cons_iff]
    by_cases ht : '(' ∈ t
    · rw [if_pos ht, h.refresh_eq]
      refine .inl ⟨.inl ht, ?_⟩
      -- made anew from the same registry, a pattern stays what it is
      rcases ih e.inStep_recompile with ⟨_, hrest⟩ | ⟨_, hrest⟩ <;> exact hrest
    · rw [if_neg ht, or_iff_right (show '(' ∉ (host, t, s).2.1 from ht)]
      exact ih h

/-- A registry that takes the place of another is expanded as in a new engine, unless a pattern is
kept from the old one that had the same version and other names. -/
theorem outcomes_setRegistry (changes changes' : List (Change σ)) (config : Config)
    (texts later : List (Host σ × Text × Setting σ)) :
    let r := ofChanges changes
    let r' := ofChanges changes'
    ((∃ text ∈ texts, '(' ∈ text.2.1) → r.version = r'.version →
      ∀ p, Pattern.ofNames? r.patternNames = some p → Pattern.ofNames? r'.patternNames = some p) →
    (((applications texts).foldl act { registry := r, config }).setRegistry r').outcomes
        (applications later) = freshOutcomes config r' (applications later) := by
  intro r r' hsame
  have hnew : ({ registry := r, config } : Engine σ).InStep := inStep_of_compiled_eq_none rfl
  rcases foldl_act_applications_cases hnew texts with ⟨hmade, hkept⟩ | ⟨_, hkept⟩
  · have hinStep : ((recompile { registry := r, config }).setRegistry r').InStep := by
      intro p hp
      obtain ⟨q, hq, hpair⟩ := Option.map_eq_some_iff.1 hp
      obtain ⟨hversion, rfl⟩ := Prod.mk.inj hpair
      exact hsame hmade hversion q hq
    rw [hkept]
    exact hinStep.outcomes_applications later
  · have hinStep : (setRegistry { registry := r, config } r').InStep :=
      inStep_of_compiled_eq_none rfl
    rw [hkept]
    exact hinStep.outcomes_applications later

/-- With one change each, two registries have the same version: the pattern of the first is still in
use after the second has come, and looks for the wrong name. -/
theorem not_forall_outcomes_setRegistry : ¬∀ (changes changes' : List (Change Unit))
    (config : Config) (texts later : List (Host Unit × Text × Setting Unit)),
    (((applications texts).foldl act { registry := ofChanges changes, config }).setRegistry
        (ofChanges changes')).outcomes (applications later) =
      freshOutcomes config (ofChanges changes') (applications later) := by
  intro h
  let s : Setting Unit := ⟨none, {}, ()⟩
  have houtcomes := h [.add "f".toList (.raw fun _ _ s => ("F".toList, s))]
    [.add "g".toList (.raw fun _ _ s => ("G".toList, s))] {} [({}, "f(x)".toList, s)]
    [({}, "g(x)".toList, s)]
  have hresults : [Except.ok (ε := ExpandError) "g(x)".toList] = [.ok "G".toList] :=
    congrArg (List.map Outcome.result) houtcomes
  exact absurd (Except.ok.inj (List.head_eq_of_cons_eq hresults)) (by decide)

theorem swappedSample_outcomes :
    let f : Function Unit := .raw fun _ args s => ('[' :: (args ++ [']']), s)
    let s : Setting Unit := ⟨none, {}, ()⟩
    let e : Engine Unit := [Action.apply {} "f(x)".toList s].foldl act
      { registry := ofChanges [.add "f".toList f] }
    ((e.setRegistry (ofChanges [.add "f".toList f, .add "g".toList f])).outcomes
      [.apply {} "g(f(x))".toList s]).map Outcome.result = [.ok "[[x]]".toList] := by
  intro f s e
  have houtcomes := outcomes_setRegistry [.add "f".toList f] [.add "f".toList f, .add "g".toList f]
    {} [({}, "f(x)".toList, s)] [({}, "g(f(x))".toList, s)] fun _ hversion => absurd hversion (by decide)
  exact congrArg (List.map Outcome.result) houtcomes

end Engine
end StyleCalls
