import StyleCalls.Proofs.Engine.Invocation
import StyleCalls.Proofs.Registry.History

/-! The pattern that an engine keeps from one expansion to the next. It is told apart by the version
of the registry alone, and yet it is always the pattern of the names that the registry has. -/

namespace StyleCalls
variable {σ : Type}

namespace Registry

theorem change_eq_or_version_eq (r : Registry σ) (c : Change σ) :
    r.change c = r ∨ (r.change c).version = r.version + 1 := by
  cases c with
  | add name f => exact .inr rfl
  | remove name =>
    by_cases h : name ∈ r.names
    · refine .inr ?_
      rw [change, remove_of_mem h]
    · exact .inl (remove_of_notMem h)
  | activateBuiltins => exact .inr rfl

end Registry

namespace Engine

/-- No pattern is kept that a later version of the registry could be taken for the source of. -/
structure CacheValid (e : Engine σ) : Prop where
  version_le : ∀ version p, e.compiled = some (version, p) → version ≤ e.registry.version
  inStep : e.InStep

theorem cacheValid_of_compiled_eq_none {e : Engine σ} (h : e.compiled = none) : e.CacheValid where
  version_le version p hp := by simp [h] at hp
  inStep := inStep_of_compiled_eq_none h

/-- A change either leaves the registry as it is or takes it to a version that no pattern has. -/
theorem CacheValid.change {e : Engine σ} (h : e.CacheValid) (c : Registry.Change σ) :
    (e.setRegistry (e.registry.change c)).CacheValid := by
  rcases e.registry.change_eq_or_version_eq c with hsame | hversion
  · rw [hsame]
    exact h
  · have hlt (version : Nat) (p : Pattern) (hp : e.compiled = some (version, p)) :
        version < (e.registry.change c).version := by
      rw [hversion]
      exact Nat.lt_succ_of_le (h.version_le version p hp)
    exact ⟨fun version p hp => (hlt version p hp).le, fun p hp => absurd (hlt _ p hp) (lt_irrefl _)⟩

theorem inStep_recompile (e : Engine σ) : e.recompile.InStep := by
  intro p hp
  obtain ⟨q, hq, hpair⟩ := Option.map_eq_some_iff.1 hp
  rw [← (Prod.mk.inj hpair).2]
  exact hq

theorem CacheValid.refresh {e : Engine σ} (h : e.CacheValid) : e.refresh.CacheValid := by
  rw [h.inStep.refresh_eq]
  refine ⟨fun version p hp => ?_, e.inStep_recompile⟩
  obtain ⟨_, _, hpair⟩ := Option.map_eq_some_iff.1 hp
  exact (Prod.mk.inj hpair).1.ge

theorem engine_apply (e : Engine σ) (host : Host σ) (t : Text) (s : Setting σ) :
    (e.apply host t s).2.1 = if '(' ∈ t then e.refresh else e := by
  unfold apply
  by_cases ht : '(' ∈ t
  · rw [if_neg (not_not_intro ht), if_pos ht]
    dsimp only
    cases e.refresh.compiled <;> rfl
  · rw [if_pos ht, if_neg ht]

theorem exists_engine_apply_eq (e : Engine σ) (host : Host σ) (t : Text) (s : Setting σ) :
    ∃ compiled, (e.apply host t s).2.1 = { e with compiled := compiled } := by
  rw [engine_apply]
  split
  · exact e.exists_refresh_eq
  · exact ⟨e.compiled, rfl⟩

/-! Runs -/

/-- What is done with an engine. -/
inductive Action (σ : Type) where
  | change (c : Registry.Change σ)
  | apply (host : Host σ) (t : Text) (s : Setting σ)

def act (e : Engine σ) : Action σ → Engine σ
  | .change c => e.setRegistry (e.registry.change c)
  | .apply host t s => (e.apply host t s).2.1

theorem CacheValid.act {e : Engine σ} (h : e.CacheValid) (a : Action σ) : (e.act a).CacheValid := by
  cases a with
  | change c => exact h.change c
  | apply host t s =>
    rw [Engine.act, engine_apply]
    split
    · exact h.refresh
    · exact h

theorem cacheValid_foldl_act {e : Engine σ} (h : e.CacheValid) (actions : List (Action σ)) :
    (actions.foldl act e).CacheValid := by
  induction actions generalizing e with
  | nil => exact h
  | cons a actions ih => exact ih (h.act a)

def Action.change? : Action σ → Option (Registry.Change σ)
  | .change c => some c
  | .apply .. => none

theorem registry_foldl_act (e : Engine σ) (actions : List (Action σ)) :
    (actions.foldl act e).registry =
      (actions.filterMap Action.change?).foldl Registry.change e.registry := by
  induction actions generalizing e with
  | nil => rfl
  | cons a actions ih =>
    rw [List.foldl_cons, ih]
    cases a with
    | change c => rfl
    | apply host t s =>
      obtain ⟨compiled, happly⟩ := e.exists_engine_apply_eq host t s
      rw [act, happly]
      rfl

theorem version_act_le (e : Engine σ) (a : Action σ) :
    (e.act a).registry.version ≤ e.registry.version + [a].countP (· matches .change _) := by
  cases a with
  | change c =>
    rcases e.registry.change_eq_or_version_eq c with hsame | hversion
    · rw [act, setRegistry, hsame]
      exact Nat.le_add_right ..
    · exact hversion.le
  | apply host t s =>
    obtain ⟨compiled, happly⟩ := e.exists_engine_apply_eq host t s
    rw [act, happly]
    exact Nat.le_add_right ..

theorem version_foldl_act_le (e : Engine σ) (actions : List (Action σ)) :
    (actions.foldl act e).registry.version ≤
      e.registry.version + actions.countP (· matches .change _) := by
  induction actions generalizing e with
  | nil => exact Nat.le_add_right ..
  | cons a actions ih =>
    have hact := e.version_act_le a
    have hrest := ih (e.act a)
    rw [List.foldl_cons, List.countP_cons]
    rw [List.countP_singleton] at hact
    omega

/-- What shows of one expansion: its result, what it leaves behind, and which functions ran. -/
structure Outcome (σ : Type) where
  result : Except ExpandError Text
  setting : Setting σ
  invocations : List Invocation

def outcome (e : Engine σ) (host : Host σ) (t : Text) (s : Setting σ) : Outcome σ :=
  ⟨(e.apply host t s).1, (e.apply host t s).2.2, e.applyInvocations host t s⟩

/-- The outcomes of the expansions in a run. -/
def outcomes : Engine σ → List (Action σ) → List (Outcome σ)
  | _, [] => []
  | e, .change c :: actions => outcomes (e.act (.change c)) actions
  | e, .apply host t s :: actions => e.outcome host t s :: outcomes (e.act (.apply host t s)) actions

/-- The outcomes if every expansion had a new engine, which has no pattern yet. -/
def freshOutcomes (config : Config) : Registry σ → List (Action σ) → List (Outcome σ)
  | _, [] => []
  | r, .change c :: actions => freshOutcomes config (r.change c) actions
  | r, .apply host t s :: actions =>
    outcome { registry := r, config } host t s :: freshOutcomes config r actions

theorem outcome_congr {e e' : Engine σ} (h : e.refresh = e'.refresh) (host : Host σ) (t : Text)
    (s : Setting σ) : e.outcome host t s = e'.outcome host t s := by
  simp only [outcome, apply, applyInvocations, h]
  split <;> rfl

theorem InStep.outcome_eq {e : Engine σ} (h : e.InStep) (host : Host σ) (t : Text)
    (s : Setting σ) : e.outcome host t s =
      outcome { registry := e.registry, config := e.config } host t s := by
  have hfresh : ({ registry := e.registry, config := e.config } : Engine σ).InStep :=
    inStep_of_compiled_eq_none rfl
  refine outcome_congr ?_ host t s
  rw [h.refresh_eq, hfresh.refresh_eq]
  rfl

theorem CacheValid.outcomes_eq {e : Engine σ} (h : e.CacheValid) (actions : List (Action σ)) :
    e.outcomes actions = freshOutcomes e.config e.registry actions := by
  induction actions generalizing e with
  | nil => rfl
  | cons action actions ih =>
    cases action with
    | change c => exact ih (h.change c)
    | apply host t s =>
      obtain ⟨compiled, happly⟩ := e.exists_engine_apply_eq host t s
      rw [outcomes, freshOutcomes, h.inStep.outcome_eq, ih (h.act _), Engine.act, happly]

/-- Whatever is done with an engine, its expansions are those of an engine that has just been made
with the same registry. The version rises by one at most with each change, so a counter that starts
again after `2 ^ 64` of them counts any shorter run as this one does. -/
theorem outcomes_eq_freshOutcomes (r : Registry σ) (config : Config) (actions : List (Action σ)) :
    outcomes { registry := r, config } actions = freshOutcomes config r actions ∧
      (actions.foldl act { registry := r, config }).registry.version ≤
        r.version + actions.countP (· matches .change _) :=
  ⟨(cacheValid_of_compiled_eq_none rfl).outcomes_eq actions, version_foldl_act_le _ actions⟩

end Engine
end StyleCalls
