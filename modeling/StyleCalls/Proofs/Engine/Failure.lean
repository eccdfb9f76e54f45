import StyleCalls.Proofs.Engine.Outcome
import StyleCalls.Proofs.Pattern.Names

/-! When expansion fails. Names that were removed are still looked for, so there is nothing to look
for only if there never was a name, or none but the empty one. -/

namespace StyleCalls
variable {σ : Type}

namespace Registry

/-- A name that is not empty is in use after the change, whatever was before. -/
def Change.bringsName : Change σ → Bool
  | .add name _ => !name.isEmpty
  | .remove _ => false
  | .activateBuiltins => true

theorem Change.bringsName_iff {c : Change σ} :
    c.bringsName = true ↔ ∃ n ∈ c.registered, n ≠ [] := by
  cases c with
  | add name f => simp [bringsName, registered]
  | remove name => simp [bringsName, registered]
  | activateBuiltins =>
    have hquery : Builtin.query.name ∈ Builtin.names ∧ Builtin.query.name ≠ [] := by decide
    exact iff_of_true rfl ⟨_, hquery⟩

theorem sites?_ofChanges_eq_none_iff {changes : List (Change σ)} {t : Text} :
    (ofChanges changes).sites? t = none ↔ ∀ c ∈ changes, c.bringsName = false := by
  rw [sites?, Option.map_eq_none_iff, Pattern.ofNames?_eq_none_iff]
  constructor
  · intro h c hc
    rw [← Bool.not_eq_true, Change.bringsName_iff]
    rintro ⟨n, hn, hne⟩
    exact hne (h n (mem_patternNames_ofChanges.2 ⟨c, hc, hn⟩))
  · intro h n hn
    obtain ⟨c, hc, hnc⟩ := mem_patternNames_ofChanges.1 hn
    by_contra hne
    exact Bool.eq_false_iff.1 (h c hc) (Change.bringsName_iff.2 ⟨n, hnc, hne⟩)

end Registry

namespace Engine
open Registry (Change ofChanges)

theorem InStep.apply_eq_error_iff {e : Engine σ} (h : e.InStep) {host : Host σ} {t : Text}
    {s : Setting σ} {err : ExpandError} : (e.apply host t s).1 = .error err ↔
      err = .emptyRegistry ∧ '(' ∈ t ∧ e.registry.sites? t = none := by
  rw [h.result_apply]
  by_cases hfails : '(' ∈ t ∧ e.registry.sites? t = none
  · simp [hfails]
  · simp [hfails]

/-! Runs -/

/-- All changes that made the registry of an engine: those before the engine was made, the
activation at its making, and those since. -/
def allChanges (changes : List (Change σ)) (config : Config) (actions : List (Action σ)) :
    List (Change σ) :=
  changes ++ (if config.builtins then [.activateBuiltins] else []) ++
    actions.filterMap Action.change?

theorem registry_foldl_act_ofRegistry (changes : List (Change σ)) (config : Config)
    (actions : List (Action σ)) :
    (actions.foldl act (ofRegistry (ofChanges changes) config)).registry =
      ofChanges (allChanges changes config actions) := by
  rw [registry_foldl_act, allChanges, ofChanges, ofChanges, List.foldl_append, List.foldl_append,
    ofRegistry]
  cases config.builtins <;> rfl

/-- Expansion fails in one way alone: a text has a parenthesis, and no name was ever registered but
the empty one. Once there was a name it does not fail again, whatever is done. -/
theorem apply_foldl_act_eq_error_iff (changes : List (Change σ)) (config : Config)
    (actions : List (Action σ)) :
    let e := actions.foldl act (ofRegistry (ofChanges changes) config)
    let all := allChanges changes config actions
    (∀ host t s err, (e.apply host t s).1 = .error err ↔
      err = .emptyRegistry ∧ '(' ∈ t ∧ ∀ c ∈ all, c.bringsName = false) ∧
    ((∃ c ∈ all, c.bringsName = true) → ∀ (later : List (Action σ)) host t s,
      ∃ out, ((later.foldl act e).apply host t s).1 = .ok out) := by
  intro e all
  have hiff (actions : List (Action σ)) (host : Host σ) (t : Text) (s : Setting σ)
      (err : ExpandError) :
      ((actions.foldl act (ofRegistry (ofChanges changes) config)).apply host t s).1 = .error err ↔
        err = .emptyRegistry ∧ '(' ∈ t ∧
          ∀ c ∈ allChanges changes config actions, c.bringsName = false := by
    have hvalid := cacheValid_foldl_act (e := ofRegistry (ofChanges changes) config)
      (cacheValid_of_compiled_eq_none rfl) actions
    rw [hvalid.inStep.apply_eq_error_iff, registry_foldl_act_ofRegistry,
      Registry.sites?_ofChanges_eq_none_iff]
  refine ⟨hiff actions, ?_⟩
  rintro ⟨c, hc, hbrings⟩ later host t s
  -- the change that brought the name is still one of all changes later on
  have hmem : c ∈ allChanges changes config (actions ++ later) := by
    rw [allChanges, List.filterMap_append, ← List.append_assoc]
    exact List.mem_append_left _ hc
  cases hresult : ((later.foldl act e).apply host t s).1 with
  | ok out => exact ⟨out, rfl⟩
  | error err =>
    rw [← List.foldl_append, hiff] at hresult
    exact absurd (hbrings.symm.trans (hresult.2.2 c hmem)) (by decide)

/-- The empty name is as good as none, and a name that was removed as good as one that is there. -/
theorem namelessSample_apply :
    let echo : Function Unit := .raw fun _ args s => (args, s)
    let t := "f(x)".toList
    let s : Setting Unit := ⟨none, {}, ()⟩
    let nameless := [Action.apply {} t s].foldl act (ofRegistry (ofChanges [.add [] echo]) {})
    let named := [].foldl act (ofRegistry (ofChanges [.add "f".toList echo]) {})
    (nameless.apply {} t s).1 = .error .emptyRegistry ∧
      ∃ out, (([.change (.remove "f".toList)].foldl act named).apply {} t s).1 = .ok out := by
  intro echo t s nameless named
  have hfails := (apply_foldl_act_eq_error_iff [.add [] echo] {} [.apply {} t s]).1 {} t s
  have hnever := (apply_foldl_act_eq_error_iff [.add "f".toList echo] {} []).2
  refine ⟨(hfails _).2 ⟨rfl, by decide, ?_⟩, hnever ⟨_, List.mem_singleton_self _, rfl⟩ _ {} t s⟩
  intro c hc
  obtain rfl : c = .add [] echo := List.mem_singleton.1 hc
  rfl

end Engine
end StyleCalls
