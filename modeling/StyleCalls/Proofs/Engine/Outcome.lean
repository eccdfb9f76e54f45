import Mathlib.Data.List.Basic
import StyleCalls.Proofs.Engine.Cache

/-! What shows of an expansion. The sites of the text and the answers to them decide it, and nothing
else of an engine does. -/

namespace StyleCalls
variable {σ : Type}

/-- The sites of a text, if there is a name to look for. -/
def Registry.sites? (r : Registry σ) (t : Text) : Option (List Site) :=
  (Pattern.ofNames? r.patternNames).map (·.findAll t)

namespace Engine

theorem InStep.outcome_eq_of_sites? {e : Engine σ} (h : e.InStep) (host : Host σ) (t : Text)
    (s : Setting σ) : e.outcome host t s =
      if '(' ∈ t then
        match e.registry.sites? t with
        | none => ⟨.error .emptyRegistry, s, []⟩
        | some sites => ⟨.ok (e.expandSites host sites t s).1, (e.expandSites host sites t s).2,
            e.invocations host t s sites⟩
      else ⟨.ok t, s, []⟩ := by
  by_cases ht : '(' ∈ t
  · rw [if_pos ht, Registry.sites?]
    cases hp : Pattern.ofNames? e.registry.patternNames with
    | none =>
      have hcompiled : e.refresh.compiled = none := by rw [h.compiled_refresh, hp, Option.map_none]
      simp only [outcome, apply, applyInvocations, ht, hcompiled, not_true_eq_false, if_false,
        Option.map_none]
    | some p =>
      rw [outcome, h.apply_eq hp, h.applyInvocations_eq hp]
      rfl
  · simp only [outcome, apply, applyInvocations, ht, not_false_eq_true, if_true, if_false]

/-- The sites of a text, none if there is no name to look for. -/
def sites (e : Engine σ) (t : Text) : List Site := (e.registry.sites? t).getD []

theorem sites_eq_nil_of_notMem (e : Engine σ) {t : Text} (h : '(' ∉ t) : e.sites t = [] := by
  rw [sites, Registry.sites?]
  cases Pattern.ofNames? e.registry.patternNames with
  | none => rfl
  | some p => exact p.sitesFrom_eq_nil_of_notMem none 0 h

theorem InStep.setting_apply {e : Engine σ} (h : e.InStep) (host : Host σ) (t : Text)
    (s : Setting σ) : (e.apply host t s).2.2 = (e.expandSites host (e.sites t) t s).2 := by
  have hsetting : (e.apply host t s).2.2 = (e.outcome host t s).setting := rfl
  rw [hsetting, h.outcome_eq_of_sites?]
  by_cases ht : '(' ∈ t
  · rw [if_pos ht, sites]
    cases e.registry.sites? t <;> rfl
  · rw [if_neg ht, e.sites_eq_nil_of_notMem ht]
    rfl

theorem InStep.result_apply {e : Engine σ} (h : e.InStep) (host : Host σ) (t : Text)
    (s : Setting σ) : (e.apply host t s).1 =
      if '(' ∈ t ∧ e.registry.sites? t = none then .error .emptyRegistry
      else .ok (e.expandSites host (e.sites t) t s).1 := by
  have hresult : (e.apply host t s).1 = (e.outcome host t s).result := rfl
  rw [hresult, h.outcome_eq_of_sites?]
  by_cases ht : '(' ∈ t
  · rw [if_pos ht, sites]
    cases e.registry.sites? t <;> simp [ht]
  · rw [if_neg ht, if_neg fun hnone => ht hnone.1, e.sites_eq_nil_of_notMem ht]
    rfl

theorem InStep.applyInvocations_eq_invocations {e : Engine σ} (h : e.InStep) (host : Host σ)
    (t : Text) (s : Setting σ) :
    e.applyInvocations host t s = e.invocations host t s (e.sites t) := by
  have hinvocations : e.applyInvocations host t s = (e.outcome host t s).invocations := rfl
  rw [hinvocations, h.outcome_eq_of_sites?]
  by_cases ht : '(' ∈ t
  · rw [if_pos ht, sites]
    cases e.registry.sites? t <;> rfl
  · rw [if_neg ht, e.sites_eq_nil_of_notMem ht]
    rfl

/-! Engines that answer alike -/

theorem expandSites_congr {e e' : Engine σ} {host : Host σ} {sites : List Site}
    (h : ∀ site ∈ sites, e.answer host site.name = e'.answer host site.name) (t : Text)
    (s : Setting σ) : e.expandSites host sites t s = e'.expandSites host sites t s := by
  refine List.foldr_ext _ _ _ fun site hsite state => ?_
  rw [expandSite_eq, expandSite_eq, h site hsite]

section
variable {e e' : Engine σ} {keep : Invocation → Bool}
  (hkeep : ∀ site t, e.invocation? site t = (e'.invocation? site t).filter keep)
include hkeep

theorem invocations_eq_filter {host : Host σ} {sites : List Site}
    (h : ∀ site ∈ sites, e.answer host site.name = e'.answer host site.name) (t : Text)
    (s : Setting σ) :
    e.invocations host t s sites = (e'.invocations host t s sites).filter keep := by
  induction sites with
  | nil => rfl
  | cons site sites ih =>
    have hsites : ∀ site ∈ sites, e.answer host site.name = e'.answer host site.name :=
      fun site hsite => h site (List.mem_cons_of_mem _ hsite)
    rw [invocations, invocations, List.filter_append, ih hsites, expandSites_congr hsites, hkeep,
      Option.toList_filter]

/-- Engines that find the same sites and answer alike at each of them differ in nothing but which of
their answers come from a function. -/
theorem InStep.outcome_eq_filter (h : e.InStep) (h' : e'.InStep) {host : Host σ} {t : Text}
    (hsites : e.registry.sites? t = e'.registry.sites? t)
    (hanswer : ∀ sites ∈ e.registry.sites? t, ∀ site ∈ sites,
      e.answer host site.name = e'.answer host site.name) (s : Setting σ) :
    e.outcome host t s =
      { e'.outcome host t s with
        invocations := (e'.outcome host t s).invocations.filter keep } := by
  rw [h.outcome_eq_of_sites?, h'.outcome_eq_of_sites?, ← hsites]
  by_cases ht : '(' ∈ t
  · rw [if_pos ht, if_pos ht]
    cases hsome : e.registry.sites? t with
    | none => rfl
    | some sites =>
      have hsame := hanswer sites hsome
      dsimp only
      rw [expandSites_congr hsame, invocations_eq_filter hkeep hsame]
  · rw [if_neg ht, if_neg ht]
    rfl

end

theorem InStep.outcome_eq_of_answer_eq {e e' : Engine σ} (h : e.InStep) (h' : e'.InStep)
    {host : Host σ} {t : Text} (hsites : e.registry.sites? t = e'.registry.sites? t)
    (hanswer : ∀ sites ∈ e.registry.sites? t, ∀ site ∈ sites,
      e.answer host site.name = e'.answer host site.name)
    (hinvocation : ∀ site t, e.invocation? site t = e'.invocation? site t) (s : Setting σ) :
    e.outcome host t s = e'.outcome host t s := by
  have hkeep (site : Site) (t : Text) :
      e.invocation? site t = (e'.invocation? site t).filter fun _ => true := by
    rw [hinvocation]
    cases e'.invocation? site t <;> rfl
  rw [h.outcome_eq_filter hkeep h' hsites hanswer, List.filter_true]

end Engine
end StyleCalls
