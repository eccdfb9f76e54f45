import StyleCalls.Proofs.Engine.Outcome
import StyleCalls.Proofs.Pattern.Names
import StyleCalls.Proofs.Registry.Lookup

/-! Registries that no expansion can tell apart. With exact lookup and names without parentheses,
neither the order of names shows nor whether a name was removed or does nothing. -/

namespace StyleCalls
variable {σ : Type}

/-- Answers with nothing and leaves everything as it is. -/
def Function.Vanishes (f : Function σ) : Prop := ∀ host args s, f.invoke host args s = ([], s)

namespace Registry

theorem sites?_eq_of_mem_iff {r r' : Registry σ} (hparens : ∀ n ∈ r.patternNames, '(' ∉ n)
    (h : ∀ n, n ∈ r.patternNames ↔ n ∈ r'.patternNames) (t : Text) : r.sites? t = r'.sites? t :=
  Pattern.map_findAll_ofNames?_eq_of_mem_iff hparens h t

end Registry

namespace Engine

theorem answer_congr {e e' : Engine σ} (hconfig : e.config = e'.config) {name : Text}
    (h : e.registry.resolve name e.config.ignoreCase =
      e'.registry.resolve name e'.config.ignoreCase) (host : Host σ) :
    e.answer host name = e'.answer host name := by
  funext args s
  rw [answer, answer, h, hconfig]

theorem invocation?_congr {e e' : Engine σ} {site : Site}
    (h : e.registry.resolve site.name e.config.ignoreCase =
      e'.registry.resolve site.name e'.config.ignoreCase) (t : Text) :
    e.invocation? site t = e'.invocation? site t := by
  rw [invocation?, invocation?, h]

/-- Two registries with the same functions and the same retired names, in any two orders, give the
same sites, and with exact lookup everything that shows of an expansion is the same. -/
theorem outcome_eq_of_get?_eq {e e' : Engine σ} (h : e.InStep) (h' : e'.InStep)
    (hparens : ∀ n ∈ e.registry.patternNames, '(' ∉ n)
    (hget : ∀ n, e.registry.get? n = e'.registry.get? n)
    (hretired : ∀ n, n ∈ e.registry.retired ↔ n ∈ e'.registry.retired)
    (hconfig : e.config = e'.config) (hexact : e.config.ignoreCase = false) (host : Host σ)
    (t : Text) (s : Setting σ) :
    e.registry.sites? t = e'.registry.sites? t ∧ e.outcome host t s = e'.outcome host t s := by
  have hnames (n : Text) : n ∈ e.registry.patternNames ↔ n ∈ e'.registry.patternNames := by
    rw [Registry.patternNames, Registry.patternNames, List.mem_append, List.mem_append,
      Registry.mem_names_iff_of_get?_eq hget, hretired]
  have hsites := Registry.sites?_eq_of_mem_iff hparens hnames t
  have hresolve (name : Text) : e.registry.resolve name e.config.ignoreCase =
      e'.registry.resolve name e'.config.ignoreCase := by
    rw [← hconfig, hexact, Registry.resolve_exact, Registry.resolve_exact, hget]
  exact ⟨hsites, h.outcome_eq_of_answer_eq h' hsites
    (fun _ _ site _ => answer_congr hconfig (hresolve site.name) host)
    (fun site => invocation?_congr (hresolve site.name)) s⟩

/-- Two words that are equal up to case, and a name that begins with a hyphen. -/
def hyphenEntries : List (Text × Function Unit) :=
  [("a".toList, .raw fun _ args s => ('[' :: (args ++ [']']), s)),
    ("A".toList, .raw fun _ args s => (args ++ ['!'], s)),
    ("-a".toList, .raw fun _ _ s => ([], s))]

def orderSample : Engine Unit where
  registry :=
    { entries := { entries := hyphenEntries, nodup_keys := by decide }
      retired := ["$".toList, "b".toList] }

def reversedSample : Engine Unit where
  registry :=
    { entries := { entries := hyphenEntries.reverse, nodup_keys := by decide }
      retired := ["b".toList, "$".toList] }

theorem reversedSample_outcome :
    let t := "-a(A(1)) a(2)$(3)".toList
    let s : Setting Unit := ⟨some {}, {}, ()⟩
    reversedSample.registry.patternNames ≠ orderSample.registry.patternNames ∧
      reversedSample.registry.sites? t =
        some [⟨"a".toList, 1⟩, ⟨"A".toList, 3⟩, ⟨"a".toList, 9⟩, ⟨"$".toList, 13⟩] ∧
      (reversedSample.outcome {} t s).result = .ok "-[1!] [2]".toList ∧
      (reversedSample.outcome {} t s).invocations =
        [⟨"a".toList, "2".toList⟩, ⟨"A".toList, "1".toList⟩, ⟨"a".toList, "1!".toList⟩] := by
  intro t s
  have hget : ∀ n, orderSample.registry.get? n = reversedSample.registry.get? n :=
    Table.get?_eq_of_perm (List.reverse_perm _).symm
  have hretired (n : Text) :
      n ∈ orderSample.registry.retired ↔ n ∈ reversedSample.registry.retired :=
    (List.Perm.swap ..).mem_iff
  have hsites : orderSample.registry.sites? t =
      some [⟨"a".toList, 1⟩, ⟨"A".toList, 3⟩, ⟨"a".toList, 9⟩, ⟨"$".toList, 13⟩] := rfl
  have hresult : (orderSample.outcome {} t s).result = .ok "-[1!] [2]".toList := rfl
  have hruns : (orderSample.outcome {} t s).invocations =
      [⟨"a".toList, "2".toList⟩, ⟨"A".toList, "1".toList⟩, ⟨"a".toList, "1!".toList⟩] := rfl
  obtain ⟨hsame, houtcome⟩ := outcome_eq_of_get?_eq (inStep_of_compiled_eq_none rfl)
    (inStep_of_compiled_eq_none rfl) (by decide) hget hretired rfl rfl {} t s
  rw [← hsame, ← houtcome]
  exact ⟨by decide, hsites, hresult, hruns⟩

/-! Removal -/

section
variable {e : Engine σ} (hexact : e.config.ignoreCase = false) (f : Text) {g : Function σ}
include hexact

theorem answer_remove_eq_answer_add (hpolicy : e.config.unresolved = .remove) (hg : g.Vanishes)
    (host : Host σ) (name : Text) : (e.act (.change (.remove f))).answer host name =
      (e.act (.change (.add f g))).answer host name := by
  funext args s
  simp only [answer, act, setRegistry, Registry.change, hexact, hpolicy,
    Registry.resolve_remove_exact, Registry.resolve_add_exact]
  by_cases hname : name = f
  · simp only [hname, if_true, hg host]
  · simp only [hname, if_false]

theorem invocation?_remove_eq_filter (site : Site) (t : Text) :
    (e.act (.change (.remove f))).invocation? site t =
      ((e.act (.change (.add f g))).invocation? site t).filter (·.name ≠ f) := by
  simp only [invocation?, act, setRegistry, Registry.change, hexact,
    Registry.resolve_remove_exact, Registry.resolve_add_exact]
  cases Call.at? t site.offset with
  | none => rfl
  | some call =>
    by_cases hname : site.name = f
    · simp [hname, Option.filter_some]
    · cases e.registry.resolve site.name false <;> simp [hname, Option.filter_some]

end

/-- With exact lookup, and calls that find no function removed, to remove a function is as good as
to replace it by one that answers with nothing: all that shows is the same, but for the runs of that
function. -/
theorem outcome_remove_eq_outcome_add {e : Engine σ} (h : e.CacheValid)
    (hparens : ∀ n ∈ e.registry.patternNames, '(' ∉ n) {f : Text}
    (hf : f ∈ e.registry.names) (hexact : e.config.ignoreCase = false)
    (hpolicy : e.config.unresolved = .remove) {g : Function σ} (hg : g.Vanishes) (host : Host σ)
    (t : Text) (s : Setting σ) :
    let removed := (e.act (.change (.remove f))).outcome host t s
    let emptied := (e.act (.change (.add f g))).outcome host t s
    removed = { emptied with invocations := emptied.invocations.filter (·.name ≠ f) } := by
  have hremoved (n : Text) :
      n ∈ (e.registry.change (.remove f)).patternNames ↔ n ∈ e.registry.patternNames := by
    rw [Registry.mem_patternNames_change]
    exact or_iff_left List.not_mem_nil
  have hemptied (n : Text) :
      n ∈ (e.registry.change (.add f g)).patternNames ↔ n ∈ e.registry.patternNames := by
    rw [Registry.mem_patternNames_change]
    exact or_iff_left_of_imp fun hn => List.mem_singleton.1 hn ▸ List.mem_append_left _ hf
  have hsites := Registry.sites?_eq_of_mem_iff (fun n hn => hparens n ((hremoved n).1 hn))
    (fun n => (hremoved n).trans (hemptied n).symm) t
  exact (h.change (.remove f)).inStep.outcome_eq_filter (invocation?_remove_eq_filter hexact f)
    (h.change (.add f g)).inStep hsites
    (fun _ _ site _ => answer_remove_eq_answer_add hexact f hpolicy hg host site.name) s

/-- One function puts its argument in brackets, the other always answers the same. -/
def bracketPair : Engine Unit where
  registry :=
    { entries :=
        { entries :=
            [("f".toList, .raw fun _ _ s => ("x".toList, s)),
              ("g".toList, .raw fun _ args s => ('[' :: (args ++ [']']), s))]
          nodup_keys := by decide }
      retired := ["old".toList] }

def silent : Function Unit := .parsedArgs fun _ _ s => ([], s)

theorem bracketPair_outcome :
    let t := "-f(1) g(f(2), F(3), g(old(4)))".toList
    let s : Setting Unit := ⟨some {}, {}, ()⟩
    let removed := (bracketPair.act (.change (.remove "f".toList))).outcome {} t s
    removed.result = .ok "- [, , []]".toList ∧
      removed.setting.context = some { function := some "f".toList } ∧
      removed.invocations = [⟨"g".toList, []⟩, ⟨"g".toList, ", , []".toList⟩] := by
  intro t s removed
  have hresult : ((bracketPair.act (.change (.add "f".toList silent))).outcome {} t s).result =
      .ok "- [, , []]".toList := rfl
  have hsetting :
      ((bracketPair.act (.change (.add "f".toList silent))).outcome {} t s).setting.context =
        some { function := some "f".toList } := rfl
  have hruns : ((bracketPair.act (.change (.add "f".toList silent))).outcome {} t s).invocations =
      [⟨"g".toList, []⟩, ⟨"f".toList, "2".toList⟩, ⟨"g".toList, ", , []".toList⟩,
        ⟨"f".toList, "1".toList⟩] := rfl
  have h := outcome_remove_eq_outcome_add
    (cacheValid_of_compiled_eq_none (e := bracketPair) rfl) (by decide) (f := "f".toList)
    (by decide) rfl rfl (g := silent) (fun _ _ _ => rfl) {} t s
  refine ⟨(congrArg Outcome.result h).trans hresult,
    (congrArg (·.setting.context) h).trans hsetting, (congrArg Outcome.invocations h).trans ?_⟩
  dsimp only
  rw [hruns]
  rfl

end Engine
end StyleCalls
