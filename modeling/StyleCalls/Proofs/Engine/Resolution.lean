import StyleCalls.Proofs.Engine.Outcome
import StyleCalls.Proofs.Registry.Lookup

/-! Which calls find a function when lookup ignores case. A name may be recognised in a spelling
under which no function is found, but only where the spelling has letters beyond ASCII, or the name
has. -/

namespace StyleCalls
variable {σ : Type}

namespace Engine
open Text

theorem exists_sameFold_of_mem_sites? {r : Registry σ} {t : Text} {sites : List Site}
    (h : r.sites? t = some sites) {site : Site} (hsite : site ∈ sites) :
    (∃ n ∈ r.patternNames, SameFold n site.name) ∧ ∀ c ∈ site.name, c ∈ t := by
  obtain ⟨p, hp, rfl⟩ := Option.map_eq_some_iff.1 h
  obtain ⟨u, m, rest, rfl, hm, rfl⟩ := Pattern.exists_accepted?_of_mem_sitesFrom hsite
  obtain ⟨n, hn, hfold⟩ := Pattern.exists_sameFold_of_match? (Pattern.match?_of_accepted? hm)
  refine ⟨⟨n, (Pattern.mem_names_of_ofNames? hp hn).1, hfold⟩, fun c hc => ?_⟩
  rw [Pattern.Match.head_append]
  simp [show c ∈ m.name from hc]

/-- Every site of the text finds a function. -/
def Resolves (e : Engine σ) (t : Text) : Prop :=
  ∀ sites ∈ e.registry.sites? t, ∀ site ∈ sites,
    (e.registry.resolve site.name e.config.ignoreCase).isSome = true

def setUnresolved (e : Engine σ) (unresolved : Unresolved) : Engine σ :=
  { e with config := { e.config with unresolved := unresolved } }

theorem answer_setUnresolved {e : Engine σ} {name : Text}
    (h : (e.registry.resolve name e.config.ignoreCase).isSome = true) (unresolved : Unresolved)
    (host : Host σ) : (e.setUnresolved unresolved).answer host name = e.answer host name := by
  obtain ⟨f, hf⟩ := Option.isSome_iff_exists.1 h
  funext args s
  simp only [answer, setUnresolved, hf]

/-- Where every site finds a function, it does not show what happens to calls that find none. -/
theorem InStep.outcome_setUnresolved {e : Engine σ} (h : e.InStep) {t : Text} (ht : e.Resolves t)
    (unresolved : Unresolved) (host : Host σ) (s : Setting σ) :
    (e.setUnresolved unresolved).outcome host t s = e.outcome host t s := by
  have h' : (e.setUnresolved unresolved).InStep := h
  refine h'.outcome_eq_of_answer_eq h rfl (fun sites hsites site hsite => ?_) (fun _ _ => rfl) s
  exact answer_setUnresolved (ht sites hsites site hsite) unresolved host

/-- A site finds a function just when one of the names that are recognised in it differs in ASCII
characters alone. So where no other characters have cases, every site finds one, and no call is ever
removed or kept for want of a function. -/
theorem isSome_resolve_of_mem_sites {e : Engine σ} (h : e.InStep)
    (hignore : e.config.ignoreCase = true) (hretired : e.registry.retired = []) (t : Text) :
    (∀ sites ∈ e.registry.sites? t, ∀ site ∈ sites,
      (∃ n ∈ e.registry.names, SameFold n site.name) ∧
      ((e.registry.resolve site.name e.config.ignoreCase).isSome = true ↔
        ∃ n ∈ e.registry.names, SameFold n site.name ∧ DifferInAscii n site.name)) ∧
    ((∀ n ∈ e.registry.names, ∀ c ∈ n, ¬Unicode.FoldsBeyondAscii c) →
      (∀ c ∈ t, ¬Unicode.FoldsBeyondAscii c) →
      e.Resolves t ∧ ∀ unresolved host s,
        (e.setUnresolved unresolved).outcome host t s = e.outcome host t s) := by
  have hnames : e.registry.patternNames = e.registry.names := by
    rw [Registry.patternNames, hretired, List.append_nil]
  have hresolve (name : Text) :
      (e.registry.resolve name e.config.ignoreCase).isSome = true ↔
        ∃ n ∈ e.registry.names, SameFold n name ∧ DifferInAscii n name := by
    simp only [hignore, Registry.isSome_resolve_true_iff, eqIgnoringAsciiCase_iff]
  have hrecognised {sites : List Site} (hsites : sites ∈ e.registry.sites? t) {site : Site}
      (hsite : site ∈ sites) := exists_sameFold_of_mem_sites? hsites hsite
  rw [hnames] at hrecognised
  refine ⟨fun sites hsites site hsite => ⟨(hrecognised hsites hsite).1, hresolve _⟩,
    fun hn ht => ?_⟩
  have hfound : e.Resolves t := by
    intro sites hsites site hsite
    obtain ⟨⟨n, hmem, hfold⟩, hchars⟩ := hrecognised hsites hsite
    have hdiffer := hfold.differInAscii (hn n hmem) fun c hc => ht c (hchars c hc)
    exact (hresolve _).2 ⟨n, hmem, hfold, hdiffer⟩
  exact ⟨hfound, h.outcome_setUnresolved hfound⟩

def longSample : Engine Unit where
  registry :=
    { entries :=
        { entries := [("s".toList, .raw fun _ args s => ('[' :: (args ++ [']']), s))]
          nodup_keys := by decide } }
  config := { ignoreCase := true }

/-- The long `ſ` is recognised as an `s`, and no function is found for it. -/
theorem not_forall_resolves : ¬∀ (e : Engine Unit) (t : Text), e.InStep →
    e.config.ignoreCase = true → e.registry.retired = [] → e.Resolves t := by
  intro h
  have hsites : longSample.registry.sites? "ſ(x)".toList = some [⟨"ſ".toList, 0⟩] := rfl
  have hsome := h longSample "ſ(x)".toList (inStep_of_compiled_eq_none rfl) rfl rfl _ hsites _
    (List.mem_singleton_self _)
  exact absurd hsome (by decide)

theorem longSample_outcome :
    let s : Setting Unit := ⟨none, {}, ()⟩
    ((∃ n ∈ longSample.registry.names, SameFold n "ſ".toList) ∧
      ¬∃ n ∈ longSample.registry.names, SameFold n "ſ".toList ∧ DifferInAscii n "ſ".toList) ∧
    (longSample.registry.resolve "S".toList true).isSome = true ∧
      ((longSample.setUnresolved .keep).outcome {} "S(s(2))".toList s).result =
        .ok "[[2]]".toList := by
  intro s
  have hlong : longSample.registry.sites? "ſ(1)".toList = some [⟨"ſ".toList, 0⟩] := rfl
  have hshort : longSample.registry.sites? "S(s(2))".toList =
      some [⟨"S".toList, 0⟩, ⟨"s".toList, 2⟩] := rfl
  have hresult : (longSample.outcome {} "S(s(2))".toList s).result = .ok "[[2]]".toList := rfl
  have hnames : ∀ n ∈ longSample.registry.names, ∀ c ∈ n, ¬Unicode.FoldsBeyondAscii c :=
    fun n hn => List.mem_singleton.1 hn ▸ Unicode.not_foldsBeyondAscii_of_all (by decide)
  obtain ⟨hrecognised, hiff⟩ := (isSome_resolve_of_mem_sites (e := longSample)
    (inStep_of_compiled_eq_none rfl) rfl rfl "ſ(1)".toList).1 _ hlong _ (List.mem_singleton_self _)
  obtain ⟨hfound, houtcome⟩ := (isSome_resolve_of_mem_sites (e := longSample)
    (inStep_of_compiled_eq_none rfl) rfl rfl "S(s(2))".toList).2 hnames
    (Unicode.not_foldsBeyondAscii_of_all (by decide))
  refine ⟨⟨hrecognised, fun h => absurd (hiff.2 h) (by decide)⟩,
    hfound _ hshort _ (List.mem_cons_self ..), ?_⟩
  rw [houtcome]
  exact hresult

end Engine
end StyleCalls
