import StyleCalls.Proofs.Engine.Tail

/-! Expansion of two texts, one behind the other. The calls of the first are the same calls with
the second behind them, as long as each of them is closed in the first. -/

namespace StyleCalls
variable {σ : Type}

namespace Engine
open Text Pattern

/-- Whether each site has its parenthesis closed when its turn comes, from right to left. -/
def closesAll (e : Engine σ) (host : Host σ) (t : Text) (s : Setting σ) : List Site → Bool
  | [] => true
  | site :: sites =>
    closesAll e host t s sites &&
      (Call.at? (e.expandSites host sites t s).1 site.offset).isSome

theorem expandSites_append (e : Engine σ) (host : Host σ) (left right : List Site) (t : Text)
    (s : Setting σ) : e.expandSites host (left ++ right) t s =
      e.expandSites host left (e.expandSites host right t s).1 (e.expandSites host right t s).2 :=
  List.foldr_append

theorem expandSite_append_right (e : Engine σ) (host : Host σ) {site : Site} {t : Text}
    (h : (Call.at? t site.offset).isSome = true) (u : Text) (s : Setting σ) :
    e.expandSite host site (t ++ u, s) =
      ((e.expandSite host site (t, s)).1 ++ u, (e.expandSite host site (t, s)).2) := by
  obtain ⟨call, hcall⟩ := Option.isSome_iff_exists.1 h
  rw [expandSite_eq, expandSite_eq, Call.at?_append hcall, hcall]
  dsimp only
  cases (e.answer host site.name call.args s).1 with
  | none => rfl
  | some value => simp [Call.replace]

theorem expandSites_append_right (e : Engine σ) (host : Host σ) {sites : List Site} {t : Text}
    {s : Setting σ} (h : e.closesAll host t s sites = true) (u : Text) :
    e.expandSites host sites (t ++ u) s =
      ((e.expandSites host sites t s).1 ++ u, (e.expandSites host sites t s).2) := by
  induction sites with
  | nil => rfl
  | cons site sites ih =>
    obtain ⟨hsites, hsite⟩ := (Bool.and_eq_true ..).mp h
    rw [expandSites_cons, ih hsites]
    exact e.expandSite_append_right host hsite u _

section
variable {p : Pattern} {a : Text} {c : Char} (ha : a.getLast? = some c) (hc : p.Separates c)
  (hb : isBoundary (some c) = true)
include ha hc hb

/-- The second text is expanded first, with the first one before it. Then comes the first, with the
expansion of the second behind it. -/
theorem expandFrom_append (e : Engine σ) (host : Host σ) (b : Text) (s : Setting σ)
    (h : e.closesAll host a (e.expandFrom host p none b s).2 (p.findAll a) = true) :
    e.expandFrom host p none (a ++ b) s =
      let second := e.expandFrom host p none b s
      let first := e.expandFrom host p none a second.2
      (first.1 ++ second.1, first.2) := by
  have hsites : p.sitesFrom none 0 0 (a ++ b) =
      p.findAll a ++ (p.findAll b).map (Site.shift (size a)) := findAll_append ha hc hb b
  rw [expandFrom, hsites, expandSites_append, expandSites_shift]
  exact e.expandSites_append_right host h _

end

/-! Functions that answer the same wherever they are called -/

/-- What a function of the registry answers depends on its arguments alone. -/
def SteadyAnswers (e : Engine σ) : Prop :=
  ∀ entry ∈ e.registry.entries.entries, ∀ host host' args s s',
    (entry.2.invoke host args s).1 = (entry.2.invoke host' args s').1

section
variable {e : Engine σ} (he : e.SteadyAnswers) (host host' : Host σ)
include he

theorem answer_fst_eq (name args : Text) (s s' : Setting σ) :
    (e.answer host name args s).1 = (e.answer host' name args s').1 := by
  unfold answer
  cases hf : e.registry.resolve name e.config.ignoreCase with
  | some f =>
    obtain ⟨entry, hentry, rfl⟩ := exists_mem_of_resolve hf
    exact congrArg some (he entry hentry host host' args.trim _ _)
  | none => cases e.config.unresolved <;> rfl

theorem expandSite_fst_eq (site : Site) (t : Text) (s s' : Setting σ) :
    (e.expandSite host site (t, s)).1 = (e.expandSite host' site (t, s')).1 := by
  rw [expandSite_eq, expandSite_eq]
  cases Call.at? t site.offset with
  | none => rfl
  | some call =>
    dsimp only
    rw [answer_fst_eq he host host' site.name call.args s s']

theorem expandSites_fst_eq (sites : List Site) (t : Text) (s s' : Setting σ) :
    (e.expandSites host sites t s).1 = (e.expandSites host' sites t s').1 := by
  induction sites with
  | nil => rfl
  | cons site sites ih =>
    have hsite := expandSite_fst_eq he host host' site (e.expandSites host' sites t s').1
      (e.expandSites host sites t s).2 (e.expandSites host' sites t s').2
    rw [expandSites_cons, expandSites_cons, ← hsite, ← ih]

theorem closesAll_eq (sites : List Site) (t : Text) (s s' : Setting σ) :
    e.closesAll host t s sites = e.closesAll host' t s' sites := by
  induction sites with
  | nil => rfl
  | cons site sites ih =>
    rw [closesAll, closesAll, ih, expandSites_fst_eq he host host' sites t s s']

end

/-- Behind a character that no call can reach across, a text is expanded as if it stood alone, if
no call before that character is left open. Functions that keep something in mind run in the order
of the engine, those of the second text first; for functions that do not, order does not matter. -/
theorem apply_append {e : Engine σ} (h : e.InStep) {p : Pattern}
    (hp : Pattern.ofNames? e.registry.patternNames = some p) {a : Text} {c : Char}
    (ha : a.getLast? = some c) (hc : isBoundary (some c) = true ∧ c ≠ '(')
    (hfold : ∀ n ∈ e.registry.patternNames, ∀ d ∈ n, Unicode.sameFold d c = false)
    (b : Text) (host : Host σ) (s : Setting σ) :
    (let second := e.apply host b s
      let first := e.apply host a second.2.2
      e.closesAll host a second.2.2 (p.findAll a) = true →
        ∃ x y, first.1 = .ok x ∧ second.1 = .ok y ∧
          (e.apply host (a ++ b) s).1 = .ok (x ++ y) ∧
          (e.apply host (a ++ b) s).2.2 = first.2.2) ∧
    (e.SteadyAnswers → e.closesAll host a s (p.findAll a) = true →
      ∃ x y, (e.apply host a s).1 = .ok x ∧ (e.apply host b s).1 = .ok y ∧
        (e.apply host (a ++ b) s).1 = .ok (x ++ y)) := by
  have hsep : p.Separates c :=
    separates_of_ofNames? hp hc.2 (ne_hyphen_of_isBoundary hc.1) hfold
  have happend := e.expandFrom_append ha hsep hc.1 host b s
  simp only [h.apply_eq hp]
  refine ⟨fun hcloses => ⟨_, _, rfl, rfl, ?_, ?_⟩, fun he hcloses => ⟨_, _, rfl, rfl, ?_⟩⟩
  · rw [happend hcloses]
  · rw [happend hcloses]
  · rw [happend ((closesAll_eq he host host _ a _ s).trans hcloses)]
    exact congrArg (Except.ok <| · ++ _) (expandSites_fst_eq he host host _ a _ s)

theorem sameFold_eq_false_of_all {names : List Text} {c : Char}
    (h : names.all (·.all fun d => !Unicode.sameFold d c) = true) :
    ∀ n ∈ names, ∀ d ∈ n, Unicode.sameFold d c = false := by
  intro n hn d hd
  rw [← Bool.not_eq_true']
  exact List.all_eq_true.1 (List.all_eq_true.1 h n hn) d hd

/-- One function puts its argument in brackets, the other opens a parenthesis. -/
def bracketSample : Engine Unit where
  registry :=
    { entries :=
        { entries :=
            [("f".toList, .raw fun _ args s => ('[' :: (args ++ [']']), s)),
              ("open".toList, .raw fun _ _ s => ("(".toList, s))]
          nodup_keys := by decide }
      retired := ["old".toList] }

/-- A function that answers with the number of its runs so far. -/
def countingSample : Engine Nat where
  registry :=
    { entries :=
        { entries := [("n".toList, .raw fun _ _ s => (Nat.toDigits 10 s.memory,
            { s with memory := s.memory + 1 }))]
          nodup_keys := by decide } }

theorem samples_apply :
    (let a := "-f(1, f(2)) old(f('('));".toList
      let b := "open() f( 3".toList
      (bracketSample.apply {} a ⟨none, {}, ()⟩).1 = .ok "-[1, [2]] ;".toList ∧
        (bracketSample.apply {} b ⟨none, {}, ()⟩).1 = .ok "( f( 3".toList ∧
        (bracketSample.apply {} (a ++ b) ⟨none, {}, ()⟩).1 = .ok "-[1, [2]] ;( f( 3".toList) ∧
    (countingSample.apply {} "n();".toList ⟨none, {}, 2⟩).1 = .ok "2;".toList ∧
      (countingSample.apply {} "n() n()".toList ⟨none, {}, 0⟩).1 = .ok "1 0".toList ∧
      (countingSample.apply {} "n();n() n()".toList ⟨none, {}, 0⟩).1 = .ok "2;1 0".toList := by
  constructor
  · intro a b
    have hfirst : (bracketSample.apply {} a ⟨none, {}, ()⟩).1 = .ok "-[1, [2]] ;".toList := rfl
    have hsecond : (bracketSample.apply {} b ⟨none, {}, ()⟩).1 = .ok "( f( 3".toList := rfl
    have hsteady : bracketSample.SteadyAnswers := by
      intro entry hentry host host' args s s'
      simp only [bracketSample, List.mem_cons, List.not_mem_nil, or_false] at hentry
      rcases hentry with rfl | rfl <;> rfl
    obtain ⟨x, y, hx, hy, hxy⟩ :=
      (apply_append (inStep_of_compiled_eq_none (e := bracketSample) rfl)
        (p := ⟨["f".toList, "open".toList, "old".toList], []⟩) rfl (a := a) (c := ';') rfl
        (by decide) (sameFold_eq_false_of_all rfl) b {} ⟨none, {}, ()⟩).2 hsteady rfl
    obtain rfl : "-[1, [2]] ;".toList = x := Except.ok.inj (hfirst.symm.trans hx)
    obtain rfl : "( f( 3".toList = y := Except.ok.inj (hsecond.symm.trans hy)
    exact ⟨hfirst, hsecond, hxy⟩
  · have hfirst : (countingSample.apply {} "n();".toList ⟨none, {}, 2⟩).1 = .ok "2;".toList := rfl
    have hsecond : (countingSample.apply {} "n() n()".toList ⟨none, {}, 0⟩).1 =
        .ok "1 0".toList := rfl
    -- the first text is expanded with two runs already counted
    obtain ⟨x, y, hx, hy, hxy, _⟩ :=
      (apply_append (inStep_of_compiled_eq_none (e := countingSample) rfl)
        (p := ⟨["n".toList], []⟩) rfl (a := "n();".toList) (c := ';') rfl (by decide)
        (sameFold_eq_false_of_all rfl) "n() n()".toList {} ⟨none, {}, 0⟩).1 rfl
    obtain rfl : "2;".toList = x := Except.ok.inj (hfirst.symm.trans hx)
    obtain rfl : "1 0".toList = y := Except.ok.inj (hsecond.symm.trans hy)
    exact ⟨hfirst, hsecond, hxy⟩

end Engine
end StyleCalls
