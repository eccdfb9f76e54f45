import StyleCalls.Proofs.Engine.Tail

/-! Which functions run while a text is expanded: under which names, with which arguments, and in
which order. -/

namespace StyleCalls
variable {σ : Type}

/-- One run of a function, under the name as spelled in the text. -/
structure Invocation where
  name : Text
  args : Text
deriving DecidableEq

namespace Engine
open Text Pattern

/-- The function that runs when the turn comes to a site. -/
def invocation? (e : Engine σ) (site : Site) (t : Text) : Option Invocation := do
  let call ← Call.at? t site.offset
  let _ ← e.registry.resolve site.name e.config.ignoreCase
  return ⟨site.name, call.args.trim⟩

/-- The functions that run when sites are expanded from right to left. -/
def invocations (e : Engine σ) (host : Host σ) (t : Text) (s : Setting σ) :
    List Site → List Invocation
  | [] => []
  | site :: sites =>
    invocations e host t s sites ++ (e.invocation? site (e.expandSites host sites t s).1).toList

def applyInvocations (e : Engine σ) (host : Host σ) (t : Text) (s : Setting σ) : List Invocation :=
  if '(' ∉ t then []
  else
    match e.refresh.compiled with
    | none => []
    | some (_, pattern) => e.refresh.invocations host t s (pattern.findAll t)

/-- A turn that counts as a run is one run of the function, in the setting that marks its start. -/
theorem expandSite_of_invocation?_eq_some {e : Engine σ} {site : Site} {t : Text} {i : Invocation}
    (h : e.invocation? site t = some i) (host : Host σ) (s : Setting σ) :
    ∃ f call, e.registry.resolve i.name e.config.ignoreCase = some f ∧
      Call.at? t site.offset = some call ∧ i.args = call.args.trim ∧
      e.expandSite host site (t, s) = (call.replace (f.invoke host i.args (s.enter i.name)).1,
        (f.invoke host i.args (s.enter i.name)).2) := by
  unfold invocation? at h
  obtain ⟨call, hcall, h⟩ := Option.bind_eq_some_iff.1 h
  obtain ⟨f, hf, h⟩ := Option.bind_eq_some_iff.1 h
  obtain rfl : ⟨site.name, call.args.trim⟩ = i := Option.some.inj h
  refine ⟨f, call, hf, hcall, rfl, ?_⟩
  rw [expandSite_eq, hcall]
  simp only [answer, hf, Option.elim_some]

/-- In any other turn no function gets at what functions keep in mind. -/
theorem expandSite_of_invocation?_eq_none {e : Engine σ} {site : Site} {t : Text}
    (h : e.invocation? site t = none) (host : Host σ) (s : Setting σ) :
    (e.expandSite host site (t, s)).2 = s ∨
      (e.expandSite host site (t, s)).2 = s.enter site.name := by
  unfold invocation? at h
  rw [expandSite_eq]
  cases hcall : Call.at? t site.offset with
  | none => exact .inl rfl
  | some call =>
    rw [hcall] at h
    cases hf : e.registry.resolve site.name e.config.ignoreCase with
    | some f => simp [hf] at h
    | none =>
      refine .inr ?_
      simp only [answer, hf]
      cases e.config.unresolved <;> rfl

theorem invocation?_name_append (e : Engine σ) {w : Text} (hw : '(' ∉ w) (t : Text) :
    e.invocation? ⟨w, 0⟩ (w ++ '(' :: t) = (Nesting.inGroup.close? t).bind fun q =>
      (e.registry.resolve w e.config.ignoreCase).map fun _ => ⟨w, q.1.trim⟩ := by
  have hat : Call.at? (w ++ '(' :: t) 0 =
      (Nesting.inGroup.close? t).map fun q => ⟨[], q.1, q.2⟩ := Call.at?_append_paren [] hw t
  rw [invocation?, hat]
  cases Nesting.inGroup.close? t with
  | none => rfl
  | some q => cases e.registry.resolve w e.config.ignoreCase <;> rfl

theorem invocation?_shift (e : Engine σ) (site : Site) (u t : Text) :
    e.invocation? (site.shift (size u)) (u ++ t) = e.invocation? site t := by
  rw [invocation?, invocation?, Site.shift, Call.at?_add]
  cases Call.at? t site.offset <;> rfl

theorem invocations_shift (e : Engine σ) (host : Host σ) (u t : Text) (s : Setting σ)
    (sites : List Site) : e.invocations host (u ++ t) s (sites.map (Site.shift (size u))) =
      e.invocations host t s sites := by
  induction sites with
  | nil => rfl
  | cons site sites ih =>
    rw [List.map_cons, invocations, invocations, ih, expandSites_shift, invocation?_shift]

def invocationsFrom (e : Engine σ) (host : Host σ) (p : Pattern) (b : Option Char) (t : Text)
    (s : Setting σ) : List Invocation := e.invocations host t s (p.sitesFrom b 0 0 t)

theorem invocationsFrom_head_append (e : Engine σ) (host : Host σ) {p : Pattern} {b : Option Char}
    {m : Match} {rest : Text} (h : p.accepted? b (m.head ++ rest) = some m) (s : Setting σ) :
    e.invocationsFrom host p b (m.head ++ rest) s =
      e.invocationsFrom host p (some '(') rest s ++
        (e.invocation? ⟨m.name, 0⟩
          (m.name ++ '(' :: (e.expandFrom host p (some '(') rest s).1)).toList := by
  have hsites := e.expandSites_shift host (p.sitesFrom (some '(') 0 0 rest) m.head rest s
  have hinvocations := e.invocations_shift host m.head rest s (p.sitesFrom (some '(') 0 0 rest)
  have hhead := e.invocation?_shift ⟨m.name, 0⟩ m.lead
    (m.name ++ '(' :: (e.expandFrom host p (some '(') rest s).1)
  rw [invocationsFrom, sitesFrom_head_append 0 h, sitesFrom_eq_map_shift, invocations,
    Nat.zero_add, Nat.zero_add, hinvocations, hsites, Match.head_append]
  exact congrArg (_ ++ Option.toList ·) hhead

theorem invocationsFrom_name_append (e : Engine σ) (host : Host σ) {p : Pattern} {b : Option Char}
    {isWord : Bool} {w rest : Text} (h : p.accepted? b (w ++ '(' :: rest) = some ⟨isWord, false, w⟩)
    (s : Setting σ) : e.invocationsFrom host p b (w ++ '(' :: rest) s =
      e.invocationsFrom host p (some '(') rest s ++
        (e.invocation? ⟨w, 0⟩ (w ++ '(' :: (e.expandFrom host p (some '(') rest s).1)).toList := by
  have hhead := Match.head_append ⟨isWord, false, w⟩ rest
  rw [Match.lead, if_neg Bool.false_ne_true, List.nil_append] at hhead
  rw [← hhead] at h ⊢
  exact e.invocationsFrom_head_append host h s

theorem invocations_setCompiled (e : Engine σ) (host : Host σ) (compiled : Option (Nat × Pattern))
    (t : Text) (s : Setting σ) (sites : List Site) :
    invocations { e with compiled := compiled } host t s sites = e.invocations host t s sites := by
  induction sites with
  | nil => rfl
  | cons site sites ih =>
    have hexpand : expandSites { e with compiled := compiled } host sites t s =
        e.expandSites host sites t s := rfl
    rw [invocations, invocations, ih, hexpand]
    rfl

theorem InStep.applyInvocations_eq {e : Engine σ} (h : e.InStep) {p : Pattern}
    (hp : Pattern.ofNames? e.registry.patternNames = some p) (host : Host σ) (t : Text)
    (s : Setting σ) : e.applyInvocations host t s = e.invocationsFrom host p none t s := by
  unfold applyInvocations
  by_cases ht : '(' ∈ t
  · have hcompiled := h.compiled_refresh
    rw [hp] at hcompiled
    obtain ⟨compiled, hrefresh⟩ := e.exists_refresh_eq
    simp only [ht, not_true_eq_false, if_false, hcompiled, Option.map_some]
    -- no turn looks at the pattern that the engine keeps
    rw [hrefresh]
    exact e.invocations_setCompiled host compiled t s _
  · have hsites : p.sitesFrom none 0 0 t = [] := p.sitesFrom_eq_nil_of_notMem none 0 ht
    rw [if_pos ht, invocationsFrom, hsites]
    rfl

end Engine
end StyleCalls
