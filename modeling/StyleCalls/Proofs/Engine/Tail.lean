import StyleCalls.Engine
import StyleCalls.Proofs.Nesting.Close
import StyleCalls.Proofs.Pattern.Site

/-! A call changes the text from its name on and nothing before it. The calls of a text can so be
expanded with the part before them left out, and expansion from right to left is a recursion over
the text. -/

namespace StyleCalls
variable {σ : Type}

namespace Call
open Text

theorem at?_add (u t : Text) (offset : Nat) :
    at? (u ++ t) (size u + offset) =
      (at? t offset).map fun c => ⟨u ++ c.before, c.args, c.after⟩ := by
  simp only [at?, splitAt?_add]
  cases splitAt? offset t with
  | none => rfl
  | some p =>
    simp only [Option.map_some, Option.bind_eq_bind, Option.bind_some]
    split
    · rfl
    · next inner _ => cases Nesting.inGroup.close? inner <;> rfl

theorem at?_append_paren (u : Text) {w : Text} (hw : '(' ∉ w) (t : Text) :
    at? (u ++ (w ++ '(' :: t)) (size u) =
      (Nesting.inGroup.close? t).map fun p => ⟨u, p.1, p.2⟩ := by
  have hsplit : splitAt? (size u) (u ++ (w ++ '(' :: t)) = some (u, w ++ '(' :: t) :=
    splitAt?_size_append ..
  simp only [at?, hsplit, Option.bind_eq_bind, Option.bind_some, dropWhile_append_paren hw]
  cases Nesting.inGroup.close? t <;> rfl

theorem at?_of_notMem (u : Text) {t : Text} (h : '(' ∉ t) : at? (u ++ t) (size u) = none := by
  have hsplit : splitAt? (size u) (u ++ t) = some (u, t) := splitAt?_size_append ..
  have hdrop : t.dropWhile (· ≠ '(') = [] := List.dropWhile_eq_nil_iff.2 (forall_ne_paren h)
  simp only [at?, hsplit, Option.bind_eq_bind, Option.bind_some, hdrop]

theorem exists_of_at? {t : Text} {offset : Nat} {call : Call} (h : at? t offset = some call) :
    ∃ w inner, '(' ∉ w ∧ t = call.before ++ (w ++ '(' :: inner) ∧ size call.before = offset ∧
      Nesting.inGroup.close? inner = some (call.args, call.after) := by
  cases hsplit : splitAt? offset t with
  | none => simp [at?, hsplit] at h
  | some p =>
    obtain ⟨before, rest⟩ := p
    obtain ⟨rfl, rfl⟩ := splitAt?_eq_some hsplit
    by_cases hrest : '(' ∈ rest
    · obtain ⟨w, inner, rfl, hw⟩ := List.eq_append_cons_of_mem hrest
      rw [at?_append_paren before hw] at h
      obtain ⟨⟨args, after⟩, hclose, rfl⟩ := Option.map_eq_some_iff.1 h
      exact ⟨w, inner, hw, rfl, rfl, hclose⟩
    · rw [at?_of_notMem before hrest] at h
      exact absurd h (by simp)

/-- A call that is closed is the same call in a longer text. -/
theorem at?_append {t : Text} {offset : Nat} {call : Call} (h : at? t offset = some call)
    (u : Text) : at? (t ++ u) offset = some { call with after := call.after ++ u } := by
  obtain ⟨w, inner, hw, rfl, rfl, hclose⟩ := exists_of_at? h
  have happend : call.before ++ (w ++ '(' :: inner) ++ u =
      call.before ++ (w ++ '(' :: (inner ++ u)) := by simp
  rw [happend, at?_append_paren call.before hw, Nesting.close?_append hclose]
  rfl

end Call

namespace Engine
open Text

/-- What takes the place of a call, given the text between its parentheses. Nothing does if no
function has the name and such calls are kept. -/
def answer (e : Engine σ) (host : Host σ) (name args : Text) (s : Setting σ) :
    Option Text × Setting σ :=
  let s := s.enter name
  match e.registry.resolve name e.config.ignoreCase with
  | some f =>
    let (value, s) := f.invoke host args.trim s
    (some value, s)
  | none =>
    match e.config.unresolved with
    | .remove => (some [], s)
    | .keep => (none, s)

theorem expandSite_eq (e : Engine σ) (host : Host σ) (site : Site) (t : Text) (s : Setting σ) :
    e.expandSite host site (t, s) = match Call.at? t site.offset with
      | none => (t, s)
      | some call =>
        ((e.answer host site.name call.args s).1.elim t call.replace,
          (e.answer host site.name call.args s).2) := by
  simp only [expandSite, answer]
  cases Call.at? t site.offset with
  | none => rfl
  | some call =>
    cases e.registry.resolve site.name e.config.ignoreCase with
    | some f => rfl
    | none => cases e.config.unresolved <;> rfl

theorem resolve_of_get? {r : Registry σ} {name : Text} {f : Function σ}
    (h : r.get? name = some f) (ignoreCase : Bool) : r.resolve name ignoreCase = some f := by
  rw [Registry.resolve, h]
  rfl

theorem exists_mem_of_resolve {r : Registry σ} {name : Text} {ignoreCase : Bool} {f : Function σ}
    (h : r.resolve name ignoreCase = some f) : ∃ entry ∈ r.entries.entries, entry.2 = f := by
  rw [Registry.resolve, Option.orElse_eq_orElse, Option.orElse_eq_or, Option.or_eq_some_iff] at h
  rcases h with h | ⟨_, h⟩
  · obtain ⟨entry, hentry, rfl⟩ := Option.map_eq_some_iff.1 h
    exact ⟨entry, List.mem_of_find?_eq_some hentry, rfl⟩
  · split at h
    · obtain ⟨entry, hentry, rfl⟩ := Option.map_eq_some_iff.1 h
      exact ⟨entry, List.mem_of_find?_eq_some hentry, rfl⟩
    · simp at h

theorem answer_of_get? {e : Engine σ} {name : Text} {f : Function σ}
    (h : e.registry.get? name = some f) (host : Host σ) (args : Text) (s : Setting σ) :
    e.answer host name args s = (some (f.invoke host args.trim (s.enter name)).1,
      (f.invoke host args.trim (s.enter name)).2) := by
  simp only [answer, resolve_of_get? h]

theorem expandSite_name_append (e : Engine σ) (host : Host σ) {w : Text} (hw : '(' ∉ w) (t : Text)
    (s : Setting σ) : e.expandSite host ⟨w, 0⟩ (w ++ '(' :: t, s) =
      match Nesting.inGroup.close? t with
      | none => (w ++ '(' :: t, s)
      | some (args, after) => ((e.answer host w args s).1.elim (w ++ '(' :: t) (· ++ after),
        (e.answer host w args s).2) := by
  have hat : Call.at? (w ++ '(' :: t) 0 =
      (Nesting.inGroup.close? t).map fun q => ⟨[], q.1, q.2⟩ := Call.at?_append_paren [] hw t
  rw [expandSite_eq, hat]
  cases Nesting.inGroup.close? t <;> rfl

theorem expandSite_shift (e : Engine σ) (host : Host σ) (site : Site) (u t : Text)
    (s : Setting σ) : e.expandSite host (site.shift (size u)) (u ++ t, s) =
      (u ++ (e.expandSite host site (t, s)).1, (e.expandSite host site (t, s)).2) := by
  rw [expandSite_eq, expandSite_eq, Site.shift, Call.at?_add]
  cases Call.at? t site.offset with
  | none => rfl
  | some call =>
    simp only [Option.map_some]
    cases (e.answer host site.name call.args s).1 with
    | none => rfl
    | some value => simp [Call.replace]

theorem expandSites_cons (e : Engine σ) (host : Host σ) (site : Site) (sites : List Site)
    (t : Text) (s : Setting σ) : e.expandSites host (site :: sites) t s =
      e.expandSite host site (e.expandSites host sites t s) := rfl

theorem expandSites_shift (e : Engine σ) (host : Host σ) (sites : List Site) (u t : Text)
    (s : Setting σ) : e.expandSites host (sites.map (Site.shift (size u))) (u ++ t) s =
      (u ++ (e.expandSites host sites t s).1, (e.expandSites host sites t s).2) := by
  induction sites with
  | nil => rfl
  | cons site sites ih =>
    rw [List.map_cons, expandSites_cons, ih, expandSite_shift]
    rfl

/-- The expansion of a text of which `b` is the character before. -/
def expandFrom (e : Engine σ) (host : Host σ) (p : Pattern) (b : Option Char) (t : Text)
    (s : Setting σ) : Text × Setting σ := e.expandSites host (p.sitesFrom b 0 0 t) t s

section expandFrom
variable (e : Engine σ) (host : Host σ) {p : Pattern} {b : Option Char}

theorem expandFrom_nil (p : Pattern) (b : Option Char) (s : Setting σ) :
    e.expandFrom host p b [] s = ([], s) := rfl

theorem expandFrom_pass {c : Char} {t : Text} (h : p.accepted? b (c :: t) = none)
    (s : Setting σ) : e.expandFrom host p b (c :: t) s =
      (c :: (e.expandFrom host p (some c) t s).1, (e.expandFrom host p (some c) t s).2) := by
  have hsize : 0 + c.utf8Size = size [c] := Nat.add_comm ..
  rw [expandFrom, Pattern.sitesFrom_pass 0 h, Pattern.sitesFrom_eq_map_shift, hsize]
  exact e.expandSites_shift host _ [c] t s

/-- The call at the start of a text comes last: it sees the expansion of all that follows. -/
theorem expandFrom_head_append {m : Pattern.Match} {rest : Text}
    (h : p.accepted? b (m.head ++ rest) = some m) (s : Setting σ) :
    e.expandFrom host p b (m.head ++ rest) s =
      let r := e.expandFrom host p (some '(') rest s
      let r := e.expandSite host ⟨m.name, 0⟩ (m.name ++ '(' :: r.1, r.2)
      (m.lead ++ r.1, r.2) := by
  -- the sites of the rest come first, with the head left out
  have hrest := e.expandSites_shift host (p.sitesFrom (some '(') 0 0 rest) m.head rest s
  rw [expandFrom, Pattern.sitesFrom_head_append 0 h, Pattern.sitesFrom_eq_map_shift,
    expandSites_cons, Nat.zero_add, Nat.zero_add, hrest, Pattern.Match.head_append]
  exact e.expandSite_shift host ⟨m.name, 0⟩ m.lead _ _

theorem expandFrom_name_append {isWord : Bool} {w rest : Text}
    (h : p.accepted? b (w ++ '(' :: rest) = some ⟨isWord, false, w⟩) (s : Setting σ) :
    e.expandFrom host p b (w ++ '(' :: rest) s =
      let r := e.expandFrom host p (some '(') rest s
      e.expandSite host ⟨w, 0⟩ (w ++ '(' :: r.1, r.2) := by
  have hhead := Pattern.Match.head_append ⟨isWord, false, w⟩ rest
  rw [Pattern.Match.lead, if_neg Bool.false_ne_true, List.nil_append] at hhead
  rw [← hhead] at h ⊢
  exact e.expandFrom_head_append host h s

theorem expandFrom_of_sitesFrom_eq_nil {t : Text} (h : p.sitesFrom b 0 0 t = []) (s : Setting σ) :
    e.expandFrom host p b t s = (t, s) := by
  rw [expandFrom, h]
  rfl

end expandFrom

/-! Engines whose pattern is up to date -/

/-- A pattern made from this version of the registry is the pattern of its names. -/
def InStep (e : Engine σ) : Prop :=
  ∀ p, e.compiled = some (e.registry.version, p) → Pattern.ofNames? e.registry.patternNames = some p

theorem inStep_of_compiled_eq_none {e : Engine σ} (h : e.compiled = none) : e.InStep := by
  intro p hp
  rw [h] at hp
  exact absurd hp (by simp)

/-- To make such a pattern anew gives the same one. -/
theorem InStep.refresh_eq {e : Engine σ} (h : e.InStep) : e.refresh = e.recompile := by
  unfold refresh
  split
  · next version p hcompiled =>
    split
    · next hversion =>
      subst hversion
      rw [recompile, h p hcompiled, Option.map_some, ← hcompiled]
    · rfl
  · rfl

theorem InStep.compiled_refresh {e : Engine σ} (h : e.InStep) : e.refresh.compiled =
    (Pattern.ofNames? e.registry.patternNames).map (e.registry.version, ·) := by
  rw [h.refresh_eq]
  rfl

theorem exists_refresh_eq (e : Engine σ) :
    ∃ compiled, e.refresh = { e with compiled := compiled } := by
  unfold refresh
  split
  · split
    · exact ⟨e.compiled, rfl⟩
    · exact ⟨_, rfl⟩
  · exact ⟨_, rfl⟩

theorem InStep.apply_eq {e : Engine σ} (h : e.InStep) {p : Pattern}
    (hp : Pattern.ofNames? e.registry.patternNames = some p) (host : Host σ) (t : Text)
    (s : Setting σ) : e.apply host t s =
      (.ok (e.expandFrom host p none t s).1, if '(' ∈ t then e.refresh else e,
        (e.expandFrom host p none t s).2) := by
  unfold apply
  by_cases ht : '(' ∈ t
  · have hcompiled := h.compiled_refresh
    rw [hp] at hcompiled
    obtain ⟨compiled, hrefresh⟩ := e.exists_refresh_eq
    simp only [ht, not_true_eq_false, if_false, if_true, hcompiled, Option.map_some]
    rw [hrefresh]
    rfl
  · have hsites : p.sitesFrom none 0 0 t = [] := p.sitesFrom_eq_nil_of_notMem none 0 ht
    rw [if_pos ht, if_neg ht, e.expandFrom_of_sitesFrom_eq_nil host hsites]

end Engine
end StyleCalls
