import StyleCalls.Proofs.Engine.Outcome
import StyleCalls.Proofs.Pattern.Recognition
import StyleCalls.Proofs.Registry.Lookup

/-! What runs while a text is expanded, as the functions themselves have it. Functions that note
each of their runs, and go on as before, leave a record of the expansion. It has one run for each
turn that comes to a function, and none for a call that is not in the text from the start. -/

namespace StyleCalls
variable {σ : Type}

/-- A run of the function registered under a name, in the context that it found. -/
structure Run where
  name : Text
  context : Option Context

namespace Setting

def withRecord (s : Setting σ) (record : List Run) : Setting (σ × List Run) :=
  ⟨s.context, s.rules, (s.memory, record)⟩

def withoutRecord (s : Setting (σ × List Run)) : Setting σ := ⟨s.context, s.rules, s.memory.1⟩

end Setting

namespace Function
variable {α : Type}

def recordedCallback (host : Host σ) (name : Text) (run : Callback σ α) :
    Callback (σ × List Run) α := fun _ args s =>
  let (value, s') := run host args s.withoutRecord
  (value, s'.withRecord (s.memory.2 ++ [⟨name, s.context⟩]))

/-- The function, under its name and with its host, made to note each of its runs. -/
def recorded (host : Host σ) (name : Text) : Function σ → Function (σ × List Run)
  | raw run => raw (recordedCallback host name run)
  | parsedArgs run => parsedArgs (recordedCallback host name run)

theorem invoke_recorded (f : Function σ) (host : Host σ) (host' : Host (σ × List Run))
    (name args : Text) (s : Setting σ) (record : List Run) :
    (f.recorded host name).invoke host' args (s.withRecord record) =
      ((f.invoke host args s).1,
        (f.invoke host args s).2.withRecord (record ++ [⟨name, s.context⟩])) := by
  cases f <;> rfl

end Function

namespace Registry

/-- The name under which the function of a call is registered. -/
def resolveName? (r : Registry σ) (name : Text) (ignoreCase : Bool) : Option Text :=
  if name ∈ r.names then some name
  else if ignoreCase then r.names.find? (Text.eqIgnoringAsciiCase · name)
  else none

theorem mem_names_of_resolveName? {r : Registry σ} {name n : Text} {ignoreCase : Bool}
    (h : r.resolveName? name ignoreCase = some n) : n ∈ r.names := by
  unfold resolveName? at h
  split at h
  · next hname => exact Option.some.inj h ▸ hname
  · split at h
    · exact List.mem_of_find?_eq_some h
    · simp at h

theorem resolve_eq_bind (r : Registry σ) (name : Text) (ignoreCase : Bool) :
    r.resolve name ignoreCase = (r.resolveName? name ignoreCase).bind r.get? := by
  unfold resolve resolveName?
  by_cases hname : name ∈ r.names
  · obtain ⟨f, hf⟩ := exists_get?_of_mem_names hname
    rw [if_pos hname, Option.bind_some, hf]
    rfl
  · have hget : r.get? name = none := Table.get?_eq_none_iff.2 hname
    rw [if_neg hname, hget]
    cases ignoreCase with
    | false => rfl
    | true =>
      -- the first name that will do is that of the first entry that will do
      have hfind : r.names.find? (Text.eqIgnoringAsciiCase · name) =
          (r.entries.entries.find? fun e => e.1.eqIgnoringAsciiCase name).map Prod.fst :=
        List.find?_map ..
      rw [hfind, if_pos rfl, if_pos rfl]
      cases hentry : r.entries.entries.find? fun e => e.1.eqIgnoringAsciiCase name with
      | none => rfl
      | some entry => exact (Table.get?_eq_some_iff.2 (List.mem_of_find?_eq_some hentry)).symm

def recorded (r : Registry σ) (host : Host σ) : Registry (σ × List Run) where
  entries := r.entries.mapValues fun name f => f.recorded host name
  retired := r.retired
  version := r.version

theorem names_recorded (r : Registry σ) (host : Host σ) : (r.recorded host).names = r.names :=
  Table.keys_mapValues ..

theorem patternNames_recorded (r : Registry σ) (host : Host σ) :
    (r.recorded host).patternNames = r.patternNames := congrArg (· ++ r.retired) (r.names_recorded host)

theorem sites?_recorded (r : Registry σ) (host : Host σ) (t : Text) :
    (r.recorded host).sites? t = r.sites? t := by
  rw [sites?, patternNames_recorded, sites?]

theorem resolve_recorded (r : Registry σ) (host : Host σ) (name : Text) (ignoreCase : Bool) :
    (r.recorded host).resolve name ignoreCase =
      (r.resolveName? name ignoreCase).bind fun n => (r.get? n).map (·.recorded host n) := by
  have hget : (r.recorded host).get? = fun n => (r.get? n).map (·.recorded host n) :=
    funext fun n => Table.get?_mapValues _ _ n
  rw [resolve_eq_bind, resolveName?, names_recorded, hget]
  rfl

end Registry

namespace Engine
open Text Pattern

/-- The engine with all its functions made to note their runs. -/
def recorded (e : Engine σ) (host : Host σ) : Engine (σ × List Run) where
  registry := e.registry.recorded host
  config := e.config
  compiled := e.compiled

/-- The turn of a site: what text and setting expansion has come to by then. -/
structure Turn (σ : Type) where
  site : Site
  text : Text
  setting : Setting σ

/-- The turns of sites, from right to left. -/
def turns (e : Engine σ) (host : Host σ) (t : Text) (s : Setting σ) : List Site → List (Turn σ)
  | [] => []
  | site :: sites =>
    let (t', s') := e.expandSites host sites t s
    turns e host t s sites ++ [⟨site, t', s'⟩]

def Turn.closed (turn : Turn σ) : Bool := (Call.at? turn.text turn.site.offset).isSome

/-- Whether a turn comes to a function. -/
def hasRun (e : Engine σ) (turn : Turn σ) : Bool :=
  turn.closed && (e.registry.resolve turn.site.name e.config.ignoreCase).isSome

/-- The run that a turn comes to. -/
def run? (e : Engine σ) (turn : Turn σ) : Option Run :=
  if turn.closed then
    (e.registry.resolveName? turn.site.name e.config.ignoreCase).map fun name =>
      ⟨name, (turn.setting.enter turn.site.name).context⟩
  else none

/-! The record -/

theorem answer_recorded (e : Engine σ) (host : Host σ) (host' : Host (σ × List Run))
    (name args : Text) (s : Setting σ) (record : List Run) :
    (e.recorded host).answer host' name args (s.withRecord record) =
      ((e.answer host name args s).1, (e.answer host name args s).2.withRecord (record ++
        ((e.registry.resolveName? name e.config.ignoreCase).map fun n =>
          ⟨n, (s.enter name).context⟩).toList)) := by
  have hrecorded : (e.recorded host).registry.resolve name (e.recorded host).config.ignoreCase =
      (e.registry.resolveName? name e.config.ignoreCase).bind fun n =>
        (e.registry.get? n).map (·.recorded host n) := e.registry.resolve_recorded ..
  have henter : (s.withRecord record).enter name = (s.enter name).withRecord record := rfl
  have hconfig : (e.recorded host).config = e.config := rfl
  unfold answer
  rw [hrecorded, henter, hconfig, e.registry.resolve_eq_bind]
  cases hname : e.registry.resolveName? name e.config.ignoreCase with
  | none =>
    rw [Option.map_none, Option.toList_none, List.append_nil]
    cases e.config.unresolved <;> rfl
  | some n =>
    obtain ⟨f, hf⟩ := Registry.exists_get?_of_mem_names (Registry.mem_names_of_resolveName? hname)
    simp only [Option.bind_some, hf, Option.map_some, Function.invoke_recorded, Option.toList_some]

theorem expandSite_recorded (e : Engine σ) (host : Host σ) (host' : Host (σ × List Run))
    (site : Site) (t : Text) (s : Setting σ) (record : List Run) :
    (e.recorded host).expandSite host' site (t, s.withRecord record) =
      ((e.expandSite host site (t, s)).1,
        (e.expandSite host site (t, s)).2.withRecord (record ++ (e.run? ⟨site, t, s⟩).toList)) := by
  rw [expandSite_eq, expandSite_eq, run?, Turn.closed]
  cases Call.at? t site.offset with
  | none => simp
  | some call =>
    simp only [answer_recorded]
    rfl

theorem expandSites_recorded (e : Engine σ) (host : Host σ) (host' : Host (σ × List Run))
    (sites : List Site) (t : Text) (s : Setting σ) (record : List Run) :
    (e.recorded host).expandSites host' sites t (s.withRecord record) =
      ((e.expandSites host sites t s).1, (e.expandSites host sites t s).2.withRecord
        (record ++ (e.turns host t s sites).filterMap e.run?)) := by
  induction sites with
  | nil => simp [expandSites, turns]
  | cons site sites ih =>
    rw [expandSites_cons, ih, expandSite_recorded, turns, List.filterMap_append, List.append_assoc]
    rfl

/-! The turns -/

theorem map_site_turns (e : Engine σ) (host : Host σ) (t : Text) (s : Setting σ)
    (sites : List Site) : (e.turns host t s sites).map Turn.site = sites.reverse := by
  induction sites with
  | nil => rfl
  | cons site sites ih => rw [turns, List.map_append, ih, List.reverse_cons]; rfl

theorem run?_eq_some_iff {e : Engine σ} {turn : Turn σ} {run : Run} : e.run? turn = some run ↔
    turn.closed = true ∧
      e.registry.resolveName? turn.site.name e.config.ignoreCase = some run.name ∧
      run.context = (turn.setting.enter turn.site.name).context := by
  unfold run?
  by_cases hclosed : turn.closed = true
  · rw [if_pos hclosed, Option.map_eq_some_iff]
    constructor
    · rintro ⟨name, hname, rfl⟩
      exact ⟨hclosed, hname, rfl⟩
    · rintro ⟨_, hname, hcontext⟩
      exact ⟨run.name, hname, hcontext ▸ rfl⟩
  · rw [if_neg hclosed]
    simp [hclosed]

theorem isSome_run? (e : Engine σ) (turn : Turn σ) : (e.run? turn).isSome = e.hasRun turn := by
  rw [run?, hasRun, e.registry.resolve_eq_bind]
  cases turn.closed with
  | false => rfl
  | true =>
    rw [if_pos rfl, Bool.true_and, Option.isSome_map]
    cases hname : e.registry.resolveName? turn.site.name e.config.ignoreCase with
    | none => rfl
    | some n =>
      obtain ⟨f, hf⟩ := Registry.exists_get?_of_mem_names (Registry.mem_names_of_resolveName? hname)
      rw [Option.bind_some, hf]
      rfl

/-- There is a run for each turn that comes to a function, in the order of the turns. -/
theorem forall₂_filterMap_run? (e : Engine σ) (turns : List (Turn σ)) :
    List.Forall₂ (fun turn run => e.run? turn = some run) (turns.filter e.hasRun)
      (turns.filterMap e.run?) := by
  induction turns with
  | nil => exact .nil
  | cons turn turns ih =>
    cases hrun : e.run? turn with
    | none =>
      have hnone : e.hasRun turn = false := by rw [← isSome_run?, hrun]; rfl
      rwa [List.filter_cons_of_neg (Bool.eq_false_iff.1 hnone), List.filterMap_cons_none hrun]
    | some run =>
      have hsome : e.hasRun turn = true := by rw [← isSome_run?, hrun]; rfl
      rw [List.filter_cons_of_pos hsome, List.filterMap_cons_some hrun]
      exact .cons hrun ih

theorem invocations_eq_filterMap (e : Engine σ) (host : Host σ) (t : Text) (s : Setting σ)
    (sites : List Site) : e.invocations host t s sites =
      (e.turns host t s sites).filterMap fun turn => e.invocation? turn.site turn.text := by
  induction sites with
  | nil => rfl
  | cons site sites ih =>
    rw [invocations, turns, List.filterMap_append, ← ih]
    simp only [List.filterMap_cons, List.filterMap_nil]
    cases e.invocation? site (e.expandSites host sites t s).1 <;> rfl

theorem map_name_invocation? (e : Engine σ) (turn : Turn σ) :
    (e.invocation? turn.site turn.text).map Invocation.name =
      if e.hasRun turn then some turn.site.name else none := by
  rw [invocation?, hasRun, Turn.closed]
  cases Call.at? turn.text turn.site.offset with
  | none => rfl
  | some call => cases e.registry.resolve turn.site.name e.config.ignoreCase <;> rfl

/-- The invocations of an expansion are its turns that come to a function, which are those that the
record has a run for. -/
theorem InStep.map_name_applyInvocations {e : Engine σ} (h : e.InStep) (host : Host σ) (t : Text)
    (s : Setting σ) : (e.applyInvocations host t s).map Invocation.name =
      ((e.turns host t s (e.sites t)).filter e.hasRun).map (·.site.name) := by
  rw [h.applyInvocations_eq_invocations, invocations_eq_filterMap, List.map_filterMap,
    ← List.filterMap_eq_map, List.filterMap_filter]
  simp only [map_name_invocation?]
  rfl

/-! The context -/

/-- No function of the registry changes the context. -/
def LeavesContext (e : Engine σ) (host : Host σ) : Prop :=
  ∀ entry ∈ e.registry.entries.entries, ∀ args s,
    (entry.2.invoke host args s).2.context = s.context

/-- The name, as it is spelled, of the last of the turns whose call is closed. -/
def closedName? (turns : List (Turn σ)) : Option Text :=
  (turns.filter Turn.closed).getLast?.map (·.site.name)

theorem closedName?_append_singleton (turns : List (Turn σ)) (turn : Turn σ) :
    closedName? (turns ++ [turn]) =
      if turn.closed then some turn.site.name else closedName? turns := by
  by_cases hclosed : turn.closed = true <;> simp [closedName?, hclosed]

section
variable {e : Engine σ} {host : Host σ} (he : e.LeavesContext host)
include he

theorem context_answer (name args : Text) (s : Setting σ) :
    (e.answer host name args s).2.context = (s.enter name).context := by
  unfold answer
  cases hf : e.registry.resolve name e.config.ignoreCase with
  | some f =>
    obtain ⟨entry, hentry, rfl⟩ := exists_mem_of_resolve hf
    exact he entry hentry args.trim (s.enter name)
  | none => cases e.config.unresolved <;> rfl

theorem context_expandSite (site : Site) (t : Text) (s : Setting σ) :
    (e.expandSite host site (t, s)).2.context =
      if (Turn.mk site t s).closed then (s.enter site.name).context else s.context := by
  rw [expandSite_eq, Turn.closed]
  cases Call.at? t site.offset with
  | none => rfl
  | some call => exact context_answer he site.name call.args s

theorem context_expandSites (sites : List Site) (t : Text) (s : Setting σ) :
    (e.expandSites host sites t s).2.context = s.context.map fun c =>
      { c with function := (closedName? (e.turns host t s sites)).or c.function } := by
  induction sites with
  | nil => cases hc : s.context <;> simp [expandSites, turns, closedName?, hc]
  | cons site sites ih =>
    rw [expandSites_cons, turns]
    generalize e.expandSites host sites t s = state at ih ⊢
    obtain ⟨t', s'⟩ := state
    have hcontext : s'.context = _ := ih
    rw [context_expandSite he, closedName?_append_singleton]
    by_cases hclosed : (Turn.mk site t' s').closed = true
    · simp only [if_pos hclosed]
      rw [Setting.enter, hcontext, Option.map_map]
      rfl
    · simp only [if_neg hclosed]
      exact hcontext

end

/-! The expansion of a text -/

theorem pairwise_sites (e : Engine σ) (t : Text) :
    (e.sites t).Pairwise fun site next => site.offset < next.offset := by
  rw [sites, Registry.sites?]
  cases Pattern.ofNames? e.registry.patternNames with
  | none => exact .nil
  | some p =>
    refine (p.pairwise_sitesFrom none 0 t).imp fun {site next} h => ?_
    unfold Site.stop at h
    omega

theorem exists_of_mem_sites {e : Engine σ} {t : Text} {site : Site} (h : site ∈ e.sites t) :
    ∃ before rest, t = before ++ (site.name ++ '(' :: rest) ∧ site.offset = size before := by
  rw [sites, Registry.sites?] at h
  cases hp : Pattern.ofNames? e.registry.patternNames with
  | none => simp [hp] at h
  | some p =>
    rw [hp] at h
    obtain ⟨left, right, hsplit⟩ := List.append_of_mem h
    obtain ⟨before, rest, ht, hoffset, _⟩ := exists_of_sitesFrom_eq_append hsplit
    exact ⟨before, rest, ht, by rw [hoffset, Nat.zero_add]⟩

theorem InStep.recorded {e : Engine σ} (h : e.InStep) (host : Host σ) :
    (e.recorded host).InStep := by
  intro p hp
  have hnames : (e.recorded host).registry.patternNames = e.registry.patternNames :=
    e.registry.patternNames_recorded host
  rw [hnames]
  exact h p hp

/-- The turns are those of the sites that the text has from the start, from right to left. Each call
that is closed when its turn comes and has a function is one run of that function, which finds in
the context the name as it is spelled, and nothing else runs, whatever text the functions answer
with. Where none of them changes the context, it has the name of the leftmost closed call in the end
and is the same otherwise. -/
theorem apply_recorded {e : Engine σ} (h : e.InStep) (host : Host σ) (t : Text) (s : Setting σ) :
    let turns := e.turns host t s (e.sites t)
    (∀ host' record,
      ((e.recorded host).apply host' t (s.withRecord record)).1 = (e.apply host t s).1 ∧
      ((e.recorded host).apply host' t (s.withRecord record)).2.2 =
        (e.apply host t s).2.2.withRecord (record ++ turns.filterMap e.run?)) ∧
    List.Forall₂ (fun turn run =>
        e.registry.resolveName? turn.site.name e.config.ignoreCase = some run.name ∧
        run.context = turn.setting.context.map fun c => { c with function := some turn.site.name })
      (turns.filter e.hasRun) (turns.filterMap e.run?) ∧
    turns.map Turn.site = (e.sites t).reverse ∧
    (e.sites t).Pairwise (fun site next => site.offset < next.offset) ∧
    (∀ site ∈ e.sites t, ∃ before rest, t = before ++ (site.name ++ '(' :: rest) ∧
      site.offset = size before) ∧
    (e.LeavesContext host → (e.apply host t s).2.2.context = s.context.map fun c =>
      { c with function := (closedName? turns).or c.function }) := by
  intro turns
  have hsome : (e.recorded host).registry.sites? t = e.registry.sites? t :=
    e.registry.sites?_recorded host t
  have hsites : (e.recorded host).sites t = e.sites t := congrArg (Option.getD · []) hsome
  refine ⟨fun host' record => ⟨?_, ?_⟩, ?_, e.map_site_turns .., e.pairwise_sites t,
    fun site hsite => exists_of_mem_sites hsite, fun he => ?_⟩
  · rw [(h.recorded host).result_apply, h.result_apply, hsome, hsites, expandSites_recorded]
  · rw [(h.recorded host).setting_apply, h.setting_apply, hsites, expandSites_recorded]
  · refine (e.forall₂_filterMap_run? turns).imp fun turn run hrun => ?_
    exact (run?_eq_some_iff.1 hrun).2
  · rw [h.setting_apply, context_expandSites he]

/-- The first function counts its runs and answers with calls, the second with a parenthesis, and
the third name is no longer in use. -/
def answeringSample : Engine Nat where
  registry :=
    { entries :=
        { entries :=
            [("f".toList, .raw fun _ _ s => ("g(f(1))".toList,
                { s with memory := s.memory + 1 })),
              ("g".toList, .parsedArgs fun _ _ s => (")".toList, s))]
          nodup_keys := by decide }
      retired := ["old".toList] }

theorem answeringSample_apply :
    let t := "old(f(1)) f(g(2)) f(".toList
    let context (name : String) : Context := ⟨some name.toList, some "color".toList, none⟩
    let s : Setting Nat := ⟨some (context "before"), {}, 0⟩
    ((answeringSample.recorded {}).apply {} t (s.withRecord [])).2.2.memory =
        (2, [⟨"g".toList, some (context "g")⟩, ⟨"f".toList, some (context "f")⟩,
          ⟨"f".toList, some (context "f")⟩]) ∧
      (answeringSample.apply {} t s).2.2.context = some (context "old") := by
  intro t context s
  have hleaves : answeringSample.LeavesContext {} := by
    intro entry hentry args s
    simp only [answeringSample, List.mem_cons, List.not_mem_nil, or_false] at hentry
    rcases hentry with rfl | rfl <;> rfl
  obtain ⟨hrecord, _, _, _, _, hcontext⟩ :=
    apply_recorded (e := answeringSample) (inStep_of_compiled_eq_none rfl) {} t s
  refine ⟨?_, ?_⟩
  · rw [(hrecord {} []).2]
    rfl
  · rw [hcontext hleaves]
    rfl

end Engine
end StyleCalls
