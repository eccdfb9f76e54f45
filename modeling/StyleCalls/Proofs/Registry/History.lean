import Mathlib.Data.List.Dedup
import Mathlib.Data.List.Induction
import StyleCalls.Registry

/-! What a registry remembers of the changes made to it. Which names are in use, which are retired
and in which order, can be read off a log of registrations and removals. -/

namespace StyleCalls
variable {σ : Type}

namespace Builtin

def names : List Text := all.map name

theorem map_fst_map_all {α : Type} (value : Builtin → α) :
    (all.map fun b => (b.name, value b)).map Prod.fst = names := List.map_map ..

theorem isNone_ofName?_iff {n : Text} : (ofName? n).isNone = true ↔ n ∉ names := by
  simp [ofName?, names]

end Builtin

namespace Registry

/-! One change -/

inductive Change (σ : Type) where
  | add (name : Text) (f : Function σ)
  | remove (name : Text)
  | activateBuiltins

def change (r : Registry σ) : Change σ → Registry σ
  | .add name f => r.add name f
  | .remove name => r.remove name
  | .activateBuiltins => r.activateBuiltins

/-- The registry that was empty before the changes. -/
def ofChanges (changes : List (Change σ)) : Registry σ := changes.foldl change {}

/-- The names that are in use after a change, whatever was before. -/
def Change.registered : Change σ → List Text
  | .add name _ => [name]
  | .remove _ => []
  | .activateBuiltins => Builtin.names

theorem contains_iff_mem_names {r : Registry σ} {n : Text} :
    r.contains n = true ↔ n ∈ r.names := Table.contains_iff_mem_keys

theorem nodup_names (r : Registry σ) : r.names.Nodup := r.entries.nodup_keys

theorem mem_names_add {r : Registry σ} {name n : Text} {f : Function σ} :
    n ∈ (r.add name f).names ↔ n = name ∨ n ∈ r.names := Table.mem_keys_insert

theorem retired_add (r : Registry σ) (name : Text) (f : Function σ) :
    (r.add name f).retired = r.retired.filter (· ≠ name) := rfl

theorem remove_of_mem {r : Registry σ} {name : Text} (h : name ∈ r.names) : r.remove name =
    { entries := r.entries.erase name
      retired := r.retired ++ [name]
      version := r.version + 1 } := if_pos (contains_iff_mem_names.2 h)

theorem remove_of_notMem {r : Registry σ} {name : Text} (h : name ∉ r.names) :
    r.remove name = r := if_neg (mt contains_iff_mem_names.1 h)

theorem mem_names_remove {r : Registry σ} {name n : Text} :
    n ∈ (r.remove name).names ↔ n ≠ name ∧ n ∈ r.names := by
  by_cases h : name ∈ r.names
  · rw [remove_of_mem h, names, Table.keys_erase, List.mem_filter, decide_eq_true_eq, and_comm]
    rfl
  · rw [remove_of_notMem h]
    exact ⟨fun hn => ⟨fun he => h (he ▸ hn), hn⟩, And.right⟩

theorem mem_names_activateBuiltins {r : Registry σ} {n : Text} :
    n ∈ r.activateBuiltins.names ↔ n ∈ Builtin.names ∨ n ∈ r.names := by
  have hempty : n ∉ (∅ : Table Text (Function σ)).keys := List.not_mem_nil
  rw [activateBuiltins, names, Table.mem_keys_insertAll, List.map_append, List.map_map,
    List.mem_append]
  exact or_iff_right hempty

theorem retired_activateBuiltins (r : Registry σ) :
    r.activateBuiltins.retired = r.retired.filter (· ∉ Builtin.names) := by
  refine List.filter_congr fun n _ => ?_
  rw [Bool.eq_iff_iff, Builtin.isNone_ofName?_iff, decide_eq_true_iff]

/-! The log -/

/-- What may happen to a name. -/
inductive Event where
  | registration (name : Text)
  | removal (name : Text)
deriving DecidableEq

def Event.name : Event → Text
  | registration name => name
  | removal name => name

/-- The last event of the name registered it. -/
def InUse (log : List Event) (name : Text) : Prop :=
  (log.filter (·.name = name)).getLast? = some (.registration name)

instance (log : List Event) (name : Text) : Decidable (InUse log name) :=
  inferInstanceAs (Decidable (_ = _))

/-- The names of the removals, in their order. -/
def removals (log : List Event) : List Text :=
  log.filterMap fun
    | .registration _ => none
    | .removal name => some name

/-- The events of a change that comes after those in the log. The removal of a name that is not in
use changes nothing. -/
def Change.events (log : List Event) : Change σ → List Event
  | .add name _ => [.registration name]
  | .remove name => if InUse log name then [.removal name] else []
  | .activateBuiltins => Builtin.names.map .registration

def history (changes : List (Change σ)) : List Event :=
  changes.foldl (fun log c => log ++ c.events log) []

theorem history_append_singleton (changes : List (Change σ)) (c : Change σ) :
    history (changes ++ [c]) = history changes ++ c.events (history changes) := by
  rw [history, List.foldl_append]
  rfl

theorem inUse_append_registrations {log : List Event} {names : List Text} {n : Text} :
    InUse (log ++ names.map .registration) n ↔ n ∈ names ∨ InUse log n := by
  have hfilter : (names.map Event.registration).filter (·.name = n) =
      (names.filter (· = n)).map .registration := List.filter_map
  rw [InUse, List.filter_append, hfilter, List.getLast?_append, List.getLast?_map]
  cases hlast : (names.filter (· = n)).getLast? with
  | none =>
    have hn : n ∉ names := by
      intro hn
      have hmem : n ∈ names.filter (· = n) := List.mem_filter.2 ⟨hn, decide_eq_true rfl⟩
      rw [List.getLast?_eq_none_iff.1 hlast] at hmem
      exact List.not_mem_nil hmem
    exact (or_iff_right hn).symm
  | some m =>
    obtain ⟨hm, hmn⟩ := List.mem_filter.1 (List.mem_of_getLast? hlast)
    obtain rfl : m = n := of_decide_eq_true hmn
    exact iff_of_true rfl (.inl hm)

theorem inUse_append_removal {log : List Event} {name n : Text} :
    InUse (log ++ [.removal name]) n ↔ n ≠ name ∧ InUse log n := by
  rw [InUse, List.filter_append, List.getLast?_append]
  by_cases h : n = name
  · simp [h, Event.name]
  · simp [h, Ne.symm h, Event.name, InUse]

theorem removals_append (log log' : List Event) :
    removals (log ++ log') = removals log ++ removals log' := List.filterMap_append

theorem removals_map_registration (names : List Text) :
    removals (names.map .registration) = [] := by
  rw [removals, List.filterMap_map, List.filterMap_eq_nil_iff]
  exact fun _ _ => rfl

/-- Of several occurrences the last one counts. -/
theorem dedup_append_singleton (l : List Text) (a : Text) :
    (l ++ [a]).dedup = l.dedup.filter (· ≠ a) ++ [a] := by
  induction l with
  | nil => rfl
  | cons b l ih =>
    rw [List.cons_append]
    by_cases hl : b ∈ l
    · rw [List.dedup_cons_of_mem (List.mem_append_left _ hl), List.dedup_cons_of_mem hl, ih]
    · rw [List.dedup_cons_of_notMem hl]
      by_cases hb : b = a
      · rw [List.dedup_cons_of_mem (by simp [hb]), ih]
        simp [hb]
      · rw [List.dedup_cons_of_notMem (by simp [hb, hl]), ih]
        simp [hb]

/-- A registry as the log tells it. -/
structure Records (log : List Event) (r : Registry σ) : Prop where
  mem_names : ∀ n, n ∈ r.names ↔ InUse log n
  retired_eq : r.retired = (removals log).dedup.filter fun n => ¬InUse log n

theorem records_nil : Records [] ({} : Registry σ) where
  mem_names _ := iff_of_false List.not_mem_nil (by simp [InUse])
  retired_eq := rfl

theorem Records.register {log : List Event} {r r' : Registry σ} (h : Records log r)
    {names : List Text} (hnames : ∀ n, n ∈ r'.names ↔ n ∈ names ∨ n ∈ r.names)
    (hretired : r'.retired = r.retired.filter (· ∉ names)) :
    Records (log ++ names.map .registration) r' where
  mem_names n := by rw [hnames, h.mem_names, inUse_append_registrations]
  retired_eq := by
    rw [hretired, h.retired_eq, List.filter_filter, removals_append, removals_map_registration,
      List.append_nil]
    refine List.filter_congr fun n _ => ?_
    simp [inUse_append_registrations]

theorem Records.remove {log : List Event} {r : Registry σ} (h : Records log r) {name : Text}
    (hname : InUse log name) : Records (log ++ [.removal name]) (r.remove name) where
  mem_names n := by rw [mem_names_remove, h.mem_names, inUse_append_removal]
  retired_eq := by
    have hrest : (removals log).dedup.filter (fun n => ¬InUse log n) =
        ((removals log).dedup.filter (· ≠ name)).filter
          fun n => ¬InUse (log ++ [.removal name]) n := by
      rw [List.filter_filter]
      refine List.filter_congr fun n _ => ?_
      by_cases hn : n = name
      · simp [hn, hname]
      · simp [hn, inUse_append_removal]
    have hlast : ¬InUse (log ++ [.removal name]) name :=
      fun hl => (inUse_append_removal.1 hl).1 rfl
    have hsingle : removals [.removal name] = [name] := rfl
    rw [remove_of_mem ((h.mem_names name).2 hname), removals_append, hsingle,
      dedup_append_singleton, List.filter_append, ← hrest, ← h.retired_eq]
    simp [hlast]

theorem Records.change {log : List Event} {r : Registry σ} (h : Records log r) (c : Change σ) :
    Records (log ++ c.events log) (r.change c) := by
  cases c with
  | add name f =>
    have hnames : ∀ n, n ∈ (r.add name f).names ↔ n ∈ [name] ∨ n ∈ r.names := by
      intro n
      rw [mem_names_add, List.mem_singleton]
    have hretired : (r.add name f).retired = r.retired.filter (· ∉ [name]) := by
      rw [retired_add]
      simp only [List.mem_singleton, ne_eq]
    exact h.register hnames hretired
  | remove name =>
    rw [Change.events, Registry.change]
    by_cases hname : InUse log name
    · rw [if_pos hname]
      exact h.remove hname
    · rw [if_neg hname, List.append_nil, remove_of_notMem (mt (h.mem_names name).1 hname)]
      exact h
  | activateBuiltins =>
    exact h.register (fun _ => mem_names_activateBuiltins) r.retired_activateBuiltins

theorem ofChanges_append_singleton (changes : List (Change σ)) (c : Change σ) :
    ofChanges (changes ++ [c]) = (ofChanges changes).change c := by
  rw [ofChanges, List.foldl_append]
  rfl

theorem records_ofChanges (changes : List (Change σ)) :
    Records (history changes) (ofChanges changes) := by
  induction changes using List.reverseRecOn with
  | nil => exact records_nil
  | append_singleton changes c ih =>
    rw [history_append_singleton, ofChanges_append_singleton]
    exact ih.change c

/-! What is never forgotten, and the count of changes -/

theorem mem_patternNames_change {r : Registry σ} {c : Change σ} {n : Text} :
    n ∈ (r.change c).patternNames ↔ n ∈ r.patternNames ∨ n ∈ c.registered := by
  simp only [patternNames, List.mem_append]
  cases c with
  | add name f =>
    rw [change, mem_names_add, retired_add, List.mem_filter, decide_eq_true_iff,
      Change.registered, List.mem_singleton]
    by_cases hn : n = name <;> simp [hn]
  | remove name =>
    by_cases hname : name ∈ r.names
    · have hretired : (r.change (.remove name)).retired = r.retired ++ [name] := by
        rw [change, remove_of_mem hname]
      rw [hretired, change, mem_names_remove, List.mem_append, List.mem_singleton]
      by_cases hn : n = name <;> simp [hn, hname, Change.registered]
    · rw [change, remove_of_notMem hname]
      simp [Change.registered]
  | activateBuiltins =>
    rw [change, mem_names_activateBuiltins, retired_activateBuiltins, List.mem_filter,
      decide_eq_true_iff, Change.registered]
    by_cases hn : n ∈ Builtin.names <;> simp [hn]

theorem mem_patternNames_ofChanges {changes : List (Change σ)} {n : Text} :
    n ∈ (ofChanges changes).patternNames ↔ ∃ c ∈ changes, n ∈ c.registered := by
  induction changes using List.reverseRecOn with
  | nil => exact iff_of_false List.not_mem_nil (by simp)
  | append_singleton changes c ih =>
    rw [ofChanges_append_singleton, mem_patternNames_change, ih]
    simp [or_and_right, exists_or]

theorem version_change {log : List Event} {r : Registry σ} (h : Records log r) (c : Change σ) :
    (r.change c).version = r.version + ([c].countP (· matches .add ..) +
      (removals (c.events log)).length + [c].countP (· matches .activateBuiltins)) := by
  cases c with
  | add name f => rfl
  | remove name =>
    rw [change, Change.events]
    by_cases hname : InUse log name
    · rw [remove_of_mem ((h.mem_names name).2 hname), if_pos hname]
      rfl
    · rw [remove_of_notMem (mt (h.mem_names name).1 hname), if_neg hname]
      rfl
  | activateBuiltins =>
    rw [Change.events, removals_map_registration]
    rfl

theorem version_ofChanges (changes : List (Change σ)) :
    (ofChanges changes).version = changes.countP (· matches .add ..) +
      (removals (history changes)).length + changes.countP (· matches .activateBuiltins) := by
  induction changes using List.reverseRecOn with
  | nil => rfl
  | append_singleton changes c ih =>
    rw [ofChanges_append_singleton, version_change (records_ofChanges changes), ih,
      history_append_singleton, removals_append, List.length_append, List.countP_append,
      List.countP_append]
    omega

/-- A registry is what its history says. Patterns recognise every name that was ever registered and
no other, each once, those in use first. A name is in use if the last thing that happened to it was
a registration, and the others stand in the order in which they were last removed. The version
counts what was done, without the removals of names that were not in use. -/
theorem ofChanges_keeps_history (changes : List (Change σ)) :
    let r := ofChanges changes
    let log := history changes
    (r.patternNames = r.names ++ r.retired ∧ r.patternNames.Nodup ∧
      ∀ n, n ∈ r.patternNames ↔ ∃ c ∈ changes, n ∈ c.registered) ∧
    (∀ n, n ∈ r.names ↔ InUse log n) ∧
    r.retired = (removals log).dedup.filter (fun n => n ∉ r.names) ∧
    r.version = changes.countP (· matches .add ..) + (removals log).length +
      changes.countP (· matches .activateBuiltins) := by
  intro r log
  have h : Records log r := records_ofChanges changes
  have hretired : r.retired = (removals log).dedup.filter (fun n => n ∉ r.names) := by
    rw [h.retired_eq]
    exact List.filter_congr fun n _ => by simp [h.mem_names]
  have hnodup : r.patternNames.Nodup := by
    refine List.nodup_append.2 ⟨r.nodup_names, ?_, ?_⟩
    · rw [hretired]
      exact (List.nodup_dedup _).filter _
    · rintro n hn m hm rfl
      rw [hretired, List.mem_filter] at hm
      exact of_decide_eq_true hm.2 hn
  exact ⟨⟨rfl, hnodup, fun _ => mem_patternNames_ofChanges⟩, h.mem_names, hretired,
    version_ofChanges changes⟩

example (f : Function σ) :
    let (a, b) := (['a'], ['b'])
    (ofChanges [.add a f, .add b f, .remove a, .remove b, .add a f, .remove a]).retired = [b, a] :=
  rfl

end Registry
end StyleCalls
