import StyleCalls.Proofs.Registry.Lookup
import StyleCalls.Proofs.Registry.Order

/-! Activation of the library, one function at a time. Each is put behind those before it, with the
callback that is registered under its name if there is one, and what is left goes behind them all. -/

namespace StyleCalls
variable {σ : Type}

namespace Table
variable {κ α : Type} [DecidableEq κ]

theorem last?_entries (t : Table κ α) (k : κ) : last? t.entries k = t.get? k := by
  cases h : last? t.entries k with
  | none =>
    refine (Option.eq_none_iff_forall_ne_some.2 fun a ha => ?_).symm
    exact last?_eq_none_iff.1 h a (get?_eq_some_iff.1 ha)
  | some a => exact (get?_eq_some_iff.2 (mem_of_last?_eq_some h)).symm

theorem get?_insertAll_entries (t t' : Table κ α) (k : κ) :
    (t.insertAll t'.entries).get? k = (t'.get? k).or (t.get? k) := by
  rw [get?_insertAll, last?_entries]

theorem entries_eq_filterMap (t : Table κ α) :
    t.entries = t.keys.filterMap fun k => (t.get? k).map (k, ·) := by
  have hself : ∀ e ∈ t.entries, (t.get? e.1).map (e.1, ·) = some e := fun e he => by
    rw [get?_eq_some_iff.2 he, Option.map_some]
  rw [keys, List.filterMap_map]
  exact (List.filterMap_congr hself |>.trans List.filterMap_some).symm

/-- The order of the keys and the values under them are all that a table has. -/
theorem eq_of_get?_eq {t t' : Table κ α} (hkeys : t.keys = t'.keys)
    (hget : ∀ k, t.get? k = t'.get? k) : t = t' := by
  have hentries : t.entries = t'.entries := by
    rw [entries_eq_filterMap, hkeys, t'.entries_eq_filterMap]
    simp only [hget]
  cases t
  cases t'
  congr

end Table

namespace Builtin

theorem name_of_ofName? {n : Text} {b : Builtin} (h : ofName? n = some b) : b.name = n := by
  rw [ofName?] at h
  exact of_decide_eq_true (List.find?_some h :)

theorem ofName?_eq_none_iff {n : Text} : ofName? n = none ↔ n ∉ names := by
  rw [← Option.isNone_iff_eq_none, isNone_ofName?_iff]

theorem name_mem_names (b : Builtin) : b.name ∈ names := by
  cases b <;> decide

theorem ofName?_name (b : Builtin) : ofName? b.name = some b := by
  cases b <;> decide

end Builtin

namespace Registry
open Builtin (ofName?)

theorem last?_map_builtins {α : Type} (value : Builtin → α) (n : Text) :
    Table.last? (Builtin.all.map fun b => (b.name, value b)) n = (ofName? n).map value := by
  have hnodup := (Builtin.map_fst_map_all value).symm ▸ nodup_builtinNames
  have hlast := Table.last?_entries ⟨Builtin.all.map fun b => (b.name, value b), hnodup⟩ n
  rw [hlast, Table.get?, List.find?_map, Option.map_map, ofName?]
  simp only [Function.comp_def]

theorem get?_activateBuiltins (r : Registry σ) (n : Text) :
    r.activateBuiltins.get? n = (r.get? n).or ((ofName? n).map Builtin.function) := by
  have hempty : (∅ : Table Text (Function σ)).get? n = none := rfl
  have hold : r.entries.get? n = r.get? n := rfl
  rw [get?, activateBuiltins, Table.insertAll_append, Table.get?_insertAll_entries,
    Table.get?_insertAll, last?_map_builtins, hold, hempty, Option.or_none]
  cases hname : ofName? n with
  | none => rfl
  | some b =>
    rw [Option.map_some, Option.map_some, Builtin.name_of_ofName? hname]
    cases r.get? n <;> rfl

theorem version_activateBuiltins (r : Registry σ) :
    r.activateBuiltins.version = r.version + 1 := rfl

theorem eq_of_get?_eq {r r' : Registry σ} (hnames : r.names = r'.names)
    (hget : ∀ n, r.get? n = r'.get? n) (hretired : r.retired = r'.retired)
    (hversion : r.version = r'.version) : r = r' := by
  have hentries : r.entries = r'.entries := Table.eq_of_get?_eq hnames hget
  cases r
  cases r'
  congr

/-! One function after the other -/

/-- An activation on its way: what has been put in order, what has not been taken up yet, and the
names that are still retired. -/
structure Activation (σ : Type) where
  merged : Table Text (Function σ)
  rest : Table Text (Function σ)
  retired : List Text

namespace Activation

def start (r : Registry σ) : Activation σ := ⟨∅, r.entries, r.retired⟩

def take (a : Activation σ) (b : Builtin) : Activation σ where
  merged := a.merged.insert b.name ((a.rest.get? b.name).getD b.function)
  rest := a.rest.erase b.name
  retired := a.retired.filter (· ≠ b.name)

def finish (a : Activation σ) (version : Nat) : Registry σ where
  entries := a.merged.insertAll a.rest.entries
  retired := a.retired
  version := version + 1

/-- How far an activation has come once some functions of the library are taken up. -/
structure Reached (r : Registry σ) (taken : List Builtin) (a : Activation σ) : Prop where
  keys_merged : a.merged.keys = taken.map Builtin.name
  get?_merged : ∀ n, a.merged.get? n =
    (taken.find? (·.name = n)).map fun b => (r.get? b.name).getD b.function
  keys_rest : a.rest.keys = r.names.filter (· ∉ taken.map Builtin.name)
  get?_rest : ∀ n, a.rest.get? n = if n ∈ taken.map Builtin.name then none else r.get? n
  retired_eq : a.retired = r.retired.filter (· ∉ taken.map Builtin.name)

theorem reached_start (r : Registry σ) : Reached r [] (start r) where
  keys_merged := rfl
  get?_merged _ := rfl
  keys_rest := (List.filter_eq_self.2 fun _ _ => rfl).symm
  get?_rest _ := rfl
  retired_eq := (List.filter_eq_self.2 fun _ _ => rfl).symm

theorem filter_notMem_append_singleton (names taken : List Text) (n : Text) :
    names.filter (· ∉ taken ++ [n]) = (names.filter (· ∉ taken)).filter (· ≠ n) := by
  rw [List.filter_filter]
  refine List.filter_congr fun m _ => ?_
  rw [Bool.eq_iff_iff]
  simp [and_comm]

theorem Reached.take {r : Registry σ} {taken : List Builtin} {a : Activation σ}
    (h : Reached r taken a) {b : Builtin} (hb : b.name ∉ taken.map Builtin.name) :
    Reached r (taken ++ [b]) (a.take b) where
  keys_merged := by
    have hnew : ¬a.merged.contains b.name = true := by
      rwa [Table.contains_iff_mem_keys, h.keys_merged]
    rw [Activation.take, Table.keys_insert, if_neg hnew, h.keys_merged, List.map_append]
    rfl
  get?_merged n := by
    have hrest : a.rest.get? b.name = r.get? b.name := (h.get?_rest b.name).trans (if_neg hb)
    rw [Activation.take, Table.get?_insert, h.get?_merged, hrest, List.find?_append]
    by_cases hn : n = b.name
    · subst hn
      have hnone : taken.find? (·.name = b.name) = none :=
        List.find?_eq_none.2 fun c hc he => hb (of_decide_eq_true he ▸ List.mem_map_of_mem hc)
      simp [hnone]
    · simp [hn, Ne.symm hn]
  keys_rest := by
    rw [Activation.take, Table.keys_erase, h.keys_rest, List.map_append]
    exact (filter_notMem_append_singleton ..).symm
  get?_rest n := by
    rw [Activation.take, Table.get?_erase, h.get?_rest, List.map_append]
    by_cases hn : n = b.name <;> simp [hn]
  retired_eq := by
    rw [Activation.take, h.retired_eq, List.map_append]
    exact (filter_notMem_append_singleton ..).symm

theorem Reached.foldl_take {r : Registry σ} {taken : List Builtin} {a : Activation σ}
    (h : Reached r taken a) {bs : List Builtin}
    (hnodup : ((taken ++ bs).map Builtin.name).Nodup) :
    Reached r (taken ++ bs) (bs.foldl Activation.take a) := by
  induction bs generalizing taken a with
  | nil => rwa [List.append_nil]
  | cons b bs ih =>
    have hb : b.name ∉ taken.map Builtin.name := by
      rw [List.map_append, List.map_cons, List.nodup_append] at hnodup
      exact fun hmem => hnodup.2.2 _ hmem _ (List.mem_cons_self ..) rfl
    rw [List.append_cons] at hnodup ⊢
    exact ih (h.take hb) hnodup

theorem names_finish (a : Activation σ) (version : Nat) :
    (a.finish version).names = a.merged.keys ++ a.rest.keys.filter (· ∉ a.merged.keys) := by
  rw [finish, names, Table.keys_insertAll a.rest.nodup_keys]
  exact congrArg (_ ++ ·) (List.filter_congr fun _ _ => decide_eq_decide.2 Iff.rfl)

theorem get?_finish (a : Activation σ) (version : Nat) (n : Text) :
    (a.finish version).get? n = (a.rest.get? n).or (a.merged.get? n) :=
  Table.get?_insertAll_entries ..

/-- The activation of a registry is one pass over the library. -/
theorem finish_foldl_take (r : Registry σ) :
    (Builtin.all.foldl take (start r)).finish r.version = r.activateBuiltins := by
  have h : Reached r Builtin.all (Builtin.all.foldl take (start r)) :=
    (reached_start r).foldl_take nodup_builtinNames
  generalize Builtin.all.foldl take (start r) = a at h ⊢
  have hnames : (a.finish r.version).names = r.activateBuiltins.names := by
    rw [names_finish, h.keys_merged, h.keys_rest, names_activateBuiltins, List.filter_filter]
    simp only [Bool.and_self]
    rfl
  have hget (n : Text) : (a.finish r.version).get? n = r.activateBuiltins.get? n := by
    rw [get?_finish, h.get?_rest, h.get?_merged, get?_activateBuiltins, ← Builtin.names, ← ofName?]
    cases hname : ofName? n with
    | none =>
      have hn : n ∉ Builtin.names := Builtin.ofName?_eq_none_iff.1 hname
      rw [if_neg hn]
      rfl
    | some b =>
      have hn : n ∈ Builtin.names := Builtin.name_of_ofName? hname ▸ b.name_mem_names
      rw [if_pos hn, Option.none_or, Option.map_some, Option.map_some, Builtin.name_of_ofName? hname]
      cases r.get? n <;> rfl
  have hretired : (a.finish r.version).retired = r.activateBuiltins.retired :=
    h.retired_eq.trans r.retired_activateBuiltins.symm
  exact eq_of_get?_eq hnames hget hretired rfl

end Activation

theorem activateBuiltins_activateBuiltins (r : Registry σ) :
    r.activateBuiltins.activateBuiltins =
      { r.activateBuiltins with version := r.activateBuiltins.version + 1 } := by
  have hnames : r.activateBuiltins.activateBuiltins.names = r.activateBuiltins.names := by
    have hfirst : Builtin.names.filter (· ∉ Builtin.names) = [] :=
      List.filter_eq_nil_iff.2 fun n hn => by simp [hn]
    rw [names_activateBuiltins, names_activateBuiltins, List.filter_append, hfirst,
      List.filter_filter, List.nil_append]
    simp only [Bool.and_self]
  have hget (n : Text) : r.activateBuiltins.activateBuiltins.get? n =
      r.activateBuiltins.get? n := by
    rw [get?_activateBuiltins, get?_activateBuiltins, Option.or_assoc, Option.or_self]
  have hretired : r.activateBuiltins.activateBuiltins.retired = r.activateBuiltins.retired := by
    rw [retired_activateBuiltins, retired_activateBuiltins, List.filter_filter]
    simp only [Bool.and_self]
  have hversion := r.activateBuiltins.version_activateBuiltins
  generalize r.activateBuiltins.activateBuiltins = again at *
  generalize r.activateBuiltins = once at *
  exact eq_of_get?_eq hnames hget hretired hversion

/-- Activation puts the library first, in its own order, and what was registered before after it,
in order. Who registered a function under a name of the library keeps it, and none of these names is
retired any longer. To do it again changes nothing. -/
theorem activateBuiltins_merges (r : Registry σ) :
    let r' := r.activateBuiltins
    r' = (Builtin.all.foldl Activation.take (.start r)).finish r.version ∧
    r'.names = Builtin.names ++ r.names.filter (· ∉ Builtin.names) ∧
    (∀ n ∈ r.names, r'.get? n = r.get? n) ∧
    (∀ b : Builtin, b.name ∉ r.names → r'.get? b.name = some b.function) ∧
    r'.retired = r.retired.filter (· ∉ Builtin.names) ∧
    r'.activateBuiltins = { r' with version := r'.version + 1 } := by
  refine ⟨(Activation.finish_foldl_take r).symm, r.names_activateBuiltins, fun n hn => ?_,
    fun b hb => ?_, r.retired_activateBuiltins, r.activateBuiltins_activateBuiltins⟩
  · obtain ⟨f, hf⟩ := exists_get?_of_mem_names hn
    rw [get?_activateBuiltins, hf, Option.some_or]
  · have hnone : r.get? b.name = none := Table.get?_eq_none_iff.2 hb
    rw [get?_activateBuiltins, hnone, Option.none_or, Builtin.ofName?_name, Option.map_some]

example : Builtin.names = ["query", "math", "hsla-adjust", "hsl-adjust", "h-adjust", "s-adjust",
    "l-adjust", "a-adjust", "this"].map String.toList := rfl

end Registry
end StyleCalls
