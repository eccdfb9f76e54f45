import StyleCalls.Proofs.Pattern.Match
import StyleCalls.Proofs.Registry.History

/-! The order of the names in use. A name keeps its place among the others for as long as it is in
use, and a name that comes back goes to the end. Activation alone brings names to the front. -/

namespace StyleCalls
variable {σ : Type}

namespace Registry

theorem names_add (r : Registry σ) (name : Text) (f : Function σ) :
    (r.add name f).names = if name ∈ r.names then r.names else r.names ++ [name] := by
  rw [add, names, Table.keys_insert]
  simp only [Table.contains_iff_mem_keys]
  rfl

theorem names_remove (r : Registry σ) (name : Text) :
    (r.remove name).names = r.names.filter (· ≠ name) := by
  by_cases h : name ∈ r.names
  · rw [remove_of_mem h]
    exact Table.keys_erase ..
  · rw [remove_of_notMem h, List.filter_eq_self.2]
    exact fun n hn => decide_eq_true fun he => h (he ▸ hn)

theorem nodup_builtinNames : Builtin.names.Nodup := by decide

/-- The library comes first, in its own order, and what was there before stays in order after it. -/
theorem names_activateBuiltins (r : Registry σ) :
    r.activateBuiltins.names = Builtin.names ++ r.names.filter (· ∉ Builtin.names) := by
  have hfirst := Builtin.map_fst_map_all fun b => (r.get? b.name).getD b.function
  have hkeys : (Table.insertAll ∅ (Builtin.all.map fun b =>
      (b.name, (r.get? b.name).getD b.function))).keys = Builtin.names := by
    rw [Table.keys_insertAll (by rw [hfirst]; exact nodup_builtinNames), hfirst]
    exact List.filter_eq_self.2 fun _ _ => decide_eq_true List.not_mem_nil
  rw [activateBuiltins, names, Table.insertAll_append,
    Table.keys_insertAll r.entries.nodup_keys, hkeys]
  exact congrArg (_ ++ ·) (List.filter_congr fun _ _ => decide_eq_decide.2 Iff.rfl)

/-! What comes before a name -/

/-- The names in use that come before `n`. -/
def ahead (r : Registry σ) (n : Text) : List Text := r.names.takeWhile (· ≠ n)

theorem head?_names_eq_some_iff {r : Registry σ} {n : Text} :
    r.names.head? = some n ↔ n ∈ r.names ∧ r.ahead n = [] := by
  rw [ahead]
  cases r.names with
  | nil => simp
  | cons m names => by_cases h : m = n <;> simp [h]

def Change.removes (n : Text) : Change σ → Bool
  | .remove name => name = n
  | _ => false

def Change.activates : Change σ → Bool
  | .activateBuiltins => true
  | _ => false

theorem mem_names_change {r : Registry σ} {c : Change σ} {n : Text} (hn : n ∈ r.names)
    (hc : c.removes n = false) : n ∈ (r.change c).names := by
  cases c with
  | add name f => exact mem_names_add.2 (.inr hn)
  | remove name =>
    have hne : n ≠ name := fun he => of_decide_eq_false hc he.symm
    exact mem_names_remove.2 ⟨hne, hn⟩
  | activateBuiltins => exact mem_names_activateBuiltins.2 (.inr hn)

theorem takeWhile_filter_ne {names : List Text} {m n : Text} (h : m ≠ n) :
    (names.filter (· ≠ m)).takeWhile (· ≠ n) = (names.takeWhile (· ≠ n)).filter (· ≠ m) := by
  induction names with
  | nil => rfl
  | cons k names ih =>
    rcases eq_or_ne k n with rfl | hkn
    · simp [h.symm]
    · rcases eq_or_ne k m with rfl | hkm
      · simpa [hkn] using ih
      · simpa [hkn, hkm] using ih

/-- Nothing gets ahead of a name in use but by activation. -/
theorem ahead_change {r : Registry σ} {c : Change σ} {n : Text} (hn : n ∈ r.names)
    (hactivates : c.activates = false) (hremoves : c.removes n = false) :
    (r.change c).ahead n = (r.ahead n).filter (!c.removes ·) := by
  cases c with
  | add name f =>
    have hnone : (r.ahead n).filter (!(Change.add name f).removes ·) = r.ahead n :=
      List.filter_eq_self.2 fun _ _ => rfl
    rw [hnone, change, ahead, ahead, names_add]
    split
    · rfl
    · obtain ⟨before, after, hnames, hbefore⟩ := List.eq_append_cons_of_mem hn
      have hpass : ∀ m ∈ before, decide (m ≠ n) = true :=
        fun m hm => decide_eq_true fun he => hbefore (he ▸ hm)
      rw [hnames, List.append_assoc, List.takeWhile_append_of_pos hpass,
        List.takeWhile_append_of_pos hpass, List.cons_append]
      simp
  | remove name =>
    have hne : name ≠ n := of_decide_eq_false hremoves
    rw [change, ahead, names_remove, takeWhile_filter_ne hne, ahead]
    refine List.filter_congr fun m _ => ?_
    simp [Change.removes, eq_comm]
  | activateBuiltins => exact Bool.noConfusion hactivates

theorem ahead_add_of_notMem {r : Registry σ} {n : Text} (hn : n ∉ r.names) (f : Function σ) :
    (r.add n f).ahead n = r.names := by
  have hpass : ∀ m ∈ r.names, decide (m ≠ n) = true :=
    fun m hm => decide_eq_true fun he => hn (he ▸ hm)
  rw [ahead, names_add, if_neg hn, List.takeWhile_append_of_pos hpass]
  simp

theorem ahead_foldl_change {r : Registry σ} {n : Text} (hn : n ∈ r.names)
    {changes : List (Change σ)}
    (h : ∀ c ∈ changes, c.activates = false ∧ c.removes n = false) :
    n ∈ (changes.foldl change r).names ∧
      (changes.foldl change r).ahead n = (r.ahead n).filter fun m => changes.all (!·.removes m) := by
  induction changes generalizing r with
  | nil => exact ⟨hn, (List.filter_eq_self.2 fun _ _ => rfl).symm⟩
  | cons c changes ih =>
    obtain ⟨⟨hactivates, hremoves⟩, hchanges⟩ := List.forall_mem_cons.1 h
    obtain ⟨hmem, hahead⟩ := ih (mem_names_change hn hremoves) hchanges
    refine ⟨hmem, ?_⟩
    rw [List.foldl_cons, hahead, ahead_change hn hactivates hremoves, List.filter_filter]
    exact List.filter_congr fun m _ => by rw [List.all_cons, Bool.and_comm]

/-! The place of `query` -/

theorem head?_names_activateBuiltins (r : Registry σ) :
    r.activateBuiltins.names.head? = some Builtin.query.name := by
  rw [names_activateBuiltins]
  rfl

theorem head?_names_change {r : Registry σ} (h : r.names.head? = some Builtin.query.name)
    {c : Change σ} (hremoves : c.removes Builtin.query.name = false) :
    (r.change c).names.head? = some Builtin.query.name := by
  cases hactivates : c.activates with
  | true =>
    cases c with
    | activateBuiltins => exact r.head?_names_activateBuiltins
    | _ => exact Bool.noConfusion hactivates
  | false =>
    obtain ⟨hmem, hahead⟩ := head?_names_eq_some_iff.1 h
    refine head?_names_eq_some_iff.2 ⟨mem_names_change hmem hremoves, ?_⟩
    rw [ahead_change hmem hactivates hremoves, hahead, List.filter_nil]

theorem head?_names_foldl_change {r : Registry σ} (h : r.names.head? = some Builtin.query.name)
    {changes : List (Change σ)} (hchanges : ∀ c ∈ changes, c.removes Builtin.query.name = false) :
    (changes.foldl change r).names.head? = some Builtin.query.name := by
  induction changes generalizing r with
  | nil => exact h
  | cons c changes ih =>
    obtain ⟨hc, hrest⟩ := List.forall_mem_cons.1 hchanges
    exact ih (head?_names_change h hc) hrest

/-- The first name in use is the first that the pattern tries, if it reads as a word. -/
theorem exists_ofNames?_of_head?_names {r : Registry σ} {n : Text} (h : r.names.head? = some n)
    (hident : Pattern.isIdent n = true) :
    ∃ p, Pattern.ofNames? r.patternNames = some p ∧ p.idents.head? = some n := by
  obtain ⟨rest, hnames⟩ := List.head?_eq_some_iff.1 h
  have hpattern : r.patternNames = n :: (rest ++ r.retired) := by
    rw [patternNames, hnames, List.cons_append]
  have hne : n ≠ [] := by
    rintro rfl
    exact Bool.noConfusion hident
  have hpasses : (!n.isEmpty && Pattern.isIdent n) = true := by simp [hne, hident]
  refine ⟨_, Pattern.ofNames?_eq_some_iff.2 ⟨⟨n, ?_, hne⟩, rfl⟩, ?_⟩
  · rw [hpattern]
    exact List.mem_cons_self ..
  · rw [hpattern]
    simp only [List.filter_cons, hpasses, if_true, List.head?_cons]

theorem foldl_change_ofChanges (changes changes' : List (Change σ)) :
    changes'.foldl change (ofChanges changes) = ofChanges (changes ++ changes') :=
  List.foldl_append.symm

/-- From its activation on the library's `query` leads, in the registry and in its pattern, until it
is removed. If it then comes back, it leads again once all names that were in use at its return have
been removed, and not before, unless the library is activated again. -/
theorem head?_names_ofChanges_iff (before after : List (Change σ)) :
    let query := Builtin.query.name
    let r := ofChanges (before ++ .activateBuiltins :: after)
    ((∀ c ∈ after, c.removes query = false) → r.names.head? = some query ∧
      ∃ p, Pattern.ofNames? r.patternNames = some p ∧ p.idents.head? = some query) ∧
    ∀ early f late, after = early ++ .add query f :: late →
      let r' := ofChanges (before ++ .activateBuiltins :: early)
      query ∉ r'.names → (∀ c ∈ late, c.activates = false ∧ c.removes query = false) →
      (r.names.head? = some query ↔ ∀ n ∈ r'.names, ∃ c ∈ late, c.removes n = true) := by
  intro query r
  have hactive : (ofChanges (before ++ [.activateBuiltins])).names.head? = some query := by
    rw [ofChanges_append_singleton]
    exact head?_names_activateBuiltins _
  constructor
  · intro hafter
    have hr : r = after.foldl change (ofChanges (before ++ [.activateBuiltins])) := by
      rw [foldl_change_ofChanges, List.append_assoc]
      rfl
    have hhead : r.names.head? = some query := by
      rw [hr]
      exact head?_names_foldl_change hactive hafter
    exact ⟨hhead, exists_ofNames?_of_head?_names hhead rfl⟩
  · rintro early f late rfl r' hnew hlate
    have hr : r = late.foldl change (r'.add query f) := by
      have hback : r'.add query f = ofChanges ((before ++ .activateBuiltins :: early) ++
          [.add query f]) := (ofChanges_append_singleton _ (.add query f)).symm
      rw [hback, foldl_change_ofChanges]
      simp [r]
    obtain ⟨hmem, hahead⟩ := ahead_foldl_change (mem_names_add.2 (.inl rfl)) hlate
    rw [head?_names_eq_some_iff, hr, hahead, ahead_add_of_notMem hnew, and_iff_right hmem,
      List.filter_eq_nil_iff]
    simp

/-- A `query` that was removed and is registered again stands last. -/
theorem not_forall_query_leads : ¬∀ changes : List (Change Unit),
    (∃ c ∈ changes, c.activates = true) → Builtin.query.name ∈ (ofChanges changes).names →
      (ofChanges changes).names.head? = some Builtin.query.name := by
  intro h
  let f : Function Unit := .raw fun _ args s => (args, s)
  have hhead := h [.activateBuiltins, .remove Builtin.query.name, .add Builtin.query.name f]
    ⟨_, List.mem_cons_self .., rfl⟩ (by decide)
  exact absurd hhead (by decide)

theorem returningSample_names :
    let query := Builtin.query.name
    let f : Function Unit := .raw fun _ args s => (args, s)
    let kept := ofChanges [.add "f".toList f, .activateBuiltins, .remove "math".toList, .add query f]
    let returned := ofChanges [.add "f".toList f, .activateBuiltins, .remove query, .add query f]
    kept.names.head? = some query ∧
      (∃ p, Pattern.ofNames? kept.patternNames = some p ∧ p.idents.head? = some query) ∧
      ¬returned.names.head? = some query := by
  intro query f kept returned
  have hkept := (head?_names_ofChanges_iff [.add "f".toList f]
    [.remove "math".toList, .add query f]).1 (by simp [Change.removes]; decide)
  have hreturned := (head?_names_ofChanges_iff [.add "f".toList f]
    [.remove query, .add query f]).2 [.remove query] f [] rfl (by decide) (by simp)
  refine ⟨hkept.1, hkept.2, fun hhead => ?_⟩
  obtain ⟨c, hc, _⟩ := hreturned.1 hhead "f".toList (by decide)
  exact List.not_mem_nil hc

end Registry
end StyleCalls
