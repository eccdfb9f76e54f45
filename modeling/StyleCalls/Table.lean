/-! Tables that keep their entries in the order in which the keys first came in. -/

namespace StyleCalls

structure Table (κ α : Type) where
  entries : List (κ × α)
  nodup_keys : (entries.map Prod.fst).Nodup := by simp

namespace Table
variable {κ α β : Type}

instance : EmptyCollection (Table κ α) := ⟨{ entries := [] }⟩

instance : Inhabited (Table κ α) := ⟨∅⟩

def keys (t : Table κ α) : List κ := t.entries.map Prod.fst

def size (t : Table κ α) : Nat := t.entries.length

def isEmpty (t : Table κ α) : Bool := t.entries.isEmpty

/-- The entries whose key passes. -/
def filterKeys (keep : κ → Bool) (t : Table κ α) : Table κ α where
  entries := t.entries.filter fun e => keep e.1
  nodup_keys := t.nodup_keys.sublist (List.filter_sublist.map _)

/-- New values under the same keys. -/
def mapValues (f : κ → α → β) (t : Table κ α) : Table κ β where
  entries := t.entries.map fun e => (e.1, f e.1 e.2)
  nodup_keys := by simpa [List.map_map, Function.comp_def] using t.nodup_keys

theorem keys_mapValues (f : κ → α → β) (t : Table κ α) : (t.mapValues f).keys = t.keys := by
  simp [keys, mapValues, Function.comp_def]

variable [DecidableEq κ]

def get? (t : Table κ α) (k : κ) : Option α := (t.entries.find? (·.1 = k)).map Prod.snd

def contains (t : Table κ α) (k : κ) : Bool := (t.get? k).isSome

theorem contains_iff_mem_keys {t : Table κ α} {k : κ} : t.contains k = true ↔ k ∈ t.keys := by
  simp [contains, get?, keys, List.find?_isSome]

/-- Removes the entry; the others keep their order. -/
def erase (t : Table κ α) (k : κ) : Table κ α := t.filterKeys fun k' => !decide (k' = k)

/-- A new value under a present key keeps its place; a new key goes to the end. -/
def insert (t : Table κ α) (k : κ) (a : α) : Table κ α :=
  if h : t.contains k then t.mapValues fun k' b => if k' = k then a else b
  else
    { entries := t.entries ++ [(k, a)]
      nodup_keys := by
        rw [contains_iff_mem_keys, keys] at h
        rw [List.map_append, List.nodup_append]
        refine ⟨t.nodup_keys, by simp, fun a ha b hb => ?_⟩
        simp only [List.map_cons, List.map_nil, List.mem_singleton] at hb
        exact fun he => h (hb ▸ he ▸ ha) }

/-- Changes the value under a key that is present. -/
def modify (t : Table κ α) (k : κ) (f : α → α) : Table κ α :=
  t.mapValues fun k' a => if k' = k then f a else a

/-- Inserts one entry after the other. -/
def insertAll (t : Table κ α) (entries : List (κ × α)) : Table κ α :=
  entries.foldl (fun t e => t.insert e.1 e.2) t

theorem insertAll_append (t : Table κ α) (as bs : List (κ × α)) :
    t.insertAll (as ++ bs) = (t.insertAll as).insertAll bs := List.foldl_append

theorem keys_insert (t : Table κ α) (k : κ) (a : α) :
    (t.insert k a).keys = if t.contains k then t.keys else t.keys ++ [k] := by
  unfold insert
  split
  · exact keys_mapValues _ t
  · simp [keys]

theorem mem_keys_insert {t : Table κ α} {k k' : κ} {a : α} :
    k' ∈ (t.insert k a).keys ↔ k' = k ∨ k' ∈ t.keys := by
  rw [keys_insert]
  split
  · next h =>
    rw [contains_iff_mem_keys] at h
    exact ⟨.inr, fun hk => hk.elim (fun he => he ▸ h) id⟩
  · rw [List.mem_append, List.mem_singleton, or_comm]

theorem mem_keys_insertAll {t : Table κ α} {entries : List (κ × α)} {k : κ} :
    k ∈ (t.insertAll entries).keys ↔ k ∈ t.keys ∨ k ∈ entries.map Prod.fst := by
  induction entries generalizing t with
  | nil => simp [insertAll]
  | cons e entries ih =>
    rw [insertAll, List.foldl_cons, ← insertAll, ih, mem_keys_insert, List.map_cons,
      List.mem_cons, or_comm (a := k = e.1), or_assoc]

theorem keys_insertAll {entries : List (κ × α)} (h : (entries.map Prod.fst).Nodup) (t : Table κ α) :
    (t.insertAll entries).keys = t.keys ++ (entries.map Prod.fst).filter (· ∉ t.keys) := by
  induction entries generalizing t with
  | nil => simp [insertAll]
  | cons e entries ih =>
    rw [List.map_cons, List.nodup_cons] at h
    rw [insertAll, List.foldl_cons, ← insertAll, ih h.2, keys_insert, List.map_cons]
    by_cases hk : e.1 ∈ t.keys
    · rw [if_pos (contains_iff_mem_keys.2 hk)]
      simp [hk]
    · -- a key that comes in now does not come again
      have hrest : (entries.map Prod.fst).filter (· ∉ t.keys ++ [e.1]) =
          (entries.map Prod.fst).filter (· ∉ t.keys) := by
        refine List.filter_congr fun k hmem => ?_
        have hne : k ≠ e.1 := fun he => h.1 (he ▸ hmem)
        simp [hne]
      rw [if_neg (mt contains_iff_mem_keys.1 hk), hrest]
      simp [hk]

theorem keys_erase (t : Table κ α) (k : κ) : (t.erase k).keys = t.keys.filter (· ≠ k) := by
  simp [erase, keys, filterKeys, List.filter_map, Function.comp_def]

theorem get?_mapValues (f : κ → α → β) (t : Table κ α) (k : κ) :
    (t.mapValues f).get? k = (t.get? k).map (f k) := by
  rcases t with ⟨es, _⟩
  simp only [get?, mapValues]
  induction es with
  | nil => rfl
  | cons e es ih =>
    by_cases he : e.1 = k
    · simp [he]
    · simpa [he] using ih (by simp_all)

theorem get?_eq_none_iff {t : Table κ α} {k : κ} : t.get? k = none ↔ k ∉ t.keys := by
  rw [← contains_iff_mem_keys, contains, ← Option.isNone_iff_eq_none, ← Option.not_isSome]
  simp

theorem get?_insert (t : Table κ α) (k k' : κ) (a : α) :
    (t.insert k a).get? k' = if k' = k then some a else t.get? k' := by
  unfold insert
  split
  · next h =>
    obtain ⟨b, hb⟩ := Option.isSome_iff_exists.1 h
    rw [get?_mapValues]
    by_cases hk : k' = k
    · simp [hk, hb]
    · simp [hk]
  · next h =>
    rw [contains_iff_mem_keys, ← get?_eq_none_iff] at h
    have hn : t.entries.find? (·.1 = k) = none := Option.map_eq_none_iff.1 h
    by_cases hk : k' = k
    · simp [get?, hk, hn]
    · simp [get?, hk, Ne.symm hk]

/-- The last value under a key of a list. -/
def last? (entries : List (κ × α)) (k : κ) : Option α :=
  (entries.filter (·.1 = k)).getLast?.map Prod.snd

theorem last?_append (as bs : List (κ × α)) (k : κ) :
    last? (as ++ bs) k = (last? bs k).or (last? as k) := by
  rw [last?, List.filter_append, List.getLast?_append, Option.map_or]
  rfl

theorem last?_singleton (e : κ × α) (k : κ) :
    last? [e] k = if k = e.1 then some e.2 else none := by
  by_cases hk : e.1 = k
  · simp [last?, hk]
  · simp [last?, hk, Ne.symm hk]

theorem last?_cons (e : κ × α) (entries : List (κ × α)) (k : κ) :
    last? (e :: entries) k = (last? entries k).or (if k = e.1 then some e.2 else none) := by
  rw [← List.singleton_append, last?_append, last?_singleton]

theorem mem_of_last?_eq_some {entries : List (κ × α)} {k : κ} {a : α}
    (h : last? entries k = some a) : (k, a) ∈ entries := by
  obtain ⟨⟨k', a'⟩, hlast, rfl⟩ := Option.map_eq_some_iff.1 h
  obtain ⟨hmem, hk⟩ := List.mem_filter.1 (List.mem_of_getLast? hlast)
  exact of_decide_eq_true hk ▸ hmem

theorem last?_eq_none_iff {entries : List (κ × α)} {k : κ} :
    last? entries k = none ↔ ∀ a, (k, a) ∉ entries := by
  rw [last?, Option.map_eq_none_iff, List.getLast?_eq_none_iff, List.filter_eq_nil_iff]
  constructor
  · exact fun h a ha => h (k, a) ha (decide_eq_true rfl)
  · rintro h ⟨k', a⟩ he hk
    exact h a (of_decide_eq_true hk ▸ he)

theorem last?_append_cons_iff {before after : List (κ × α)} {k : κ} {a : α} (h : (k, a) ∉ after) :
    last? (before ++ (k, a) :: after) k = some a ↔ ∀ b, (k, b) ∉ after := by
  have hlast : last? (before ++ (k, a) :: after) k = (last? after k).or (some a) := by
    rw [List.append_cons, last?_append, last?_append, last?_singleton, if_pos rfl, Option.some_or]
  rw [hlast]
  constructor
  · intro hsome b hb
    cases hafter : last? after k with
    | none => exact last?_eq_none_iff.1 hafter b hb
    | some b' =>
      rw [hafter] at hsome
      exact h (Option.some.inj hsome ▸ mem_of_last?_eq_some hafter)
  · intro hnone
    rw [last?_eq_none_iff.2 hnone, Option.none_or]

theorem get?_insertAll (t : Table κ α) (entries : List (κ × α)) (k : κ) :
    (t.insertAll entries).get? k = (last? entries k).or (t.get? k) := by
  induction entries generalizing t with
  | nil => rfl
  | cons e entries ih =>
    rw [insertAll, List.foldl_cons, ← insertAll, ih, last?_cons, Option.or_assoc, get?_insert]
    split <;> rfl

theorem get?_filterKeys (keep : κ → Bool) (t : Table κ α) (k : κ) :
    (t.filterKeys keep).get? k = if keep k then t.get? k else none := by
  simp only [get?, filterKeys, List.find?_filter]
  by_cases hk : keep k
  · rw [if_pos hk]
    congr 2
    funext e
    by_cases he : e.1 = k <;> simp [he, hk]
  · rw [if_neg hk, Option.map_eq_none_iff, List.find?_eq_none]
    rintro e _ he
    obtain ⟨hkeep, rfl⟩ : keep e.1 = true ∧ e.1 = k := by simpa using he
    exact hk hkeep

theorem get?_erase (t : Table κ α) (k k' : κ) :
    (t.erase k).get? k' = if k' = k then none else t.get? k' := by
  rw [erase, get?_filterKeys]
  by_cases hk : k' = k <;> simp [hk]

end Table
end StyleCalls
