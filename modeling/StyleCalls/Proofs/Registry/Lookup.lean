import Mathlib.Data.List.Forall2
import StyleCalls.Proofs.Pattern.Spelling
import StyleCalls.Proofs.Registry.History
import StyleCalls.Proofs.Unicode.Ascii

/-! Lookup of functions by name. Exact lookup goes by the functions alone, in whatever order they
are. Lookup that ignores case ignores that of the ASCII letters, where patterns fold the letters of
all scripts. -/

namespace StyleCalls
variable {σ : Type}

namespace Unicode

theorem fold_of_isAscii {c : Char} (h : c.isAscii = true) : fold c = c.toLower.toNat :=
  forall_isAscii (P := fun c => fold c = c.toLower.toNat) (by decide +kernel) h

/-- What lookup takes for the same letter is what folding takes for it, except beyond ASCII. -/
theorem toLower_eq_iff {a b : Char} : a.toLower = b.toLower ↔
    fold a = fold b ∧ (a = b ∨ a.isAscii = true ∧ b.isAscii = true) := by
  constructor
  · intro h
    have hascii : a.isAscii = b.isAscii := by rw [← isAscii_toLower a, h, isAscii_toLower]
    by_cases ha : a.isAscii = true
    · have hb : b.isAscii = true := hascii ▸ ha
      exact ⟨by rw [fold_of_isAscii ha, fold_of_isAscii hb, h], .inr ⟨ha, hb⟩⟩
    · have hb : ¬b.isAscii = true := hascii ▸ ha
      rw [toLower_of_not_isAscii ha, toLower_of_not_isAscii hb] at h
      exact ⟨congrArg fold h, .inl h⟩
  · rintro ⟨hfold, rfl | ⟨ha, hb⟩⟩
    · rfl
    · rw [fold_of_isAscii ha, fold_of_isAscii hb] at hfold
      exact Char.toNat_inj.1 hfold

/-- A character beyond ASCII that has other cases. -/
def FoldsBeyondAscii (c : Char) : Prop := c.isAscii = false ∧ ∃ d, d ≠ c ∧ sameFold c d = true

theorem not_foldsBeyondAscii_of_all {t : Text} (h : t.all Char.isAscii = true) :
    ∀ c ∈ t, ¬FoldsBeyondAscii c :=
  fun c hc hfolds => Bool.false_ne_true (hfolds.1.symm.trans (List.all_eq_true.1 h c hc))

theorem eq_or_isAscii_of_fold_eq {a b : Char} (h : fold a = fold b) (ha : ¬FoldsBeyondAscii a)
    (hb : ¬FoldsBeyondAscii b) : a = b ∨ a.isAscii = true ∧ b.isAscii = true := by
  by_cases hab : a = b
  · exact .inl hab
  · refine .inr ⟨?_, ?_⟩
    · by_contra hascii
      exact ha ⟨Bool.eq_false_iff.2 hascii, b, Ne.symm hab, decide_eq_true h⟩
    · by_contra hascii
      exact hb ⟨Bool.eq_false_iff.2 hascii, a, hab, decide_eq_true h.symm⟩

end Unicode

namespace Text

/-- Wherever the texts differ, both have an ASCII character. -/
def DifferInAscii (s t : Text) : Prop :=
  List.Forall₂ (fun a b => a = b ∨ a.isAscii = true ∧ b.isAscii = true) s t

theorem eqIgnoringAsciiCase_iff {s t : Text} :
    s.eqIgnoringAsciiCase t = true ↔ SameFold s t ∧ DifferInAscii s t := by
  rw [eqIgnoringAsciiCase, decide_eq_true_iff, asciiLower, asciiLower, SameFold, DifferInAscii]
  induction s generalizing t with
  | nil => cases t <;> simp
  | cons a s ih =>
    cases t with
    | nil => simp
    | cons b t =>
      simp only [List.map_cons, List.cons.injEq, List.forall₂_cons, ih, Unicode.toLower_eq_iff]
      exact and_and_and_comm

theorem SameFold.differInAscii {s t : Text} (h : SameFold s t)
    (hs : ∀ c ∈ s, ¬Unicode.FoldsBeyondAscii c) (ht : ∀ c ∈ t, ¬Unicode.FoldsBeyondAscii c) :
    DifferInAscii s t := by
  induction s generalizing t with
  | nil =>
    obtain rfl : t = [] := by simpa [SameFold] using h.symm
    exact .nil
  | cons a s ih =>
    cases t with
    | nil => simp [SameFold] at h
    | cons b t =>
      obtain ⟨hab, hst⟩ := sameFold_cons.1 h
      rw [List.forall_mem_cons] at hs ht
      exact .cons (Unicode.eq_or_isAscii_of_fold_eq (of_decide_eq_true hab) hs.1 ht.1)
        (ih hst hs.2 ht.2)

end Text

namespace Table
variable {κ α : Type} [DecidableEq κ]

theorem get?_eq_some_iff {t : Table κ α} {k : κ} {a : α} :
    t.get? k = some a ↔ (k, a) ∈ t.entries := by
  have hmem {b : α} (h : t.get? k = some b) : (k, b) ∈ t.entries := by
    obtain ⟨⟨k', b'⟩, hfind, rfl⟩ := Option.map_eq_some_iff.1 h
    obtain rfl : k' = k := by simpa using List.find?_some hfind
    exact List.mem_of_find?_eq_some hfind
  refine ⟨hmem, fun ha => ?_⟩
  cases hget : t.get? k with
  | none => exact absurd (List.mem_map_of_mem ha) (get?_eq_none_iff.1 hget)
  | some b =>
    have hpair := List.inj_on_of_nodup_map t.nodup_keys (hmem hget) ha rfl
    rw [(Prod.mk.inj hpair).2]

theorem get?_eq_of_perm {t t' : Table κ α} (h : t.entries.Perm t'.entries) (k : κ) :
    t.get? k = t'.get? k := by
  refine Option.ext fun a => ?_
  rw [get?_eq_some_iff, get?_eq_some_iff, h.mem_iff]

end Table

namespace Registry

theorem get?_add (r : Registry σ) (name n : Text) (f : Function σ) :
    (r.add name f).get? n = if n = name then some f else r.get? n := Table.get?_insert ..

theorem get?_remove (r : Registry σ) (name n : Text) :
    (r.remove name).get? n = if n = name then none else r.get? n := by
  by_cases h : name ∈ r.names
  · rw [remove_of_mem h]
    exact Table.get?_erase ..
  · rw [remove_of_notMem h]
    split
    · next hn => exact hn ▸ Table.get?_eq_none_iff.2 h
    · rfl

theorem exists_get?_of_mem_names {r : Registry σ} {n : Text} (h : n ∈ r.names) :
    ∃ f, r.get? n = some f := Option.isSome_iff_exists.1 (contains_iff_mem_names.2 h)

theorem resolve_exact (r : Registry σ) (name : Text) : r.resolve name false = r.get? name := by
  rw [resolve]
  cases r.get? name <;> rfl

theorem resolve_add_exact (r : Registry σ) (name n : Text) (f : Function σ) :
    (r.add name f).resolve n false = if n = name then some f else r.resolve n false := by
  simp only [resolve_exact, get?_add]

theorem resolve_remove_exact (r : Registry σ) (name n : Text) :
    (r.remove name).resolve n false = if n = name then none else r.resolve n false := by
  simp only [resolve_exact, get?_remove]

theorem mem_names_iff_of_get?_eq {r r' : Registry σ} (h : ∀ n, r.get? n = r'.get? n) (n : Text) :
    n ∈ r.names ↔ n ∈ r'.names := by
  rw [← not_iff_not, names, names, ← Table.get?_eq_none_iff, ← Table.get?_eq_none_iff]
  exact iff_of_eq (congrArg (· = none) (h n))

theorem isSome_resolve_true_iff {r : Registry σ} {name : Text} :
    (r.resolve name true).isSome = true ↔ ∃ n ∈ r.names, n.eqIgnoringAsciiCase name = true := by
  have hfind : ((r.entries.entries.find? fun e => e.1.eqIgnoringAsciiCase name).map
      Prod.snd).isSome = true ↔ ∃ n ∈ r.names, n.eqIgnoringAsciiCase name = true := by
    simp [names, Table.keys, List.find?_isSome]
  rw [resolve, if_pos rfl, Option.orElse_eq_orElse, Option.orElse_eq_or, Option.isSome_or,
    Bool.or_eq_true, hfind]
  refine or_iff_right_of_imp fun h => ⟨name, contains_iff_mem_names.1 h, ?_⟩
  simp [Text.eqIgnoringAsciiCase]

end Registry
end StyleCalls
