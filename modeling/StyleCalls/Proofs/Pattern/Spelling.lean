import StyleCalls.Pattern.Basic
import StyleCalls.Proofs.Text.Offset

/-! What a pattern recognises, said through texts that are equal up to case. Parentheses have no
case, so for names without them the text up to the next parenthesis decides. -/

namespace StyleCalls.Unicode

/-- A character stays what it is or is in one of the runs. -/
theorem foldFrom_cases (n : Nat) (runs : List (Nat × Nat × Nat × Nat)) :
    foldFrom n runs = n ∨ ∃ first last step target, (first, last, step, target) ∈ runs ∧
      first ≤ n ∧ n ≤ last ∧ (n - first) % step = 0 ∧ foldFrom n runs = target + (n - first) := by
  induction runs with
  | nil => exact .inl rfl
  | cons r runs ih =>
    obtain ⟨first, last, step, target⟩ := r
    rw [foldFrom]
    split
    · exact .inl rfl
    · next hlt =>
      split
      · next hrun =>
        simp only [Bool.and_eq_true, decide_eq_true_eq] at hrun
        exact .inr ⟨first, last, step, target, List.mem_cons_self .., Nat.le_of_not_lt hlt, hrun.1,
          hrun.2, rfl⟩
      · refine ih.imp_right ?_
        rintro ⟨first, last, step, target, hmem, h⟩
        exact ⟨first, last, step, target, List.mem_cons_of_mem _ hmem, h⟩

/-- Nothing folds to a character before the small letters but that character. -/
theorem fold_eq_toNat_of_lt {c : Char} (h : fold c < 0x61) : fold c = c.toNat := by
  have hruns : ∀ r ∈ foldRuns, 0x61 ≤ r.2.2.2 := by decide +kernel
  rcases foldFrom_cases c.toNat foldRuns with hc | ⟨first, last, step, target, hmem, _, _, _, hfold⟩
  · exact hc
  · have hle : 0x61 ≤ target := hruns _ hmem
    rw [fold, hfold] at h
    omega

theorem eq_of_fold_eq {a b : Char} (h : fold a = fold b) (hb : fold b < 0x61) : a = b := by
  have ha : fold a = a.toNat := fold_eq_toNat_of_lt (h ▸ hb)
  rw [fold_eq_toNat_of_lt hb, ha] at h
  exact Char.toNat_inj.1 h

end StyleCalls.Unicode

namespace StyleCalls.Text

/-- Equality up to simple case folding. -/
def SameFold (s t : Text) : Prop := s.map Unicode.fold = t.map Unicode.fold

instance (s t : Text) : Decidable (SameFold s t) := inferInstanceAs (Decidable (_ = _))

theorem append_paren_cases {v w r s : Text} (hv : '(' ∉ v) (h : v ++ '(' :: r = w ++ '(' :: s) :
    (w = v ∧ s = r) ∨ ∃ u, w = v ++ '(' :: u ∧ r = u ++ '(' :: s := by
  rcases List.append_eq_append_iff.1 h with ⟨u, rfl, hu⟩ | ⟨u, rfl, hu⟩
  · cases u with
    | nil =>
      rw [List.append_nil]
      exact .inl ⟨rfl, (List.cons.inj hu).2.symm⟩
    | cons c u =>
      obtain ⟨rfl, hr⟩ := List.cons.inj hu
      exact .inr ⟨u, rfl, hr⟩
  · cases u with
    | nil =>
      rw [List.append_nil]
      exact .inl ⟨rfl, (List.cons.inj hu).2⟩
    | cons c u =>
      obtain rfl : '(' = c := (List.cons.inj hu).1
      exact absurd (List.mem_append_right _ (List.mem_cons_self ..)) hv

/-- Up to its first parenthesis a text can be read in one way only. -/
theorem append_paren_inj {v w r s : Text} (hv : '(' ∉ v) (hw : '(' ∉ w) :
    v ++ '(' :: r = w ++ '(' :: s ↔ v = w ∧ r = s := by
  constructor
  · intro h
    rcases append_paren_cases hv h with ⟨rfl, rfl⟩ | ⟨u, rfl, _⟩
    · exact ⟨rfl, rfl⟩
    · exact absurd (List.mem_append_right _ (List.mem_cons_self ..)) hw
  · rintro ⟨rfl, rfl⟩
    rfl

theorem SameFold.refl (t : Text) : SameFold t t := rfl

theorem sameFold_cons {a b : Char} {s t : Text} :
    SameFold (a :: s) (b :: t) ↔ Unicode.sameFold a b = true ∧ SameFold s t := by
  simp [SameFold, Unicode.sameFold]

theorem SameFold.mem_iff {s t : Text} (h : SameFold s t) {c : Char} (hc : Unicode.fold c < 0x61) :
    c ∈ s ↔ c ∈ t := by
  have hmem (u : Text) : c ∈ u ↔ Unicode.fold c ∈ u.map Unicode.fold := by
    rw [List.mem_map]
    exact ⟨fun hu => ⟨c, hu, rfl⟩, fun ⟨d, hd, he⟩ => Unicode.eq_of_fold_eq he hc ▸ hd⟩
  rw [hmem s, hmem t, h]

/-- A character that folds with none of the one text is not in the other. -/
theorem SameFold.notMem {s t : Text} (h : SameFold s t) {c : Char}
    (hs : ∀ d ∈ s, Unicode.sameFold d c = false) : c ∉ t := by
  intro hc
  have hmem : Unicode.fold c ∈ s.map Unicode.fold := by
    rw [h]
    exact List.mem_map_of_mem hc
  obtain ⟨d, hd, hfold⟩ := List.mem_map.1 hmem
  have hne := hs d hd
  simp [Unicode.sameFold, hfold] at hne

end StyleCalls.Text

namespace StyleCalls.Pattern
open Text

theorem spelling?_eq_some_iff {n t w : Text} :
    spelling? n t = some w ↔ SameFold n w ∧ ∃ rest, t = w ++ '(' :: rest := by
  induction n generalizing t w with
  | nil =>
    constructor
    · intro h
      rw [spelling?.eq_def] at h
      split at h <;> simp_all [SameFold]
    · rintro ⟨hw, rest, rfl⟩
      obtain rfl : w = [] := by simpa [SameFold] using hw.symm
      rfl
  | cons a n ih =>
    constructor
    · intro h
      cases t with
      | nil => simp [spelling?] at h
      | cons c t =>
        rw [spelling?] at h
        split at h
        · next hac =>
          obtain ⟨v, hv, rfl⟩ := Option.map_eq_some_iff.1 h
          obtain ⟨hn, rest, rfl⟩ := ih.1 hv
          exact ⟨sameFold_cons.2 ⟨hac, hn⟩, rest, rfl⟩
        · simp at h
    · rintro ⟨hw, rest, rfl⟩
      cases w with
      | nil => simp [SameFold] at hw
      | cons c w =>
        obtain ⟨hac, hn⟩ := sameFold_cons.1 hw
        rw [List.cons_append, spelling?, if_pos hac, ih.2 ⟨hn, rest, rfl⟩]
        rfl

theorem firstSpelling?_eq_some {names : List Text} {t w : Text}
    (h : firstSpelling? names t = some w) :
    (∃ n ∈ names, SameFold n w) ∧ ∃ rest, t = w ++ '(' :: rest := by
  obtain ⟨n, hn, hw⟩ := List.exists_of_findSome?_eq_some h
  obtain ⟨hfold, hrest⟩ := spelling?_eq_some_iff.1 hw
  exact ⟨⟨n, hn, hfold⟩, hrest⟩

theorem exists_find?_of_firstSpelling? {names : List Text} {t w : Text}
    (h : firstSpelling? names t = some w) :
    ∃ n, names.find? (fun n => (spelling? n t).isSome) = some n ∧ spelling? n t = some w := by
  obtain ⟨left, n, right, hsplit, hn, hleft⟩ := List.findSome?_eq_some_iff.1 h
  refine ⟨n, ?_, hn⟩
  rw [List.find?_eq_some_iff_append]
  refine ⟨by rw [hn]; rfl, left, right, hsplit, fun k hk => ?_⟩
  rw [hleft k hk]
  rfl

theorem firstSpelling?_eq_none_iff {names : List Text} {t : Text} : firstSpelling? names t = none ↔
    ∀ n ∈ names, ∀ w rest, t = w ++ '(' :: rest → ¬SameFold n w := by
  rw [firstSpelling?, List.findSome?_eq_none_iff]
  refine forall_congr' fun n => forall_congr' fun _ => ?_
  rw [Option.eq_none_iff_forall_ne_some]
  constructor
  · intro h w rest ht hw
    exact h w (spelling?_eq_some_iff.2 ⟨hw, rest, ht⟩)
  · intro h w hw
    obtain ⟨hfold, rest, ht⟩ := spelling?_eq_some_iff.1 hw
    exact h w rest ht hfold

theorem spelling?_append_paren {n w : Text} (hw : '(' ∉ w) (hn : '(' ∉ n) (rest : Text) :
    spelling? n (w ++ '(' :: rest) = if SameFold n w then some w else none := by
  split
  · next h => exact spelling?_eq_some_iff.2 ⟨h, rest, rfl⟩
  · next h =>
    rw [Option.eq_none_iff_forall_ne_some]
    intro v hv
    obtain ⟨hfold, s, hs⟩ := spelling?_eq_some_iff.1 hv
    have hparen : '(' ∉ v := fun hm => hn ((hfold.mem_iff (by decide)).2 hm)
    obtain ⟨rfl, rfl⟩ := (append_paren_inj hw hparen).1 hs
    exact h hfold

theorem firstSpelling?_append_paren {names : List Text} {w : Text} (hw : '(' ∉ w)
    (hn : ∀ n ∈ names, '(' ∉ n) (rest : Text) : firstSpelling? names (w ++ '(' :: rest) =
      if ∃ n ∈ names, SameFold n w then some w else none := by
  have hparen {n v : Text} (hmem : n ∈ names) (hfold : SameFold n v) : '(' ∉ v :=
    fun hv => hn n hmem ((hfold.mem_iff (by decide)).2 hv)
  split
  · next h =>
    obtain ⟨n, hmem, hfold⟩ := h
    cases hfirst : firstSpelling? names (w ++ '(' :: rest) with
    | none => exact absurd hfold (firstSpelling?_eq_none_iff.1 hfirst n hmem w rest rfl)
    | some v =>
      obtain ⟨⟨k, hk, hkv⟩, s, hs⟩ := firstSpelling?_eq_some hfirst
      rw [((append_paren_inj hw (hparen hk hkv)).1 hs).1]
  · next h =>
    rw [firstSpelling?_eq_none_iff]
    intro n hmem v s hs hfold
    obtain ⟨rfl, rfl⟩ := (append_paren_inj hw (hparen hmem hfold)).1 hs
    exact h ⟨n, hmem, hfold⟩

theorem exists_firstSpelling?_append_paren {names : List Text} {v : Text} (hv : v ∈ names)
    (hparen : '(' ∉ v) (rest : Text) : ∃ w, firstSpelling? names (v ++ '(' :: rest) = some w ∧
      (w = v ∨ ∃ u r, w = v ++ '(' :: u ∧ rest = u ++ '(' :: r) := by
  cases h : firstSpelling? names (v ++ '(' :: rest) with
  | none => exact absurd (SameFold.refl v) (firstSpelling?_eq_none_iff.1 h v hv v rest rfl)
  | some w =>
    refine ⟨w, rfl, ?_⟩
    obtain ⟨_, s, hs⟩ := firstSpelling?_eq_some h
    rcases append_paren_cases hparen hs with ⟨hw, _⟩ | ⟨u, hw, hrest⟩
    · exact .inl hw
    · exact .inr ⟨u, s, hw, hrest⟩

theorem spelling?_append_cons {n : Text} {c : Char} (hc : c ≠ '(')
    (hn : ∀ d ∈ n, Unicode.sameFold d c = false) (t rest : Text) :
    spelling? n (t ++ c :: rest) = spelling? n t := by
  rw [Option.ext_iff]
  intro w
  rw [spelling?_eq_some_iff, spelling?_eq_some_iff]
  refine and_congr_right fun hfold => ?_
  have hw : c ∉ w := hfold.notMem hn
  constructor
  · rintro ⟨u, hu⟩
    -- a spelling that went on behind the character would contain it
    rcases List.append_eq_append_iff.1 hu with ⟨v, rfl, hv⟩ | ⟨v, rfl, hv⟩
    · cases v with
      | nil => exact absurd (List.cons.inj hv).1 hc
      | cons d v =>
        obtain rfl : c = d := (List.cons.inj hv).1
        exact absurd (List.mem_append_right _ (List.mem_cons_self ..)) hw
    · cases v with
      | nil => exact absurd (List.cons.inj hv).1.symm hc
      | cons d v =>
        obtain rfl : '(' = d := (List.cons.inj hv).1
        exact ⟨v, rfl⟩
  · rintro ⟨u, rfl⟩
    exact ⟨u ++ c :: rest, by simp⟩

end StyleCalls.Pattern
