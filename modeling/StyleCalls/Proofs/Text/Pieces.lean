import StyleCalls.Proofs.Text.Trim

/-! Pieces of a text. Everything about them follows from what a separator does to a text around
it. -/

namespace StyleCalls.Text
variable {separates : Char → Bool}

theorem splitAll_eq_splitOnP (separates : Char → Bool) (t : Text) :
    splitAll separates t = t.splitOnP separates := by
  induction t with
  | nil => exact List.splitOnP_nil.symm
  | cons c t ih =>
    rw [splitAll, List.splitOnP_cons_eq_if_modifyHead, ← ih]
    cases hrest : splitAll separates t with
    | nil => exact absurd (ih.symm.trans hrest) (List.splitOnP_ne_nil _ _)
    | cons p ps => rfl

theorem pieces_append_cons {c : Char} (h : separates c = true) (t u : Text) :
    pieces separates (t ++ c :: u) = pieces separates t ++ pieces separates u := by
  simp only [pieces, splitAll_eq_splitOnP, List.splitOnP_append_cons _ _ h, List.filter_append]

theorem pieces_cons {c : Char} (h : separates c = true) (t : Text) :
    pieces separates (c :: t) = pieces separates t := pieces_append_cons h [] t

theorem pieces_eq_singleton {t : Text} (hne : t ≠ []) (h : ∀ c ∈ t, separates c = false) :
    pieces separates t = [t] := by
  rw [pieces, splitAll_eq_splitOnP, List.splitOnP_eq_singleton h]
  simp [hne]

theorem not_separates_of_mem_pieces {t p : Text} (h : p ∈ pieces separates t) :
    ∀ c ∈ p, separates c = false := by
  induction hn : t.length using Nat.strong_induction_on generalizing t with
  | _ n ih =>
    by_cases hnone : ∀ c ∈ t, separates c = false
    · by_cases hne : t = []
      · rw [hne] at h
        exact absurd h List.not_mem_nil
      · rw [pieces_eq_singleton hne hnone, List.mem_singleton] at h
        exact h ▸ hnone
    · push Not at hnone
      obtain ⟨c, hmem, hc⟩ := hnone
      obtain ⟨u, v, rfl⟩ := List.append_of_mem hmem
      rw [pieces_append_cons (by simpa using hc), List.mem_append] at h
      rw [List.length_append, List.length_cons] at hn
      rcases h with h | h
      · exact ih u.length (by omega) h rfl
      · exact ih v.length (by omega) h rfl

theorem Blank.pieces_append {w : Text} (h : w.Blank) (t : Text) :
    pieces Unicode.isBlank (w ++ t) = pieces Unicode.isBlank t := by
  induction w with
  | nil => rfl
  | cons c w ih =>
    obtain ⟨hc, hw⟩ := List.forall_mem_cons.1 h
    rw [List.cons_append, pieces_cons hc, ih hw]

theorem pieces_trim (t : Text) : pieces Unicode.isBlank t.trim = pieces Unicode.isBlank t := by
  obtain ⟨after, ht, hafter⟩ := t.exists_eq_append_trim
  conv_rhs => rw [ht, t.blank_takeWhile.pieces_append]
  cases after with
  | nil => rw [List.append_nil]
  | cons c after =>
    obtain ⟨hc, hafter⟩ := List.forall_mem_cons.1 hafter
    have hnone : pieces Unicode.isBlank after = [] := by
      have happend := Blank.pieces_append hafter []
      rwa [List.append_nil] at happend
    rw [pieces_append_cons hc, hnone, List.append_nil]

end StyleCalls.Text
