import StyleCalls.Arguments
import StyleCalls.Proofs.Nesting.Close
import StyleCalls.Proofs.Text.Trim

/-! Where an argument list is cut. Every cut finds the scan as it was at the start, so each stretch
is read as if it stood alone. -/

namespace StyleCalls

namespace Text

theorem not_isBlank_of_mem_marks {c : Char} (h : c ∈ Nesting.marks) :
    Unicode.isBlank c = false := by
  have hmarks : Nesting.marks.any Unicode.isBlank = false := by decide
  exact Bool.eq_false_iff.2 (List.any_eq_false.1 hmarks c h)

theorem Blank.plain {t : Text} (h : Blank t) : Nesting.Plain t := by
  intro c hc hmark
  exact absurd (h c hc) (Bool.eq_false_iff.1 (not_isBlank_of_mem_marks hmark))

theorem Blank.outside_run {t : Text} (h : Blank t) : Nesting.outside.run t = .outside := by
  by_cases ht : t = []
  · rw [ht]
    rfl
  · exact Nesting.run_of_plain (Nesting.quoted_of_unquoted rfl) ht h.plain

theorem Blank.comma_notMem {t : Text} (h : t.Blank) : ',' ∉ t := by
  intro hmem
  exact absurd (h ',' hmem) (by decide)

end Text

namespace Delimiters
open Nesting

theorem eq_outside_of_cuts {d : Delimiters} {s : Nesting} {c : Char} (h : d.cuts s c = true) :
    s = outside := by
  rcases s with ⟨depth, quote, escaped⟩
  simp only [cuts, bare, Bool.and_eq_true, Bool.not_eq_true', Option.isNone_iff_eq_none,
    decide_eq_true_eq] at h
  obtain ⟨⟨⟨rfl, rfl⟩, rfl⟩, _⟩ := h
  rfl

theorem holds_of_cuts {d : Delimiters} {s : Nesting} {c : Char} (h : d.cuts s c = true) :
    d.holds c = true := (Bool.and_eq_true_iff.1 h).2

theorem cuts_outside (d : Delimiters) (c : Char) : d.cuts outside c = d.holds c := by
  simp [cuts, outside, bare]

theorem isBreak_of_holds {d : Delimiters} {c : Char} (h : d.holds c = true) :
    Arguments.isBreak c = true := by
  cases d with
  | commas => exact Bool.or_eq_true_iff.2 (.inl h)
  | commasAndBlanks => exact h

/-- Nowhere in the text an argument ends. -/
def Whole (d : Delimiters) (s : Nesting) (t : Text) : Prop :=
  ∀ u c v, t = u ++ c :: v → d.cuts (s.run u) c = false

variable {d : Delimiters} {s : Nesting}

theorem whole_nil : d.Whole s [] := by simp [Whole]

theorem whole_cons {c : Char} {t : Text} :
    d.Whole s (c :: t) ↔ d.cuts s c = false ∧ d.Whole (s.step c) t := by
  constructor
  · intro h
    exact ⟨h [] c t rfl, fun u e v ht => h (c :: u) e v (congrArg (c :: ·) ht)⟩
  · rintro ⟨hc, h⟩ u e v ht
    cases u with
    | nil =>
      obtain rfl := (List.cons.inj ht).1
      exact hc
    | cons b u =>
      obtain ⟨rfl, rfl⟩ := List.cons.inj ht
      exact h u e v rfl

theorem whole_append {t u : Text} : d.Whole s (t ++ u) ↔ d.Whole s t ∧ d.Whole (s.run t) u := by
  induction t generalizing s with
  | nil => exact ⟨fun h => ⟨whole_nil, h⟩, fun h => h.2⟩
  | cons c t ih => rw [List.cons_append, whole_cons, whole_cons, ih, and_assoc]; rfl

theorem whole_commas_of_notMem {t : Text} (h : ',' ∉ t) : commas.Whole s t := by
  intro u c v ht
  have hc : c ≠ ',' := fun heq => h (by simp [ht, heq])
  simp [cuts, holds, hc]

theorem stretches_ne_nil (d : Delimiters) (s : Nesting) (t : Text) : d.stretches s t ≠ [] := by
  cases t with
  | nil => exact List.cons_ne_nil _ _
  | cons c t =>
    rw [stretches]
    split
    · exact List.cons_ne_nil _ _
    · split <;> exact List.cons_ne_nil _ _

theorem stretches_cons_of_not_cuts {c : Char} (h : d.cuts s c = false) (t : Text) :
    d.stretches s (c :: t) = (d.stretches (s.step c) t).modifyHead (c :: ·) := by
  rw [stretches, if_neg (Bool.eq_false_iff.1 h)]
  cases hrest : d.stretches (s.step c) t with
  | nil => exact absurd hrest (stretches_ne_nil _ _ _)
  | cons p ps => rfl

theorem stretches_append_of_whole {u : Text} (h : d.Whole s u) (v : Text) :
    d.stretches s (u ++ v) = (d.stretches (s.run u) v).modifyHead (u ++ ·) := by
  induction u generalizing s with
  | nil => exact (congrFun List.modifyHead_id _).symm
  | cons c u ih =>
    obtain ⟨hc, hu⟩ := whole_cons.1 h
    rw [List.cons_append, stretches_cons_of_not_cuts hc, ih hu, List.modifyHead_modifyHead]
    rfl

theorem Whole.stretches_eq {t : Text} (h : d.Whole s t) : d.stretches s t = [t] := by
  have happend := stretches_append_of_whole h []
  simpa [stretches] using happend

/-- The text consists of the stretches and a delimiter between each two, and has no cut but
there. -/
inductive CutInto (d : Delimiters) : Text → List Text → Prop where
  | whole {t} : d.Whole outside t → CutInto d t [t]
  | cut {u c v ps} : d.Whole outside u → outside.run u = outside → d.holds c = true →
      CutInto d v ps → CutInto d (u ++ c :: v) (u :: ps)

theorem Whole.stretches_of_cut {u : Text} (h : d.Whole s u) (hrun : s.run u = outside) {c : Char}
    (hc : d.holds c = true) (v : Text) :
    d.stretches s (u ++ c :: v) = u :: d.stretches outside v := by
  rw [stretches_append_of_whole h, hrun, stretches, if_pos ((d.cuts_outside c).trans hc)]
  simp

theorem CutInto.stretches_eq {t : Text} {ps : List Text} (h : d.CutInto t ps) :
    d.stretches outside t = ps := by
  induction h with
  | whole h => exact h.stretches_eq
  | cut hu hrun hc _ ih => rw [hu.stretches_of_cut hrun hc, ih]

/-- Either the text is one stretch or it has a first cut. -/
theorem whole_or_exists_cut (d : Delimiters) (s : Nesting) (t : Text) :
    d.Whole s t ∨ ∃ u c v, t = u ++ c :: v ∧ d.Whole s u ∧ d.cuts (s.run u) c = true := by
  induction t generalizing s with
  | nil => exact .inl whole_nil
  | cons c t ih =>
    by_cases hc : d.cuts s c = true
    · exact .inr ⟨[], c, t, rfl, whole_nil, hc⟩
    · rw [Bool.not_eq_true] at hc
      rcases ih (s.step c) with ht | ⟨u, e, v, rfl, hu, he⟩
      · exact .inl (whole_cons.2 ⟨hc, ht⟩)
      · exact .inr ⟨c :: u, e, v, rfl, whole_cons.2 ⟨hc, hu⟩, he⟩

theorem cutInto_stretches (d : Delimiters) (t : Text) : d.CutInto t (d.stretches outside t) := by
  induction hn : t.length using Nat.strong_induction_on generalizing t with
  | _ n ih =>
    rcases d.whole_or_exists_cut outside t with h | ⟨u, c, v, rfl, hu, hc⟩
    · rw [h.stretches_eq]
      exact .whole h
    · have hlt : v.length < n := by
        rw [← hn, List.length_append, List.length_cons]
        omega
      have hcut := CutInto.cut hu (eq_outside_of_cuts hc) (holds_of_cuts hc) (ih _ hlt v rfl)
      rwa [hcut.stretches_eq]

/-- The byte offsets of the commas between stretches, the first of which begins at `start`. -/
def seams (start : Nat) : List Text → List Nat
  | p :: q :: ps => (start + Text.size p) :: seams (start + Text.size p + 1) (q :: ps)
  | _ => []

theorem CutInto.ne_nil {t : Text} {ps : List Text} (h : d.CutInto t ps) : ps ≠ [] := by
  cases h <;> exact List.cons_ne_nil _ _

theorem seams_cons_of_ne_nil (start : Nat) (p : Text) {ps : List Text} (h : ps ≠ []) :
    seams start (p :: ps) = (start + Text.size p) :: seams (start + Text.size p + 1) ps := by
  cases ps with
  | nil => exact absurd rfl h
  | cons q ps => rfl

end Delimiters
end StyleCalls
