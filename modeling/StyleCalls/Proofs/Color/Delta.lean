import StyleCalls.Arguments
import StyleCalls.Color.Delta
import StyleCalls.Proofs.Text.Trim
import StyleCalls.Proofs.Unicode.Ascii

/-! What is read as an offset. Blanks around a number do not count, nor does anything behind it that
cannot be a part of it. -/

namespace StyleCalls

namespace Text
variable {p : Char → Bool} {u : Text}

theorem takeWhile_append_of_head? (h : ∀ c ∈ u.head?, p c = false) (t : Text) :
    (t ++ u).takeWhile p = t.takeWhile p := by
  induction t with
  | nil =>
    cases u with
    | nil => rfl
    | cons c u => exact List.takeWhile_cons_of_neg (Bool.eq_false_iff.1 (h c rfl))
  | cons c t ih => rw [List.cons_append, List.takeWhile_cons, List.takeWhile_cons, ih]

theorem dropWhile_append_of_head? (h : ∀ c ∈ u.head?, p c = false) (t : Text) :
    (t ++ u).dropWhile p = t.dropWhile p ++ u := by
  induction t with
  | nil =>
    cases u with
    | nil => rfl
    | cons c u => exact List.dropWhile_cons_of_neg (Bool.eq_false_iff.1 (h c rfl))
  | cons c t ih =>
    rw [List.cons_append, List.dropWhile_cons, List.dropWhile_cons, ih]
    split <;> rfl

theorem trimStart_append {t : Text} (h : ¬t.Blank) (u : Text) :
    (t ++ u).trimStart = t.trimStart ++ u := by
  have hsome : (t.dropWhile Unicode.isBlank).isEmpty = false := by
    simpa using fun hall => h (List.dropWhile_eq_nil_iff.1 hall)
  rw [trimStart, List.dropWhile_append, hsome]
  rfl

theorem trimStart_ne_nil {t : Text} (h : ¬t.Blank) : t.trimStart ≠ [] :=
  fun hnil => h (List.dropWhile_eq_nil_iff.1 hnil)

theorem trimStart_append_of_blank {w : Text} (h : w.Blank) (t : Text) :
    (w ++ t).trimStart = t.trimStart := List.dropWhile_append_of_pos h

end Text

namespace Decimal
variable {t u : Text}

/-- A text that cannot go on with a number before it. -/
def StopsNumber (u : Text) : Prop := ∀ c ∈ u.head?, isDigit c = false ∧ c ≠ '.'

theorem readSign_append (ht : t ≠ []) (u : Text) :
    readSign (t ++ u) = ((readSign t).1, (readSign t).2 ++ u) := by
  cases t with
  | nil => exact absurd rfl ht
  | cons c t =>
    by_cases hplus : c = '+'
    · rw [hplus]
      rfl
    · by_cases hminus : c = '-'
      · rw [hminus]
        rfl
      · have hnone (w : Text) : readSign (c :: w) = (false, c :: w) := by
          simp [readSign, hplus, hminus]
        rw [List.cons_append, hnone, hnone]
        rfl

theorem readRun_append (hu : StopsNumber u) (t : Text) :
    readRun (t ++ u) = ((readRun t).1, (readRun t).2.1, (readRun t).2.2 ++ u) := by
  have hdigit : ∀ c ∈ u.head?, isDigit c = false := fun c hc => (hu c hc).1
  have htake (w : Text) : (w ++ u).takeWhile isDigit = w.takeWhile isDigit :=
    Text.takeWhile_append_of_head? hdigit w
  have hdrop (w : Text) : (w ++ u).dropWhile isDigit = w.dropWhile isDigit ++ u :=
    Text.dropWhile_append_of_head? hdigit w
  unfold readRun
  rw [htake, hdrop]
  cases hrest : t.dropWhile isDigit with
  | nil =>
    cases u with
    | nil => rfl
    | cons c u =>
      have hpoint : c ≠ '.' := (hu c rfl).2
      simp [hpoint]
  | cons c rest =>
    by_cases hpoint : c = '.'
    · subst hpoint
      simp [htake, hdrop]
    · simp [hpoint]

end Decimal

namespace Delta
open Decimal Text

/-- What comes behind a number and cannot go on with it makes no difference. -/
theorem parse_append {t u : Text} (ht : ¬t.Blank) (hu : StopsNumber u) :
    parse (t ++ u) = parse t := by
  have hstart : readRun ((readSign t.trimStart).2 ++ u) = _ := readRun_append hu _
  unfold parse
  rw [trimStart_append ht, readSign_append (trimStart_ne_nil ht)]
  dsimp only
  rw [hstart]

theorem parse_blank_append {w : Text} (h : w.Blank) (t : Text) : parse (w ++ t) = parse t := by
  unfold parse
  rw [trimStart_append_of_blank h]

theorem stopsNumber_of_isBreak {u : Text} (h : ∀ c ∈ u.head?, Arguments.isBreak c = true) :
    StopsNumber u := by
  intro c hc
  have hbreak := h c hc
  constructor
  · by_contra hdigit
    have hascii : c.isAscii = true := Unicode.isAscii_of_isAlphanum
      (Bool.or_eq_true_iff.2 (.inr (eq_true_of_ne_false hdigit)))
    have hnone := Unicode.forall_isAscii
      (P := fun c => Arguments.isBreak c = true → isDigit c = false) (by decide +kernel) hascii
    exact hdigit (hnone hbreak)
  · rintro rfl
    exact absurd hbreak (by decide)

theorem stopsNumber_of_blank {w : Text} (h : w.Blank) : StopsNumber w :=
  stopsNumber_of_isBreak fun c hc => Bool.or_eq_true_iff.2 (.inr (h c (List.mem_of_mem_head? hc)))

theorem parse_trim (t : Text) : parse t.trim = parse t := by
  obtain ⟨after, ht, hafter⟩ := t.exists_eq_append_trim
  conv_rhs => rw [ht, parse_blank_append t.blank_takeWhile]
  by_cases hblank : t.trim.Blank
  · have hnone : t.trim = [] := t.trimmed_trim.trim_eq_self.symm.trans (trim_eq_nil_iff.2 hblank)
    have hafter' := parse_blank_append hafter []
    rw [List.append_nil] at hafter'
    rw [hnone, List.nil_append, hafter']
  · exact (parse_append hblank (stopsNumber_of_blank hafter)).symm

theorem valueOf_zeros {t : Text} (h : ∀ c ∈ t, c = '0') : valueOf t = 0 := by
  induction t with
  | nil => rfl
  | cons c t ih =>
    obtain ⟨rfl, ht⟩ := List.forall_mem_cons.1 h
    exact ih ht

theorem toBinary_zero (exp : Int) : (toBinary ⟨false, 0, exp⟩ : Delta) = 0 := rfl

/-- Zeros and spaces are no offset. -/
theorem parse_zeros {t : Text} (h : ∀ c ∈ t, c = '0' ∨ c = ' ') : parse t = 0 := by
  have hstart : ∀ c ∈ t.trimStart, c = '0' ∨ c = ' ' :=
    fun c hc => h c ((List.dropWhile_suffix _).subset hc)
  unfold parse
  generalize t.trimStart = w at hstart
  have hsign : readSign w = (false, w) := by
    cases w with
    | nil => rfl
    | cons c w => rcases hstart c (List.mem_cons_self ..) with rfl | rfl <;> rfl
  have hrun : readRun w = (w.takeWhile isDigit, [], w.dropWhile isDigit) := by
    unfold readRun
    cases hrest : w.dropWhile isDigit with
    | nil => rfl
    | cons c rest =>
      have hc : c ∈ w := (List.dropWhile_suffix isDigit).subset (hrest ▸ List.mem_cons_self ..)
      rcases hstart c hc with rfl | rfl <;> rfl
  have hwhole : valueOf (w.takeWhile isDigit ++ []) = 0 := by
    rw [List.append_nil]
    refine valueOf_zeros fun c hc =>
      (hstart c ((List.takeWhile_prefix _).subset hc)).resolve_right ?_
    rintro rfl
    exact absurd (List.mem_takeWhile_imp hc) (by decide)
  rw [hsign]
  dsimp only
  rw [hrun]
  dsimp only
  rw [ofRun?, hwhole]
  split
  · next d hd =>
    obtain rfl := Option.some.inj (Option.ite_none_left_eq_some.1 hd).2
    exact toBinary_zero _
  · rfl

end Delta
end StyleCalls
