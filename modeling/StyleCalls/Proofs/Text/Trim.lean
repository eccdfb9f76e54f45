import Mathlib.Data.List.DropRight
import StyleCalls.Text.Basic

/-! Text without blanks around it. -/

namespace StyleCalls.Text

/-- Neither the first nor the last character is blank. -/
structure Trimmed (t : Text) : Prop where
  head : ∀ c ∈ t.head?, Unicode.isBlank c = false
  last : ∀ c ∈ t.getLast?, Unicode.isBlank c = false

theorem trim_eq (t : Text) :
    t.trim = (t.dropWhile Unicode.isBlank).rdropWhile Unicode.isBlank := rfl

theorem trimmed_trim (t : Text) : t.trim.Trimmed := by
  constructor
  · intro c hc
    obtain ⟨rest, hrest⟩ := List.rdropWhile_prefix Unicode.isBlank (t.dropWhile Unicode.isBlank)
    have hhead : (t.dropWhile Unicode.isBlank).head? = some c := by
      rw [← hrest, ← trim_eq, List.head?_append, Option.mem_def.1 hc, Option.some_or]
    have hnot := List.head?_dropWhile_not Unicode.isBlank t
    rwa [hhead] at hnot
  · intro c hc
    have hne : t.trim ≠ [] := List.ne_nil_of_mem (List.mem_of_getLast? hc)
    have hlast : t.trim.getLast hne = c :=
      Option.some.inj ((List.getLast?_eq_some_getLast hne).symm.trans hc)
    have hnot := List.rdropWhile_last_not Unicode.isBlank (t.dropWhile Unicode.isBlank) hne
    exact hlast ▸ Bool.eq_false_iff.2 hnot

theorem Trimmed.trim_eq_self {t : Text} (h : t.Trimmed) : t.trim = t := by
  have hstart : t.dropWhile Unicode.isBlank = t := by
    cases t with
    | nil => rfl
    | cons c t => exact List.dropWhile_cons_of_neg (Bool.eq_false_iff.1 (h.head c rfl))
  rw [trim_eq, hstart, List.rdropWhile_eq_self_iff]
  exact fun hne => Bool.eq_false_iff.1 (h.last _ (List.getLast?_eq_some_getLast hne))

/-! What trimming takes away -/

def Blank (t : Text) : Prop := ∀ c ∈ t, Unicode.isBlank c = true

theorem blank_takeWhile (t : Text) : Blank (t.takeWhile Unicode.isBlank) :=
  fun _ hc => List.mem_takeWhile_imp hc

theorem exists_eq_append_trim (t : Text) :
    ∃ after, t = t.takeWhile Unicode.isBlank ++ (t.trim ++ after) ∧ after.Blank := by
  refine ⟨(t.dropWhile Unicode.isBlank).rtakeWhile Unicode.isBlank, ?_,
    fun _ hc => List.mem_rtakeWhile_imp hc⟩
  rw [trim_eq, List.rdropWhile_append_rtakeWhile, List.takeWhile_append_dropWhile]

theorem trim_append_of_blank {w : Text} (h : w.Blank) (t : Text) : (w ++ t).trim = t.trim := by
  rw [trim_eq, trim_eq, List.dropWhile_append_of_pos h]

theorem trim_eq_nil_iff {t : Text} : t.trim = [] ↔ t.Blank := by
  constructor
  · intro h
    obtain ⟨after, ht, hafter⟩ := t.exists_eq_append_trim
    rw [h, List.nil_append] at ht
    rw [ht]
    exact List.forall_mem_append.2 ⟨t.blank_takeWhile, hafter⟩
  · intro h
    have htrim := trim_append_of_blank h []
    rwa [List.append_nil] at htrim

theorem trim_append_of_blank_right (t : Text) {w : Text} (h : w.Blank) : (t ++ w).trim = t.trim := by
  by_cases ht : t.Blank
  · rw [trim_eq_nil_iff.2 ht, trim_eq_nil_iff]
    exact List.forall_mem_append.2 ⟨ht, h⟩
  · have hdrop : (t.dropWhile Unicode.isBlank).isEmpty = false := by
      simpa using fun hall => ht (List.dropWhile_eq_nil_iff.1 hall)
    have hreverse : ∀ c ∈ w.reverse, Unicode.isBlank c = true :=
      fun c hc => h c (List.mem_reverse.1 hc)
    rw [trim_eq, trim_eq, List.dropWhile_append, hdrop, if_neg Bool.false_ne_true,
      List.rdropWhile, List.reverse_append, List.dropWhile_append_of_pos hreverse]
    rfl

/-- Trimming takes nothing that is not blank. -/
theorem filter_trim {p : Char → Bool} (h : ∀ c, Unicode.isBlank c = true → p c = false) (t : Text) :
    t.trim.filter p = t.filter p := by
  have hblank {w : Text} (hw : w.Blank) : w.filter p = [] :=
    List.filter_eq_nil_iff.2 fun c hc => Bool.eq_false_iff.1 (h c (hw c hc))
  obtain ⟨after, ht, hafter⟩ := t.exists_eq_append_trim
  conv_rhs => rw [ht]
  rw [List.filter_append, List.filter_append, hblank t.blank_takeWhile, hblank hafter,
    List.nil_append, List.append_nil]

theorem count_trim {c : Char} (hc : Unicode.isBlank c = false) (t : Text) :
    t.trim.count c = t.count c := by
  have hcount {w : Text} (hw : w.Blank) : w.count c = 0 :=
    List.count_eq_zero.2 fun hmem => Bool.eq_false_iff.1 hc (hw c hmem)
  obtain ⟨after, ht, hafter⟩ := t.exists_eq_append_trim
  conv_rhs => rw [ht]
  rw [List.count_append, List.count_append, hcount t.blank_takeWhile, hcount hafter]
  omega

end StyleCalls.Text
