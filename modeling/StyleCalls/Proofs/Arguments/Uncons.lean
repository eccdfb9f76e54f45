import StyleCalls.Proofs.Arguments.Refinement

/-! The first argument by itself and all arguments together. To look for the first comma or blank
without regard to nesting is enough as long as nothing before it opens a group, a string or an
escape. -/

namespace StyleCalls

namespace Nesting

/-- The characters that hide delimiters behind them. A `)` is none of them. -/
def openers : Text := ['\\', '"', '\'', '(']

theorem outside_step_of_notMem_openers {c : Char} (h : c ∉ openers) : outside.step c = outside := by
  simp only [openers, List.mem_cons, List.not_mem_nil, or_false, not_or] at h
  obtain ⟨hescape, hdouble, hsingle, hopen⟩ := h
  simp [step, outside, hescape, hdouble, hsingle, hopen]

theorem outside_run_of_notMem_openers {t : Text} (h : ∀ c ∈ t, c ∉ openers) :
    outside.run t = outside := by
  induction t with
  | nil => rfl
  | cons c t ih =>
    obtain ⟨hc, ht⟩ := List.forall_mem_cons.1 h
    rw [run, List.foldl_cons, outside_step_of_notMem_openers hc]
    exact ih ht

end Nesting

namespace Arguments
open Nesting Text

/-- The text before the first comma or blank. -/
def firstPart (raw : Text) : Text := raw.takeWhile (!isBreak ·)

theorem not_isBreak_of_mem_firstPart {raw : Text} {c : Char} (h : c ∈ firstPart raw) :
    isBreak c = false := by simpa using List.mem_takeWhile_imp h

/-- What stands before the first comma or blank is an argument. -/
theorem single_firstPart {raw : Text} (hne : firstPart raw ≠ []) :
    Single .commasAndBlanks (firstPart raw) where
  ne_nil := hne
  trimmed := by
    have hblank {c : Char} (hc : c ∈ firstPart raw) : Unicode.isBlank c = false :=
      (Bool.or_eq_false_iff.1 (not_isBreak_of_mem_firstPart hc)).2
    exact ⟨fun c hc => hblank (List.mem_of_mem_head? hc),
      fun c hc => hblank (List.mem_of_getLast? hc)⟩
  whole := by
    intro u c v h
    have hmem : c ∈ firstPart raw := by
      rw [h]
      simp
    have hholds : Delimiters.commasAndBlanks.holds c = false := not_isBreak_of_mem_firstPart hmem
    rw [Delimiters.cuts, hholds, Bool.and_false]

/-! Commas and blanks before the other arguments -/

theorem split_cons_of_isBreak {c : Char} (hc : isBreak c = true) (t : Text) :
    split .commasAndBlanks (c :: t) = split .commasAndBlanks t := by
  have hcuts : Delimiters.commasAndBlanks.cuts outside c = true :=
    (Delimiters.commasAndBlanks.cuts_outside c).trans hc
  rw [split_eq_kept, Delimiters.stretches, if_pos hcuts,
    kept_cons_of_blank (List.forall_mem_nil _), ← split_eq_kept]

theorem split_trimStart (t : Text) :
    split .commasAndBlanks t.trimStart = split .commasAndBlanks t := by
  have hsame : (trimStart t).trim = t.trim := by
    conv_rhs => rw [← t.takeWhile_append_dropWhile (p := Unicode.isBlank),
      trim_append_of_blank t.blank_takeWhile]
    rfl
  rw [split_eq, split_eq, hsame]

/-- A comma in front goes the way of the blanks. -/
theorem split_after?_comma (t : Text) :
    split .commasAndBlanks ((after? [','] t).getD t) = split .commasAndBlanks t := by
  cases h : after? [','] t with
  | none => rfl
  | some rest =>
    rw [after?_eq_some_iff.1 h]
    exact (split_cons_of_isBreak (by decide) rest).symm

theorem uncons_of_dropWhile_eq_nil {raw : Text} (h : raw.dropWhile (!isBreak ·) = []) :
    uncons raw = (firstPart raw, none) := by
  simp only [uncons, h, firstPart]

theorem uncons_of_dropWhile_eq_cons {raw t : Text} {c : Char}
    (h : raw.dropWhile (!isBreak ·) = c :: t) : uncons raw = (firstPart raw,
      some (trimStart ((after? [','] (trimStart (c :: t))).getD (trimStart (c :: t))))) := by
  simp only [uncons, h, firstPart]

/-- Where nothing in front of the first comma or blank opens a group, a string or an escape, all
arguments are the first one and then those of the rest. -/
theorem split_eq_cons_of_uncons {raw : Text} (hne : firstPart raw ≠ [])
    (hopen : ∀ c ∈ firstPart raw, c ∉ openers) :
    match uncons raw with
    | (first, some rest) => split .commasAndBlanks raw = first :: split .commasAndBlanks rest
    | (first, none) => split .commasAndBlanks raw = [first] := by
  have hsingle := single_firstPart hne
  have hraw : firstPart raw ++ raw.dropWhile (!isBreak ·) = raw := List.takeWhile_append_dropWhile
  cases hrest : raw.dropWhile (!isBreak ·) with
  | nil =>
    rw [hrest, List.append_nil] at hraw
    have hsplit := hsingle.split_eq
    rw [uncons_of_dropWhile_eq_nil hrest]
    rwa [hraw] at hsplit ⊢
  | cons c t =>
    have hc : isBreak c = true := by
      have hnot := List.head?_dropWhile_not (!isBreak ·) raw
      rw [hrest] at hnot
      simpa using hnot
    rw [hrest] at hraw
    have hsplit := split_append_cons hsingle (outside_run_of_notMem_openers hopen) hc t
    rw [hraw] at hsplit
    rw [uncons_of_dropWhile_eq_cons hrest]
    dsimp only
    rw [split_trimStart, split_after?_comma, split_trimStart, split_cons_of_isBreak hc, hsplit]

/-- A parenthesis that closes nothing, several commas and blanks, and a group that stays open. -/
theorem looseSample_split :
    let raw := "a)-b ,\t, rgb(1, 2 'x".toList
    firstPart raw ≠ [] ∧ (∀ c ∈ firstPart raw, c ∉ openers) ∧
      uncons raw = ("a)-b".toList, some ", rgb(1, 2 'x".toList) ∧
      split .commasAndBlanks raw = ["a)-b".toList, "rgb(1, 2 'x".toList] := by
  intro raw
  have hne : firstPart raw ≠ [] := by decide
  have hfirst : firstPart raw = "a)-b".toList := by decide
  have hopen : ∀ c ∈ firstPart raw, c ∉ openers := by
    rw [hfirst]
    simp [openers]
  have huncons : uncons raw = ("a)-b".toList, some ", rgb(1, 2 'x".toList) := by decide
  have hsplit := split_eq_cons_of_uncons hne hopen
  rw [huncons] at hsplit
  refine ⟨hne, hopen, huncons, hsplit.trans ?_⟩
  decide

end Arguments
end StyleCalls
