import StyleCalls.Proofs.Arguments.Split

/-! Arguments cut again at their blanks. Blanks at the ends of a stretch make no argument and change
none, so it does not matter whether they are trimmed off before the stretch is cut or after. -/

namespace StyleCalls

namespace Delimiters
open Nesting

variable {d : Delimiters}

theorem outside_step_of_holds {c : Char} (h : d.holds c = true) : outside.step c = outside := by
  rcases Bool.or_eq_true_iff.1 (isBreak_of_holds h) with hcomma | hblank
  · rw [of_decide_eq_true hcomma]
    rfl
  · exact Text.Blank.outside_run (List.forall_mem_singleton.2 hblank)

theorem CutInto.stretches_append_cons {u : Text} {ps : List Text} (h : d.CutInto u ps)
    (hrun : outside.run u = outside) {c : Char} (hc : d.holds c = true) (v : Text) :
    d.stretches outside (u ++ c :: v) = ps ++ d.stretches outside v := by
  induction h with
  | whole h => exact h.stretches_of_cut hrun hc v
  | @cut u b w ps hu hrunu hb _ ih =>
    have hw : outside.run w = outside := by
      rw [run_append, hrunu, run, List.foldl_cons, outside_step_of_holds hb] at hrun
      exact hrun
    rw [List.append_assoc, List.cons_append, hu.stretches_of_cut hrunu hb, ih hw,
      List.cons_append]

/-- A text is cut at commas and blanks where what stands between its commas is cut at them. -/
theorem CutInto.stretches_commasAndBlanks {t : Text} {ps : List Text} (h : commas.CutInto t ps) :
    commasAndBlanks.stretches outside t = ps.flatMap (commasAndBlanks.stretches outside) := by
  induction h with
  | whole _ => exact (List.append_nil _).symm
  | @cut u c v ps _ hrun hc _ ih =>
    have hbreak : commasAndBlanks.holds c = true := isBreak_of_holds hc
    have hcut := commasAndBlanks.cutInto_stretches u
    rw [hcut.stretches_append_cons hrun hbreak, ih, List.flatMap_cons]

end Delimiters

namespace Arguments
open Delimiters Nesting Text

variable {d : Delimiters}

theorem kept_flatMap (f : Text → List Text) (ps : List Text) :
    kept (ps.flatMap f) = ps.flatMap fun p => kept (f p) := by
  simp [kept, List.map_flatMap, List.filter_flatMap]

theorem kept_cons_congr {p q : Text} {ps qs : List Text} (h : p.trim = q.trim)
    (hrest : kept ps = kept qs) : kept (p :: ps) = kept (q :: qs) := by
  unfold kept at hrest ⊢
  rw [List.map_cons, List.map_cons, List.filter_cons, List.filter_cons, h, hrest]

theorem kept_stretches_blank_append {w : Text} (h : w.Blank) (t : Text) :
    kept (d.stretches outside (w ++ t)) = kept (d.stretches outside t) := by
  induction w with
  | nil => rfl
  | cons c w ih =>
    obtain ⟨hc, hw⟩ := List.forall_mem_cons.1 h
    have hblank : Blank [c] := List.forall_mem_singleton.2 hc
    rw [← ih hw, List.cons_append]
    by_cases hcuts : d.cuts outside c = true
    · rw [stretches, if_pos hcuts, kept_cons_of_blank (List.forall_mem_nil _)]
    · have hstep : outside.step c = outside := hblank.outside_run
      rw [stretches_cons_of_not_cuts (Bool.eq_false_iff.2 hcuts), hstep]
      cases hrest : d.stretches outside (w ++ t) with
      | nil => exact absurd hrest (stretches_ne_nil d _ _)
      | cons p ps => exact kept_cons_congr (trim_append_of_blank hblank p) rfl

/-- A blank at the end is the end of the last stretch or comes after it. -/
theorem kept_stretches_append_singleton {c : Char} (hc : Unicode.isBlank c = true) {t : Text}
    {ps : List Text} (h : d.CutInto t ps) :
    kept (d.stretches outside (t ++ [c])) = kept ps := by
  induction h with
  | @whole t h =>
    have hblank : Blank [c] := List.forall_mem_singleton.2 hc
    rw [stretches_append_of_whole h, stretches]
    split
    · exact kept_cons_congr (congrArg trim (List.append_nil t)) rfl
    · exact kept_cons_congr (t.trim_append_of_blank_right hblank) rfl
  | cut hu hrun hb _ ih =>
    rw [List.append_assoc, List.cons_append, hu.stretches_of_cut hrun hb]
    exact kept_cons_congr rfl ih

theorem kept_stretches_append_blank (t : Text) {w : Text} (h : w.Blank) :
    kept (d.stretches outside (t ++ w)) = kept (d.stretches outside t) := by
  induction w generalizing t with
  | nil => rw [List.append_nil]
  | cons c w ih =>
    obtain ⟨hc, hw⟩ := List.forall_mem_cons.1 h
    rw [List.append_cons, ih _ hw, kept_stretches_append_singleton hc (d.cutInto_stretches t)]

/-- Trimming first makes no difference. -/
theorem split_eq_kept (d : Delimiters) (raw : Text) :
    split d raw = kept (d.stretches outside raw) := by
  obtain ⟨after, heq, hafter⟩ := raw.exists_eq_append_trim
  conv_rhs => rw [heq]
  rw [kept_stretches_blank_append raw.blank_takeWhile, kept_stretches_append_blank _ hafter,
    split_eq]

theorem split_append_cons {a : Text} (h : Single .commasAndBlanks a) (hrun : outside.run a = outside)
    {c : Char} (hc : isBreak c = true) (t : Text) :
    split .commasAndBlanks (a ++ c :: t) = a :: split .commasAndBlanks t := by
  rw [split_eq_kept, h.whole.stretches_of_cut hrun hc, kept_cons_of_not_blank h.not_blank,
    h.trimmed.trim_eq_self, ← split_eq_kept]

theorem flatMap_split_kept (d : Delimiters) (ps : List Text) :
    (kept ps).flatMap (split d) = ps.flatMap (split d) := by
  induction ps with
  | nil => rfl
  | cons p ps ih =>
    by_cases hp : p.Blank
    · have hnone : split d p = [] := by
        rw [split_eq, trim_eq_nil_iff.2 hp]
        rfl
      rw [kept_cons_of_blank hp, ih, List.flatMap_cons, hnone, List.nil_append]
    · have hsame : split d p.trim = split d p := by
        rw [split_eq, p.trimmed_trim.trim_eq_self, split_eq]
      rw [kept_cons_of_not_blank hp, List.flatMap_cons, List.flatMap_cons, ih, hsame]

/-- To split at commas and blanks is to split at commas, and then each argument at commas and
blanks. -/
theorem split_commasAndBlanks (raw : Text) :
    split .commasAndBlanks raw = (split .commas raw).flatMap (split .commasAndBlanks) := by
  have hcut := (commas.cutInto_stretches raw).stretches_commasAndBlanks
  rw [split_eq_kept, hcut, kept_flatMap, split_eq_kept .commas, flatMap_split_kept]
  exact congrArg (List.flatMap · _) (funext fun p => (split_eq_kept _ p).symm)

end Arguments
end StyleCalls
