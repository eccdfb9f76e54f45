import Mathlib.Algebra.Group.Nat.Even
import StyleCalls.Proofs.Arguments.Split

/-! Arguments written one behind the other again. An argument can end in a backslash, for a blank
that the backslash escaped is trimmed off; what is put behind such an argument is escaped in its
place. -/

namespace StyleCalls

namespace Nesting

theorem escaped_step (s : Nesting) (c : Char) :
    (s.step c).escaped = (!s.escaped && decide (c = '\\')) := by
  rcases s with ⟨depth, quote, escaped⟩
  cases escaped with
  | true => rfl
  | false =>
    by_cases hb : c = '\\'
    · simp [step, hb]
    · cases quote with
      | some q =>
        simp only [step, hb, Bool.false_eq_true, if_false]
        split <;> rfl
      | none =>
        simp only [step, hb, Bool.false_eq_true, if_false]
        split_ifs <;> rfl

/-- Of backslashes in a row each second one is escaped itself. -/
theorem escaped_run_eq_false_iff {s : Nesting} (h : s.escaped = false) (t : Text) :
    (s.run t).escaped = false ↔ Even (t.rtakeWhile (· = '\\')).length := by
  induction t using List.reverseRecOn with
  | nil => simp [run, h]
  | append_singleton t c ih =>
    have hrun : s.run (t ++ [c]) = (s.run t).step c := s.run_append t [c]
    rw [hrun, escaped_step]
    by_cases hb : c = '\\'
    · simp [hb, Nat.even_add_one, ← ih]
    · simp [hb]

theorem quoted_run {s : Nesting} (h : s.Quoted) (t : Text) : (s.run t).Quoted := by
  induction t generalizing s with
  | nil => exact h
  | cons c t ih => exact ih (quoted_step h c)

/-- Behind text without the blanks at its end the scan stands as behind the text, but perhaps in an
escape. -/
theorem exists_outside_run_trim {t : Text} (h : outside.run t = outside) :
    ∃ escaped, outside.run t.trim = ⟨0, none, escaped⟩ := by
  obtain ⟨after, heq, hafter⟩ := t.exists_eq_append_trim
  rw [heq, run_append, t.blank_takeWhile.outside_run, run_append] at h
  by_cases hnil : after = []
  · rw [hnil] at h
    exact ⟨false, h⟩
  · have hquoted : (outside.run t.trim).Quoted := quoted_run (quoted_of_unquoted rfl) _
    rw [run_of_plain hquoted hnil hafter.plain] at h
    refine ⟨(outside.run t.trim).escaped, ?_⟩
    rcases hrun : outside.run t.trim with ⟨depth, quote, escaped⟩
    rw [hrun] at h
    simpa [outside] using h

end Nesting

theorem Text.Trimmed.append {t u : Text} (ht : t.Trimmed) (hu : u.Trimmed) (hnet : t ≠ [])
    (hneu : u ≠ []) (gap : Text) : (t ++ (gap ++ u)).Trimmed where
  head := by
    rw [List.head?_append_of_ne_nil _ hnet]
    exact ht.head
  last := by
    rw [← List.append_assoc, List.getLast?_append_of_ne_nil _ hneu]
    exact hu.last

namespace Arguments
open Delimiters Nesting Text

/-- The arguments with a comma and a space between each two. -/
def joined (args : List Text) : Text := [',', ' '].intercalate args

theorem joined_singleton (a : Text) : joined [a] = a := List.intercalate_singleton

theorem joined_cons_cons (a b : Text) (args : List Text) :
    joined (a :: b :: args) = a ++ ([',', ' '] ++ joined (b :: args)) :=
  List.intercalate_cons_cons.trans (List.append_assoc ..)

theorem joined_ne_nil {a : Text} (h : a ≠ []) (args : List Text) : joined (a :: args) ≠ [] := by
  cases args with
  | nil => rwa [joined_singleton]
  | cons b args =>
    rw [joined_cons_cons]
    exact List.append_ne_nil_of_left_ne_nil h _

theorem joined_trimmed {d : Delimiters} {args : List Text} (h : ∀ a ∈ args, Single d a) :
    (joined args).Trimmed := by
  induction args with
  | nil => exact ⟨nofun, nofun⟩
  | cons a args ih =>
    obtain ⟨ha, hrest⟩ := List.forall_mem_cons.1 h
    cases args with
    | nil =>
      rw [joined_singleton]
      exact ha.trimmed
    | cons b args =>
      have hb := hrest b List.mem_cons_self
      rw [joined_cons_cons]
      exact ha.trimmed.append (ih hrest) ha.ne_nil (joined_ne_nil hb.ne_nil args) _

theorem exists_run_of_mem_dropLast_kept {d : Delimiters} {t a : Text} {ps : List Text}
    (h : d.CutInto t ps) (ha : a ∈ (kept ps).dropLast) :
    ∃ escaped, outside.run a = ⟨0, none, escaped⟩ := by
  induction h with
  | @whole t _ =>
    by_cases ht : t.Blank
    · rw [kept_cons_of_blank ht] at ha
      exact absurd ha List.not_mem_nil
    · rw [kept_cons_of_not_blank ht] at ha
      exact absurd ha List.not_mem_nil
  | @cut u c v ps _ hrun _ _ ih =>
    by_cases hu : u.Blank
    · rw [kept_cons_of_blank hu] at ha
      exact ih ha
    · rw [kept_cons_of_not_blank hu] at ha
      cases hps : kept ps with
      | nil =>
        rw [hps] at ha
        exact absurd ha List.not_mem_nil
      | cons p qs =>
        rw [hps, List.dropLast_cons_cons, ← hps] at ha
        rcases List.mem_cons.1 ha with rfl | ha
        · exact exists_outside_run_trim hrun
        · exact ih ha

/-- A comma behind an argument that ends in an escape is no delimiter: it stays in the argument. -/
theorem kept_stretches_ne_of_escaped {a rest : Text} {w : Text} (hw : w.Blank)
    (ha : commas.Whole outside a) {depth : Nat} (hrun : outside.run a = ⟨depth, none, true⟩)
    (args : List Text) :
    kept (commas.stretches outside (w ++ (a ++ ',' :: rest))) ≠ a :: args := by
  have hwhole : commas.Whole outside (w ++ (a ++ [','])) := by
    rw [whole_append, hw.outside_run, whole_append, hrun]
    exact ⟨whole_commas_of_notMem hw.comma_notMem, ha, whole_cons.2 ⟨rfl, whole_nil⟩⟩
  have htext : w ++ (a ++ ',' :: rest) = w ++ (a ++ [',']) ++ rest := by simp
  rw [htext, stretches_append_of_whole hwhole]
  cases hstretches : commas.stretches (outside.run (w ++ (a ++ [',']))) rest with
  | nil => exact absurd hstretches (stretches_ne_nil _ _ _)
  | cons p ps =>
    -- trimming takes no comma away, and this stretch has one more than the argument
    have hcount : (w ++ (a ++ [',']) ++ p).count ',' ≠ a.count ',' := by
      simp only [List.count_append, List.count_singleton_self]
      omega
    have hblank : ¬(w ++ (a ++ [',']) ++ p).Blank := fun h => h.comma_notMem (by simp)
    rw [List.modifyHead_cons, kept_cons_of_not_blank hblank]
    intro heq
    rw [← count_trim (by decide), (List.cons.inj heq).1] at hcount
    exact hcount rfl

theorem kept_stretches_joined_iff {args : List Text} {w : Text} (hw : w.Blank)
    (hargs : ∀ a ∈ args, Single .commas a)
    (hends : ∀ a ∈ args.dropLast, ∃ escaped, outside.run a = ⟨0, none, escaped⟩) :
    kept (commas.stretches outside (w ++ joined args)) = args ↔
      ∀ a ∈ args.dropLast, (outside.run a).escaped = false := by
  induction args generalizing w with
  | nil =>
    refine iff_of_true ?_ (List.forall_mem_nil _)
    rw [joined, List.intercalate_nil, List.append_nil,
      (whole_commas_of_notMem hw.comma_notMem).stretches_eq, kept_cons_of_blank hw]
    rfl
  | cons a args ih =>
    obtain ⟨ha, hrest⟩ := List.forall_mem_cons.1 hargs
    have hwhole : commas.Whole outside (w ++ a) := by
      rw [whole_append, hw.outside_run]
      exact ⟨whole_commas_of_notMem hw.comma_notMem, ha.whole⟩
    have htrim : (w ++ a).trim = a := by
      rw [trim_append_of_blank hw, ha.trimmed.trim_eq_self]
    have hblank : ¬(w ++ a).Blank := fun h => ha.ne_nil (htrim ▸ trim_eq_nil_iff.2 h)
    cases args with
    | nil =>
      refine iff_of_true ?_ (List.forall_mem_nil _)
      rw [joined_singleton, hwhole.stretches_eq, kept_cons_of_not_blank hblank, htrim]
      rfl
    | cons b args =>
      rw [List.dropLast_cons_cons, List.forall_mem_cons] at hends
      obtain ⟨⟨escaped, hrun⟩, hends⟩ := hends
      rw [joined_cons_cons, List.dropLast_cons_cons, List.forall_mem_cons, hrun]
      cases escaped with
      | true =>
        refine iff_of_false ?_ fun h => Bool.noConfusion h.1
        exact kept_stretches_ne_of_escaped hw ha.whole hrun _
      | false =>
        have hend : outside.run (w ++ a) = outside := by
          rw [run_append, hw.outside_run, hrun]
          rfl
        have hspace : Blank [' '] := List.forall_mem_singleton.2 (by decide)
        have hcut := hwhole.stretches_of_cut hend (c := ',') rfl ([' '] ++ joined (b :: args))
        have htext : w ++ (a ++ ([',', ' '] ++ joined (b :: args))) =
            w ++ a ++ ',' :: ([' '] ++ joined (b :: args)) := by simp
        rw [htext, hcut, kept_cons_of_not_blank hblank, htrim, List.cons.injEq,
          and_iff_right rfl, ih hspace hrest hends, and_iff_right rfl]

/-- Arguments joined by commas and spaces are split into the same arguments again if, and only if,
none but the last ends in an odd number of backslashes. -/
theorem split_joined_iff (raw : Text) :
    split .commas (joined (split .commas raw)) = split .commas raw ↔
      ∀ a ∈ (split .commas raw).dropLast, Even (a.rtakeWhile (· = '\\')).length := by
  have hsingle : ∀ a ∈ split .commas raw, Single .commas a := fun a ha => single_of_mem_split ha
  have hends : ∀ a ∈ (split .commas raw).dropLast, ∃ escaped, outside.run a = ⟨0, none, escaped⟩ :=
    fun a ha => exists_run_of_mem_dropLast_kept (cutInto_stretches ..) ha
  have hkept := kept_stretches_joined_iff (w := []) (List.forall_mem_nil _) hsingle hends
  rw [Arguments.split_eq, (joined_trimmed hsingle).trim_eq_self]
  refine hkept.trans (forall₂_congr fun a _ => ?_)
  exact escaped_run_eq_false_iff rfl a

/-- A blank that is escaped at the end of an argument leaves its backslash behind. -/
theorem not_forall_split_joined :
    ¬∀ raw, split .commas (joined (split .commas raw)) = split .commas raw := by
  intro h
  exact absurd (h "a\\ ,b".toList) (by decide)

end Arguments
end StyleCalls
