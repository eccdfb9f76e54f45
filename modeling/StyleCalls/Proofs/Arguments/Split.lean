import StyleCalls.Proofs.Arguments.Cuts

/-! What a text is split into. The arguments stand in the text in their order, there is nothing but
commas and blanks around them, and each of them is an argument by itself. -/

namespace StyleCalls.Arguments
open Nesting Text

/-- The stretches without the blanks around them, as far as anything is left. -/
def kept (ps : List Text) : List Text := (ps.map trim).filter (!·.isEmpty)

theorem split_eq (d : Delimiters) (raw : Text) :
    split d raw = kept (d.stretches outside raw.trim) := rfl

theorem kept_cons_of_blank {p : Text} (h : p.Blank) (ps : List Text) :
    kept (p :: ps) = kept ps := by
  simp [kept, trim_eq_nil_iff.2 h]

theorem kept_cons_of_not_blank {p : Text} (h : ¬p.Blank) (ps : List Text) :
    kept (p :: ps) = p.trim :: kept ps := by
  have htrim : p.trim ≠ [] := fun heq => h (trim_eq_nil_iff.1 heq)
  simp [kept, htrim]

theorem kept_singleton {p : Text} (h : p.trim ≠ []) : kept [p] = [p.trim] :=
  kept_cons_of_not_blank (fun hblank => h (trim_eq_nil_iff.2 hblank)) []

theorem mem_kept {a : Text} {ps : List Text} :
    a ∈ kept ps ↔ a ≠ [] ∧ ∃ p ∈ ps, p.trim = a := by
  simp [kept, and_comm]

/-- The text holds the arguments in this order, one behind the other, and commas and blanks are all
there is around them. -/
inductive LaidOut : Text → List Text → Prop where
  | nil {gap} : (∀ c ∈ gap, isBreak c = true) → LaidOut gap []
  | cons {gap arg rest args} : (∀ c ∈ gap, isBreak c = true) → LaidOut rest args →
      LaidOut (gap ++ (arg ++ rest)) (arg :: args)

theorem isBreak_of_blank {t : Text} (h : t.Blank) : ∀ c ∈ t, isBreak c = true :=
  fun c hc => Bool.or_eq_true_iff.2 (.inr (h c hc))

theorem LaidOut.prepend {gap t : Text} {args : List Text} (hgap : ∀ c ∈ gap, isBreak c = true)
    (h : LaidOut t args) : LaidOut (gap ++ t) args := by
  cases h with
  | nil ht => exact .nil (List.forall_mem_append.2 ⟨hgap, ht⟩)
  | cons ht hrest =>
    rw [← List.append_assoc]
    exact .cons (List.forall_mem_append.2 ⟨hgap, ht⟩) hrest

theorem LaidOut.append {gap t : Text} {args : List Text} (h : LaidOut t args)
    (hgap : ∀ c ∈ gap, isBreak c = true) : LaidOut (t ++ gap) args := by
  induction h with
  | nil ht => exact .nil (List.forall_mem_append.2 ⟨ht, hgap⟩)
  | cons ht _ ih =>
    rw [List.append_assoc, List.append_assoc]
    exact .cons ht ih

/-- A stretch before what is held already comes in trimmed, or not at all if it is blank. -/
theorem LaidOut.stretch (p : Text) {rest : Text} {ps : List Text} (h : LaidOut rest (kept ps)) :
    LaidOut (p ++ rest) (kept (p :: ps)) := by
  by_cases hp : p.Blank
  · rw [kept_cons_of_blank hp]
    exact h.prepend (isBreak_of_blank hp)
  · obtain ⟨after, heq, hafter⟩ := p.exists_eq_append_trim
    rw [kept_cons_of_not_blank hp]
    conv_lhs => rw [heq]
    rw [List.append_assoc, List.append_assoc]
    exact .cons (isBreak_of_blank p.blank_takeWhile) (h.prepend (isBreak_of_blank hafter))

theorem laidOut_kept {d : Delimiters} {t : Text} {ps : List Text} (h : d.CutInto t ps) :
    LaidOut t (kept ps) := by
  induction h with
  | @whole t _ =>
    have hnone : LaidOut [] (kept []) := .nil (List.forall_mem_nil _)
    simpa using hnone.stretch t
  | @cut u c v ps _ _ hc _ ih =>
    have hbreak : ∀ e ∈ [c], isBreak e = true :=
      List.forall_mem_singleton.2 (Delimiters.isBreak_of_holds hc)
    exact (ih.prepend hbreak).stretch u

theorem laidOut_split (d : Delimiters) (raw : Text) : LaidOut raw (split d raw) := by
  obtain ⟨after, heq, hafter⟩ := raw.exists_eq_append_trim
  have hkept := (laidOut_kept (d.cutInto_stretches raw.trim)).append (isBreak_of_blank hafter)
  rw [split_eq]
  conv_lhs => rw [heq]
  exact hkept.prepend (isBreak_of_blank raw.blank_takeWhile)

theorem whole_trim {d : Delimiters} {t : Text} (h : d.Whole outside t) :
    d.Whole outside t.trim := by
  obtain ⟨after, heq, _⟩ := t.exists_eq_append_trim
  rw [heq, Delimiters.whole_append, t.blank_takeWhile.outside_run, Delimiters.whole_append] at h
  exact h.2.1

theorem whole_of_mem {d : Delimiters} {t p : Text} {ps : List Text} (h : d.CutInto t ps)
    (hp : p ∈ ps) : d.Whole outside p := by
  induction h with
  | whole h =>
    rw [List.mem_singleton] at hp
    exact hp ▸ h
  | cut hu _ _ _ ih =>
    rcases List.mem_cons.1 hp with rfl | hp
    · exact hu
    · exact ih hp

/-- An argument by itself. -/
structure Single (d : Delimiters) (a : Text) : Prop where
  ne_nil : a ≠ []
  trimmed : a.Trimmed
  whole : d.Whole outside a

variable {d : Delimiters} {a : Text}

theorem Single.split_eq (h : Single d a) : split d a = [a] := by
  have htrim := h.trimmed.trim_eq_self
  have hne : a.trim ≠ [] := by
    rw [htrim]
    exact h.ne_nil
  rw [Arguments.split_eq, htrim, h.whole.stretches_eq, kept_singleton hne, htrim]

theorem Single.not_blank (h : Single d a) : ¬a.Blank :=
  fun hblank => h.ne_nil (h.trimmed.trim_eq_self.symm.trans (trim_eq_nil_iff.2 hblank))

theorem single_of_mem_split {raw : Text} (h : a ∈ split d raw) : Single d a := by
  obtain ⟨hne, p, hp, rfl⟩ := mem_kept.1 h
  exact ⟨hne, p.trimmed_trim, whole_trim (whole_of_mem (d.cutInto_stretches raw.trim) hp)⟩

theorem trimmed_of_mem_split {raw : Text} (h : a ∈ split d raw) : a.Trimmed :=
  (single_of_mem_split h).trimmed

/-- Nothing is lost but commas and blanks, nothing is added, and splitting an argument again gives
the argument. -/
theorem split_keeps_text (d : Delimiters) (raw : Text) :
    LaidOut raw (split d raw) ∧
      ∀ a ∈ split d raw, a ≠ [] ∧ a.Trimmed ∧ split d a = [a] := by
  refine ⟨laidOut_split d raw, fun a ha => ?_⟩
  have hsingle := single_of_mem_split ha
  exact ⟨hsingle.ne_nil, hsingle.trimmed, hsingle.split_eq⟩

example : split .commasAndBlanks ") a\\ ,, (b c, 'd".toList =
    [")".toList, "a\\".toList, "(b c, 'd".toList] := by decide

end StyleCalls.Arguments
