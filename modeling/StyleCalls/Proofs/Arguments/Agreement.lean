import StyleCalls.Proofs.Arguments.Refinement
import StyleCalls.Proofs.Nesting.Group

/-! The arguments of a call against its parentheses. Inside parentheses that belong together the
scan for arguments stands one group further out than the scan for the end of the call, and differs
in nothing else. So the two agree on the commas between arguments. -/

namespace StyleCalls

namespace Nesting

/-- The same state with one more group around it. -/
def within (s : Nesting) : Nesting := { s with depth := s.depth + 1 }

end Nesting

namespace Arguments
open Nesting Text Delimiters

/-- The byte offsets of the commas at which a text is cut into arguments: they stand between the
stretches that splitting trims. -/
def cutOffsets (raw : Text) : List Nat :=
  Delimiters.seams (size (raw.takeWhile Unicode.isBlank))
    (Delimiters.commas.stretches .outside raw.trim)

/-- Cuts a text that begins at byte offset `start` at the given offsets. The character that stands
there goes to neither side. -/
def cutAt (start : Nat) : List Nat → Text → List Text
  | [], t => [t]
  | i :: offsets, t =>
    match t.splitAt? (i - start) with
    | some (p, _ :: rest) => p :: cutAt (i + 1) offsets rest
    | _ => [t]

theorem cutAt_seams {t : Text} {ps : List Text} (h : commas.CutInto t ps) (start : Nat) :
    cutAt start (seams start ps) t = ps := by
  induction h generalizing start with
  | whole => rfl
  | @cut u c v ps _ _ _ hv ih =>
    rw [seams_cons_of_ne_nil _ _ hv.ne_nil, cutAt, Nat.add_sub_cancel_left, splitAt?_size_append]
    exact congrArg (u :: ·) (ih _)

theorem seams_modifyHead (start : Nat) (w : Text) (ps : List Text) :
    seams start (ps.modifyHead (w ++ ·)) = seams (start + size w) ps := by
  match ps with
  | [] => rfl
  | [_] => rfl
  | p :: q :: ps => rw [List.modifyHead_cons, seams, seams, size_append, ← Nat.add_assoc]

theorem seams_append_blank {t w : Text} {ps : List Text} (h : commas.CutInto t ps)
    (hw : w.Blank) (start : Nat) :
    seams start (commas.stretches outside (t ++ w)) = seams start ps := by
  induction h generalizing start with
  | whole ht =>
    have hend := whole_append.2 ⟨ht, whole_commas_of_notMem hw.comma_notMem⟩
    rw [hend.stretches_eq]
    rfl
  | @cut u c v ps hu hrun hc hv ih =>
    rw [List.append_assoc, List.cons_append, hu.stretches_of_cut hrun hc,
      seams_cons_of_ne_nil _ _ (stretches_ne_nil _ _ _), seams_cons_of_ne_nil _ _ hv.ne_nil, ih]

/-- Blanks around a text are part of its outer stretches, and do not move the cuts. -/
theorem cutOffsets_eq (raw : Text) :
    cutOffsets raw = seams 0 (commas.stretches outside raw) := by
  obtain ⟨after, hraw, hafter⟩ := raw.exists_eq_append_trim
  have hbefore := raw.blank_takeWhile
  conv_rhs => rw [hraw]
  rw [stretches_append_of_whole (whole_commas_of_notMem hbefore.comma_notMem),
    hbefore.outside_run, seams_modifyHead, Nat.zero_add,
    seams_append_blank (commas.cutInto_stretches raw.trim) hafter]
  rfl

/-- The arguments are what lies between the cuts, trimmed, as far as anything is left of it. -/
theorem split_commas_eq_kept_cutAt (raw : Text) :
    split .commas raw = kept (cutAt 0 (cutOffsets raw) raw) := by
  rw [split_eq_kept, cutOffsets_eq, cutAt_seams (commas.cutInto_stretches raw)]

end Arguments
end StyleCalls
