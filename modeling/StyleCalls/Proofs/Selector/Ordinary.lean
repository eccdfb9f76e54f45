import StyleCalls.Proofs.Text.Trim
import StyleCalls.Proofs.Unicode.Ascii
import StyleCalls.Selector

/-! Characters that a selector in normal form has as they are, with no space for them before or after.
Text of such characters is its own normal form, and is the normal form of nothing else but itself with
blanks around it. -/

namespace StyleCalls.Selector

/-- Neither blank nor a combinator, a comma or an opening bracket. -/
def isOrdinary (c : Char) : Bool :=
  !Unicode.isBlank c && !Draft.isCombinator c && c ≠ ',' && !Draft.opens c

theorem isOrdinary_of_toLower {c : Char} (h : isOrdinary c.toLower = true) :
    isOrdinary c = true := by
  by_cases hc : c.isAscii = true
  · exact Unicode.forall_isAscii (P := fun c => isOrdinary c.toLower = true → isOrdinary c = true)
      (by decide +kernel) hc h
  · rwa [Unicode.toLower_of_not_isAscii hc] at h

theorem not_isBlank_of_isOrdinary {c : Char} (h : isOrdinary c = true) :
    Unicode.isBlank c = false := by
  simp only [isOrdinary, Bool.and_eq_true, Bool.not_eq_true'] at h
  exact h.1.1.1

namespace Draft

theorem push_of_isOrdinary {d : Draft} {c : Char} (hd : d.depth = 0) (h : isOrdinary c = true) :
    d.push c = ⟨c :: d.spaced, 0, false⟩ := by
  simp only [isOrdinary, Bool.and_eq_true, Bool.not_eq_true', decide_eq_true_eq] at h
  obtain ⟨⟨⟨hblank, hcombinator⟩, hcomma⟩, hopens⟩ := h
  simp [push, hd, hblank, hcombinator, hcomma, hopens]

theorem foldl_push_of_isOrdinary {t : Text} (h : ∀ c ∈ t, isOrdinary c = true) (w : Text) :
    t.foldl push ⟨w, 0, false⟩ = ⟨t.reverse ++ w, 0, false⟩ := by
  induction t generalizing w with
  | nil => rfl
  | cons c t ih =>
    rw [List.forall_mem_cons] at h
    rw [List.foldl_cons, push_of_isOrdinary rfl h.1, List.reverse_cons, List.append_assoc]
    exact ih h.2 (c :: w)

theorem dropSpaces_cons {c : Char} (h : Unicode.isBlank c = false) (w : Text) :
    dropSpaces (c :: w) = c :: w := by
  refine List.dropWhile_cons_of_neg ?_
  rw [decide_eq_true_iff]
  rintro rfl
  exact absurd h (by decide)

theorem dropSpaces_of_isOrdinary {t : Text} (h : ∀ c ∈ t, isOrdinary c = true) :
    dropSpaces t = t := by
  cases t with
  | nil => rfl
  | cons c t => exact dropSpaces_cons (not_isBlank_of_isOrdinary (h c (List.mem_cons_self ..))) t

theorem mem_dropSpaces_cons {w : Text} {a c : Char} (h : c ∈ dropSpaces w) :
    c ∈ dropSpaces (a :: w) := by
  rw [dropSpaces, List.dropWhile_cons]
  split
  · exact h
  · exact List.mem_cons_of_mem _ ((List.dropWhile_sublist _).mem h)

theorem mem_dropSpaces_dropSpaces {w : Text} {c : Char} (h : c ∈ dropSpaces w) :
    c ∈ dropSpaces (dropSpaces w) := by
  rwa [dropSpaces, dropSpaces, List.dropWhile_idempotent]

/-- No more is ever taken back than the spaces at the end. -/
theorem mem_dropSpaces_push_of_mem {d : Draft} {a : Char} (h : a ∈ dropSpaces d.written) (c : Char) :
    a ∈ dropSpaces (d.push c).written := by
  unfold push
  split
  · exact mem_dropSpaces_cons h
  · split
    · exact h
    · split
      · exact mem_dropSpaces_cons (mem_dropSpaces_cons
          (mem_dropSpaces_cons (mem_dropSpaces_dropSpaces h)))
      · split
        · exact mem_dropSpaces_cons (mem_dropSpaces_cons (mem_dropSpaces_dropSpaces h))
        · refine mem_dropSpaces_cons ?_
          unfold spaced
          split
          · exact mem_dropSpaces_cons h
          · exact h

/-- What is written so far, up to spaces at its end, is not all ordinary. -/
def Marked (d : Draft) : Prop := ∃ c ∈ dropSpaces d.written, isOrdinary c = false

theorem Marked.push {d : Draft} (h : d.Marked) (c : Char) : (d.push c).Marked := by
  obtain ⟨a, ha, hordinary⟩ := h
  exact ⟨a, mem_dropSpaces_push_of_mem ha c, hordinary⟩

theorem Marked.foldl_push {d : Draft} (h : d.Marked) (t : Text) : (t.foldl Draft.push d).Marked := by
  induction t generalizing d with
  | nil => exact h
  | cons c t ih => exact ih (h.push c)

theorem mem_dropSpaces_push {d : Draft} {c : Char} (hd : d.depth = 0)
    (hblank : Unicode.isBlank c = false) : c ∈ dropSpaces (d.push c).written := by
  have hself (w : Text) : c ∈ dropSpaces (c :: w) := by
    rw [dropSpaces_cons hblank]
    exact List.mem_cons_self ..
  rw [push, if_neg (by omega), if_neg (Bool.eq_false_iff.1 hblank)]
  split
  · exact mem_dropSpaces_cons (hself _)
  · split
    · next hcomma => exact hcomma ▸ mem_dropSpaces_cons (hself _)
    · exact hself _

theorem marked_push {d : Draft} {c : Char} (hd : d.depth = 0) (hblank : Unicode.isBlank c = false)
    (h : isOrdinary c = false) : (d.push c).Marked := ⟨c, mem_dropSpaces_push hd hblank, h⟩

theorem spaced_of_pendingBlank {w : Text} (hw : w ≠ []) (h : ∀ c ∈ w, isOrdinary c = true) :
    spaced ⟨w, 0, true⟩ = ' ' :: w := by
  obtain ⟨c, w, rfl⟩ := List.exists_cons_of_ne_nil hw
  have hc : c ≠ ' ' := by
    rintro rfl
    exact absurd (h ' ' (List.mem_cons_self ..)) (by decide)
  simp [spaced, hc]

/-- A blank that more text follows leaves a space. -/
theorem marked_foldl_push_of_pendingBlank {w t : Text} (hw : w ≠ [])
    (h : ∀ c ∈ w, isOrdinary c = true) (ht : ∃ c ∈ t, Unicode.isBlank c = false) :
    (t.foldl push ⟨w, 0, true⟩).Marked := by
  induction t with
  | nil => exact absurd ht (by simp)
  | cons c t ih =>
    rw [List.foldl_cons]
    by_cases hblank : Unicode.isBlank c = true
    · have hpush : push ⟨w, 0, true⟩ c = ⟨w, 0, true⟩ := by simp [push, hblank]
      rw [List.exists_mem_cons_iff] at ht
      rw [hpush]
      exact ih (ht.resolve_left (ne_false_of_eq_true hblank))
    · refine Marked.foldl_push ?_ t
      rw [Bool.not_eq_true] at hblank
      by_cases hc : isOrdinary c = true
      · rw [push_of_isOrdinary rfl hc, spaced_of_pendingBlank hw h]
        refine ⟨' ', ?_, by decide⟩
        rw [dropSpaces_cons hblank]
        exact List.mem_cons_of_mem _ (List.mem_cons_self ..)
      · exact marked_push rfl hblank (eq_false_of_ne_true hc)

/-- The first character that is not ordinary leaves a mark: itself, or a space if it is blank. -/
theorem isOrdinary_of_not_marked {t : Text} (h : t.Trimmed)
    (hmarked : ¬(t.foldl push ⟨[], 0, false⟩).Marked) : ∀ c ∈ t, isOrdinary c = true := by
  rw [← List.all_eq_true]
  by_contra hnot
  obtain ⟨c, hfind⟩ : ∃ c, t.find? (!isOrdinary ·) = some c := by
    rw [← Option.isSome_iff_exists, List.find?_isSome]
    simpa using hnot
  obtain ⟨hc, before, after, rfl, hbefore⟩ := List.find?_eq_some_iff_append.1 hfind
  simp only [Bool.not_eq_true', Bool.not_not] at hc hbefore
  rw [List.foldl_append, foldl_push_of_isOrdinary hbefore, List.foldl_cons] at hmarked
  by_cases hblank : Unicode.isBlank c = true
  · have hpush : push ⟨before.reverse ++ [], 0, false⟩ c = ⟨before.reverse ++ [], 0, true⟩ := by
      simp [push, hblank]
    rw [hpush] at hmarked
    refine hmarked (marked_foldl_push_of_pendingBlank ?_ ?_ ?_)
    · rintro hempty
      obtain rfl : before = [] := by simpa using hempty
      exact absurd hblank (Bool.eq_false_iff.1 (h.head c rfl))
    · simpa using hbefore
    · rcases List.eq_nil_or_concat after with rfl | ⟨init, a, rfl⟩
      · exact absurd hblank (Bool.eq_false_iff.1 (h.last c (by simp)))
      · rw [List.concat_eq_append, ← List.cons_append, ← List.append_assoc] at h
        exact ⟨a, by simp, h.last a (by rw [List.getLast?_concat]; rfl)⟩
  · exact hmarked (Marked.foldl_push (marked_push rfl (eq_false_of_ne_true hblank) hc) after)

end Draft

theorem normalize_of_isOrdinary {t : Text} (h : ∀ c ∈ t, isOrdinary c = true) :
    normalize t = t := by
  have htrimmed : t.Trimmed :=
    ⟨fun c hc => not_isBlank_of_isOrdinary (h c (List.mem_of_head? hc)),
      fun c hc => not_isBlank_of_isOrdinary (h c (List.mem_of_getLast? hc))⟩
  rw [normalize, htrimmed.trim_eq_self, Draft.foldl_push_of_isOrdinary h, List.append_nil,
    Draft.finish, Draft.dropSpaces_of_isOrdinary (by simpa using h), List.reverse_reverse]

theorem normalize_trim (t : Text) : normalize t.trim = normalize t := by
  rw [normalize, t.trimmed_trim.trim_eq_self, normalize]

/-- Only blanks around a text are lost on the way to a normal form that is all ordinary. -/
theorem normalize_eq_trim {t : Text} (h : ∀ c ∈ normalize t, isOrdinary c = true) :
    normalize t = t.trim := by
  have hmarked : ¬(t.trim.foldl Draft.push ⟨[], 0, false⟩).Marked := by
    rintro ⟨c, hc, hnot⟩
    exact ne_false_of_eq_true (h c (List.mem_reverse.2 hc)) hnot
  rw [← normalize_trim,
    normalize_of_isOrdinary (Draft.isOrdinary_of_not_marked t.trimmed_trim hmarked)]

end StyleCalls.Selector
