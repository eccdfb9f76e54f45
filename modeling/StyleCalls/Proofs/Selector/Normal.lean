import StyleCalls.Proofs.Selector.Ordinary

/-! Normal forms read again. What becomes of a draft depends only on the text it stands for, its
pending blank written, and reading that text leads to the same draft, also where the spaces at its
end have been taken back. So a normal form is its own normal form. From the selector it differs in
blanks alone. -/

namespace StyleCalls.Selector
namespace Draft

/-! What one character does -/

/-- A character that takes back the spaces before it and has its own. -/
def isMark (c : Char) : Bool := isCombinator c || c = ','

/-- The space before a mark, which a comma has not. -/
def gapBefore (c : Char) : Text := if c = ',' then [] else [' ']

theorem not_isBlank_of_isMark {c : Char} (h : isMark c = true) : Unicode.isBlank c = false := by
  simp only [isMark, isCombinator, Bool.or_eq_true, decide_eq_true_eq] at h
  rcases h with ((rfl | rfl) | rfl) | rfl <;> decide

theorem ne_space_of_not_isBlank {c : Char} (h : Unicode.isBlank c = false) : c ≠ ' ' := by
  rintro rfl
  exact absurd h (by decide)

/-- Inside brackets no blank is pending. -/
def Prompt (d : Draft) : Prop := 0 < d.depth → d.pendingBlank = false

theorem prompt_of_not_pendingBlank {d : Draft} (h : d.pendingBlank = false) : d.Prompt :=
  fun _ => h

theorem push_of_isBlank {d : Draft} {c : Char} (hd : d.depth = 0) (h : Unicode.isBlank c = true) :
    d.push c = ⟨d.written, 0, true⟩ := by
  simp [push, hd, h]

theorem push_of_isMark {d : Draft} {c : Char} (hd : d.depth = 0) (h : isMark c = true) :
    d.push c = ⟨' ' :: c :: (gapBefore c ++ dropSpaces d.written), 0, false⟩ := by
  have hblank := not_isBlank_of_isMark h
  by_cases hcomma : c = ','
  · subst hcomma
    simp [push, hd, hblank, gapBefore, isCombinator]
  · have hcombinator : isCombinator c = true := by simpa [isMark, hcomma] using h
    simp [push, hd, hblank, hcombinator, gapBefore, hcomma]

/-- Outside brackets a character is a blank or a mark; any other is written as it is. -/
theorem push_cases (n : Nat) (c : Char) :
    (n = 0 ∧ Unicode.isBlank c = true) ∨ (n = 0 ∧ isMark c = true) ∨
      ∃ m, (m = 0 → c ≠ ' ') ∧
        ∀ d : Draft, d.Prompt → d.depth = n → d.push c = ⟨c :: d.spaced, m, false⟩ := by
  rcases Nat.eq_zero_or_pos n with rfl | hpos
  · by_cases hblank : Unicode.isBlank c = true
    · exact .inl ⟨rfl, hblank⟩
    · by_cases hmark : isMark c = true
      · exact .inr (.inl ⟨rfl, hmark⟩)
      · rw [Bool.not_eq_true] at hblank
        obtain ⟨hcombinator, hcomma⟩ : isCombinator c = false ∧ c ≠ ',' := by
          simpa [isMark] using hmark
        refine .inr (.inr ⟨if opens c then 1 else 0, fun _ => ne_space_of_not_isBlank hblank, ?_⟩)
        intro d _ hd
        simp [push, hd, hblank, hcombinator, hcomma]
  · refine .inr (.inr ⟨if opens c then n + 1 else if closes c then n - 1 else n, ?_, ?_⟩)
    · rintro hzero rfl
      exact absurd hzero (Nat.ne_of_gt hpos)
    · rintro ⟨w, k, p⟩ hd rfl
      obtain rfl : p = false := hd hpos
      exact if_pos hpos

theorem Prompt.push {d : Draft} (h : d.Prompt) (c : Char) : (d.push c).Prompt := by
  rcases push_cases d.depth c with ⟨hd, hblank⟩ | ⟨hd, hmark⟩ | ⟨m, _, hpush⟩
  · rw [push_of_isBlank hd hblank]
    exact fun hpos => absurd hpos (Nat.lt_irrefl 0)
  · rw [push_of_isMark hd hmark]
    exact prompt_of_not_pendingBlank rfl
  · rw [hpush d h rfl]
    exact prompt_of_not_pendingBlank rfl

/-! What a draft stands for -/

/-- The pending blank, if there is one, is written. -/
def settled (d : Draft) : Draft := ⟨d.spaced, d.depth, false⟩

theorem dropSpaces_spaced (d : Draft) : dropSpaces d.spaced = dropSpaces d.written := by
  unfold spaced
  split <;> rfl

theorem Prompt.settled_eq {d : Draft} (h : d.Prompt) (hd : 0 < d.depth) : d.settled = d := by
  rcases d with ⟨w, n, p⟩
  obtain rfl : p = false := h hd
  rfl

theorem finish_settled (d : Draft) : d.settled.finish = d.finish :=
  congrArg List.reverse d.dropSpaces_spaced

theorem spaced_pendingBlank_spaced (d : Draft) (n : Nat) :
    spaced ⟨d.spaced, n, true⟩ = spaced ⟨d.written, n, true⟩ := by
  rcases d with ⟨w, m, p⟩
  cases p with
  | false => rfl
  | true =>
    rcases w with _ | ⟨c, w⟩
    · rfl
    · by_cases hc : c = ' ' <;> simp [spaced, hc]

theorem settled_push {d : Draft} (h : d.Prompt) (c : Char) :
    (d.settled.push c).settled = (d.push c).settled := by
  rcases push_cases d.depth c with ⟨hd, hblank⟩ | ⟨hd, hmark⟩ | ⟨m, _, hpush⟩
  · rw [push_of_isBlank hd hblank, push_of_isBlank (d := d.settled) hd hblank]
    exact congrArg (Draft.mk · 0 false) (d.spaced_pendingBlank_spaced 0)
  · have hdrop : dropSpaces d.settled.written = dropSpaces d.written := d.dropSpaces_spaced
    rw [push_of_isMark hd hmark, push_of_isMark (d := d.settled) hd hmark, hdrop]
  · rw [hpush d h rfl, hpush d.settled (prompt_of_not_pendingBlank rfl) rfl]
    rfl

/-! Reading what is written -/

def empty : Draft := ⟨[], 0, false⟩

/-- The draft of a text that is given last character first. -/
def reread (w : Text) : Draft := w.reverse.foldl push empty

theorem reread_cons (c : Char) (w : Text) : reread (c :: w) = (reread w).push c := by
  rw [reread, List.reverse_cons, List.foldl_append]
  rfl

theorem prompt_reread (w : Text) : (reread w).Prompt := by
  induction w with
  | nil => exact prompt_of_not_pendingBlank rfl
  | cons c w ih =>
    rw [reread_cons]
    exact ih.push c

/-- A draft that its own text leads back to, with or without the spaces at its end. -/
structure Rereads (d : Draft) : Prop where
  prompt : d.Prompt
  settled : (reread d.spaced).settled = d.settled
  trimmed : d.depth = 0 → (reread (dropSpaces d.written)).depth = 0 ∧
    dropSpaces (reread (dropSpaces d.written)).written = dropSpaces d.written

theorem rereads_empty : empty.Rereads := ⟨prompt_of_not_pendingBlank rfl, rfl, fun _ => ⟨rfl, rfl⟩⟩

namespace Rereads
variable {d : Draft} {c : Char}

theorem settled_reread_cons (h : d.Rereads) (c : Char) :
    (reread (c :: d.spaced)).settled = (d.push c).settled := by
  rw [reread_cons, ← settled_push (prompt_reread _), h.settled, settled_push h.prompt]

theorem push_blank (h : d.Rereads) (hd : d.depth = 0) (hblank : Unicode.isBlank c = true) :
    (d.push c).Rereads := by
  have hpush := push_of_isBlank hd hblank
  refine ⟨h.prompt.push c, ?_, fun _ => ?_⟩
  · rcases d with ⟨w, n, p⟩
    obtain rfl : n = 0 := hd
    cases p with
    | true =>
      rw [hpush]
      exact h.settled
    | false =>
      have hspace : (push ⟨w, 0, false⟩ ' ').settled = (push ⟨w, 0, false⟩ c).settled := by
        rw [hpush]
        rfl
      have hcons := (h.settled_reread_cons ' ').trans hspace
      have hwhole : (reread w).settled = ⟨w, 0, false⟩ := h.settled
      rcases w with _ | ⟨a, w⟩
      · rw [hpush]
        rfl
      · by_cases ha : a = ' '
        · rw [hpush]
          simpa [spaced, Draft.settled, ha] using hwhole
        · rw [hpush] at hcons ⊢
          simpa [spaced, ha] using hcons
  · rw [hpush]
    exact h.trimmed hd

theorem push_mark (h : d.Rereads) (hd : d.depth = 0) (hmark : isMark c = true) :
    (d.push c).Rereads := by
  obtain ⟨hdepth, hwritten⟩ := h.trimmed hd
  set w := dropSpaces d.written
  -- The space before the mark is read as a blank, which the mark takes back with the others.
  have hgap : (reread (gapBefore c ++ w)).depth = 0 ∧
      dropSpaces (reread (gapBefore c ++ w)).written = w := by
    unfold gapBefore
    split
    · exact ⟨hdepth, hwritten⟩
    · rw [List.cons_append, List.nil_append, reread_cons, push_of_isBlank hdepth (by decide)]
      exact ⟨rfl, hwritten⟩
  have hpush : d.push c = ⟨' ' :: c :: (gapBefore c ++ w), 0, false⟩ := push_of_isMark hd hmark
  have hread : reread (c :: (gapBefore c ++ w)) = ⟨' ' :: c :: (gapBefore c ++ w), 0, false⟩ := by
    rw [reread_cons, push_of_isMark hgap.1 hmark, hgap.2]
  have hdrop : dropSpaces (c :: (gapBefore c ++ w)) = c :: (gapBefore c ++ w) :=
    dropSpaces_cons (not_isBlank_of_isMark hmark) _
  rw [hpush]
  refine ⟨prompt_of_not_pendingBlank rfl, ?_, fun _ => ?_⟩
  · rw [spaced, if_neg (by simp), reread_cons, hread, push_of_isBlank rfl (by decide)]
    rfl
  · have htrim : dropSpaces (' ' :: c :: (gapBefore c ++ w)) = c :: (gapBefore c ++ w) := hdrop
    rw [htrim, hread]
    exact ⟨rfl, htrim⟩

theorem push_cons (h : d.Rereads) {m : Nat} (hpush : d.push c = ⟨c :: d.spaced, m, false⟩)
    (hc : m = 0 → c ≠ ' ') : (d.push c).Rereads := by
  have hread := h.settled_reread_cons c
  rw [hpush] at hread ⊢
  refine ⟨prompt_of_not_pendingBlank rfl, hread, fun hm => ?_⟩
  have hdrop : dropSpaces (c :: d.spaced) = c :: d.spaced :=
    List.dropWhile_cons_of_neg (by simpa using hc hm)
  have hdepth : (reread (c :: d.spaced)).settled.depth = m := congrArg depth hread
  have hwritten : dropSpaces (reread (c :: d.spaced)).settled.written = c :: d.spaced := by
    rw [hread]
    exact hdrop
  rw [hdrop, ← dropSpaces_spaced]
  exact ⟨hdepth.trans hm, hwritten⟩

theorem push (h : d.Rereads) (c : Char) : (d.push c).Rereads := by
  rcases push_cases d.depth c with ⟨hd, hblank⟩ | ⟨hd, hmark⟩ | ⟨m, hc, hpush⟩
  · exact h.push_blank hd hblank
  · exact h.push_mark hd hmark
  · exact h.push_cons (hpush d h.prompt rfl) hc

theorem foldl_push (h : d.Rereads) (t : Text) : (t.foldl Draft.push d).Rereads := by
  induction t generalizing d with
  | nil => exact h
  | cons c t ih => exact ih (h.push c)

end Rereads

/-! What is kept -/

/-- The text without its blanks. -/
def solid (t : Text) : Text := t.filter (!Unicode.isBlank ·)

theorem solid_append (t u : Text) : solid (t ++ u) = solid t ++ solid u := List.filter_append ..

theorem solid_cons (c : Char) (t : Text) : solid (c :: t) = solid [c] ++ solid t :=
  solid_append [c] t

theorem solid_of_isBlank {c : Char} (h : Unicode.isBlank c = true) : solid [c] = [] :=
  List.filter_cons_of_neg (by simp [h])

theorem solid_space_cons (w : Text) : solid (' ' :: w) = solid w := rfl

theorem solid_trim (t : Text) : solid t.trim = solid t :=
  Text.filter_trim (fun c hc => by simp [hc]) t

theorem solid_dropSpaces (w : Text) : solid (dropSpaces w) = solid w := by
  induction w with
  | nil => rfl
  | cons c w ih =>
    by_cases hc : c = ' '
    · subst hc
      exact ih
    · exact congrArg solid (List.dropWhile_cons_of_neg (by simpa using hc))

theorem solid_spaced (d : Draft) : solid d.spaced = solid d.written := by
  unfold spaced
  split <;> rfl

theorem solid_push {d : Draft} (h : d.Prompt) (c : Char) :
    solid (d.push c).written = solid (c :: d.written) := by
  rw [solid_cons]
  rcases push_cases d.depth c with ⟨hd, hblank⟩ | ⟨hd, hmark⟩ | ⟨m, _, hpush⟩
  · rw [push_of_isBlank hd hblank, solid_of_isBlank hblank]
    rfl
  · have hgap : solid (gapBefore c) = [] := by
      unfold gapBefore
      split <;> rfl
    rw [push_of_isMark hd hmark, solid_space_cons, solid_cons, solid_append, hgap,
      solid_dropSpaces]
    rfl
  · rw [hpush d h rfl, solid_cons, solid_spaced]

theorem solid_foldl_push {d : Draft} (h : d.Prompt) (t : Text) :
    solid (t.foldl push d).written = solid (t.reverse ++ d.written) := by
  induction t generalizing d with
  | nil => rfl
  | cons c t ih =>
    rw [List.foldl_cons, ih (h.push c), solid_append, solid_push h, List.reverse_cons,
      ← solid_append, List.append_assoc]
    rfl

/-! Reading a normal form -/

theorem settled_foldl_push {d e : Draft} (hd : d.Prompt) (he : e.Prompt)
    (h : d.settled = e.settled) (t : Text) :
    (t.foldl push d).settled = (t.foldl push e).settled := by
  induction t generalizing d e with
  | nil => exact h
  | cons c t ih => exact ih (hd.push c) (he.push c) (by rw [← settled_push hd, h, settled_push he])

theorem settled_foldl_push_of_blank {w : Text} (h : w.Blank) :
    (w.foldl push empty).settled = empty := by
  suffices ∀ p, (w.foldl push ⟨[], 0, p⟩).settled = empty from this false
  induction w with
  | nil => exact fun p => by cases p <;> rfl
  | cons c w ih =>
    intro p
    rw [List.foldl_cons, push_of_isBlank rfl (h c (List.mem_cons_self ..))]
    exact ih (fun e he => h e (List.mem_cons_of_mem c he)) true

/-- Blanks before the text make no difference. -/
theorem settled_foldl_push_append {w : Text} (h : w.Blank) (t : Text) :
    ((w ++ t).foldl push empty).settled = (t.foldl push empty).settled := by
  have hempty : empty.Prompt := prompt_of_not_pendingBlank rfl
  rw [List.foldl_append]
  refine settled_foldl_push ?_ hempty ?_ t
  · have hprompt := prompt_reread w.reverse
    rwa [reread, List.reverse_reverse] at hprompt
  · exact settled_foldl_push_of_blank h

/-- After a character that is not blank only spaces are taken back, and none inside brackets. -/
theorem dropSpaces_push {d : Draft} (h : d.Prompt) {c : Char} (hc : Unicode.isBlank c = false) :
    (∃ w, dropSpaces (d.push c).written = c :: w) ∧
      (0 < (d.push c).depth → dropSpaces (d.push c).written = (d.push c).written) := by
  rcases push_cases d.depth c with ⟨_, hblank⟩ | ⟨hd, hmark⟩ | ⟨m, _, hpush⟩
  · exact absurd hblank (Bool.eq_false_iff.1 hc)
  · rw [push_of_isMark hd hmark]
    exact ⟨⟨_, dropSpaces_cons hc _⟩, fun hpos => absurd hpos (Nat.lt_irrefl 0)⟩
  · rw [hpush d h rfl]
    exact ⟨⟨_, dropSpaces_cons hc _⟩, fun _ => dropSpaces_cons hc _⟩

theorem Rereads.finish_reread_push {d : Draft} (h : d.Rereads) {c : Char}
    (hc : Unicode.isBlank c = false) :
    (reread (dropSpaces (d.push c).written)).finish = (d.push c).finish := by
  have hpush := h.push c
  rcases Nat.eq_zero_or_pos (d.push c).depth with hzero | hpos
  · exact congrArg List.reverse (hpush.trimmed hzero).2
  · have hspaced : (d.push c).spaced = (d.push c).written :=
      congrArg written (hpush.prompt.settled_eq hpos)
    rw [(dropSpaces_push h.prompt hc).2 hpos, ← finish_settled, ← hspaced, hpush.settled,
      finish_settled]

end Draft
open Draft

theorem normalize_eq (t : Text) : normalize t = (t.trim.foldl push empty).finish := rfl

theorem solid_normalize (t : Text) : solid (normalize t) = solid t := by
  have hfold := solid_foldl_push (prompt_of_not_pendingBlank (d := empty) rfl) t.trim
  rw [empty, List.append_nil, ← empty] at hfold
  calc solid (normalize t) = (solid (t.trim.foldl push empty).written).reverse := by
        rw [normalize_eq, finish, solid, List.filter_reverse, ← solid, solid_dropSpaces]
    _ = solid t := by
        rw [hfold, solid, List.filter_reverse, List.reverse_reverse, ← solid, solid_trim]

/-- A text that ends in no blank is read as if it had no blanks before it either. -/
theorem normalize_of_getLast? {t : Text} (h : ∀ c ∈ t.getLast?, Unicode.isBlank c = false) :
    normalize t = (t.foldl push empty).finish := by
  obtain ⟨after, ht, hafter⟩ := t.exists_eq_append_trim
  have hnil : after = [] := by
    rcases List.eq_nil_or_concat after with hnil | ⟨init, c, rfl⟩
    · exact hnil
    · refine absurd (hafter c (by simp)) (Bool.eq_false_iff.1 (h c ?_))
      rw [ht, List.concat_eq_append, ← List.append_assoc, ← List.append_assoc,
        List.getLast?_concat]
      rfl
  rw [hnil, List.append_nil] at ht
  have hsettled := settled_foldl_push_append t.blank_takeWhile t.trim
  rw [← ht] at hsettled
  rw [normalize_eq, ← finish_settled, ← hsettled, finish_settled]

theorem normalize_normalize (t : Text) : normalize (normalize t) = normalize t := by
  rcases List.eq_nil_or_concat t.trim with hnil | ⟨init, c, ht⟩
  · have hempty : normalize t = [] := by
      rw [normalize_eq, hnil]
      rfl
    rw [hempty]
    rfl
  · have hc : Unicode.isBlank c = false := t.trimmed_trim.last c (by simp [ht])
    have hinit : (init.foldl push empty).Rereads := rereads_empty.foldl_push init
    obtain ⟨⟨w, hw⟩, _⟩ := dropSpaces_push hinit.prompt hc
    have hnormal : normalize t = ((init.foldl push empty).push c).finish := by
      rw [normalize_eq, ht, List.concat_eq_append, List.foldl_append]
      rfl
    have hlast : ∀ e ∈ (normalize t).getLast?, Unicode.isBlank e = false := by
      intro e he
      rw [hnormal, finish, hw, List.reverse_cons, List.getLast?_concat] at he
      exact Option.some.inj he ▸ hc
    rw [normalize_of_getLast? hlast, hnormal]
    exact hinit.finish_reread_push hc

/-- A normal form is its own normal form, and what is not blank stands in it as in the selector. -/
theorem normalize_settles (t : Text) : normalize (normalize t) = normalize t ∧
    (normalize t).filter (!Unicode.isBlank ·) = t.filter (!Unicode.isBlank ·) :=
  ⟨normalize_normalize t, solid_normalize t⟩

end StyleCalls.Selector
