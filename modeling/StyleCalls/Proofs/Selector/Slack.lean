import StyleCalls.Proofs.Selector.Normal

/-! Blanks that make no difference. Outside brackets they can be put in at either end of a selector,
next to other blanks and next to a mark. At any other place they come out as a space. -/

namespace StyleCalls.Selector
open Draft

/-- The number of open brackets behind a character. A bracket with nothing to close is passed
over. -/
def bracketed (depth : Nat) (c : Char) : Nat :=
  if opens c then depth + 1 else if closes c then depth - 1 else depth

def depthBehind (t : Text) : Nat := t.foldl bracketed 0

/-- One side of the place is empty, has blanks there already or, up to blanks, a mark. -/
def Slack (u v : Text) : Prop :=
  u = [] ∨ v = [] ∨ u.getLast?.any Unicode.isBlank = true ∨ v.head?.any Unicode.isBlank = true ∨
    (solid u).getLast?.any isMark = true ∨ (solid v).head?.any isMark = true

instance (u v : Text) : Decidable (Slack u v) := inferInstanceAs (Decidable (_ ∨ _))

/-- Neither blank nor a mark. -/
def isTight (c : Char) : Bool := !Unicode.isBlank c && !isMark c

theorem solid_of_not_isBlank {c : Char} (h : Unicode.isBlank c = false) : solid [c] = [c] :=
  List.filter_cons_of_pos (by simp [h])

theorem any_isTight_getLast?_iff {u : Text} : u.getLast?.any isTight = false ↔
    u = [] ∨ u.getLast?.any Unicode.isBlank = true ∨ (solid u).getLast?.any isMark = true := by
  rcases List.eq_nil_or_concat u with rfl | ⟨init, c, rfl⟩
  · exact iff_of_true rfl (.inl rfl)
  · rw [List.concat_eq_append, List.getLast?_concat]
    by_cases hblank : Unicode.isBlank c = true
    · simp [isTight, hblank]
    · rw [Bool.not_eq_true] at hblank
      rw [solid_append, solid_of_not_isBlank hblank, List.getLast?_concat]
      simp [isTight, hblank]

theorem any_isTight_head?_iff {v : Text} : v.head?.any isTight = false ↔
    v = [] ∨ v.head?.any Unicode.isBlank = true ∨ (solid v).head?.any isMark = true := by
  cases v with
  | nil => exact iff_of_true rfl (.inl rfl)
  | cons c v =>
    by_cases hblank : Unicode.isBlank c = true
    · simp [isTight, hblank]
    · rw [Bool.not_eq_true] at hblank
      rw [solid_cons, solid_of_not_isBlank hblank]
      simp [isTight, hblank]

theorem slack_iff {u v : Text} :
    Slack u v ↔ u.getLast?.any isTight = false ∨ v.head?.any isTight = false := by
  rw [any_isTight_getLast?_iff, any_isTight_head?_iff, Slack]
  tauto

namespace Draft

/-! Brackets -/

theorem bracketed_of_not_isTight {c : Char} (h : isTight c = false) (n : Nat) :
    bracketed n c = n := by
  have hc : opens c = false ∧ closes c = false := by
    simp only [opens, closes, Bool.or_eq_false_iff, decide_eq_false_iff_not]
    refine ⟨⟨?_, ?_⟩, ?_, ?_⟩ <;> rintro rfl <;> exact absurd h (by decide)
  simp [bracketed, hc.1, hc.2]

theorem depth_push (d : Draft) (c : Char) : (d.push c).depth = bracketed d.depth c := by
  rcases Nat.eq_zero_or_pos d.depth with hd | hd
  · by_cases hblank : Unicode.isBlank c = true
    · rw [push_of_isBlank hd hblank, bracketed_of_not_isTight (by simp [isTight, hblank]), hd]
    · by_cases hmark : isMark c = true
      · rw [push_of_isMark hd hmark, bracketed_of_not_isTight (by simp [isTight, hmark]), hd]
      · obtain ⟨hcombinator, hcomma⟩ : isCombinator c = false ∧ c ≠ ',' := by
          simpa [isMark] using hmark
        simp [push, bracketed, hd, hblank, hcombinator, hcomma]
  · simp [push, bracketed, hd]

theorem depth_foldl_push (d : Draft) (t : Text) :
    (t.foldl push d).depth = t.foldl bracketed d.depth := by
  induction t generalizing d with
  | nil => rfl
  | cons c t ih => rw [List.foldl_cons, ih, depth_push, List.foldl_cons]

theorem prompt_foldl_push (t : Text) : (t.foldl push empty).Prompt :=
  (rereads_empty.foldl_push t).prompt

/-! Where a pending blank is as good as none -/

theorem foldl_push_of_blank {d : Draft} (hd : d.depth = 0) {w : Text} (hw : w.Blank)
    (hne : w ≠ []) : w.foldl push d = ⟨d.written, 0, true⟩ := by
  obtain ⟨c, w, rfl⟩ := List.exists_cons_of_ne_nil hne
  obtain ⟨hc, hw⟩ := List.forall_mem_cons.1 hw
  have hrest (t : Text) (ht : t.Blank) :
      t.foldl push ⟨d.written, 0, true⟩ = ⟨d.written, 0, true⟩ := by
    induction t with
    | nil => rfl
    | cons e t ih =>
      obtain ⟨he, ht⟩ := List.forall_mem_cons.1 ht
      rw [List.foldl_cons, push_of_isBlank rfl he, ih ht]
  rw [List.foldl_cons, push_of_isBlank hd hc, hrest w hw]

theorem push_pendingBlank {d : Draft} (hd : d.depth = 0) {c : Char} (hc : isTight c = false) :
    push ⟨d.written, 0, true⟩ c = d.push c := by
  by_cases hblank : Unicode.isBlank c = true
  · rw [push_of_isBlank rfl hblank, push_of_isBlank hd hblank]
  · have hmark : isMark c = true := by simpa [isTight, hblank] using hc
    rw [push_of_isMark rfl hmark, push_of_isMark hd hmark]

theorem settled_pendingBlank {u : Text} (hu : u.getLast?.any isTight = false)
    (hd : (u.foldl push empty).depth = 0) :
    settled ⟨(u.foldl push empty).written, 0, true⟩ = (u.foldl push empty).settled := by
  rcases List.eq_nil_or_concat u with rfl | ⟨init, c, rfl⟩
  · rfl
  · rw [List.concat_eq_append] at hu hd ⊢
    rw [List.getLast?_concat] at hu
    have hc : isTight c = false := hu
    rw [List.foldl_append, List.foldl_cons, List.foldl_nil] at hd ⊢
    rw [depth_push, bracketed_of_not_isTight hc] at hd
    by_cases hblank : Unicode.isBlank c = true
    · rw [push_of_isBlank hd hblank]
    · have hmark : isMark c = true := by simpa [isTight, hblank] using hc
      rw [push_of_isMark hd hmark]
      rfl

/-! What stands behind a character that is no space is out of reach -/

theorem dropSpaces_append_cons {c : Char} (hc : c ≠ ' ') (q base : Text) :
    dropSpaces (q ++ c :: base) = dropSpaces q ++ c :: base := by
  have hstop {a : Char} (ha : a ≠ ' ') (t : Text) : dropSpaces (a :: t) = a :: t :=
    List.dropWhile_cons_of_neg (by simpa using ha)
  induction q with
  | nil => exact hstop hc base
  | cons a q ih =>
    by_cases ha : a = ' '
    · subst ha
      exact ih
    · rw [List.cons_append, hstop ha, hstop ha, List.cons_append]

theorem exists_spaced_eq {c : Char} (hc : c ≠ ' ') (q : Text) (n : Nat) (p : Bool) :
    ∃ q', ∀ base, spaced ⟨q ++ c :: base, n, p⟩ = q' ++ c :: base := by
  by_cases hspace : p = true ∧ q.head? ≠ some ' '
  · refine ⟨' ' :: q, fun base => ?_⟩
    have hhead : (q ++ c :: base).head? ≠ some ' ' := by
      cases q with
      | nil => exact fun heq => hc (Option.some.inj heq)
      | cons a q => exact hspace.2
    rw [spaced, if_pos (by simpa [hspace.1] using hhead), List.cons_append]
  · refine ⟨q, fun base => if_neg ?_⟩
    rcases q with _ | ⟨a, q⟩
    · simpa using fun hp => absurd hp (by simpa using hspace)
    · simpa using hspace

theorem exists_push_eq {c : Char} (hc : c ≠ ' ') (q : Text) (n : Nat) (p : Bool) (a : Char) :
    ∃ q' m p', ∀ base, push ⟨q ++ c :: base, n, p⟩ a = ⟨q' ++ c :: base, m, p'⟩ := by
  by_cases hpos : 0 < n
  · exact ⟨a :: q, bracketed n a, p, fun base => by rw [push, if_pos hpos]; rfl⟩
  · obtain rfl : n = 0 := Nat.eq_zero_of_not_pos hpos
    rcases push_cases 0 a with ⟨_, hblank⟩ | ⟨_, hmark⟩ | ⟨m, _, hpush⟩
    · exact ⟨q, 0, true, fun _ => push_of_isBlank rfl hblank⟩
    · refine ⟨' ' :: a :: (gapBefore a ++ dropSpaces q), 0, false, fun base => ?_⟩
      rw [push_of_isMark rfl hmark, dropSpaces_append_cons hc]
      simp
    · obtain ⟨q', hq'⟩ := exists_spaced_eq hc q 0 p
      refine ⟨a :: q', m, false, fun base => ?_⟩
      rw [hpush _ (fun hpos => absurd hpos (Nat.lt_irrefl 0)) rfl, hq', List.cons_append]

theorem exists_foldl_push_eq {c : Char} (hc : c ≠ ' ') (q : Text) (n : Nat) (p : Bool) (t : Text) :
    ∃ q' m p', ∀ base, t.foldl push ⟨q ++ c :: base, n, p⟩ = ⟨q' ++ c :: base, m, p'⟩ := by
  induction t generalizing q n p with
  | nil => exact ⟨q, n, p, fun _ => rfl⟩
  | cons a t ih =>
    obtain ⟨q', m, p', hpush⟩ := exists_push_eq hc q n p a
    obtain ⟨q'', m', p'', hfold⟩ := ih q' m p'
    refine ⟨q'', m', p'', fun base => ?_⟩
    rw [List.foldl_cons, hpush, hfold]

theorem finish_foldl_push_inj {c : Char} (hc : c ≠ ' ') {base base' : Text} {n : Nat} {p : Bool}
    {t : Text} (h : (t.foldl push ⟨c :: base, n, p⟩).finish =
      (t.foldl push ⟨c :: base', n, p⟩).finish) : base = base' := by
  obtain ⟨q, m, p', hfold⟩ := exists_foldl_push_eq hc [] n p t
  simp only [List.nil_append] at hfold
  rw [hfold, hfold] at h
  have hdrop : dropSpaces (q ++ c :: base) = dropSpaces (q ++ c :: base') :=
    List.reverse_injective h
  rw [dropSpaces_append_cons hc, dropSpaces_append_cons hc] at hdrop
  exact (List.cons.inj (List.append_cancel_left hdrop)).2

theorem push_of_isTight {d : Draft} (h : d.Prompt) {c : Char} (hc : isTight c = true) :
    d.push c = ⟨c :: d.spaced, (d.push c).depth, false⟩ := by
  simp only [isTight, Bool.and_eq_true, Bool.not_eq_true'] at hc
  rcases push_cases d.depth c with ⟨_, hblank⟩ | ⟨_, hmark⟩ | ⟨m, _, hpush⟩
  · exact absurd hblank (Bool.eq_false_iff.1 hc.1)
  · exact absurd hmark (Bool.eq_false_iff.1 hc.2)
  · rw [hpush d h rfl]

theorem ne_space_of_isTight {c : Char} (h : isTight c = true) : c ≠ ' ' := by
  rintro rfl
  exact absurd h (by decide)

/-- Between two tight characters a blank comes out as a space. -/
theorem finish_foldl_push_ne {d : Draft} (h : d.Prompt) {c e : Char} (hc : isTight c = true)
    (hd : (d.push c).depth = 0) (he : isTight e = true) (t : Text) :
    (t.foldl push (push ⟨(d.push c).written, 0, true⟩ e)).finish ≠
      (t.foldl push ((d.push c).push e)).finish := by
  have hprompt (p : Bool) : Prompt ⟨c :: d.spaced, 0, p⟩ :=
    fun hpos => absurd hpos (Nat.lt_irrefl 0)
  have hdepth (p : Bool) : (push ⟨c :: d.spaced, 0, p⟩ e).depth = bracketed 0 e := depth_push ..
  have hspaced : spaced ⟨c :: d.spaced, 0, true⟩ = ' ' :: c :: d.spaced :=
    if_pos (by simp [ne_space_of_isTight hc])
  -- the two drafts differ in a space under `e`, where no later character gets to
  rw [push_of_isTight h hc, hd, push_of_isTight (hprompt true) he,
    push_of_isTight (hprompt false) he, hdepth, hdepth, hspaced]
  intro heq
  have hlength := congrArg List.length (finish_foldl_push_inj (ne_space_of_isTight he) heq)
  simp [spaced] at hlength

/-- A blank pending between two parts of a text counts only where both characters next to it are
tight. -/
theorem finish_foldl_push_pendingBlank_iff {u : Text} (hd : (u.foldl push empty).depth = 0)
    (e : Char) (t : Text) :
    (t.foldl push (push ⟨(u.foldl push empty).written, 0, true⟩ e)).finish =
        (t.foldl push ((u.foldl push empty).push e)).finish ↔
      u.getLast?.any isTight = false ∨ isTight e = false := by
  by_cases he : isTight e = true
  · rw [or_iff_left (ne_false_of_eq_true he)]
    by_cases hu : u.getLast?.any isTight = true
    · refine iff_of_false ?_ (ne_false_of_eq_true hu)
      obtain ⟨init, c, rfl⟩ := (List.eq_nil_or_concat u).resolve_left (by rintro rfl; cases hu)
      rw [List.concat_eq_append, List.getLast?_concat] at hu
      rw [List.concat_eq_append, List.foldl_append] at hd ⊢
      exact finish_foldl_push_ne (prompt_foldl_push init) hu hd he t
    · rw [Bool.not_eq_true] at hu
      refine iff_of_true ?_ hu
      have hprompt : Prompt ⟨(u.foldl push empty).written, 0, true⟩ :=
        fun hpos => absurd hpos (Nat.lt_irrefl 0)
      have hsettled := settled_foldl_push hprompt (prompt_foldl_push u) (settled_pendingBlank hu hd)
        (e :: t)
      rw [List.foldl_cons, List.foldl_cons] at hsettled
      rw [← finish_settled, hsettled, finish_settled]
  · rw [Bool.not_eq_true] at he
    rw [push_pendingBlank hd he]
    exact iff_of_true rfl (.inr he)

end Draft

/-! Blanks inside a selector -/

theorem normalize_append_of_blank (t : Text) {w : Text} (h : w.Blank) :
    normalize (t ++ w) = normalize t := by
  rw [← normalize_trim, Text.trim_append_of_blank_right t h, normalize_trim]

/-- Up to the blanks at its end a selector is read as it stands. -/
theorem exists_normalize_append {v : Text} (h : ¬v.Blank) :
    ∃ (e : Char) (t : Text), v.head? = some e ∧
      ∀ u, normalize (u ++ v) = (t.foldl push ((u.foldl push empty).push e)).finish := by
  obtain ⟨after, hv, hafter⟩ := v.exists_eq_append_trim
  have htrim : v.trim ≠ [] := fun hnil => h (Text.trim_eq_nil_iff.1 hnil)
  obtain ⟨e, t, hcons⟩ := List.exists_cons_of_ne_nil
    (List.append_ne_nil_of_right_ne_nil (v.takeWhile Unicode.isBlank) htrim)
  rw [← List.append_assoc, hcons] at hv
  refine ⟨e, t, by rw [hv]; rfl, fun u => ?_⟩
  have hlast : ∀ c ∈ (u ++ e :: t).getLast?, Unicode.isBlank c = false := by
    rw [← hcons, ← List.append_assoc, List.getLast?_append_of_ne_nil _ htrim]
    exact v.trimmed_trim.last
  rw [hv, ← List.append_assoc, normalize_append_of_blank _ hafter, normalize_of_getLast? hlast,
    List.foldl_append, List.foldl_cons]

/-- Blanks put in outside brackets change the normal form exactly where they part two characters
neither of which is blank or a mark. -/
theorem normalize_append_blank_iff {u v w : Text} (hdepth : depthBehind u = 0) (hw : w.Blank) :
    normalize (u ++ w ++ v) = normalize (u ++ v) ↔ w = [] ∨ Slack u v := by
  by_cases hnil : w = []
  · simp [hnil]
  rw [or_iff_right hnil, slack_iff]
  by_cases hv : v.Blank
  · refine iff_of_true ?_ (.inr ?_)
    · rw [List.append_assoc, normalize_append_of_blank u (List.forall_mem_append.2 ⟨hw, hv⟩),
        normalize_append_of_blank u hv]
    · cases v with
      | nil => rfl
      | cons e v => simp [isTight, hv e List.mem_cons_self]
  · obtain ⟨e, t, hhead, hnormalize⟩ := exists_normalize_append hv
    have hd : (u.foldl push empty).depth = 0 := (depth_foldl_push empty u).trans hdepth
    rw [hnormalize, hnormalize, List.foldl_append, foldl_push_of_blank hd hw hnil, hhead,
      Option.any_some]
    exact finish_foldl_push_pendingBlank_iff hd e t

/-- Blanks between a bracketed combinator and a tag. -/
theorem looseSample_normalize :
    let u := "ul:not( > li) >".toList
    let v := "a[rel~=x]".toList
    normalize (u ++ "\t\u3000".toList ++ v) = normalize (u ++ v) ∧
      normalize (v ++ " ".toList ++ u) ≠ normalize (v ++ u) := by
  intro u v
  constructor
  · exact (normalize_append_blank_iff (by decide) (List.all_eq_true.1 (by decide))).2 (by decide)
  · exact fun h => absurd
      ((normalize_append_blank_iff (by decide) (List.all_eq_true.1 (by decide))).1 h) (by decide)

end StyleCalls.Selector
