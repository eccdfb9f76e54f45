import Mathlib.Data.List.TakeWhile
import StyleCalls.Proofs.Math.Number
import StyleCalls.Proofs.Unicode.Ascii

/-! The unit of a result. Where the first number that has a unit is looked for with its sign, point
and leading digits, only its last run of digits decides: the unit found is that of the first run of
digits that stands apart from the word before it and has a unit directly behind it. -/

namespace StyleCalls

namespace Text

/-- A stretch ends where the next character does not belong to it. -/
theorem span_append {p : Char → Bool} {w rest : Text} (hw : ∀ c ∈ w, p c = true)
    (hrest : ∀ c ∈ rest.head?, p c = false) :
    (w ++ rest).takeWhile p = w ∧ (w ++ rest).dropWhile p = rest := by
  rw [List.takeWhile_append_of_pos hw, List.dropWhile_append_of_pos hw]
  cases rest with
  | nil => exact ⟨List.append_nil w, rfl⟩
  | cons c rest =>
    have hc : ¬p c = true := Bool.eq_false_iff.1 (hrest c rfl)
    rw [List.takeWhile_cons_of_neg hc, List.dropWhile_cons_of_neg hc, List.append_nil]
    exact ⟨rfl, rfl⟩

end Text

namespace Math
open Unicode

/-! Digits and what else a number is made of -/

theorem isWord_of_isWordDigit {c : Char} (h : isWordDigit c = true) : isWord c = true :=
  (Bool.and_eq_true_iff.1 h).1

theorem not_isWordDigit_of_isAlpha {c : Char} (h : c.isAlpha = true) : isWordDigit c = false := by
  have hascii : c.isAscii = true := isAscii_of_isAlphanum (Bool.or_eq_true_iff.2 (.inl h))
  exact forall_isAscii (P := fun c => c.isAlpha = true → isWordDigit c = false)
    (by decide) hascii h

theorem not_isWord_point : isWord '.' = false := by decide

theorem not_isWordDigit_point : isWordDigit '.' = false := by decide

theorem not_isWordDigit_percent : isWordDigit '%' = false := by decide

theorem not_isWord_of_mem_signs {c : Char} (h : c ∈ ['+', '-']) : isWord c = false := by
  have hall : ['+', '-'].all (!isWord ·) = true := by decide
  simpa using List.all_eq_true.1 hall c h

theorem not_isWordDigit_of_not_isWord {c : Char} (h : isWord c = false) : isWordDigit c = false := by
  rw [isWordDigit, h, Bool.false_and]

/-! Units -/

/-- What stands before `after` is a unit: a percent sign, or a maximal run of two to four ASCII
letters with no more of a word behind it. -/
inductive IsUnit (after : Text) : Text → Prop where
  | percent : IsUnit after ['%']
  | letters {w : Text} : (∀ c ∈ w, c.isAlpha = true) → (∀ c ∈ after.head?, c.isAlpha = false) →
      2 ≤ w.length → w.length ≤ 4 → (∀ c ∈ after.head?, isWord c = false) → IsUnit after w

theorem IsUnit.exists_cons {unit after : Text} (h : IsUnit after unit) :
    ∃ c w, unit = c :: w ∧ (c = '%' ∨ c.isAlpha = true) := by
  cases h with
  | percent => exact ⟨'%', [], rfl, .inl rfl⟩
  | letters hw _ htwo _ _ =>
    obtain ⟨c, w, rfl⟩ := List.exists_cons_of_length_pos (Nat.lt_of_lt_of_le Nat.two_pos htwo)
    exact ⟨c, w, rfl, .inr (hw c (List.mem_cons_self ..))⟩

/-- A run of digits reaches up to the unit behind it. -/
theorem IsUnit.not_isWordDigit_head? {unit after : Text} (h : IsUnit after unit) :
    ∀ c ∈ (unit ++ after).head?, isWordDigit c = false := by
  obtain ⟨c, w, rfl, hc⟩ := h.exists_cons
  rintro e ⟨⟩
  rcases hc with rfl | hc
  · exact not_isWordDigit_percent
  · exact not_isWordDigit_of_isAlpha hc

theorem unitAt?_of_isUnit {unit after : Text} (h : IsUnit after unit) :
    unitAt? (unit ++ after) = some unit := by
  cases h with
  | percent => rfl
  | letters hw hmax htwo hfour hword =>
    obtain ⟨htake, hdrop⟩ := Text.span_append hw hmax
    have hnext : after.head?.any isWord = false := (Option.any_eq_false ..).2 hword
    unfold unitAt?
    split
    · next t heq =>
      obtain ⟨c, w, rfl⟩ := List.exists_cons_of_length_pos (Nat.lt_of_lt_of_le Nat.two_pos htwo)
      obtain rfl := (List.cons.inj heq).1
      exact absurd (hw '%' (List.mem_cons_self ..)) (by decide)
    · simp [htake, hdrop, htwo, hfour, hnext]

theorem exists_isUnit_of_unitAt? {t unit : Text} (h : unitAt? t = some unit) :
    ∃ after, t = unit ++ after ∧ IsUnit after unit := by
  unfold unitAt? at h
  split at h
  · next t =>
    obtain rfl := Option.some.inj h
    exact ⟨t, rfl, .percent⟩
  · obtain ⟨hcond, heq⟩ := Option.ite_none_right_eq_some.1 h
    obtain rfl := Option.some.inj heq
    simp only [Bool.and_eq_true, decide_eq_true_eq, Bool.not_eq_true'] at hcond
    obtain ⟨⟨htwo, hfour⟩, hword⟩ := hcond
    refine ⟨t.dropWhile Char.isAlpha, (List.takeWhile_append_dropWhile ..).symm,
      .letters (fun c hc => List.mem_takeWhile_imp hc) ?_ htwo hfour
        ((Option.any_eq_false ..).1 hword)⟩
    intro c hc
    have hnot := List.head?_dropWhile_not Char.isAlpha t
    rwa [Option.mem_def.1 hc] at hnot

theorem unitAt?_point (t : Text) : unitAt? ('.' :: t) = none := by
  rw [Option.eq_none_iff_forall_ne_some]
  intro unit h
  obtain ⟨after, heq, hunit⟩ := exists_isUnit_of_unitAt? h
  obtain ⟨c, w, rfl, hc⟩ := hunit.exists_cons
  obtain rfl := (List.cons.inj heq).1
  exact absurd hc (by decide)

/-! Numbers with a unit -/

/-- A number and its unit at the start of a text: a sign, digits and a point, none of which has to be
there, and then digits. -/
structure Numbered (t sign whole point digits unit after : Text) : Prop where
  text : t = sign ++ (whole ++ (point ++ (digits ++ (unit ++ after))))
  sign : sign = [] ∨ ∃ c ∈ ['+', '-'], sign = [c]
  whole : ∀ c ∈ whole, isWordDigit c = true
  point : point = [] ∨ point = ['.']
  ne_nil : digits ≠ []
  digits : ∀ c ∈ digits, isWordDigit c = true
  unit : IsUnit after unit

theorem readSign_cases (t : Text) : (Decimal.readSign t).2 = t ∨
    ∃ c ∈ ['+', '-'], t = c :: (Decimal.readSign t).2 := by
  unfold Decimal.readSign
  split
  · exact .inr ⟨'+', by decide, rfl⟩
  · exact .inr ⟨'-', by decide, rfl⟩
  · exact .inl rfl

theorem exists_numbered_of_numberUnit? {t unit : Text} (h : numberUnit? t = some unit) :
    ∃ sign whole point digits after, Numbered t sign whole point digits unit after := by
  obtain ⟨sign, hsign, ht⟩ : ∃ sign, (sign = [] ∨ ∃ c ∈ ['+', '-'], sign = [c]) ∧
      t = sign ++ (Decimal.readSign t).2 := by
    rcases readSign_cases t with heq | ⟨c, hc, heq⟩
    · exact ⟨[], .inl rfl, heq.symm⟩
    · exact ⟨[c], .inr ⟨c, hc, rfl⟩, heq⟩
  simp only [numberUnit?] at h
  set body := (Decimal.readSign t).2
  have hbody : body.takeWhile isWordDigit ++ body.dropWhile isWordDigit = body :=
    List.takeWhile_append_dropWhile
  have hdigits (t : Text) : ∀ c ∈ t.takeWhile isWordDigit, isWordDigit c = true :=
    fun c hc => List.mem_takeWhile_imp hc
  split at h
  · next rest heq =>
    obtain ⟨hne, hunit⟩ := Option.ite_none_left_eq_some.1 h
    obtain ⟨after, hafter, hunit⟩ := exists_isUnit_of_unitAt? hunit
    refine ⟨sign, body.takeWhile isWordDigit, ['.'], rest.takeWhile isWordDigit, after, ?_, hsign,
      hdigits body, .inr rfl, fun hnil => hne (List.isEmpty_iff.2 hnil), hdigits rest, hunit⟩
    rwa [← hafter, List.takeWhile_append_dropWhile, List.singleton_append, ← heq, hbody]
  · obtain ⟨hne, hunit⟩ := Option.ite_none_left_eq_some.1 h
    obtain ⟨after, hafter, hunit⟩ := exists_isUnit_of_unitAt? hunit
    refine ⟨sign, [], [], body.takeWhile isWordDigit, after, ?_, hsign, List.forall_mem_nil _,
      .inl rfl, fun hnil => hne (List.isEmpty_iff.2 hnil), hdigits body, hunit⟩
    rwa [← hafter, List.nil_append, List.nil_append, hbody]

namespace Numbered
variable {t sign whole point digits unit after : Text}

theorem readSign (h : Numbered t sign whole point digits unit after) :
    (Decimal.readSign t).2 = whole ++ (point ++ (digits ++ (unit ++ after))) := by
  obtain ⟨rfl, hsign, hwhole, hpoint, hne, hdigits, _⟩ := h
  rcases hsign with rfl | ⟨c, hc, rfl⟩
  · -- Without a sign the text starts with a digit or the point.
    obtain ⟨c, rest, heq, hc⟩ : ∃ c rest,
        whole ++ (point ++ (digits ++ (unit ++ after))) = c :: rest ∧ c ∉ ['+', '-'] := by
      have hnot {c : Char} (hc : isWordDigit c = true) : c ∉ ['+', '-'] := fun hmem =>
        absurd (isWord_of_isWordDigit hc) (Bool.eq_false_iff.1 (not_isWord_of_mem_signs hmem))
      rcases whole with _ | ⟨c, whole⟩
      · rcases hpoint with rfl | rfl
        · obtain ⟨c, digits, rfl⟩ := List.exists_cons_of_ne_nil hne
          exact ⟨c, _, rfl, hnot (hdigits c (List.mem_cons_self ..))⟩
        · exact ⟨'.', _, rfl, by decide⟩
      · exact ⟨c, _, rfl, hnot (hwhole c (List.mem_cons_self ..))⟩
    rw [List.nil_append, heq]
    unfold Decimal.readSign
    split
    · next h => exact absurd (List.mem_cons_self ..) ((List.cons.inj h).1 ▸ hc)
    · next h => exact absurd (by simp) ((List.cons.inj h).1 ▸ hc)
    · rfl
  · rcases hc with _ | ⟨_, _ | ⟨_, ⟨⟩⟩⟩ <;> rfl

theorem numberUnit?_eq (h : Numbered t sign whole point digits unit after) :
    numberUnit? t = some unit := by
  have hbody := h.readSign
  obtain ⟨_, _, hwhole, hpoint, hne, hdigits, hunit⟩ := h
  have hspan := Text.span_append hdigits hunit.not_isWordDigit_head?
  simp only [numberUnit?, hbody]
  rcases hpoint with rfl | rfl
  · rw [List.nil_append, ← List.append_assoc]
    have hall : ∀ c ∈ whole ++ digits, isWordDigit c = true :=
      List.forall_mem_append.2 ⟨hwhole, hdigits⟩
    obtain ⟨htake, hdrop⟩ := Text.span_append hall hunit.not_isWordDigit_head?
    rw [htake, hdrop]
    split
    · next rest heq =>
      obtain ⟨c, w, rfl, hc⟩ := hunit.exists_cons
      obtain rfl := (List.cons.inj heq).1
      exact absurd hc (by decide)
    · rw [if_neg (by simp [hne]), unitAt?_of_isUnit hunit]
  · have hstop : ∀ c ∈ (['.'] ++ (digits ++ (unit ++ after))).head?, isWordDigit c = false := by
      rintro c ⟨⟩
      exact not_isWordDigit_point
    rw [(Text.span_append hwhole hstop).2]
    simp only [List.singleton_append, hspan.1, hspan.2]
    rw [if_neg (by simp [hne]), unitAt?_of_isUnit hunit]

end Numbered

/-! The first run of digits with a unit -/

/-- The unit behind the run of digits that begins with `c`, if it stands apart from a word before. -/
def unitBehind? (previous : Option Char) (c : Char) (t : Text) : Option Text :=
  if isWordDigit c && !previous.any isWord then unitAt? (t.dropWhile isWordDigit) else none

/-- The unit behind the first run of digits that stands apart and has one. -/
def runUnit? (previous : Option Char) : Text → Option Text
  | [] => none
  | c :: t => unitBehind? previous c t <|> runUnit? (some c) t

section Runs
variable {previous : Option Char} {digits rest : Text}

theorem runUnit?_cons_of_not_isWordDigit {c : Char} (hc : isWordDigit c = false) (t : Text) :
    runUnit? previous (c :: t) = runUnit? (some c) t := by
  rw [runUnit?, unitBehind?, hc]
  rfl

/-- Digits before a point have no unit. -/
theorem runUnit?_append_point (h : ∀ c ∈ digits, isWordDigit c = true) (t : Text) :
    runUnit? previous (digits ++ '.' :: t) = runUnit? (some '.') t := by
  induction digits generalizing previous with
  | nil => exact runUnit?_cons_of_not_isWordDigit not_isWordDigit_point t
  | cons c digits ih =>
    obtain ⟨_, hdigits⟩ := List.forall_mem_cons.1 h
    have hstop : ∀ e ∈ ('.' :: t).head?, isWordDigit e = false := by
      rintro e ⟨⟩
      exact not_isWordDigit_point
    rw [List.cons_append, runUnit?, unitBehind?, (Text.span_append hdigits hstop).2, unitAt?_point,
      ite_self, ih hdigits]
    rfl

theorem unitBehind?_of_isUnit {c : Char} {unit after : Text}
    (hprevious : previous.any isWord = false) (hc : isWordDigit c = true)
    (h : ∀ e ∈ digits, isWordDigit e = true) (hunit : IsUnit after unit) :
    unitBehind? previous c (digits ++ (unit ++ after)) = some unit := by
  rw [unitBehind?, (Text.span_append h hunit.not_isWordDigit_head?).2, unitAt?_of_isUnit hunit, hc,
    hprevious]
  rfl

theorem runUnit?_append_unit {unit after : Text} (hprevious : previous.any isWord = false)
    (hne : digits ≠ []) (h : ∀ c ∈ digits, isWordDigit c = true) (hunit : IsUnit after unit) :
    runUnit? previous (digits ++ (unit ++ after)) = some unit := by
  obtain ⟨c, digits, rfl⟩ := List.exists_cons_of_ne_nil hne
  obtain ⟨hc, hdigits⟩ := List.forall_mem_cons.1 h
  rw [List.cons_append, runUnit?, unitBehind?_of_isUnit hprevious hc hdigits hunit]
  rfl

end Runs

/-- Sign, point and the digits before the point are passed over on the way to the last run of digits,
which is the first to have a unit. -/
theorem Numbered.runUnit?_eq {previous : Option Char} {c : Char}
    {t sign whole point digits unit after : Text}
    (h : Numbered (c :: t) sign whole point digits unit after)
    (hedge : isWordEdge previous (some c) = true) : runUnit? previous (c :: t) = some unit := by
  obtain ⟨ht, hsign, hwhole, hpoint, hne, hdigits, hunit⟩ := h
  have hbody {q : Option Char} (hq : point = [] → q.any isWord = false) :
      runUnit? q (whole ++ (point ++ (digits ++ (unit ++ after)))) = some unit := by
    rcases hpoint with rfl | rfl
    · rw [List.nil_append, ← List.append_assoc]
      exact runUnit?_append_unit (hq rfl) (by simp [hne])
        (List.forall_mem_append.2 ⟨hwhole, hdigits⟩) hunit
    · rw [List.singleton_append, runUnit?_append_point hwhole]
      exact runUnit?_append_unit not_isWord_point hne hdigits hunit
  rcases hsign with rfl | ⟨s, hs, rfl⟩
  · rw [ht, List.nil_append]
    refine hbody fun hpoint' => ?_
    have hc : isWord c = true := by
      subst hpoint'
      have hmem : c ∈ whole ++ digits := by
        obtain ⟨e, w, heq⟩ := List.exists_cons_of_ne_nil (show whole ++ digits ≠ [] by simp [hne])
        rw [List.nil_append, List.nil_append, ← List.append_assoc, heq] at ht
        rw [heq, (List.cons.inj ht).1]
        exact List.mem_cons_self ..
      exact isWord_of_isWordDigit (List.forall_mem_append.2 ⟨hwhole, hdigits⟩ c hmem)
    simpa [isWordEdge, hc] using hedge
  · obtain ⟨rfl, rfl⟩ := List.cons.inj ht
    have hword := not_isWord_of_mem_signs hs
    rw [runUnit?_cons_of_not_isWordDigit (not_isWordDigit_of_not_isWord hword)]
    exact hbody fun _ => hword

/-- A run of digits with a unit is a number without sign and point. -/
theorem numbered_of_unitAt? {c : Char} {t unit : Text} (hc : isWordDigit c = true)
    (h : unitAt? (t.dropWhile isWordDigit) = some unit) :
    ∃ after, Numbered (c :: t) [] [] [] (c :: t.takeWhile isWordDigit) unit after := by
  obtain ⟨after, hafter, hunit⟩ := exists_isUnit_of_unitAt? h
  refine ⟨after, ?_, .inl rfl, List.forall_mem_nil _, .inl rfl, List.cons_ne_nil _ _,
    List.forall_mem_cons.2 ⟨hc, fun e he => List.mem_takeWhile_imp he⟩, hunit⟩
  rw [List.nil_append, List.nil_append, List.nil_append, List.cons_append, ← hafter,
    List.takeWhile_append_dropWhile]

theorem firstUnit?_eq_runUnit? (previous : Option Char) (t : Text) :
    firstUnit? previous t = runUnit? previous t := by
  induction t generalizing previous with
  | nil => rfl
  | cons c t ih =>
    rw [firstUnit?, ih]
    cases hnumber : (if isWordEdge previous (some c) = true then numberUnit? (c :: t) else none) with
    | some unit =>
      obtain ⟨hedge, hunit⟩ := Option.ite_none_right_eq_some.1 hnumber
      obtain ⟨_, _, _, _, _, hnumbered⟩ := exists_numbered_of_numberUnit? hunit
      exact (hnumbered.runUnit?_eq hedge).symm
    | none =>
      rw [runUnit?]
      congr 1
      refine (Option.eq_none_iff_forall_ne_some.2 fun unit hrun => ?_).symm
      obtain ⟨hcond, hunit⟩ := Option.ite_none_right_eq_some.1 hrun
      obtain ⟨hc, hprevious⟩ := Bool.and_eq_true_iff.1 hcond
      obtain ⟨after, hnumbered⟩ := numbered_of_unitAt? hc hunit
      have hedge : isWordEdge previous (some c) = true := by
        simpa [isWordEdge, isWord_of_isWordDigit hc] using hprevious
      rw [if_pos hedge, hnumbered.numberUnit?_eq] at hnumber
      exact nomatch hnumber

/-- A maximal run of digits that stands apart from the word before it, with a unit behind it. -/
structure UnitRun (t before digits unit after : Text) : Prop where
  text : t = before ++ (digits ++ (unit ++ after))
  ne_nil : digits ≠ []
  digits : ∀ c ∈ digits, isWordDigit c = true
  left : ∀ c ∈ before.getLast?, isWordDigit c = false
  right : ∀ c ∈ (unit ++ after).head?, isWordDigit c = false
  apart : ∀ c ∈ before.getLast?, isWord c = false
  unit : IsUnit after unit

/-- No run of digits with a unit begins earlier. -/
structure FirstUnitRun (t before digits unit after : Text) : Prop where
  run : UnitRun t before digits unit after
  first : ∀ before' digits' unit' after', UnitRun t before' digits' unit' after' →
    before.length ≤ before'.length

theorem unitBehind?_eq_some_iff {passed t unit : Text} {c : Char} :
    unitBehind? passed.getLast? c t = some unit ↔
      ∃ digits after, UnitRun (passed ++ c :: t) passed digits unit after := by
  constructor
  · intro h
    obtain ⟨hcond, hunit⟩ := Option.ite_none_right_eq_some.1 h
    obtain ⟨hc, hprevious⟩ := Bool.and_eq_true_iff.1 hcond
    obtain ⟨after, hnumbered⟩ := numbered_of_unitAt? hc hunit
    have hapart := (Option.any_eq_false ..).1 (Bool.not_eq_true' _ ▸ hprevious)
    exact ⟨_, after, congrArg (passed ++ ·) hnumbered.text, hnumbered.ne_nil, hnumbered.digits,
      fun e he => not_isWordDigit_of_not_isWord (hapart e he), hnumbered.unit.not_isWordDigit_head?,
      hapart, hnumbered.unit⟩
  · rintro ⟨digits, after, h⟩
    obtain ⟨e, digits, rfl⟩ := List.exists_cons_of_ne_nil h.ne_nil
    obtain ⟨rfl, rfl⟩ := List.cons.inj (List.append_cancel_left h.text)
    obtain ⟨hc, hdigits⟩ := List.forall_mem_cons.1 h.digits
    exact unitBehind?_of_isUnit ((Option.any_eq_false ..).2 h.apart) hc hdigits h.unit

/-- Two runs with a unit that begin at one place are the same. -/
theorem UnitRun.unit_unique {t before before' digits digits' unit unit' after after' : Text}
    (h : UnitRun t before digits unit after) (h' : UnitRun t before' digits' unit' after')
    (hlength : before.length = before'.length) : unit = unit' := by
  obtain ⟨rfl, _⟩ := List.append_inj (h.text.symm.trans h'.text) hlength
  obtain ⟨c, digits, rfl⟩ := List.exists_cons_of_ne_nil h.ne_nil
  have ht : t = before ++ c :: (digits ++ (unit ++ after)) := h.text
  rw [ht] at h h'
  exact Option.some.inj ((unitBehind?_eq_some_iff.2 ⟨_, _, h⟩).symm.trans
    (unitBehind?_eq_some_iff.2 ⟨_, _, h'⟩))

/-- A run that begins behind what is passed begins behind the next character too, if none begins
there. -/
theorem UnitRun.length_lt {passed before t digits unit after : Text} {c : Char}
    (hnone : unitBehind? passed.getLast? c t = none)
    (h : UnitRun (passed ++ c :: t) before digits unit after)
    (hlength : passed.length ≤ before.length) : (passed ++ [c]).length ≤ before.length := by
  rcases Nat.lt_or_eq_of_le hlength with hlt | heq
  · rw [List.length_append]
    exact hlt
  · obtain ⟨rfl, _⟩ := List.append_inj h.text heq
    rw [unitBehind?_eq_some_iff.2 ⟨_, _, h⟩] at hnone
    exact nomatch hnone

theorem exists_unitRun_of_runUnit? {passed rest unit : Text}
    (h : runUnit? passed.getLast? rest = some unit) :
    ∃ before digits after, UnitRun (passed ++ rest) before digits unit after ∧
      ∀ before' digits' unit' after', UnitRun (passed ++ rest) before' digits' unit' after' →
        passed.length ≤ before'.length → before.length ≤ before'.length := by
  induction rest generalizing passed with
  | nil => exact nomatch h
  | cons c t ih =>
    rw [runUnit?] at h
    cases hbehind : unitBehind? passed.getLast? c t with
    | some found =>
      rw [hbehind] at h
      obtain rfl : found = unit := Option.some.inj h
      obtain ⟨digits, after, hrun⟩ := unitBehind?_eq_some_iff.1 hbehind
      exact ⟨passed, digits, after, hrun, fun _ _ _ _ _ hle => hle⟩
    | none =>
      have hlast : (passed ++ [c]).getLast? = some c := List.getLast?_concat
      rw [hbehind, ← hlast] at h
      obtain ⟨before, digits, after, hrun, hfirst⟩ := ih h
      rw [List.append_assoc, List.singleton_append] at hrun hfirst
      exact ⟨before, digits, after, hrun, fun before' digits' unit' after' hrun' hle =>
        hfirst before' digits' unit' after' hrun' (hrun'.length_lt hbehind hle)⟩

theorem not_unitRun_of_runUnit? {passed rest : Text} (h : runUnit? passed.getLast? rest = none)
    {before digits unit after : Text} (hlength : passed.length ≤ before.length) :
    ¬UnitRun (passed ++ rest) before digits unit after := by
  intro hrun
  induction rest generalizing passed with
  | nil =>
    have htext := congrArg List.length hrun.text
    have hpos := List.length_pos_iff.2 hrun.ne_nil
    simp only [List.length_append, List.length_nil] at htext
    omega
  | cons c t ih =>
    rw [runUnit?] at h
    cases hbehind : unitBehind? passed.getLast? c t with
    | some found =>
      rw [hbehind] at h
      exact nomatch h
    | none =>
      have hlast : (passed ++ [c]).getLast? = some c := List.getLast?_concat
      rw [hbehind, ← hlast] at h
      refine ih h (hrun.length_lt hbehind hlength) ?_
      rwa [List.append_assoc, List.singleton_append]

theorem exists_firstUnitRun {t unit : Text} (h : firstUnit? none t = some unit) :
    ∃ before digits after, FirstUnitRun t before digits unit after := by
  rw [firstUnit?_eq_runUnit?] at h
  have h' : runUnit? ([] : Text).getLast? t = some unit := h
  obtain ⟨before, digits, after, hrun, hfirst⟩ := exists_unitRun_of_runUnit? h'
  exact ⟨before, digits, after, hrun, fun before' digits' unit' after' hrun' =>
    hfirst before' digits' unit' after' hrun' (Nat.zero_le _)⟩

theorem not_unitRun_of_firstUnit? {t : Text} (h : firstUnit? none t = none)
    (before digits unit after : Text) : ¬UnitRun t before digits unit after := by
  rw [firstUnit?_eq_runUnit?] at h
  have h' : runUnit? ([] : Text).getLast? t = none := h
  exact not_unitRun_of_runUnit? h' (Nat.zero_le _)

/-- The unit of the first run of digits that has one, or none if none has. -/
def InferredUnit (t unit : Text) : Prop :=
  (∃ before digits after, FirstUnitRun t before digits unit after) ∨
    unit = [] ∧ ∀ before digits unit' after, ¬UnitRun t before digits unit' after

theorem firstUnit?_getD_eq_iff {t unit : Text} :
    (firstUnit? none t).getD [] = unit ↔ InferredUnit t unit := by
  cases hunit : firstUnit? none t with
  | some found =>
    obtain ⟨before, digits, after, hfirst⟩ := exists_firstUnitRun hunit
    constructor
    · rintro rfl
      exact .inl ⟨before, digits, after, hfirst⟩
    · rintro (⟨before', digits', after', hfirst'⟩ | ⟨_, hnone⟩)
      · exact hfirst.run.unit_unique hfirst'.run
          (Nat.le_antisymm (hfirst.first _ _ _ _ hfirst'.run) (hfirst'.first _ _ _ _ hfirst.run))
      · exact absurd hfirst.run (hnone _ _ _ _)
  | none =>
    have hnone := not_unitRun_of_firstUnit? hunit
    constructor
    · rintro rfl
      exact .inr ⟨rfl, hnone⟩
    · rintro (⟨before, digits, after, hfirst⟩ | ⟨rfl, _⟩)
      · exact absurd hfirst.run (hnone _ _ _ _)
      · rfl

/-- Without a second argument, the unit behind the number is that of the first run of digits in the
first argument that has one. -/
theorem run_eq_append_unit_iff {input : Text} (h : (Arguments.split .commas input)[1]? = none)
    (unit : Text) :
    run input = (value (expressionOf input)).text ++ unit ↔
      InferredUnit (expressionOf input) unit := by
  rw [← firstUnit?_getD_eq_iff, run_eq, unitOf, h]
  exact ⟨List.append_cancel_left, congrArg _⟩

/-- The digit of `x2px` is inside a word, the one before the point has no unit. -/
theorem pointedSample_unit :
    (Arguments.split .commas "x2px + -1.5em*3%".toList)[1]? = none ∧
      run "x2px + -1.5em*3%".toList = "-2.5em".toList ∧
        InferredUnit "x2px + -1.5em*3%".toList "em".toList := by
  have hnone : (Arguments.split .commas "x2px + -1.5em*3%".toList)[1]? = none := by decide +kernel
  have hrun : run "x2px + -1.5em*3%".toList = "-2.5em".toList := by decide +kernel
  have hvalue : (value (expressionOf "x2px + -1.5em*3%".toList)).text = "-2.5".toList := by
    decide +kernel
  refine ⟨hnone, hrun, (run_eq_append_unit_iff hnone _).1 ?_⟩
  rw [hrun, hvalue]
  rfl

end Math
end StyleCalls
