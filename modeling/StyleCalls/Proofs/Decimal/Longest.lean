import Mathlib.Data.List.DropRight
import StyleCalls.Proofs.Decimal.Reading

/-! The longest beginning of a text that is a number. What may be a part of it is said of the whole
beginning: digits with at most one point. The reader goes from character to character, and stops
where one more would make it something else. -/

namespace StyleCalls

/-- Of the beginnings of `t` with a property the longest one. -/
structure Longest {α : Type} (P : List α → Prop) (p t : List α) : Prop where
  begins : p <+: t
  holds : P p
  length_le : ∀ q, q <+: t → P q → q.length ≤ p.length

/-- A property that every beginning shares is lost for good with the first element too many. -/
theorem longest_append {α : Type} {P : List α → Prop} (hbegins : ∀ p q, q <+: p → P p → P q)
    {p rest : List α} (hp : P p) (hstop : ∀ a ∈ rest.head?, ¬P (p ++ [a])) :
    Longest P p (p ++ rest) where
  begins := List.prefix_append p rest
  holds := hp
  length_le q hq hP := by
    by_contra hlong
    obtain ⟨more, rfl⟩ : p <+: q :=
      List.prefix_of_prefix_length_le (List.prefix_append p rest) hq (Nat.le_of_not_le hlong)
    cases more with
    | nil => simp at hlong
    | cons a more =>
      obtain ⟨after, hafter⟩ : a :: more <+: rest := (List.prefix_append_right_inj p).1 hq
      refine hstop a (hafter ▸ rfl) (hbegins _ _ ⟨more, ?_⟩ hP)
      rw [List.append_assoc, List.singleton_append]

namespace Decimal

/-- Digits with at most one point. -/
structure IsRun (t : Text) : Prop where
  mem : ∀ c ∈ t, isDigit c = true ∨ c = '.'
  count_le : t.count '.' ≤ 1

variable {t ds es : Text}

theorem IsRun.of_begins {q : Text} (hq : q <+: t) (h : IsRun t) : IsRun q where
  mem c hc := h.mem c (hq.subset hc)
  count_le := (hq.sublist.count_le '.').trans h.count_le

theorem not_point_of_isDigit {c : Char} (h : isDigit c = true) : c ≠ '.' := by
  rintro rfl
  exact absurd h (by decide)

theorem count_point_of_digits (h : ∀ c ∈ ds, isDigit c = true) : ds.count '.' = 0 :=
  List.count_eq_zero.2 fun hmem => not_point_of_isDigit (h _ hmem) rfl

theorem isRun_of_digits (h : ∀ c ∈ ds, isDigit c = true) : IsRun ds where
  mem c hc := .inl (h c hc)
  count_le := by rw [count_point_of_digits h]; omega

theorem isRun_pointed (hds : ∀ c ∈ ds, isDigit c = true) (hes : ∀ c ∈ es, isDigit c = true) :
    IsRun (ds ++ '.' :: es) where
  mem := List.forall_mem_append.2 ⟨fun c hc => .inl (hds c hc),
    List.forall_mem_cons.2 ⟨.inr rfl, fun c hc => .inl (hes c hc)⟩⟩
  count_le := by
    rw [List.count_append, List.count_cons_self, count_point_of_digits hds,
      count_point_of_digits hes]

/-- Either there is no point or there are digits alone on both sides of it. -/
theorem IsRun.cases (h : IsRun t) : (∀ c ∈ t, isDigit c = true) ∨
    ∃ ds es, t = ds ++ '.' :: es ∧ (∀ c ∈ ds, isDigit c = true) ∧ ∀ c ∈ es, isDigit c = true := by
  by_cases hpoint : '.' ∈ t
  · obtain ⟨ds, es, rfl⟩ := List.append_of_mem hpoint
    have hcount := h.count_le
    rw [List.count_append, List.count_cons_self] at hcount
    have hds : '.' ∉ ds := List.count_eq_zero.1 (by omega)
    have hes : '.' ∉ es := List.count_eq_zero.1 (by omega)
    refine .inr ⟨ds, es, rfl, fun c hc => ?_, fun c hc => ?_⟩
    · exact (h.mem c (by simp [hc])).resolve_right fun heq => hds (heq ▸ hc)
    · exact (h.mem c (by simp [hc])).resolve_right fun heq => hes (heq ▸ hc)
  · exact .inl fun c hc => (h.mem c hc).resolve_right fun heq => hpoint (heq ▸ hc)

theorem readRun_of_isRun (h : IsRun t) : readRun t = ((readRun t).1, (readRun t).2.1, []) := by
  rcases h.cases with hdigits | ⟨ds, es, rfl, hds, hes⟩
  · rw [readRun_whole hdigits]
  · rw [readRun_pointed hds hes]

theorem ofRun?_readRun_eq_none_iff {r : Text} (hr : IsRun r) (neg : Bool) (exp : Int) :
    ofRun? neg (readRun r).1 (readRun r).2.1 exp = none ↔ ¬∃ c ∈ r, isDigit c = true := by
  have hempty : ofRun? neg (readRun r).1 (readRun r).2.1 exp = none ↔
      (readRun r).1 = [] ∧ (readRun r).2.1 = [] := by
    simp [ofRun?]
  rw [hempty]
  have hexists {ds : Text} (hds : ∀ c ∈ ds, isDigit c = true) :
      ds = [] ↔ ¬∃ c ∈ ds, isDigit c = true := by
    constructor
    · rintro rfl
      simp
    · intro hnone
      exact List.eq_nil_iff_forall_not_mem.2 fun c hc => hnone ⟨c, hc, hds c hc⟩
  rcases hr.cases with hdigits | ⟨ds, es, rfl, hds, hes⟩
  · rw [readRun_whole hdigits, ← hexists hdigits, and_iff_left rfl]
  · have hpoint : isDigit '.' = false := rfl
    rw [readRun_pointed hds hes, hexists hds, hexists hes]
    simp [or_and_right, exists_or, hpoint]

/-- What the reader takes is a run, and one character more would make it none. -/
theorem exists_run_eq (t : Text) : ∃ r, t = r ++ (readRun t).2.2 ∧ IsRun r ∧
    readRun r = ((readRun t).1, (readRun t).2.1, []) ∧
    ∀ c ∈ (readRun t).2.2.head?, ¬IsRun (r ++ [c]) := by
  have hdigits (w : Text) : ∀ c ∈ w.takeWhile isDigit, isDigit c = true :=
    fun _ hc => List.mem_takeWhile_imp hc
  have hsplit (w : Text) : w.takeWhile isDigit ++ w.dropWhile isDigit = w :=
    List.takeWhile_append_dropWhile
  have hhead (w : Text) : ∀ c ∈ (w.dropWhile isDigit).head?, isDigit c = false := by
    intro c hc
    have hnot := List.head?_dropWhile_not isDigit w
    rw [Option.mem_def.1 hc] at hnot
    exact hnot
  have hwhole : readRun (t.takeWhile isDigit) = (t.takeWhile isDigit, [], []) :=
    readRun_whole (hdigits t)
  cases hrest : t.dropWhile isDigit with
  | nil =>
    have hread : readRun t = (t.takeWhile isDigit, [], []) := by rw [readRun, hrest]
    rw [hread]
    refine ⟨t.takeWhile isDigit, ?_, isRun_of_digits (hdigits t), hwhole, nofun⟩
    rw [← hrest, hsplit]
  | cons c rest =>
    have hc : isDigit c = false := hhead t c (hrest ▸ rfl)
    by_cases hpoint : c = '.'
    · subst hpoint
      have hread : readRun t =
          (t.takeWhile isDigit, rest.takeWhile isDigit, rest.dropWhile isDigit) := by
        rw [readRun, hrest]
        rfl
      rw [hread]
      refine ⟨t.takeWhile isDigit ++ '.' :: rest.takeWhile isDigit, ?_,
        isRun_pointed (hdigits t) (hdigits rest), readRun_pointed (hdigits t) (hdigits rest), ?_⟩
      · rw [List.append_assoc, List.cons_append, hsplit, ← hrest, hsplit]
      · intro e he hrun
        rcases hrun.mem e (by simp) with hdigit | rfl
        · exact Bool.noConfusion ((hhead rest e he).symm.trans hdigit)
        · have hcount := hrun.count_le
          simp only [List.count_append, List.count_cons_self] at hcount
          omega
    · have hread : readRun t = (t.takeWhile isDigit, [], c :: rest) := by
        rw [readRun, hrest]
        split
        · next heq => exact absurd (List.cons.inj heq).1 hpoint
        · rfl
      rw [hread]
      refine ⟨t.takeWhile isDigit, ?_, isRun_of_digits (hdigits t), hwhole, ?_⟩
      · rw [← hrest, hsplit]
      · rintro e ⟨⟩ hrun
        rcases hrun.mem c (by simp) with hdigit | heq
        · exact Bool.noConfusion (hc.symm.trans hdigit)
        · exact hpoint heq

theorem longest_run {r : Text} (hr : IsRun r) {rest : Text}
    (hstop : ∀ c ∈ rest.head?, ¬IsRun (r ++ [c])) : Longest IsRun r (r ++ rest) :=
  longest_append (fun _ _ hq h => h.of_begins hq) hr hstop

/-! Signs -/

def signs : List Text := [[], ['+'], ['-']]

/-- A text that does not begin with a sign. -/
def Unsigned (t : Text) : Prop := ∀ c ∈ t.head?, c ≠ '+' ∧ c ≠ '-'

theorem readSign_append_of_mem {s r : Text} (hs : s ∈ signs) (hr : Unsigned r) :
    readSign (s ++ r) = (decide (s = ['-']), r) := by
  simp only [signs, List.mem_cons, List.not_mem_nil, or_false] at hs
  rcases hs with rfl | rfl | rfl
  · cases r with
    | nil => rfl
    | cons c r =>
      obtain ⟨hplus, hminus⟩ := hr c rfl
      simp [readSign, hplus, hminus]
  · rfl
  · rfl

theorem exists_sign_append (t : Text) :
    ∃ s ∈ signs, t = s ++ (readSign t).2 ∧ (readSign t).1 = decide (s = ['-']) := by
  by_cases hsigned : Unsigned t
  · have hread := readSign_append_of_mem (s := []) (by decide) hsigned
    rw [List.nil_append] at hread
    exact ⟨[], by decide, by rw [hread, List.nil_append], by rw [hread]⟩
  · cases t with
    | nil => exact absurd nofun hsigned
    | cons c t =>
      by_cases hplus : c = '+'
      · subst hplus
        exact ⟨['+'], by decide, rfl, rfl⟩
      · by_cases hminus : c = '-'
        · subst hminus
          exact ⟨['-'], by decide, rfl, rfl⟩
        · exact absurd (fun e he => Option.some.inj he ▸ ⟨hplus, hminus⟩) hsigned

/-! Numerals -/

/-- An optional sign, then digits with at most one point, a digit among them. -/
def IsNumeral (t : Text) : Prop :=
  ∃ s ∈ signs, ∃ r, t = s ++ r ∧ IsRun r ∧ ∃ c ∈ r, isDigit c = true

theorem unsigned_of_isRun {r : Text} (hr : IsRun r) (hne : r ≠ []) (v : Text) :
    Unsigned (r ++ v) := by
  cases r with
  | nil => exact absurd rfl hne
  | cons c r =>
    rintro e ⟨⟩
    rcases hr.mem c (List.mem_cons_self ..) with hdigit | rfl
    · constructor <;>
        · rintro rfl
          exact absurd hdigit (by decide)
    · decide

/-- The digits of a numeral that a text begins with are where the reader looks for them. -/
theorem begins_readSign {s r : Text} (hs : s ∈ signs) (hr : IsRun r) (hne : r ≠ [])
    (h : s ++ r <+: t) : r <+: (readSign t).2 ∧ s.length + (readSign t).2.length = t.length := by
  obtain ⟨v, rfl⟩ := h
  rw [List.append_assoc, readSign_append_of_mem hs (unsigned_of_isRun hr hne v)]
  exact ⟨List.prefix_append r v, List.length_append.symm⟩

/-- Without the point at its end, if there is one, a run is read as the same digits. -/
theorem readRun_rdropWhile {r : Text} (hr : IsRun r) :
    readRun (r.rdropWhile (· = '.')) = readRun r := by
  have hkept {w : Text} (hw : ∀ c ∈ w.getLast?, c ≠ '.') : w.rdropWhile (· = '.') = w := by
    rw [List.rdropWhile_eq_self_iff]
    intro hne hlast
    exact hw _ (List.getLast?_eq_some_getLast hne) (of_decide_eq_true hlast)
  have hlast {w : Text} (hw : ∀ c ∈ w, isDigit c = true) : ∀ c ∈ w.getLast?, c ≠ '.' :=
    fun c hc => not_point_of_isDigit (hw c (List.mem_of_getLast? hc))
  rcases hr.cases with hdigits | ⟨ds, es, rfl, hds, hes⟩
  · rw [hkept (hlast hdigits)]
  · by_cases hnone : es = []
    · rw [hnone, List.rdropWhile_concat_pos _ _ _ (by decide), hkept (hlast hds),
        readRun_whole hds, readRun_pointed hds (List.forall_mem_nil _)]
    · rw [hkept]
      rw [List.append_cons, List.getLast?_append_of_ne_nil _ hnone]
      exact hlast hes

theorem rdropWhile_append_of_mem (s : Text) {r : Text} (h : ∃ c ∈ r, isDigit c = true) :
    (s ++ r).rdropWhile (· = '.') = s ++ r.rdropWhile (· = '.') := by
  have hsome : (r.reverse.dropWhile (· = '.')).isEmpty = false := by
    obtain ⟨c, hc, hdigit⟩ := h
    simpa using ⟨c, hc, not_point_of_isDigit hdigit⟩
  rw [List.rdropWhile, List.reverse_append, List.dropWhile_append, hsome, List.rdropWhile]
  simp

end Decimal
end StyleCalls
