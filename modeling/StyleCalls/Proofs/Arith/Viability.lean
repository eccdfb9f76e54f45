import StyleCalls.Proofs.Arith.Grammar

/-! Where reading fails. The automaton goes on for as long as what it has read can still become an
expression, so it stops at the first token after which nothing can, or at the end. -/

namespace StyleCalls.Arith

/-- Further tokens can make an expression of these. -/
def Viable (ts : List Token) : Prop := ∃ us e, Derives .sum (ts ++ us) e

theorem Viable.left_of_append {ts us : List Token} (h : Viable (ts ++ us)) : Viable ts := by
  obtain ⟨vs, e, he⟩ := h
  exact ⟨us ++ vs, e, List.append_assoc ts us vs ▸ he⟩

namespace ParseState

theorem finish_term (s : Pending) (t : Expr) (outer : List Frame) :
    ∃ us s' e, (term s t outer).run us = .ok s' ∧ s'.finish = .ok e := by
  induction outer generalizing s t with
  | nil => exact ⟨[], _, s.apply t, rfl, rfl⟩
  | cons f outer ih =>
    obtain ⟨us, s', e, hrun, hfinish⟩ := ih f.sum (f.apply (s.apply t))
    exact ⟨.rightParen :: us, s', e, hrun, hfinish⟩

/-- From every state some tokens lead to an expression. -/
theorem exists_finish (s : ParseState) : ∃ us s' e, s.run us = .ok s' ∧ s'.finish = .ok e := by
  cases s with
  | operand f outer =>
    obtain ⟨us, s', e, hrun, hfinish⟩ := finish_term f.sum (f.apply (.num 0)) outer
    exact ⟨.number 0 :: us, s', e, hrun, hfinish⟩
  | term s t outer => exact finish_term s t outer

theorem viable_iff {ts : List Token} : Viable ts ↔ ∃ s, start.run ts = .ok s := by
  constructor
  · rintro ⟨us, e, he⟩
    obtain ⟨s, t, hrun, _⟩ := takes_of_derives he []
    obtain ⟨s', hts, _⟩ := bind_eq_ok_iff.1 ((run_append start ts us).symm.trans hrun)
    exact ⟨s', hts⟩
  · rintro ⟨s, hrun⟩
    obtain ⟨us, s', e, hus, hfinish⟩ := s.exists_finish
    have hall : start.run (ts ++ us) = .ok s' := (run_append_of_ok hrun us).trans hus
    exact ⟨us, e, (holds_start.run hall).finish hfinish⟩

theorem eq_of_step_eq_error {s : ParseState} {t : Token} {err : Error}
    (h : s.step t = .error err) : err = .unexpectedToken t := by
  unfold step at h
  split at h <;> simp only [reduceCtorEq, Except.error.injEq] at h
  exact h.symm

theorem eq_of_finish_eq_error {s : ParseState} {err : Error} (h : s.finish = .error err) :
    err = .unexpectedEnd := by
  unfold finish at h
  split at h <;> simp only [reduceCtorEq, Except.error.injEq] at h
  exact h.symm

theorem exists_of_run_eq_error {s : ParseState} {ts : List Token} {err : Error}
    (h : s.run ts = .error err) : ∃ before t after s', ts = before ++ t :: after ∧
      s.run before = .ok s' ∧ s'.step t = .error err := by
  induction ts generalizing s with
  | nil => exact nomatch h
  | cons t ts ih =>
    rw [run_cons] at h
    cases hstep : s.step t with
    | error err' =>
      rw [hstep] at h
      obtain rfl := Except.error.inj h
      exact ⟨[], t, ts, s, rfl, rfl, hstep⟩
    | ok s₁ =>
      rw [hstep] at h
      obtain ⟨before, t', after, s', rfl, hbefore, hs'⟩ := ih h
      refine ⟨t :: before, t', after, s', rfl, ?_, hs'⟩
      rw [run_cons, hstep]
      exact hbefore

theorem run_eq_error_iff {ts : List Token} {err : Error} :
    start.run ts = .error err ↔ ∃ before t after, ts = before ++ t :: after ∧
      Viable before ∧ ¬Viable (before ++ [t]) ∧ err = .unexpectedToken t := by
  constructor
  · intro h
    obtain ⟨before, t, after, s, rfl, hbefore, hstep⟩ := exists_of_run_eq_error h
    refine ⟨before, t, after, rfl, viable_iff.2 ⟨s, hbefore⟩, ?_, eq_of_step_eq_error hstep⟩
    rw [viable_iff, run_append_of_ok hbefore, run_cons, hstep]
    rintro ⟨s', hs'⟩
    exact nomatch hs'
  · rintro ⟨before, t, after, rfl, hbefore, ht, rfl⟩
    obtain ⟨s, hrun⟩ := viable_iff.1 hbefore
    rw [viable_iff, run_append_of_ok hrun, run_cons] at ht
    rw [run_append_of_ok hrun, run_cons]
    cases hstep : s.step t with
    | error err =>
      obtain rfl := eq_of_step_eq_error hstep
      rfl
    | ok s' =>
      rw [hstep] at ht
      exact absurd ⟨s', rfl⟩ ht

end ParseState

namespace Expr
open ParseState (start viable_iff)

theorem ofTokens_eq_error_iff {ts : List Token} {err : Error} :
    ofTokens ts = .error err ↔
      Viable ts ∧ (∀ e, ¬Derives .sum ts e) ∧ err = .unexpectedEnd ∨
        start.run ts = .error err := by
  simp only [← ofTokens_eq_ok_iff, viable_iff, ofTokens_eq]
  cases start.run ts with
  | error err' => simp [Except.bind]
  | ok s =>
    cases hfinish : s.finish with
    | ok e => simp [Except.bind, hfinish]
    | error err' =>
      obtain rfl := ParseState.eq_of_finish_eq_error hfinish
      simp [Except.bind, hfinish, eq_comm]

/-- Reading the tokens of a source fails at its end if more tokens could still make an expression of
them, and else at the first token after which none can. -/
theorem parse_eq_error_iff {source : Text} {ts : List Token} (hscan : Token.scan source = .ok ts)
    (err : Error) : parse source = .error err ↔
      Viable ts ∧ (∀ e, ¬Derives .sum ts e) ∧ err = .unexpectedEnd ∨
        ¬Viable ts ∧ ∃ before t after, ts = before ++ t :: after ∧
          (∀ us, us <+: before → Viable us) ∧ ¬Viable (before ++ [t]) ∧
            err = .unexpectedToken t := by
  have hparse : parse source = ofTokens ts := by
    rw [parse_eq, hscan]
    rfl
  rw [hparse, ofTokens_eq_error_iff, ParseState.run_eq_error_iff]
  refine or_congr_right ⟨?_, ?_⟩
  · rintro ⟨before, t, after, rfl, hbefore, ht, rfl⟩
    refine ⟨fun h => ht ?_, before, t, after, rfl, ?_, ht, rfl⟩
    · rw [List.append_cons] at h
      exact h.left_of_append
    · rintro us ⟨vs, rfl⟩
      exact hbefore.left_of_append
  · rintro ⟨_, before, t, after, hts, hbefore, ht, herr⟩
    exact ⟨before, t, after, hts, hbefore before List.prefix_rfl, ht, herr⟩

theorem crowdedSample_parse :
    parse "2(3".toList = .error (.unexpectedToken .leftParen) ∧
      ¬Viable [.number 2, .leftParen, .number 3] ∧
      parse "-(1".toList = .error .unexpectedEnd ∧ Viable [.minus, .leftParen, .number 1] := by
  have hscan : Token.scan "2(3".toList = .ok [.number 2, .leftParen, .number 3] := rfl
  have hscan' : Token.scan "-(1".toList = .ok [.minus, .leftParen, .number 1] := rfl
  have hcrowded : parse "2(3".toList = .error (.unexpectedToken .leftParen) := rfl
  have hopen : parse "-(1".toList = .error .unexpectedEnd := rfl
  refine ⟨hcrowded, ?_, hopen, ?_⟩
  · rcases (parse_eq_error_iff hscan _).1 hcrowded with ⟨_, _, herr⟩ | ⟨hviable, _⟩
    · exact nomatch herr
    · exact hviable
  · rcases (parse_eq_error_iff hscan' _).1 hopen with ⟨hviable, _⟩ | ⟨_, _, _, _, _, _, _, herr⟩
    · exact hviable
    · exact nomatch herr

end Expr
end StyleCalls.Arith
