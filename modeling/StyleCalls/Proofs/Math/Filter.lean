import StyleCalls.Proofs.Arguments.Split
import StyleCalls.Proofs.Arith.Blanks
import StyleCalls.Proofs.Math.Unit

/-! What the filter in front of arithmetic does to arithmetic. An expression of digits, points,
operators, parentheses and blanks loses nothing but its blanks, so it keeps its value. If it has none
it stays without, unless the blanks alone kept two numbers apart. -/

namespace StyleCalls.Math
open Arith Token

/-! Expressions of nothing but arithmetic and blanks -/

/-- Arithmetic, and the blanks that it may contain. -/
def Spaced (t : Text) : Prop := ∀ c ∈ t, isArithmetic c = true ∨ isSkipped c = true

theorem spaced_of_all {t : Text} (h : t.all (fun c => isArithmetic c || isSkipped c) = true) :
    Spaced t := fun c hc => Bool.or_eq_true_iff.1 (List.all_eq_true.1 h c hc)

theorem isAscii_of_isArithmetic {c : Char} (h : isArithmetic c = true) : c.isAscii = true := by
  simp only [isArithmetic, Bool.or_eq_true, decide_eq_true_eq] at h
  rcases h with ((((((hdigit | rfl) | rfl) | rfl) | rfl) | rfl) | rfl) | rfl
  · exact Unicode.isAscii_of_isAlphanum (Bool.or_eq_true_iff.2 (.inr hdigit))
  all_goals decide

theorem isAscii_of_isSkipped {c : Char} (h : isSkipped c = true) : c.isAscii = true := by
  simp only [isSkipped, Bool.or_eq_true, decide_eq_true_eq] at h
  rcases h with ((rfl | rfl) | rfl) | rfl <;> decide

theorem Spaced.ascii {t : Text} (h : Spaced t) : Ascii t :=
  fun c hc => (h c hc).elim isAscii_of_isArithmetic isAscii_of_isSkipped

/-- No character of arithmetic is a blank, and neither is a comma or part of a word or a unit. -/
theorem spaced_char {c : Char} (h : isArithmetic c = true ∨ isSkipped c = true) :
    isArithmetic c = !isSkipped c ∧ c ≠ ',' ∧ c ≠ '%' ∧ c.isAlpha = false :=
  Unicode.forall_isAscii
    (P := fun c => isArithmetic c = true ∨ isSkipped c = true →
      isArithmetic c = !isSkipped c ∧ c ≠ ',' ∧ c ≠ '%' ∧ c.isAlpha = false)
    (by decide +kernel) (h.elim isAscii_of_isArithmetic isAscii_of_isSkipped) h

theorem not_isArithmetic_of_isBlank {c : Char} (h : Unicode.isBlank c = true) :
    isArithmetic c = false := by
  by_contra hc
  have hc := eq_true_of_ne_false hc
  have hblank := Unicode.forall_isAscii
    (P := fun c => isArithmetic c = true → Unicode.isBlank c = false)
    (by decide +kernel) (isAscii_of_isArithmetic hc) hc
  rw [h] at hblank
  exact Bool.noConfusion hblank

theorem expandPi_of_not_isAlpha {t : Text} (h : ∀ c ∈ t, c.isAlpha = false) (before : Option Char) :
    expandPi before t = t := by
  fun_induction expandPi before t with
  | case1 before p i t hcond ih =>
    simp only [Bool.and_eq_true, Bool.or_eq_true, decide_eq_true_eq] at hcond
    have hp := h p (List.mem_cons_self ..)
    rcases hcond.1.1.1 with rfl | rfl <;> exact absurd hp (by decide)
  | case2 before p i t hcond ih =>
    rw [ih fun c hc => h c (List.mem_cons_of_mem p hc)]
  | case3 => rfl

theorem value_congr {s t : Text} (h : arithmetic s = arithmetic t) : value s = value t := by
  rw [value, value, ← arithmetic, ← arithmetic, h]

namespace Spaced
variable {t : Text}

theorem trim (h : Spaced t) : Spaced t.trim := by
  obtain ⟨after, ht, _⟩ := t.exists_eq_append_trim
  intro c hc
  refine h c ?_
  rw [ht]
  exact List.mem_append_right _ (List.mem_append_left _ hc)

theorem unspaced (h : Spaced t) : Spaced (unspaced t) :=
  fun c hc => h c (List.mem_filter.1 hc).1

theorem arithmetic_eq (h : Spaced t) : arithmetic t = Arith.unspaced t := by
  rw [arithmetic, expandPi_of_not_isAlpha fun c hc => (spaced_char (h c hc)).2.2.2]
  exact List.filter_congr fun c hc => (spaced_char (h c hc)).1

theorem unspaced_trim (h : Spaced t) : Arith.unspaced t.trim = Arith.unspaced t := by
  have hfilter {s : Text} (hs : Spaced s) : Arith.unspaced s = s.filter isArithmetic :=
    (List.filter_congr fun c hc => (spaced_char (hs c hc)).1).symm
  rw [hfilter h.trim, hfilter h, Text.filter_trim fun c => not_isArithmetic_of_isBlank]

theorem split_eq (h : Spaced t) :
    Arguments.split .commas t = if t.trim = [] then [] else [t.trim] := by
  have hcomma : ',' ∉ t.trim := fun hmem => (spaced_char (h.trim ',' hmem)).2.1 rfl
  have htrim := t.trimmed_trim.trim_eq_self
  rw [Arguments.split_eq, (Delimiters.whole_commas_of_notMem hcomma).stretches_eq]
  split
  · next hnil =>
    rw [hnil]
    rfl
  · next hne => rw [Arguments.kept_singleton (htrim.symm ▸ hne), htrim]

theorem expressionOf_eq (h : Spaced t) : expressionOf t = t.trim := by
  rw [expressionOf, h.split_eq]
  split
  · next hnil => exact hnil.symm
  · rfl

/-- There is nothing in the text that a unit could begin with. -/
theorem firstUnit?_eq (h : Spaced t) : firstUnit? none t = none := by
  rw [Option.eq_none_iff_forall_ne_some]
  intro unit hunit
  obtain ⟨before, digits, after, hfirst⟩ := exists_firstUnitRun hunit
  obtain ⟨c, w, rfl, hc⟩ := hfirst.run.unit.exists_cons
  have hmem : c ∈ t := by
    rw [hfirst.run.text]
    simp
  obtain ⟨_, _, hpercent, halpha⟩ := spaced_char (h c hmem)
  rcases hc with rfl | hc
  · exact hpercent rfl
  · rw [hc] at halpha
    exact Bool.noConfusion halpha

theorem unitOf_eq (h : Spaced t) : unitOf t = [] := by
  have hnone : (Arguments.split .commas t)[1]? = none := by
    rw [h.split_eq]
    split <;> rfl
  rw [unitOf, hnone, h.expressionOf_eq, h.trim.firstUnit?_eq]
  rfl

/-- Nothing but the blanks is lost. -/
theorem run_eq (h : Spaced t) : run t = (value (Arith.unspaced t)).text := by
  have harithmetic : arithmetic t.trim = arithmetic (Arith.unspaced t) := by
    rw [h.trim.arithmetic_eq, h.unspaced.arithmetic_eq, h.unspaced_trim, Arith.unspaced_unspaced]
  rw [Math.run_eq, h.unitOf_eq, List.append_nil, h.expressionOf_eq, value_congr harithmetic]

theorem arithmetic_unspaced (h : Spaced t) : arithmetic (Arith.unspaced t) = Arith.unspaced t := by
  rw [h.unspaced.arithmetic_eq, Arith.unspaced_unspaced]

end Spaced

/-- What is printed for an expression is its rounded value, and a zero if it has none and no blanks
part two numbers in it. Blanks make no difference to what is printed, though between two numbers they
leave the expression without a value. -/
theorem run_of_spaced {t : Text} (h : Spaced t) :
    (∀ x, Expr.evalText t = .ok x → run t = (round5 x).text) ∧
      (∀ err, Expr.evalText t = .error err → ¬Gapped t → run t = ['0']) ∧
        run t = run (unspaced t) ∧ (Gapped t → ∃ err, Expr.evalText t = .error err) := by
  have hgapped : Gapped t → ∃ err, Expr.evalText t = .error err :=
    Expr.exists_error_of_gapped h.ascii
  have heval (hgap : ¬Gapped t) : Expr.evalText (arithmetic (unspaced t)) = Expr.evalText t := by
    rw [h.arithmetic_unspaced, Expr.evalText_unspaced h.ascii hgap]
  refine ⟨fun x hx => ?_, fun err herr hgap => ?_, ?_, hgapped⟩
  · have hgap : ¬Gapped t := by
      intro hgap
      obtain ⟨err, herr⟩ := hgapped hgap
      rw [hx] at herr
      exact nomatch herr
    rw [h.run_eq, value_of_evalText_eq_ok ((heval hgap).trans hx)]
  · rw [h.run_eq, value_of_evalText_eq_error ((heval hgap).trans herr), text_zero]
  · rw [h.run_eq, h.unspaced.run_eq, unspaced_unspaced]

theorem spacedSample_run :
    Spaced "-(1 + .5)*\t2 / 4".toList ∧ run "-(1 + .5)*\t2 / 4".toList = "-0.75".toList ∧
      Spaced "1/(2-2)".toList ∧ Expr.evalText "1/(2-2)".toList = .error .divisionByZero ∧
        run "1/(2-2)".toList = ['0'] := by
  have hspaced : Spaced "-(1 + .5)*\t2 / 4".toList := spaced_of_all (by decide)
  have hspaced' : Spaced "1/(2-2)".toList := spaced_of_all (by decide)
  have heval : Expr.evalText "-(1 + .5)*\t2 / 4".toList =
      .ok (.finite true 6755399441055744 (-53)) := by decide +kernel
  have heval' : Expr.evalText "1/(2-2)".toList = .error .divisionByZero := by decide +kernel
  refine ⟨hspaced, ?_, hspaced', heval', ?_⟩
  · rw [(run_of_spaced hspaced).1 _ heval]
    decide +kernel
  · exact (run_of_spaced hspaced').2.1 _ heval' (not_gapped_unspaced "1/(2-2)".toList)

/-- Between two numbers blanks are lost too, and what had no value gets one. -/
theorem not_forall_run_eq_text_of_evalText : ¬∀ t, Spaced t →
    run t = match Expr.evalText t with
      | .ok x => (round5 x).text
      | .error _ => ['0'] := by
  intro h
  have hspaced : Spaced "1 2".toList := spaced_of_all (by decide)
  have heval : Expr.evalText "1 2".toList = .error (.unexpectedToken (.number 2)) := by
    decide +kernel
  have hrun : run "1 2".toList = "12".toList := by decide +kernel
  have hzero := h _ hspaced
  rw [heval, hrun] at hzero
  exact absurd hzero (by decide)

end StyleCalls.Math
