import StyleCalls.Builtin.Math
import StyleCalls.Proofs.Arith.Grammar
import StyleCalls.Proofs.Decimal.Plain

/-! The number of a result. An expression has a finite value or none, rounding keeps it finite where
scaling overflows, and a zero loses its sign, so what is written is a plain numeral. -/

namespace StyleCalls

/-! Finite values -/

namespace Arith

theorem isFinite_of_finite_eq_ok {x y : Double} (h : finite x = .ok y) : y.isFinite = true := by
  unfold finite at h
  split at h
  · next hx => exact Except.ok.inj h ▸ hx
  · exact nomatch h

theorem Expr.isFinite_of_eval_eq_ok {e : Expr} {x : Double} (h : e.eval = .ok x) :
    x.isFinite = true := by
  cases e with
  | num y => exact isFinite_of_finite_eq_ok h
  | neg e =>
    obtain ⟨_, _, hfinite⟩ := bind_eq_ok_iff.1 h
    exact isFinite_of_finite_eq_ok hfinite
  | binary op l r =>
    obtain ⟨_, _, hr⟩ := bind_eq_ok_iff.1 h
    obtain ⟨_, _, hop⟩ := bind_eq_ok_iff.1 hr
    obtain ⟨_, _, hfinite⟩ := bind_eq_ok_iff.1 hop
    exact isFinite_of_finite_eq_ok hfinite

theorem Expr.isFinite_of_evalText_eq_ok {source : Text} {x : Double}
    (h : Expr.evalText source = .ok x) : x.isFinite = true := by
  obtain ⟨e, _, he⟩ := bind_eq_ok_iff.1 h
  exact isFinite_of_eval_eq_ok he

end Arith

namespace Binary
variable {F : Format}

/-- A finite number other than the negative zero. -/
def Printable (x : Binary F) : Prop := ∃ neg m e, x = finite neg m e ∧ (m = 0 → neg = false)

theorem Printable.isPlain_text {x : Binary F} (h : x.Printable) : Decimal.IsPlain x.text := by
  obtain ⟨neg, m, e, rfl, hneg⟩ := h
  exact Binary.isPlain_text hneg e

theorem exists_of_isFinite {x : Binary F} (h : x.isFinite = true) :
    ∃ neg m e, x = finite neg m e := by
  cases x with
  | nan => exact Bool.noConfusion h
  | infinite neg => exact Bool.noConfusion h
  | finite neg m e => exact ⟨neg, m, e, rfl⟩

theorem printable_of_isZero {x : Binary F} (h : x.isFinite = true) (hzero : x.isZero = false) :
    x.Printable := by
  obtain ⟨neg, m, e, rfl⟩ := exists_of_isFinite h
  exact ⟨neg, m, e, rfl, fun hm => absurd hm (of_decide_eq_false hzero)⟩

theorem zero_mul_finite (s t : Bool) (e f : Int) (n : Nat) :
    (finite s 0 e * finite t n f : Binary F) = zero (s != t) := by
  change ofDyadic (s != t) (0 * n) (e + f) = _
  simp [ofDyadic, ofRatio, scale]

end Binary

namespace Math
open Arith

theorem printable_zero : (0 : Double).Printable :=
  ⟨false, 0, -1074, by decide, fun _ => rfl⟩

theorem isFinite_scaled_zero (s : Bool) (e : Int) :
    ((.finite s 0 e * 100000 : Double).round / 100000).isFinite = true := by
  have hplaces : (100000 : Double) = .finite false (100000 * 2 ^ 36) (-36) := by decide
  have hzero : ∀ t, ((Binary.zero t : Double).round / 100000).isFinite = true := by decide +kernel
  have hscaled : (.finite s 0 e * 100000 : Double) = .zero (s != false) := by
    rw [hplaces]
    exact Binary.zero_mul_finite ..
  rw [hscaled]
  exact hzero _

/-- Scaling overflows only far from zero, so the number that is then kept is not a zero either. -/
theorem printable_round5 {x : Double} (hx : x.isFinite = true) : (round5 x).Printable := by
  simp only [round5]
  split
  · next hr =>
    obtain ⟨s, m, e, rfl⟩ := Binary.exists_of_isFinite hx
    refine ⟨s, m, e, rfl, ?_⟩
    rintro rfl
    rw [isFinite_scaled_zero] at hr
    exact Bool.noConfusion hr
  · next hr =>
    split
    · exact printable_zero
    · next hzero => exact Binary.printable_of_isZero (by simpa using hr) (eq_false_of_ne_true hzero)

/-- All that is arithmetic in a text, the word `pi` written out. -/
def arithmetic (expression : Text) : Text := (expandPi none expression).filter isArithmetic

theorem value_of_evalText_eq_ok {expression : Text} {x : Double}
    (h : Expr.evalText (arithmetic expression) = .ok x) : value expression = round5 x := by
  rw [value, ← arithmetic, h]

theorem value_of_evalText_eq_error {expression : Text} {err : Error}
    (h : Expr.evalText (arithmetic expression) = .error err) : value expression = 0 := by
  rw [value, ← arithmetic, h]

theorem printable_value (expression : Text) : (value expression).Printable := by
  cases h : Expr.evalText (arithmetic expression) with
  | ok x =>
    rw [value_of_evalText_eq_ok h]
    exact printable_round5 (Expr.isFinite_of_evalText_eq_ok h)
  | error err =>
    rw [value_of_evalText_eq_error h]
    exact printable_zero

/-- The first argument, empty if there is none. -/
def expressionOf (input : Text) : Text := (Arguments.split .commas input).headD []

/-- The second argument, or else the unit of the first number that has one. -/
def unitOf (input : Text) : Text :=
  (Arguments.split .commas input)[1]?.getD ((firstUnit? none (expressionOf input)).getD [])

theorem run_eq (input : Text) :
    run input = (value (expressionOf input)).text ++ unitOf input := rfl

theorem text_zero : (0 : Double).text = ['0'] := by decide

/-- The result is a plain numeral and the unit, whatever the expression is. The numeral is that of
the rounded value, and a bare zero where there is no value. -/
theorem run_plain (input : Text) : ∃ number, run input = number ++ unitOf input ∧
    Decimal.IsPlain number ∧ number ≠ ['-', '0'] ∧
      (∀ x, Expr.evalText (arithmetic (expressionOf input)) = .ok x → number = (round5 x).text) ∧
      ∀ err, Expr.evalText (arithmetic (expressionOf input)) = .error err → number = ['0'] := by
  have hplain := (printable_value (expressionOf input)).isPlain_text
  refine ⟨(value (expressionOf input)).text, run_eq input, hplain, hplain.ne_negative_zero,
    fun x hx => ?_, fun err herr => ?_⟩
  · rw [value_of_evalText_eq_ok hx]
  · rw [value_of_evalText_eq_error herr, text_zero]

end Math
end StyleCalls
