import Mathlib.Algebra.Order.Group.Abs
import StyleCalls.Proofs.Binary.Rounding

/-! Arithmetic within the range of a format. No operation on numbers gives NaN, except where infinity
or a division by zero comes in, and below the overflow what comes out is finite. -/

namespace StyleCalls.Binary
variable {F G : Format} {m n : Nat} {e f : Int}

/-! NaN -/

theorem ofRatio_ne_nan (neg : Bool) (num den : Nat) : (ofRatio neg num den : Binary F) ≠ nan := by
  rcases Nat.eq_zero_or_pos num with rfl | hnum
  · exact nofun
  · by_cases hcarry : rounded F num den = 2 ^ F.precision
    · rw [ofRatio_of_carry neg hnum hcarry]
      split <;> exact nofun
    · rw [ofRatio_of_not_carry neg hnum hcarry]
      split <;> exact nofun

theorem ofDyadic_ne_nan (neg : Bool) (m : Nat) (e : Int) : (ofDyadic neg m e : Binary F) ≠ nan :=
  ofRatio_ne_nan neg _ _

theorem convert_ne_nan {x : Binary F} (hx : x ≠ nan) : (convert x : Binary G) ≠ nan := by
  cases x with
  | nan => exact absurd rfl hx
  | infinite s => exact nofun
  | finite s m e => exact ofDyadic_ne_nan s m e

/-- Any number may be added to a finite one. -/
theorem finite_add_ne_nan (s : Bool) (m : Nat) (e : Int) {y : Binary F} (hy : y ≠ nan) :
    finite s m e + y ≠ nan := by
  cases y with
  | nan => exact absurd rfl hy
  | infinite t => exact nofun
  | finite t n f =>
    change add (finite s m e) (finite t n f) ≠ nan
    unfold add
    dsimp only
    split
    · exact nofun
    · exact ofDyadic_ne_nan _ _ _

theorem finite_div_finite (s t : Bool) (hn : n ≠ 0) :
    (finite s m e / finite t n f : Binary F) =
      ofRatio (s != t) (scale m (e - f)) (scale n (f - e)) := if_neg hn

theorem div_ne_nan {x y : Binary F} (hx : x ≠ nan) (hy : y.isFinite = true)
    (hzero : y.isZero = false) : x / y ≠ nan := by
  cases y with
  | nan => exact Bool.noConfusion hy
  | infinite t => exact Bool.noConfusion hy
  | finite t n f =>
    have hn : n ≠ 0 := of_decide_eq_false hzero
    cases x with
    | nan => exact absurd rfl hx
    | infinite s => exact nofun
    | finite s m e =>
      rw [finite_div_finite s t hn]
      exact ofRatio_ne_nan _ _ _

/-! Finite outcomes -/

theorem scale_div_scale_one (m : Nat) (e : Int) : (scale m e / scale 1 (-e) : ℚ) = m * 2 ^ e := by
  have hscale := scale_div_scale m 1 (-e)
  rwa [neg_neg, Nat.cast_one, div_one, zpow_neg, div_inv_eq_mul] at hscale

theorem scale_sub_div_scale_sub (m n : Nat) (e f : Int) :
    (scale m (e - f) / scale n (f - e) : ℚ) = m * 2 ^ e / (n * 2 ^ f) := by
  have hscale := scale_div_scale m n (f - e)
  rw [neg_sub, zpow_sub₀ two_ne_zero] at hscale
  rw [hscale]
  have hpos := two_zpow_pos f
  field_simp

theorem exists_ofDyadic_eq_finite (hF : F.Sound) (neg : Bool) {b : Int}
    (hlt : (m * 2 ^ e : ℚ) < 2 ^ b) (hmin : F.minExp + F.precision ≤ b)
    (hmax : b < F.maxExp + F.precision) :
    ∃ (m' : Nat) (e' : Int), (ofDyadic neg m e : Binary F) = finite neg m' e' ∧ F.Holds m' e' ∧
      (m' * 2 ^ e' : ℚ) ≤ 2 ^ b := by
  exact exists_ofRatio_eq_finite hF neg (scale_pos Nat.one_pos _)
    (scale_div_scale_one m e ▸ hlt) hmin hmax

theorem exists_mul_eq_finite (hF : F.Sound) (s t : Bool) {b : Int}
    (hlt : (m * 2 ^ e * (n * 2 ^ f) : ℚ) < 2 ^ b) (hmin : F.minExp + F.precision ≤ b)
    (hmax : b < F.maxExp + F.precision) :
    ∃ (m' : Nat) (e' : Int), (finite s m e * finite t n f : Binary F) = finite (s != t) m' e' ∧
      F.Holds m' e' ∧ (m' * 2 ^ e' : ℚ) ≤ 2 ^ b := by
  refine exists_ofDyadic_eq_finite hF (s != t) ?_ hmin hmax
  rw [two_zpow_add]
  push_cast
  linarith

theorem exists_div_eq_finite (hF : F.Sound) (s t : Bool) (hn : 0 < n) {b : Int}
    (hlt : (m * 2 ^ e / (n * 2 ^ f) : ℚ) < 2 ^ b) (hmin : F.minExp + F.precision ≤ b)
    (hmax : b < F.maxExp + F.precision) :
    ∃ (m' : Nat) (e' : Int), (finite s m e / finite t n f : Binary F) = finite (s != t) m' e' ∧
      F.Holds m' e' ∧ (m' * 2 ^ e' : ℚ) ≤ 2 ^ b := by
  rw [finite_div_finite s t hn.ne']
  exact exists_ofRatio_eq_finite hF (s != t) (scale_pos hn _)
    (scale_sub_div_scale_sub m n e f ▸ hlt) hmin hmax

/-- Whole numbers near a number are no further from zero than the next power of two. -/
theorem exists_round_eq_finite (hF : F.Sound) (s : Bool) {b : Nat}
    (hle : (m * 2 ^ e : ℚ) ≤ 2 ^ b) (hmin : F.minExp + F.precision ≤ (b + 1 : Nat))
    (hmax : (b + 1 : Nat) < F.maxExp + F.precision) :
    ∃ (m' : Nat) (e' : Int), round (finite s m e : Binary F) = finite s m' e' ∧
      (m' * 2 ^ e' : ℚ) ≤ 2 ^ (b + 1) := by
  have hnext : (2 : ℚ) ^ b < 2 ^ (b + 1) := pow_lt_pow_right₀ one_lt_two (Nat.lt_succ_self b)
  by_cases he : 0 ≤ e
  · exact ⟨m, e, if_pos he, hle.trans hnext.le⟩
  · have hup : nearestUp m (scale 1 (-e)) ≤ 2 ^ b := by
      refine nearestUp_le (scale_pos Nat.one_pos _) ?_
      have hscale : (scale 1 (-e) : ℚ) = (2 ^ e)⁻¹ := by
        rw [cast_scale, Nat.cast_one, one_mul, ← zpow_neg]
        congr 1
        omega
      have hcast : (m : ℚ) ≤ 2 ^ b * scale 1 (-e) := by
        rwa [hscale, ← div_eq_mul_inv, le_div_iff₀ (two_zpow_pos e)]
      exact_mod_cast hcast
    have hlt : ((nearestUp m (scale 1 (-e)) : Nat) / (1 : Nat) : ℚ) < 2 ^ ((b + 1 : Nat) : Int) := by
      rw [Nat.cast_one, div_one, zpow_natCast]
      exact lt_of_le_of_lt (by exact_mod_cast hup) hnext
    obtain ⟨m', e', hround, _, hbound⟩ := exists_ofRatio_eq_finite hF s Nat.one_pos hlt hmin hmax
    rw [zpow_natCast] at hbound
    exact ⟨m', e', (if_neg he).trans hround, hbound⟩

/-! Order -/

/-- The value of a finite number. -/
def toRat : Binary F → ℚ
  | finite neg m e => if neg then -(m * 2 ^ e) else m * 2 ^ e
  | _ => 0

theorem units_mul (neg : Bool) (m : Nat) {k : Int} (h : k ≤ e) :
    (units neg m e k * 2 ^ k : ℚ) = toRat (finite neg m e : Binary F) := by
  have hscale : (scale m (e - k) * 2 ^ k : ℚ) = m * 2 ^ e := by
    have hexp : ((e - k).toNat : Int) + k = e := by omega
    rw [cast_scale, mul_assoc, ← two_zpow_add, hexp]
  cases neg with
  | false => exact hscale
  | true =>
    change ((-(scale m (e - k) : Int) : Int) * 2 ^ k : ℚ) = -(m * 2 ^ e)
    push_cast
    rw [neg_mul, hscale]

theorem lt_finite_iff (s t : Bool) :
    lt (finite s m e) (finite t n f : Binary F) = true ↔
      toRat (finite s m e : Binary F) < toRat (finite t n f : Binary F) := by
  rw [← units_mul s m (min_le_left e f), ← units_mul t n (min_le_right e f),
    mul_lt_mul_iff_of_pos_right (two_zpow_pos _), Int.cast_lt]
  unfold lt compare?
  simp [compare_lt_iff_lt]

theorem abs_toRat (neg : Bool) (m : Nat) (e : Int) :
    |toRat (finite neg m e : Binary F)| = m * 2 ^ e := by
  have hnonneg : (0 : ℚ) ≤ m * 2 ^ e := mul_nonneg (Nat.cast_nonneg m) (two_zpow_pos e).le
  cases neg with
  | false => exact abs_of_nonneg hnonneg
  | true => exact (abs_neg _).trans (abs_of_nonneg hnonneg)

end StyleCalls.Binary
