import Mathlib.Algebra.Order.Field.Power
import Mathlib.Algebra.Order.Floor.Semifield
import Mathlib.Data.Int.Log
import Mathlib.Data.Rat.Floor
import Mathlib.Tactic.FieldSimp
import Mathlib.Tactic.Linarith
import Mathlib.Tactic.NormNum
import Mathlib.Tactic.Positivity
import Mathlib.Tactic.Ring
import StyleCalls.Binary.Arith

/-! What rounding does to a quotient. The rational numbers are where the exact operation takes
place; the last place of a number follows from the binary logarithm of its magnitude. -/

namespace StyleCalls

/-- A format with a mantissa and an exponent. -/
structure Format.Sound (F : Format) : Prop where
  precision_pos : 0 < F.precision
  minExp_le_maxExp : F.minExp ≤ F.maxExp

/-- Mantissa and exponent as rounding leaves them: the mantissa has all its bits, unless the
exponent is the least one. -/
structure Format.Holds (F : Format) (m : Nat) (e : Int) : Prop where
  lt : m < 2 ^ F.precision
  minExp_le : F.minExp ≤ e
  le_maxExp : e ≤ F.maxExp
  full : e = F.minExp ∨ 2 ^ (F.precision - 1) ≤ m

theorem Format.single_sound : Format.single.Sound := ⟨by decide, by decide⟩

theorem Format.Sound.holds_zero {F : Format} (hF : F.Sound) : F.Holds 0 F.minExp :=
  ⟨Nat.pow_pos two_pos, le_rfl, hF.minExp_le_maxExp, .inl rfl⟩

/-! Integers near a quotient -/

theorem nearestEven_eq {n d q : Nat} (hd : 0 < d) (hlow : 2 * (q * d) ≤ 2 * n + d)
    (hhigh : 2 * n ≤ 2 * (q * d) + d)
    (hodd : q % 2 = 1 → 2 * (q * d) < 2 * n + d ∧ 2 * n < 2 * (q * d) + d) :
    nearestEven n d = q := by
  have hdiv : n / d * d + n % d = n := Nat.div_add_mod' n d
  have hmod : n % d < d := Nat.mod_lt n hd
  unfold nearestEven
  simp only [Bool.or_eq_true, Bool.and_eq_true, decide_eq_true_eq]
  obtain hq | rfl | rfl | hq : q + 1 ≤ n / d ∨ q = n / d ∨ q = n / d + 1 ∨ n / d + 2 ≤ q := by omega
  · have hmul := Nat.mul_le_mul_right d hq
    rw [Nat.add_mul] at hmul
    omega
  · rw [if_pos]
    omega
  · rw [Nat.add_mul] at hlow hhigh hodd
    rw [if_neg]
    omega
  · have hmul := Nat.mul_le_mul_right d hq
    rw [Nat.add_mul] at hmul
    omega

theorem nearestEven_le {n d b : Nat} (hd : 0 < d) (h : n ≤ b * d) : nearestEven n d ≤ b := by
  have hle : n / d ≤ b := Nat.div_le_of_le_mul (Nat.mul_comm b d ▸ h)
  unfold nearestEven
  simp only
  split
  · exact hle
  · next hup =>
    rcases Nat.lt_or_eq_of_le hle with hlt | rfl
    · exact hlt
    · have hdiv : n / d * d + n % d = n := Nat.div_add_mod' n d
      simp only [Bool.or_eq_true, decide_eq_true_eq] at hup
      omega

theorem le_nearestEven {n d b : Nat} (hd : 0 < d) (h : b * d ≤ n) : b ≤ nearestEven n d := by
  have hle : b ≤ n / d := (Nat.le_div_iff_mul_le hd).2 h
  unfold nearestEven
  simp only
  split
  · exact hle
  · exact hle.trans (Nat.le_succ _)

theorem nearestUp_le {n d b : Nat} (hd : 0 < d) (h : n ≤ b * d) : nearestUp n d ≤ b := by
  refine Nat.le_of_lt_succ ((Nat.div_lt_iff_lt_mul (by omega)).2 ?_)
  calc 2 * n + d < 2 * (b * d) + 2 * d := by omega
    _ = (b + 1) * (2 * d) := by ring

namespace Binary
variable {F : Format} {num den : Nat}

theorem two_zpow_pos (e : Int) : (0 : ℚ) < 2 ^ e := zpow_pos two_pos e

theorem two_zpow_add (e k : Int) : (2 : ℚ) ^ (e + k) = 2 ^ e * 2 ^ k := zpow_add₀ two_ne_zero e k

theorem cast_scale (n : Nat) (k : Int) : (scale n k : ℚ) = n * 2 ^ (k.toNat : Int) := by
  rw [scale, Nat.pow_eq]
  push_cast
  rw [zpow_natCast]

theorem scale_pos {n : Nat} (hn : 0 < n) (k : Int) : 0 < scale n k :=
  Nat.mul_pos hn (Nat.pow_pos two_pos)

/-- The two sides of a quotient scaled make a quotient scaled. -/
theorem scale_div_scale (num den : Nat) (k : Int) :
    (scale num (-k) / scale den k : ℚ) = num / den / 2 ^ k := by
  have hk : (2 : ℚ) ^ k = 2 ^ (k.toNat : Int) / 2 ^ ((-k).toNat : Int) := by
    rw [← zpow_sub₀ two_ne_zero]
    congr 1
    omega
  rw [cast_scale, cast_scale, hk]
  have hpos := two_zpow_pos (k.toNat : Int)
  field_simp

theorem scale_lt_scale (hden : 0 < den) (k : Int) :
    scale num (-k) < scale den k ↔ (num / den : ℚ) < 2 ^ k := by
  have hscale : (0 : ℚ) < scale den k := Nat.cast_pos.2 (scale_pos hden k)
  rw [← div_lt_one (two_zpow_pos k), ← scale_div_scale, div_lt_one hscale, Nat.cast_lt]

theorem two_zpow_le_iff_le_log {x : ℚ} (hx : 0 < x) (k : Int) : 2 ^ k ≤ x ↔ k ≤ Int.log 2 x :=
  Int.zpow_le_iff_le_log one_lt_two hx

theorem lt_two_zpow_iff_log_lt {x : ℚ} (hx : 0 < x) (k : Int) : x < 2 ^ k ↔ Int.log 2 x < k :=
  Int.lt_zpow_iff_log_lt one_lt_two hx

/-- The lengths of the two sides leave two places for the first bit of the quotient. -/
theorem log_quotient_mem (hnum : 0 < num) (hden : 0 < den) :
    (num.log2 : Int) - den.log2 - 1 ≤ Int.log 2 (num / den : ℚ) ∧
      Int.log 2 (num / den : ℚ) < (num.log2 : Int) - den.log2 + 1 := by
  have hq : (0 : ℚ) < num / den := div_pos (Nat.cast_pos.2 hnum) (Nat.cast_pos.2 hden)
  have hden' : (0 : ℚ) < den := Nat.cast_pos.2 hden
  have hnumle : (2 : ℚ) ^ (num.log2 : Int) ≤ num := by
    rw [zpow_natCast]
    exact_mod_cast Nat.log2_self_le hnum.ne'
  have hnumlt : (num : ℚ) < 2 ^ ((num.log2 : Int) + 1) := by
    exact_mod_cast (Nat.lt_log2_self (n := num))
  have hdenle : (2 : ℚ) ^ (den.log2 : Int) ≤ den := by
    rw [zpow_natCast]
    exact_mod_cast Nat.log2_self_le hden.ne'
  have hdenlt : (den : ℚ) < 2 ^ ((den.log2 : Int) + 1) := by
    exact_mod_cast (Nat.lt_log2_self (n := den))
  constructor
  · rw [← two_zpow_le_iff_le_log hq, le_div_iff₀ hden']
    calc (2 : ℚ) ^ ((num.log2 : Int) - den.log2 - 1) * den
        ≤ 2 ^ ((num.log2 : Int) - den.log2 - 1) * 2 ^ ((den.log2 : Int) + 1) :=
          mul_le_mul_of_nonneg_left hdenlt.le (two_zpow_pos _).le
      _ = 2 ^ (num.log2 : Int) := by
          rw [← two_zpow_add]
          congr 1
          omega
      _ ≤ num := hnumle
  · rw [← lt_two_zpow_iff_log_lt hq, div_lt_iff₀ hden']
    calc (num : ℚ) < 2 ^ ((num.log2 : Int) + 1) := hnumlt
      _ = 2 ^ ((num.log2 : Int) - den.log2 + 1) * 2 ^ (den.log2 : Int) := by
          rw [← two_zpow_add]
          congr 1
          omega
      _ ≤ 2 ^ ((num.log2 : Int) - den.log2 + 1) * den :=
          mul_le_mul_of_nonneg_left hdenle (two_zpow_pos _).le

theorem lastPlace_eq_log (hnum : 0 < num) (hden : 0 < den) :
    lastPlace F num den = max F.minExp (Int.log 2 (num / den : ℚ) + 1 - F.precision) := by
  have hq : (0 : ℚ) < num / den := div_pos (Nat.cast_pos.2 hnum) (Nat.cast_pos.2 hden)
  obtain ⟨hlow, hhigh⟩ := log_quotient_mem hnum hden
  unfold lastPlace
  simp only [scale_lt_scale hden, lt_two_zpow_iff_log_lt hq]
  split <;> congr 1 <;> omega

/-- The least exponent for which the mantissa stays below its bound. -/
theorem lastPlace_eq {e : Int} (hnum : 0 < num) (hden : 0 < den) (hmin : F.minExp ≤ e)
    (hlt : (num / den : ℚ) < 2 ^ (e + F.precision))
    (hfull : e = F.minExp ∨ (2 : ℚ) ^ (e + F.precision - 1) ≤ num / den) :
    lastPlace F num den = e := by
  have hq : (0 : ℚ) < num / den := div_pos (Nat.cast_pos.2 hnum) (Nat.cast_pos.2 hden)
  rw [lt_two_zpow_iff_log_lt hq] at hlt
  rw [two_zpow_le_iff_le_log hq] at hfull
  rw [lastPlace_eq_log hnum hden]
  omega

theorem lt_two_zpow_lastPlace (F : Format) (hnum : 0 < num) (hden : 0 < den) :
    (num / den : ℚ) < 2 ^ (lastPlace F num den + F.precision) := by
  have hq : (0 : ℚ) < num / den := div_pos (Nat.cast_pos.2 hnum) (Nat.cast_pos.2 hden)
  rw [lt_two_zpow_iff_log_lt hq, lastPlace_eq_log hnum hden]
  omega

theorem two_zpow_lastPlace_le (hnum : 0 < num) (hden : 0 < den)
    (h : lastPlace F num den ≠ F.minExp) :
    (2 : ℚ) ^ (lastPlace F num den + F.precision - 1) ≤ num / den := by
  have hq : (0 : ℚ) < num / den := div_pos (Nat.cast_pos.2 hnum) (Nat.cast_pos.2 hden)
  rw [two_zpow_le_iff_le_log hq]
  rw [lastPlace_eq_log hnum hden] at h ⊢
  omega

/-- The integer that becomes the mantissa, before a carry. -/
def rounded (F : Format) (num den : Nat) : Nat :=
  nearestEven (scale num (-lastPlace F num den)) (scale den (lastPlace F num den))

theorem rounded_eq {q : Nat} (hden : 0 < den)
    (hlow : (2 * q - 1) * 2 ^ lastPlace F num den ≤ 2 * (num / den : ℚ))
    (hhigh : 2 * (num / den : ℚ) ≤ (2 * q + 1) * 2 ^ lastPlace F num den)
    (hodd : q % 2 = 1 → (2 * q - 1) * 2 ^ lastPlace F num den < 2 * (num / den : ℚ) ∧
      2 * (num / den : ℚ) < (2 * q + 1) * 2 ^ lastPlace F num den) :
    rounded F num den = q := by
  have hpos := two_zpow_pos (lastPlace F num den)
  have hquotient : (num / den : ℚ) =
      scale num (-lastPlace F num den) / scale den (lastPlace F num den) *
        2 ^ lastPlace F num den := by
    rw [scale_div_scale, div_mul_cancel₀ _ hpos.ne']
  have hscale : 0 < scale den (lastPlace F num den) := scale_pos hden _
  unfold rounded
  rw [hquotient, ← mul_assoc] at hlow hhigh hodd
  generalize scale num (-lastPlace F num den) = n at hlow hhigh hodd ⊢
  generalize scale den (lastPlace F num den) = d at hlow hhigh hodd hscale ⊢
  have hd : (0 : ℚ) < d := Nat.cast_pos.2 hscale
  rw [mul_le_mul_iff_of_pos_right hpos, ← mul_div_assoc, le_div_iff₀ hd] at hlow
  rw [mul_le_mul_iff_of_pos_right hpos, ← mul_div_assoc, div_le_iff₀ hd] at hhigh
  rw [mul_lt_mul_iff_of_pos_right hpos, mul_lt_mul_iff_of_pos_right hpos, ← mul_div_assoc,
    lt_div_iff₀ hd, div_lt_iff₀ hd] at hodd
  have hlow' : (2 * (q * d) : ℚ) ≤ 2 * n + d := by linarith
  have hhigh' : (2 * n : ℚ) ≤ 2 * (q * d) + d := by linarith
  refine nearestEven_eq hscale (by exact_mod_cast hlow') (by exact_mod_cast hhigh') fun hq => ?_
  obtain ⟨hlt, hgt⟩ := hodd hq
  have hlt' : (2 * (q * d) : ℚ) < 2 * n + d := by linarith
  have hgt' : (2 * n : ℚ) < 2 * (q * d) + d := by linarith
  exact ⟨by exact_mod_cast hlt', by exact_mod_cast hgt'⟩

theorem rounded_le (F : Format) (hnum : 0 < num) (hden : 0 < den) :
    rounded F num den ≤ 2 ^ F.precision := by
  refine nearestEven_le (scale_pos hden _) ?_
  have hscale : (0 : ℚ) < scale den (lastPlace F num den) := Nat.cast_pos.2 (scale_pos hden _)
  have hlt := lt_two_zpow_lastPlace F hnum hden
  rw [two_zpow_add, mul_comm, ← div_lt_iff₀ (two_zpow_pos _), ← scale_div_scale,
    div_lt_iff₀ hscale, zpow_natCast] at hlt
  exact_mod_cast hlt.le

theorem le_rounded (hp : 0 < F.precision) (hnum : 0 < num) (hden : 0 < den)
    (h : lastPlace F num den ≠ F.minExp) : 2 ^ (F.precision - 1) ≤ rounded F num den := by
  refine le_nearestEven (scale_pos hden _) ?_
  have hscale : (0 : ℚ) < scale den (lastPlace F num den) := Nat.cast_pos.2 (scale_pos hden _)
  have hle := two_zpow_lastPlace_le hnum hden h
  have hexp : lastPlace F num den + F.precision - 1 =
      lastPlace F num den + ((F.precision - 1 : Nat) : Int) := by omega
  rw [hexp, two_zpow_add, mul_comm, ← le_div_iff₀ (two_zpow_pos _), ← scale_div_scale,
    le_div_iff₀ hscale, zpow_natCast] at hle
  exact_mod_cast hle

theorem ofRatio_of_not_carry (neg : Bool) (hnum : 0 < num)
    (h : rounded F num den ≠ 2 ^ F.precision) :
    (ofRatio neg num den : Binary F) =
      if F.maxExp < lastPlace F num den then infinite neg
      else finite neg (rounded F num den) (lastPlace F num den) := by
  unfold rounded at h ⊢
  unfold ofRatio
  simp only [Nat.pow_eq]
  rw [if_neg hnum.ne', if_neg h]

/-- A mantissa that has become too long by one bit is halved. -/
theorem ofRatio_of_carry (neg : Bool) (hnum : 0 < num)
    (h : rounded F num den = 2 ^ F.precision) :
    (ofRatio neg num den : Binary F) =
      if F.maxExp < lastPlace F num den + 1 then infinite neg
      else finite neg (2 ^ (F.precision - 1)) (lastPlace F num den + 1) := by
  unfold rounded at h
  unfold ofRatio
  simp only [Nat.pow_eq]
  rw [if_neg hnum.ne', if_pos h]

/-- The outcome of rounding; a carry keeps the value. -/
theorem exists_ofRatio_eq (hp : 0 < F.precision) (neg : Bool) (hnum : 0 < num) (hden : 0 < den) :
    ∃ (m : Nat) (e : Int), m < 2 ^ F.precision ∧ F.minExp ≤ e ∧
      (e = F.minExp ∨ 2 ^ (F.precision - 1) ≤ m) ∧
      (m * 2 ^ e : ℚ) = rounded F num den * 2 ^ lastPlace F num den ∧
      (ofRatio neg num den : Binary F) = if F.maxExp < e then infinite neg else finite neg m e := by
  have hmin : F.minExp ≤ lastPlace F num den := le_max_left _ _
  have hpow : 2 ^ F.precision = 2 * 2 ^ (F.precision - 1) := by
    rw [← Nat.pow_succ']
    congr 1
    omega
  by_cases hcarry : rounded F num den = 2 ^ F.precision
  · refine ⟨2 ^ (F.precision - 1), lastPlace F num den + 1, ?_, by omega, .inr le_rfl, ?_, ?_⟩
    · have hpos : 0 < 2 ^ (F.precision - 1) := Nat.pow_pos two_pos
      omega
    · rw [hcarry, hpow, two_zpow_add]
      push_cast
      ring
    · exact ofRatio_of_carry neg hnum hcarry
  · refine ⟨rounded F num den, lastPlace F num den, ?_, hmin, ?_, rfl, ?_⟩
    · exact lt_of_le_of_ne (rounded_le F hnum hden) hcarry
    · exact or_iff_not_imp_left.2 (le_rounded hp hnum hden)
    · exact ofRatio_of_not_carry neg hnum hcarry

/-- Rounding does not pass a power of two. -/
theorem rounded_mul_le {b : Int} (hnum : 0 < num) (hden : 0 < den) (hlt : (num / den : ℚ) < 2 ^ b)
    (hmin : F.minExp + F.precision ≤ b) :
    (rounded F num den * 2 ^ lastPlace F num den : ℚ) ≤ 2 ^ b := by
  have hq : (0 : ℚ) < num / den := div_pos (Nat.cast_pos.2 hnum) (Nat.cast_pos.2 hden)
  have hplace : (F.precision : Int) + lastPlace F num den ≤ b := by
    rw [lt_two_zpow_iff_log_lt hq] at hlt
    rw [lastPlace_eq_log hnum hden]
    omega
  have hle : (rounded F num den : ℚ) ≤ 2 ^ (F.precision : Int) := by
    rw [zpow_natCast]
    exact_mod_cast rounded_le F hnum hden
  calc (rounded F num den * 2 ^ lastPlace F num den : ℚ)
      ≤ 2 ^ (F.precision : Int) * 2 ^ lastPlace F num den :=
        mul_le_mul_of_nonneg_right hle (two_zpow_pos _).le
    _ = 2 ^ ((F.precision : Int) + lastPlace F num den) := (two_zpow_add _ _).symm
    _ ≤ 2 ^ b := zpow_le_zpow_right₀ one_le_two hplace

/-- Below the overflow the outcome is finite. -/
theorem exists_ofRatio_eq_finite (hF : F.Sound) (neg : Bool) (hden : 0 < den) {b : Int}
    (hlt : (num / den : ℚ) < 2 ^ b) (hmin : F.minExp + F.precision ≤ b)
    (hmax : b < F.maxExp + F.precision) :
    ∃ (m : Nat) (e : Int), (ofRatio neg num den : Binary F) = finite neg m e ∧ F.Holds m e ∧
      (m * 2 ^ e : ℚ) ≤ 2 ^ b := by
  rcases Nat.eq_zero_or_pos num with rfl | hnum
  · exact ⟨0, F.minExp, if_pos rfl, hF.holds_zero, by simpa using (two_zpow_pos b).le⟩
  · obtain ⟨m, e, hm, he, hfull, hvalue, hround⟩ := exists_ofRatio_eq hF.precision_pos neg hnum hden
    have hle : (m * 2 ^ e : ℚ) ≤ 2 ^ b := hvalue ▸ rounded_mul_le hnum hden hlt hmin
    have hexp : e ≤ F.maxExp := by
      rcases hfull with rfl | hbits
      · exact hF.minExp_le_maxExp
      · have hbits' : (2 : ℚ) ^ ((F.precision - 1 : Nat) : Int) ≤ m := by
          rw [zpow_natCast]
          exact_mod_cast hbits
        have hpow : (2 : ℚ) ^ (((F.precision - 1 : Nat) : Int) + e) ≤ 2 ^ b := by
          rw [two_zpow_add]
          exact (mul_le_mul_of_nonneg_right hbits' (two_zpow_pos e).le).trans hle
        have hexp := (zpow_le_zpow_iff_right₀ one_lt_two).1 hpow
        have hp := hF.precision_pos
        omega
    exact ⟨m, e, hround.trans (if_neg hexp.not_gt), ⟨hm, he, hexp, hfull⟩, hle⟩

end Binary
end StyleCalls
