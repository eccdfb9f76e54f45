import StyleCalls.Decimal.Nearest
import StyleCalls.Proofs.Binary.Rounding
import StyleCalls.Proofs.Decimal.Reading

/-! A number and its text. The decimal that is written lies between the halfway points to the
neighbours of the number, and everything there rounds to the number, so that the text read again
gives the same number. -/

namespace StyleCalls

/-- The value without the sign. -/
def Decimal.magnitude (d : Decimal) : ℚ := d.digits * 10 ^ d.exp

namespace Binary
variable {F : Format} {m : Nat} {e : Int}

/-- Halfway down to the neighbour below, in quarters of the last place. -/
def lowEnd (F : Format) (m : Nat) (e : Int) : Nat :=
  if m = Nat.pow 2 (F.precision - 1) && F.minExp < e then 4 * m - 1 else 4 * m - 2

/-- The numbers that round to `m · 2 ^ e`, those halfway to a neighbour only if `m` is even. -/
structure RoundsTo (F : Format) (m : Nat) (e : Int) (x : ℚ) : Prop where
  low : lowEnd F m e * 2 ^ (e - 2) ≤ x
  high : x ≤ (4 * m + 2) * 2 ^ (e - 2)
  odd : m % 2 = 1 → lowEnd F m e * 2 ^ (e - 2) < x ∧ x < (4 * m + 2) * 2 ^ (e - 2)

theorem lowEnd_of_half (h : m = 2 ^ (F.precision - 1)) (he : F.minExp < e) :
    lowEnd F m e = 4 * m - 1 := by
  unfold lowEnd
  rw [if_pos]
  simp [h, he]

theorem le_lowEnd (F : Format) (m : Nat) (e : Int) : 4 * m ≤ lowEnd F m e + 2 := by
  unfold lowEnd
  split <;> omega

theorem lowEnd_lt (F : Format) (hm : 0 < m) (e : Int) : lowEnd F m e < 4 * m := by
  unfold lowEnd
  split <;> omega

theorem two_zpow_eq_quarters (e : Int) : (2 : ℚ) ^ e = 4 * 2 ^ (e - 2) := by
  have hexp : e = 2 + (e - 2) := by omega
  conv_lhs => rw [hexp, two_zpow_add]
  norm_num

/-! Comparisons with a decimal are exact -/

theorem zpow_mul_pow_toNat {b : ℚ} (hb : b ≠ 0) (k : Int) :
    b ^ k * b ^ (-k).toNat = b ^ k.toNat := by
  rw [← zpow_natCast, ← zpow_natCast, ← zpow_add₀ hb]
  congr 1
  omega

theorem compareDecimal_eq (c : Nat) (k : Int) (n : Nat) (j : Int) :
    compareDecimal c k n j = compare (c * 10 ^ k : ℚ) (n * 2 ^ j) := by
  have hten : (10 : ℚ) ^ k * 10 ^ (-k).toNat = 10 ^ k.toNat := zpow_mul_pow_toNat (by norm_num) k
  have htwo : (2 : ℚ) ^ j * 2 ^ (-j).toNat = 2 ^ j.toNat := zpow_mul_pow_toNat two_ne_zero j
  have hpos : (0 : ℚ) < 10 ^ (-k).toNat * 2 ^ (-j).toNat := by positivity
  have hleft : ((c * 10 ^ k.toNat * 2 ^ (-j).toNat : Nat) : ℚ) =
      c * 10 ^ k * (10 ^ (-k).toNat * 2 ^ (-j).toNat) := by
    push_cast
    rw [← hten]
    ring
  have hright : ((n * 2 ^ j.toNat * 10 ^ (-k).toNat : Nat) : ℚ) =
      n * 2 ^ j * (10 ^ (-k).toNat * 2 ^ (-j).toNat) := by
    push_cast
    rw [← htwo]
    ring
  have hlt : c * 10 ^ k.toNat * 2 ^ (-j).toNat < n * 2 ^ j.toNat * 10 ^ (-k).toNat ↔
      (c * 10 ^ k : ℚ) < n * 2 ^ j := by
    rw [← Nat.cast_lt (α := ℚ), hleft, hright, mul_lt_mul_iff_of_pos_right hpos]
  have hgt : n * 2 ^ j.toNat * 10 ^ (-k).toNat < c * 10 ^ k.toNat * 2 ^ (-j).toNat ↔
      (n * 2 ^ j : ℚ) < c * 10 ^ k := by
    rw [← Nat.cast_lt (α := ℚ), hleft, hright, mul_lt_mul_iff_of_pos_right hpos]
  unfold compareDecimal
  simp only [Nat.pow_eq]
  rcases lt_trichotomy (c * 10 ^ k : ℚ) (n * 2 ^ j) with h | h | h
  · rw [compare_lt_iff_lt.2 h, compare_lt_iff_lt.2 (hlt.2 h)]
  · rw [compare_eq_iff_eq.2 h, compare_eq_iff_eq]
    exact le_antisymm (not_lt.1 fun hc => h.not_gt (hgt.1 hc))
      (not_lt.1 fun hc => h.not_lt (hlt.1 hc))
  · rw [compare_gt_iff_gt.2 h, compare_gt_iff_gt.2 (hgt.2 h)]

theorem roundsTo_of_readsBack {c : Nat} {k : Int} (h : readsBack F m e c k = true) :
    RoundsTo F m e (c * 10 ^ k) := by
  unfold readsBack at h
  simp only [compareDecimal_eq] at h
  change (if m % 2 = 0 then
      compare (c * 10 ^ k : ℚ) (lowEnd F m e * 2 ^ (e - 2)) != .lt &&
        compare (c * 10 ^ k : ℚ) ((4 * m + 2 : Nat) * 2 ^ (e - 2)) != .gt
    else decide (compare (c * 10 ^ k : ℚ) (lowEnd F m e * 2 ^ (e - 2)) = .gt) &&
        decide (compare (c * 10 ^ k : ℚ) ((4 * m + 2 : Nat) * 2 ^ (e - 2)) = .lt)) = true at h
  push_cast at h
  split at h
  · next heven =>
    simp only [Bool.and_eq_true, bne_iff_ne, ne_eq, compare_lt_iff_lt, compare_gt_iff_gt,
      not_lt] at h
    exact ⟨h.1, h.2, fun hodd => absurd hodd (by omega)⟩
  · simp only [Bool.and_eq_true, decide_eq_true_eq, compare_lt_iff_lt, compare_gt_iff_gt] at h
    exact ⟨h.1.le, h.2.le, fun _ => h⟩

theorem roundsTo_self (hm : 0 < m) (e : Int) : RoundsTo F m e (m * 2 ^ e) := by
  have hquarter := two_zpow_pos (e - 2)
  have hlt : (lowEnd F m e : ℚ) < 4 * m := by exact_mod_cast lowEnd_lt F hm e
  have hlow := mul_lt_mul_of_pos_right hlt hquarter
  rw [two_zpow_eq_quarters e]
  exact ⟨by linarith, by linarith, fun _ => ⟨by linarith, by linarith⟩⟩

section
variable {x : ℚ} (hx : RoundsTo F m e x)
include hx

theorem RoundsTo.two_zpow_le (hm : 0 < m) : 2 ^ (e - 2) ≤ x := by
  have hle := le_lowEnd F m e
  have hone : (1 : ℚ) ≤ lowEnd F m e := by exact_mod_cast (by omega : 1 ≤ lowEnd F m e)
  calc (2 : ℚ) ^ (e - 2) = 1 * 2 ^ (e - 2) := (one_mul _).symm
    _ ≤ lowEnd F m e * 2 ^ (e - 2) := mul_le_mul_of_nonneg_right hone (two_zpow_pos _).le
    _ ≤ x := hx.low

theorem RoundsTo.lt_two_zpow (h : F.Holds m e) : x < 2 ^ (e + F.precision) := by
  have hquarter := two_zpow_pos (e - 2)
  have hbits : (m + 1 : ℚ) ≤ 2 ^ (F.precision : Int) := by
    rw [zpow_natCast]
    exact_mod_cast h.lt
  calc x ≤ (4 * m + 2) * 2 ^ (e - 2) := hx.high
    _ < (m + 1) * 2 ^ e := by
        rw [two_zpow_eq_quarters e]
        linarith
    _ ≤ 2 ^ (F.precision : Int) * 2 ^ e := mul_le_mul_of_nonneg_right hbits (two_zpow_pos e).le
    _ = 2 ^ (e + F.precision) := by rw [two_zpow_add, mul_comm]

end

/-! Everything between the halfway points rounds to the number -/

section
variable {num den : Nat} (hx : RoundsTo F m e (num / den)) (hden : 0 < den)
include hx hden

theorem RoundsTo.num_pos (hm : 0 < m) : 0 < num := by
  have hpos : (0 : ℚ) < num / den := (two_zpow_pos _).trans_le (hx.two_zpow_le hm)
  exact Nat.cast_pos.1 ((div_pos_iff_of_pos_right (Nat.cast_pos.2 hden)).1 hpos)

/-- The case of equally spaced neighbours. -/
theorem RoundsTo.ofRatio_eq_of_le (neg : Bool) (hm : 0 < m) (h : F.Holds m e)
    (hfull : e = F.minExp ∨ (2 : ℚ) ^ (e + F.precision - 1) ≤ num / den) :
    (ofRatio neg num den : Binary F) = finite neg m e := by
  have hnum := hx.num_pos hden hm
  have hquarter := two_zpow_pos (e - 2)
  have hplace : (2 : ℚ) ^ e = 4 * 2 ^ (e - 2) := two_zpow_eq_quarters e
  have hlowEnd : (4 * m - 2 : ℚ) * 2 ^ (e - 2) ≤ lowEnd F m e * 2 ^ (e - 2) := by
    have hle : (4 * m : ℚ) ≤ lowEnd F m e + 2 := by exact_mod_cast le_lowEnd F m e
    exact mul_le_mul_of_nonneg_right (by linarith) hquarter.le
  have hlast : lastPlace F num den = e :=
    lastPlace_eq hnum hden h.minExp_le (hx.lt_two_zpow h) hfull
  have hround : rounded F num den = m := by
    refine rounded_eq hden ?_ ?_ fun hodd => ?_
    · rw [hlast, hplace]
      linarith [hx.low]
    · rw [hlast, hplace]
      linarith [hx.high]
    · rw [hlast, hplace]
      obtain ⟨hlow, hhigh⟩ := hx.odd hodd
      constructor <;> linarith
  rw [ofRatio_of_not_carry neg hnum (hround.trans_ne h.lt.ne), hround, hlast,
    if_neg h.le_maxExp.not_gt]

/-- Below a power of two the numbers are closer to each other, and those that round up to it do so
by a carry. -/
theorem RoundsTo.ofRatio_eq_of_lt (hp : 0 < F.precision) (neg : Bool) (hm : 0 < m)
    (h : F.Holds m e) (hne : e ≠ F.minExp) (hlt : (num / den : ℚ) < 2 ^ (e + F.precision - 1)) :
    (ofRatio neg num den : Binary F) = finite neg m e := by
  have hnum := hx.num_pos hden hm
  have hquarter := two_zpow_pos (e - 2)
  have hmin : F.minExp < e := lt_of_le_of_ne h.minExp_le hne.symm
  have hexp : e + F.precision - 1 = e + ((F.precision - 1 : Nat) : Int) := by omega
  rw [hexp, two_zpow_add, two_zpow_eq_quarters, zpow_natCast] at hlt
  have hhalf : m = 2 ^ (F.precision - 1) := by
    by_contra hnot
    have hsucc : (2 ^ (F.precision - 1) + 1 : ℚ) ≤ m := by
      exact_mod_cast Nat.lt_of_le_of_ne (h.full.resolve_left hne) (Ne.symm hnot)
    have hle : (4 * m : ℚ) ≤ lowEnd F m e + 2 := by exact_mod_cast le_lowEnd F m e
    have hlow : (4 * 2 ^ (F.precision - 1) + 2 : ℚ) * 2 ^ (e - 2) ≤ num / den :=
      (mul_le_mul_of_nonneg_right (by linarith) hquarter.le).trans hx.low
    linarith
  have hone : (1 : ℚ) ≤ 2 ^ (F.precision - 1) := one_le_pow₀ one_le_two
  have hlow : (4 * 2 ^ (F.precision - 1) - 1 : ℚ) * 2 ^ (e - 2) ≤ num / den := by
    have hlowEnd : (lowEnd F m e : ℚ) + 1 = 4 * 2 ^ (F.precision - 1) := by
      have heq : lowEnd F m e + 1 = 4 * m := by
        rw [lowEnd_of_half hhalf hmin]
        omega
      rw [hhalf] at heq ⊢
      exact_mod_cast heq
    rw [← hlowEnd, add_sub_cancel_right]
    exact hx.low
  have hbelow : (2 : ℚ) ^ (e - 1) = 2 * 2 ^ (e - 2) := by
    have hsucc : e - 1 = 1 + (e - 2) := by omega
    rw [hsucc, two_zpow_add, zpow_one]
  have hpow : 2 ^ F.precision = 2 * 2 ^ (F.precision - 1) := by
    rw [← Nat.pow_succ']
    congr 1
    omega
  have hlast : lastPlace F num den = e - 1 := by
    have hnext : e - 1 + F.precision = ((F.precision - 1 : Nat) : Int) + e := by omega
    have hthis : e - 1 + F.precision - 1 = ((F.precision - 1 : Nat) : Int) + (e - 1) := by omega
    refine lastPlace_eq hnum hden (by omega) ?_ (.inr ?_)
    · rw [hnext, two_zpow_add, two_zpow_eq_quarters e, zpow_natCast]
      linarith
    · rw [hthis, two_zpow_add, hbelow, zpow_natCast]
      refine le_trans ?_ hlow
      rw [← mul_assoc]
      exact mul_le_mul_of_nonneg_right (by linarith) hquarter.le
  have hround : rounded F num den = 2 ^ F.precision := by
    rw [hpow]
    refine rounded_eq hden ?_ ?_ fun hodd => absurd hodd (by omega)
    · rw [hlast, hbelow]
      push_cast
      linarith
    · rw [hlast, hbelow]
      push_cast
      linarith
  rw [ofRatio_of_carry neg hnum hround, hlast, Int.sub_add_cancel, if_neg h.le_maxExp.not_gt,
    ← hhalf]

theorem RoundsTo.ofRatio_eq (hp : 0 < F.precision) (neg : Bool) (hm : 0 < m) (h : F.Holds m e) :
    (ofRatio neg num den : Binary F) = finite neg m e := by
  by_cases hfull : e = F.minExp ∨ (2 : ℚ) ^ (e + F.precision - 1) ≤ num / den
  · exact hx.ofRatio_eq_of_le hden neg hm h hfull
  · rw [not_or, not_le] at hfull
    exact hx.ofRatio_eq_of_lt hden hp neg hm h hfull.1 hfull.2

end

/-- Whatever decimal is written for a number, it lies between the halfway points. -/
theorem roundsTo_shortest (neg : Bool) (hm : 0 < m) (e : Int) :
    RoundsTo F m e (shortest F neg m e).magnitude := by
  unfold shortest Decimal.magnitude
  split
  · next c k hfind =>
    obtain ⟨k', _, hgrid⟩ := List.exists_of_findSome?_eq_some hfind
    obtain ⟨c', hc, heq⟩ := Option.map_eq_some_iff.1 hgrid
    obtain ⟨rfl, rfl⟩ := Prod.mk.inj heq
    exact roundsTo_of_readsBack (readsBack_of_onGrid? hc)
  · have hexact : ((scale m e * Nat.pow 5 (-e).toNat : Nat) : ℚ) * 10 ^ min e 0 = m * 2 ^ e := by
      have hfive : (5 : ℚ) ^ ((-e).toNat : Int) * 5 ^ min e 0 = 1 := by
        rw [← zpow_add₀ (by norm_num), ← zpow_zero (5 : ℚ)]
        congr 1
        omega
      have htwo : (2 : ℚ) ^ (e.toNat : Int) * 2 ^ min e 0 = 2 ^ e := by
        rw [← two_zpow_add]
        congr 1
        omega
      have hten : (10 : ℚ) ^ min e 0 = 2 ^ min e 0 * 5 ^ min e 0 := by
        rw [← mul_zpow]
        norm_num
      rw [Nat.cast_mul, cast_scale, Nat.pow_eq, Nat.cast_pow, ← zpow_natCast, hten, ← htwo,
        ← mul_one (_ * (_ * 2 ^ min e 0)), ← hfive]
      push_cast
      ring
    dsimp only
    rw [hexact]
    exact roundsTo_self hm e

end Binary

/-- A format all of whose numbers are nearer to one than the horizon. -/
structure Format.WithinHorizon (F : Format) : Prop extends F.Sound where
  minExp_ge : -1300 ≤ F.minExp
  maxExp_le : F.maxExp + F.precision ≤ 1300

theorem Format.single_withinHorizon : Format.single.WithinHorizon :=
  ⟨single_sound, by decide, by decide⟩

namespace Decimal
open Binary
variable {F : Format} {d : Decimal}

theorem two_pow_le_ten_pow : 2 ^ 1302 ≤ 10 ^ 400 := by decide +kernel

theorem two_zpow_le_horizon {e : Int} (h : e ≤ 1302) : (2 : ℚ) ^ e ≤ 10 ^ horizon := by
  calc (2 : ℚ) ^ e ≤ 2 ^ (1302 : Int) := zpow_le_zpow_right₀ one_le_two h
    _ ≤ 10 ^ (400 : Int) := by exact_mod_cast two_pow_le_ten_pow

theorem inv_horizon_le_two_zpow {e : Int} (h : -1302 ≤ e) : (10 : ℚ) ^ (-horizon) ≤ 2 ^ e := by
  have hinv := inv_anti₀ (two_zpow_pos (-e)) (two_zpow_le_horizon (Int.neg_le_of_neg_le h))
  rwa [← zpow_neg, ← zpow_neg, neg_neg] at hinv

theorem magnitude_written (neg : Bool) (d : Decimal) :
    magnitude ⟨neg, d.digits * 10 ^ d.exp.toNat, min d.exp 0⟩ = d.magnitude := by
  have hexp : (10 : ℚ) ^ d.exp = 10 ^ (d.exp.toNat : Int) * 10 ^ min d.exp 0 := by
    rw [← zpow_add₀ (by norm_num)]
    congr 1
    omega
  unfold magnitude
  rw [hexp, zpow_natCast]
  push_cast
  ring

theorem ten_zpow_pos (k : Int) : (0 : ℚ) < 10 ^ k := zpow_pos (by norm_num) k

theorem magnitude_lt (d : Decimal) : d.magnitude < 10 ^ (d.leading + 1) := by
  have hlt : d.digits < 10 ^ (digitsOf d.digits).length :=
    (Nat.length_toDigits_le_iff (by decide) Nat.length_toDigits_pos).1 le_rfl
  have hlt' : (d.digits : ℚ) < 10 ^ ((digitsOf d.digits).length : Int) := by
    rw [zpow_natCast]
    exact_mod_cast hlt
  have hexp : d.leading + 1 = (digitsOf d.digits).length + d.exp := by
    unfold leading
    omega
  rw [hexp, zpow_add₀ (by norm_num)]
  exact mul_lt_mul_of_pos_right hlt' (ten_zpow_pos _)

theorem ten_zpow_leading_le (h : 0 < d.digits) : 10 ^ d.leading ≤ d.magnitude := by
  have hlength : 0 < (digitsOf d.digits).length := Nat.length_toDigits_pos
  have hle : 10 ^ ((digitsOf d.digits).length - 1) ≤ d.digits := by
    by_contra hlt
    rcases Nat.eq_zero_or_pos ((digitsOf d.digits).length - 1) with hzero | hpos
    · rw [hzero] at hlt
      omega
    · have hshort := (Nat.length_toDigits_le_iff (by decide) hpos).2 (not_le.1 hlt)
      change (digitsOf d.digits).length ≤ _ at hshort
      omega
  have hle' : (10 : ℚ) ^ (((digitsOf d.digits).length - 1 : Nat) : Int) ≤ d.digits := by
    rw [zpow_natCast]
    exact_mod_cast hle
  have hexp : d.leading = ((digitsOf d.digits).length - 1 : Nat) + d.exp := by
    unfold leading
    omega
  rw [hexp, zpow_add₀ (by norm_num)]
  exact mul_le_mul_of_nonneg_right hle' (ten_zpow_pos _).le

/-- A decimal between the halfway points is read as the number. -/
theorem toBinary_eq_of_roundsTo (hF : F.WithinHorizon) {m : Nat} {e : Int} (hm : 0 < m)
    (h : F.Holds m e) (hd : RoundsTo F m e d.magnitude) :
    (d.toBinary : Binary F) = finite d.neg m e := by
  have hdigits : 0 < d.digits := by
    have hpos : 0 < d.magnitude := (two_zpow_pos _).trans_le (hd.two_zpow_le hm)
    exact Nat.cast_pos.1 ((mul_pos_iff_of_pos_right (ten_zpow_pos _)).1 hpos)
  have habove : ¬horizon < d.leading := fun hlt => by
    have hexp : e + F.precision ≤ 1302 := by
      have hle := h.le_maxExp
      have hmax := hF.maxExp_le
      omega
    have hle := zpow_le_zpow_right₀ (by norm_num : (1 : ℚ) ≤ 10) hlt.le
    exact ((hd.lt_two_zpow h).trans_le ((two_zpow_le_horizon hexp).trans hle)).not_ge
      (ten_zpow_leading_le hdigits)
  have hbelow : ¬d.leading < -horizon := fun hlt => by
    have hexp : -1302 ≤ e - 2 := by
      have hle := h.minExp_le
      have hmin := hF.minExp_ge
      omega
    have hle := zpow_le_zpow_right₀ (by norm_num : (1 : ℚ) ≤ 10) (Int.add_one_le_of_lt hlt)
    exact (d.magnitude_lt.trans_le (hle.trans (inv_horizon_le_two_zpow hexp))).not_ge
      (hd.two_zpow_le hm)
  have hratio : ((d.digits * Nat.pow 10 d.exp.toNat : Nat) /
      (Nat.pow 10 (-d.exp).toNat : Nat) : ℚ) = d.magnitude := by
    have hpow := zpow_mul_pow_toNat (by norm_num : (10 : ℚ) ≠ 0) d.exp
    rw [Nat.pow_eq, Nat.pow_eq, magnitude, div_eq_iff (by positivity)]
    push_cast
    rw [mul_assoc, hpow]
  unfold toBinary
  rw [if_neg hdigits.ne', if_neg habove, if_neg hbelow]
  exact (hratio ▸ hd).ofRatio_eq (Nat.pow_pos (by decide)) hF.precision_pos d.neg hm h

end Decimal

namespace Binary
variable {F : Format}

/-- The text of a number is read as this number. -/
theorem read?_text (hF : F.WithinHorizon) (neg : Bool) {m : Nat} {e : Int} (h : F.Holds m e) :
    (Decimal.read? (text (finite neg m e : Binary F))).map Decimal.toBinary =
      some (finite neg m e : Binary F) := by
  by_cases hm : m = 0
  · obtain rfl : e = F.minExp := h.full.resolve_right (by
      rw [hm, Nat.not_le]
      exact Nat.pow_pos two_pos)
    rw [text, if_pos hm, Decimal.read?_whole neg (List.cons_ne_nil _ _)
      (List.forall_mem_singleton.2 (by decide)), hm]
    rfl
  · have hpos : 0 < m := Nat.pos_of_ne_zero hm
    have hvalue : RoundsTo F m e (Decimal.magnitude ⟨neg,
        (shortest F neg m e).digits * 10 ^ (shortest F neg m e).exp.toNat,
        min (shortest F neg m e).exp 0⟩) := by
      rw [Decimal.magnitude_written]
      exact roundsTo_shortest neg hpos e
    rw [text, if_neg hm, Decimal.read?_positional, Option.map_some,
      Decimal.toBinary_eq_of_roundsTo hF hpos h hvalue]

end Binary
end StyleCalls
