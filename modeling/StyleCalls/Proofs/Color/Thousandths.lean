import StyleCalls.Proofs.Color.Bytes

/-! Alpha to three places. What is written is a number of thousandths, and read again and moved by
nothing it is the same number of thousandths. -/

namespace StyleCalls

namespace Color
open Binary

theorem stored_thousand : (1000 : Single).Stored ∧ toRat (1000 : Single) = 1000 :=
  stored_literal (by norm_num) (by norm_num)

theorem range_thousand : Range 1024 := ⟨by norm_num, le_rfl⟩

section
variable {s : Bool} {m k : Nat} {e : Int} (hle : (m * 2 ^ e : ℚ) ≤ 1)
include hle

/-- Alpha in thousandths is too small to fill its mantissa with whole ones. -/
theorem exists_mul_thousand_eq :
    ∃ (m' : Nat) (e' : Int), (finite s m e * 1000 : Single) = finite s m' e' ∧ e' < 0 ∧
      |(m' * 2 ^ e' - 1000 * (m * 2 ^ e) : ℚ)| ≤ 1024 * roundoff := by
  have hnonneg : (0 : ℚ) ≤ m * 2 ^ e := mul_nonneg (Nat.cast_nonneg m) (two_zpow_pos e).le
  have hthousand : ((16384000 : Nat) * 2 ^ (-14 : Int) : ℚ) = 1000 := by norm_num
  have hless : (m * 2 ^ e * ((16384000 : Nat) * 2 ^ (-14 : Int)) : ℚ) < 2 ^ (10 : Int) := by
    rw [hthousand]
    norm_num
    linarith
  obtain ⟨m', e', hproduct, hholds, hbound⟩ :=
    exists_mul_eq_finite Format.single_sound s false hless (by decide) (by decide)
  rw [← thousand_eq_finite, Bool.bne_false] at hproduct
  refine ⟨m', e', hproduct, ?_, ?_⟩
  · by_contra hpos
    have hfull : 2 ^ 23 ≤ m' := hholds.full.resolve_left fun heq => hpos (heq ▸ by decide)
    have hcast : (2 ^ 23 : ℚ) ≤ m' := by exact_mod_cast hfull
    have hone : (1 : ℚ) ≤ 2 ^ e' := one_le_zpow₀ one_le_two (not_lt.1 hpos)
    have hmul : (2 ^ 23 * 1 : ℚ) ≤ m' * 2 ^ e' :=
      mul_le_mul hcast hone zero_le_one (Nat.cast_nonneg m')
    norm_num at hmul hbound
    linarith
  · have hvalue : toRat (finite s m e : Single) * toRat (1000 : Single) =
        signed s (1000 * (m * 2 ^ e)) := by
      rw [stored_thousand.2, toRat_finite]
      cases s <;> simp [signed] <;> ring
    have hrounds := finite_mul_finite (F := .single) s false m 16384000 e (-14)
    rw [← thousand_eq_finite, hvalue] at hrounds
    have hnear := (hrounds.near range_thousand (by
      rw [abs_signed, abs_le]
      constructor <;> linarith)).le
    rwa [hproduct, toRat_finite, ← signed_sub, abs_signed] at hnear

theorem round_mul_thousand (hk : |(1000 * (m * 2 ^ e) - k : ℚ)| ≤ 1 / 4) :
    (finite s m e * 1000 : Single).round = ofRatio s k 1 := by
  have hu := roundoff_eq
  obtain ⟨m', e', hproduct, hneg, hnear⟩ := exists_mul_thousand_eq (s := s) hle
  have hround : nearestUp m' (scale 1 (-e')) = k := by
    refine nearestUp_eq_of_near (scale_pos Nat.one_pos _) ?_
    rw [← mul_two_zpow_eq_div m' hneg.le]
    rw [abs_le] at hk hnear
    exact abs_lt.2 ⟨by linarith, by linarith⟩
  rw [hproduct, ← hround]
  exact if_neg (not_le.2 hneg)

theorem exists_round_mul_thousand :
    ∃ k ≤ 1000, (finite s m e * 1000 : Single).round = ofRatio s k 1 := by
  have hu := roundoff_eq
  obtain ⟨m', e', hproduct, hneg, hnear⟩ := exists_mul_thousand_eq (s := s) hle
  refine ⟨nearestUp m' (scale 1 (-e')), ?_, hproduct ▸ if_neg (not_le.2 hneg)⟩
  have hd : 0 < scale 1 (-e') := scale_pos Nat.one_pos _
  have hpos : (0 : ℚ) < scale 1 (-e') := Nat.cast_pos.2 hd
  have hquotient : (m' / scale 1 (-e') : ℚ) ≤ 1000 + 1 / 4 := by
    rw [← mul_two_zpow_eq_div m' hneg.le]
    linarith [(abs_le.1 hnear).2]
  rw [div_le_iff₀ hpos] at hquotient
  have hless : 2 * m' + scale 1 (-e') < 1001 * (2 * scale 1 (-e')) := by
    exact_mod_cast (by linarith :
      (2 * m' + scale 1 (-e') : ℚ) < 1001 * (2 * scale 1 (-e')))
  exact Nat.le_of_lt_succ ((Nat.div_lt_iff_lt_mul (Nat.mul_pos two_pos hd)).2 hless)

end

/-! Alpha, moved by nothing -/

/-- Alpha on its way through the other color space. -/
def movedAlpha (x : Single) (neg : Bool) : Single :=
  (x.clampUnit + zero neg).clampUnit.clampUnit

theorem alpha_adjust (P : Palette) (c : Rgba) {d : Deltas} {neg : Bool}
    (hd : points d.a = zero neg) : (c.adjust P d).alpha = movedAlpha c.alpha neg := by
  rw [Rgba.adjust, P.alpha_toRgba, Hsla.adjust, P.alpha_toHsla, hd]
  rfl

theorem lt_clampUnit_zero (x : Single) : x.clampUnit.lt 0 = false := by
  unfold clampUnit
  by_cases hneg : x.lt 0 = true
  · rw [if_pos hneg]
    decide
  · rw [if_neg hneg]
    split
    · decide
    · exact Bool.eq_false_iff.2 hneg

theorem exists_clampUnit_eq (m : Nat) (e : Int) :
    ∃ m' e', (finite false m e : Single).clampUnit = finite false m' e' := by
  unfold clampUnit
  split
  · exact ⟨_, _, rfl⟩
  · split
    · exact ⟨_, _, one_eq_finite⟩
    · exact ⟨_, _, rfl⟩

/-- Nothing added to a magnitude leaves it without a sign. -/
theorem exists_add_zero_eq {m : Nat} {e : Int} (hle : (m * 2 ^ e : ℚ) ≤ 1) (neg : Bool) :
    ∃ m' e', (finite false m e + zero neg : Single) = finite false m' e' := by
  let k := min e Format.single.minExp
  have hunits : units neg 0 Format.single.minExp k = 0 := by
    cases neg <;> simp [units, scale_zero]
  have hsum : (finite false m e + zero neg : Single) =
      if (scale m (e - k) : Int) = 0 then zero (false && neg)
      else ofDyadic ((scale m (e - k) : Int) < 0) (scale m (e - k)) k := by
    change Binary.add _ _ = _
    unfold Binary.add zero
    dsimp only
    rw [hunits, Int.add_zero]
    rfl
  have hvalue : (scale m (e - k) * 2 ^ k : ℚ) = m * 2 ^ e :=
    units_mul (F := .single) false m (min_le_left e Format.single.minExp)
  have hless : (scale m (e - k) * 2 ^ k : ℚ) < 2 ^ (1 : Int) := by
    rw [hvalue]
    norm_num
    linarith
  rw [hsum, decide_eq_false (Int.not_lt.2 (Int.natCast_nonneg _))]
  split
  · exact ⟨_, _, rfl⟩
  · obtain ⟨m', e', hfinite, _⟩ :=
      exists_ofDyadic_eq_finite Format.single_sound false hless (by decide) (by decide)
    exact ⟨m', e', hfinite⟩

theorem finite_zero_add_zero (s neg : Bool) (e : Int) :
    (finite s 0 e + zero neg : Single) = zero (s && neg) := by
  have hunits (t : Bool) (f k : Int) : units t 0 f k = 0 := by
    cases t <;> simp [units, scale_zero]
  change Binary.add _ _ = _
  unfold Binary.add zero
  dsimp only
  rw [hunits, hunits]
  rfl

theorem exists_movedAlpha_eq {x : Single} (hx : x ≠ nan) (neg : Bool) :
    ∃ s m e, movedAlpha x neg = finite s m e ∧ (m * 2 ^ e : ℚ) ≤ 1 ∧
      (s = true → m = 0 ∧ neg = true) := by
  have hnonneg := lt_clampUnit_zero x
  obtain ⟨s, m, e, hclamp, hle⟩ := inUnit_clampUnit hx
  have hmoved : InUnit (movedAlpha x neg) := by
    unfold movedAlpha
    rw [hclamp]
    exact inUnit_clampUnit (clampUnit_ne_nan (finite_add_ne_nan s m e nofun))
  cases s with
  | false =>
    obtain ⟨m₁, e₁, hsum⟩ := exists_add_zero_eq hle neg
    obtain ⟨m₂, e₂, hfirst⟩ := exists_clampUnit_eq m₁ e₁
    obtain ⟨m₃, e₃, hsecond⟩ := exists_clampUnit_eq m₂ e₂
    have heq : movedAlpha x neg = finite false m₃ e₃ := by
      rw [movedAlpha, hclamp, hsum, hfirst, hsecond]
    obtain ⟨s, m, e, heq', hle'⟩ := hmoved
    obtain ⟨rfl, rfl, rfl⟩ := Binary.finite.inj (heq.symm.trans heq')
    exact ⟨_, _, _, heq, hle', nofun⟩
  | true =>
    obtain rfl : m = 0 := by
      by_contra hm
      have hpos : (0 : ℚ) < m * 2 ^ e :=
        mul_pos (Nat.cast_pos.2 (Nat.pos_of_ne_zero hm)) (two_zpow_pos e)
      have hzero : (0 : Single) = finite false 0 (-149) := rfl
      rw [hclamp, hzero] at hnonneg
      refine Bool.eq_false_iff.1 hnonneg ((lt_finite_iff true false).2 ?_)
      rw [toRat_finite_zero, toRat_finite]
      exact neg_neg_of_pos hpos
    have hclampZero : (zero neg : Single).clampUnit.clampUnit = zero neg := by
      cases neg <;> decide
    refine ⟨neg, 0, Format.single.minExp, ?_, by norm_num, fun hneg => ⟨rfl, hneg⟩⟩
    rw [movedAlpha, hclamp, finite_zero_add_zero, Bool.true_and, hclampZero]
    rfl

/-- What is written of alpha. -/
def writtenAlpha (x : Single) : Single := (x * 1000).round / 1000

/-- Alpha that is below one also in what is written of it comes back as it was written. -/
structure Settled (t : Single) (neg : Bool) : Prop where
  not_one_le : Binary.le 1 (movedAlpha (t / 1).clampUnit neg) = false
  written : writtenAlpha (movedAlpha (t / 1).clampUnit neg) = t

theorem settled_zero (s neg : Bool) (h : s = true → neg = true) :
    Settled (ofRatio s 0 1 / 1000) neg := by
  cases s with
  | false => cases neg <;> exact ⟨by decide, by decide⟩
  | true =>
    rw [h rfl]
    exact ⟨by decide, by decide⟩

theorem settled_thousandths {k : Nat} (hpos : 0 < k) (hk : k < 1000) (neg : Bool) :
    Settled (ofRatio false k 1 / 1000) neg := by
  have hu := roundoff_eq
  obtain ⟨hwhole, hwholeValue⟩ := stored_ofNat (n := k) (by omega)
  have hlow : (1 : ℚ) ≤ k := by exact_mod_cast hpos
  have hhigh : (k : ℚ) + 1 ≤ 1000 := by exact_mod_cast hk
  have hunit : Range 1 := ⟨le_rfl, by norm_num⟩
  have hquotient := (hwhole.div stored_thousand.1
    (by rw [stored_thousand.2]; norm_num)).near hunit
    (abs_le.2 (by rw [hwholeValue, stored_thousand.2]; constructor <;> linarith))
  have hbounds := abs_le.1 hquotient.le
  rw [hwholeValue, stored_thousand.2] at hbounds
  change Settled (ofNat k / 1000) neg
  generalize hround : (ofNat k / 1000 : Single) = t at hquotient hbounds ⊢
  have ht := hquotient.stored
  have hne : toRat t ≠ 0 := by
    intro hzero
    linarith
  have hself : t / 1 = t := by
    have hdiv := ht.div stored_one.1 (by rw [stored_one.2]; norm_num)
    rw [stored_one.2, div_one] at hdiv
    exact hdiv.eq Format.single_sound ht hne rfl
  have hclamp : t.clampUnit = t := ht.clampUnit_eq_self (by linarith) (by linarith)
  have hmoved : movedAlpha (t / 1).clampUnit neg = t := by
    rw [movedAlpha, hself, hclamp, hclamp, ht.add_zero_of_ne Format.single_sound hne, hclamp,
      hclamp]
  constructor
  · rw [hmoved, Bool.eq_false_iff, Ne, stored_one.1.le_iff ht, stored_one.2, not_le]
    linarith
  · obtain ⟨s, m, e, hfinite, _⟩ := ht
    have hmagnitude : (0 : ℚ) ≤ m * 2 ^ e := mul_nonneg (Nat.cast_nonneg m) (two_zpow_pos e).le
    rw [hfinite, toRat_finite] at hbounds
    obtain rfl : s = false := by
      cases s with
      | false => rfl
      | true =>
        change -_ ≤ -(m * 2 ^ e : ℚ) - _ ∧ _ at hbounds
        linarith
    change -_ ≤ (m * 2 ^ e : ℚ) - _ ∧ (m * 2 ^ e : ℚ) - _ ≤ _ at hbounds
    rw [hmoved, writtenAlpha, hfinite, round_mul_thousand (k := k) (by linarith)
      (abs_le.2 ⟨by linarith, by linarith⟩)]
    exact hround.trans hfinite

/-- What is written of alpha is one, or it comes back as it was written. -/
theorem writtenAlpha_movedAlpha {x : Single} (hx : x ≠ nan) (neg : Bool) :
    writtenAlpha (movedAlpha x neg) = 1 ∨ Settled (writtenAlpha (movedAlpha x neg)) neg := by
  obtain ⟨s, m, e, heq, hle, hsign⟩ := exists_movedAlpha_eq hx neg
  obtain ⟨k, hk, hround⟩ := exists_round_mul_thousand (s := s) hle
  rw [heq, writtenAlpha, hround]
  rcases Nat.eq_zero_or_pos k with rfl | hpos
  · exact .inr (settled_zero s neg fun h => (hsign h).2)
  · obtain rfl : s = false := by
      cases s with
      | false => rfl
      | true =>
        -- a negative zero has no thousandths
        obtain ⟨rfl, _⟩ := hsign rfl
        have hzero := round_mul_thousand (s := true) (k := 0) hle (by norm_num)
        have hvalue := (stored_whole true (n := k) (by omega)).2
        rw [← hround, hzero, (stored_whole true (n := 0) (by norm_num)).2] at hvalue
        have hkPos : (0 : ℚ) < k := Nat.cast_pos.2 hpos
        norm_num [signed] at hvalue
        linarith
    rcases Nat.lt_or_eq_of_le hk with hless | rfl
    · exact .inr (settled_thousandths hpos hless neg)
    · exact .inl (by decide)

end Color
end StyleCalls
