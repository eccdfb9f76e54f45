import Mathlib.Algebra.Order.Floor.Ring
import StyleCalls.Proofs.Binary.Magnitude
import StyleCalls.Proofs.Decimal.RoundTrip

/-! How far single-precision results are from the exact ones. An operation rounds its exact result
once, which is off by half a place at most and by nothing where the format has the result, and what
was off before adds up. So the error of a computation is a number of half places, read off its
operations. -/

namespace StyleCalls

/-! Integers near a quotient -/

/-- The error of rounding to the nearest integer is half a unit at most. -/
theorem two_mul_nearestEven_near (n : Nat) {d : Nat} (hd : 0 < d) :
    2 * n ≤ 2 * (nearestEven n d * d) + d ∧ 2 * (nearestEven n d * d) ≤ 2 * n + d := by
  have hdiv : n / d * d + n % d = n := Nat.div_add_mod' n d
  have hmod : n % d < d := Nat.mod_lt n hd
  unfold nearestEven
  simp only [Bool.or_eq_true, Bool.and_eq_true, decide_eq_true_eq]
  split
  · omega
  · rw [Nat.add_mul]
    omega

theorem two_mul_lt_of_near {n d q : Nat} (hd : 0 < d) (h : |(n / d - q : ℚ)| < 1 / 2) :
    2 * (q * d) < 2 * n + d ∧ 2 * n < 2 * (q * d) + d := by
  have hpos : (0 : ℚ) < d := Nat.cast_pos.2 hd
  have hdiv : (n / d * d : ℚ) = n := div_mul_cancel₀ _ hpos.ne'
  obtain ⟨hlow, hhigh⟩ := abs_lt.1 h
  have hlow' := mul_lt_mul_of_pos_right hlow hpos
  have hhigh' := mul_lt_mul_of_pos_right hhigh hpos
  rw [sub_mul, hdiv] at hlow' hhigh'
  constructor
  · exact_mod_cast (by linarith : (2 * (q * d) : ℚ) < 2 * n + d)
  · exact_mod_cast (by linarith : (2 * n : ℚ) < 2 * (q * d) + d)

theorem nearestEven_eq_of_near {n d q : Nat} (hd : 0 < d) (h : |(n / d - q : ℚ)| < 1 / 2) :
    nearestEven n d = q := by
  obtain ⟨hlow, hhigh⟩ := two_mul_lt_of_near hd h
  exact nearestEven_eq hd hlow.le hhigh.le fun _ => ⟨hlow, hhigh⟩

theorem nearestUp_eq_of_near {n d q : Nat} (hd : 0 < d) (h : |(n / d - q : ℚ)| < 1 / 2) :
    nearestUp n d = q := by
  have hpos : 0 < 2 * d := Nat.mul_pos two_pos hd
  have hmul : q * (2 * d) = 2 * (q * d) := Nat.mul_left_comm q 2 d
  obtain ⟨hlow, hhigh⟩ := two_mul_lt_of_near hd h
  unfold nearestUp
  rw [Nat.div_eq_iff hpos]
  omega

theorem nearestEven_one (n : Nat) : nearestEven n 1 = n := by
  simp [nearestEven, Nat.mod_one]

theorem ceilDiv_le (m : Nat) {d : Nat} (hd : 0 < d) : ceilDiv m d ≤ m := by
  have hmul : m ≤ d * m := Nat.le_mul_of_pos_left m hd
  refine Nat.le_of_lt_succ (Nat.div_lt_of_lt_mul ?_)
  rw [Nat.mul_succ]
  omega

theorem ceil_div (m : Nat) {d : Nat} (hd : 0 < d) : ⌈(m / d : ℚ)⌉ = ceilDiv m d := by
  have hpos : (0 : ℚ) < d := Nat.cast_pos.2 hd
  have hdiv : ceilDiv m d * d + (m + (d - 1)) % d = m + (d - 1) := Nat.div_add_mod' _ d
  have hmod : (m + (d - 1)) % d < d := Nat.mod_lt _ hd
  have hlow : (ceilDiv m d * d : ℚ) < m + d := by exact_mod_cast (by omega)
  have hhigh : (m : ℚ) ≤ ceilDiv m d * d := by exact_mod_cast (by omega)
  rw [Int.ceil_eq_iff, Int.cast_natCast, div_le_iff₀ hpos, lt_div_iff₀ hpos]
  exact ⟨by linarith, hhigh⟩

namespace Binary
variable {F : Format}

/-! Numbers and their values -/

/-- A finite number with mantissa and exponent as rounding leaves them. -/
def Stored (x : Binary F) : Prop := ∃ neg m e, x = finite neg m e ∧ F.Holds m e

theorem mul_two_zpow_eq_div (m : Nat) {e : Int} (he : e ≤ 0) :
    (m * 2 ^ e : ℚ) = m / scale 1 (-e) := by
  have hexp : ((-e).toNat : Int) = -e := Int.toNat_of_nonneg (by omega)
  rw [cast_scale, hexp, Nat.cast_one, one_mul, zpow_neg, div_inv_eq_mul]

/-- The sign put to a magnitude. -/
def signed (neg : Bool) (q : ℚ) : ℚ := if neg then -q else q

theorem signed_zero (neg : Bool) : signed neg 0 = 0 := by cases neg <;> simp [signed]

theorem signed_sub (neg : Bool) (p q : ℚ) : signed neg (p - q) = signed neg p - signed neg q := by
  cases neg with
  | false => rfl
  | true =>
    change -(p - q) = -p - -q
    ring

theorem abs_signed (neg : Bool) (q : ℚ) : |signed neg q| = |q| := by
  cases neg with
  | false => rfl
  | true => exact abs_neg q

theorem signed_bne_mul (s t : Bool) (p q : ℚ) :
    signed (s != t) (p * q) = signed s p * signed t q := by
  cases s <;> cases t <;> simp [signed]

theorem signed_bne_div (s t : Bool) (p q : ℚ) :
    signed (s != t) (p / q) = signed s p / signed t q := by
  cases s <;> cases t <;> simp [signed, neg_div, div_neg]

theorem signed_natAbs_mul (n : Int) (k : Int) :
    signed (n < 0) (n.natAbs * 2 ^ k) = n * 2 ^ k := by
  rw [Nat.cast_natAbs, signed]
  split
  · next h => rw [abs_of_neg (of_decide_eq_true h), Int.cast_neg, neg_mul, neg_neg]
  · next h => rw [abs_of_nonneg (not_lt.1 fun hn => h (decide_eq_true hn))]

theorem eq_of_signed_eq {s t : Bool} {p q : ℚ} (hp : 0 ≤ p) (hq : 0 < q)
    (h : signed s p = signed t q) : s = t ∧ p = q := by
  cases s <;> cases t <;> simp only [signed] at h
  · exact ⟨rfl, h⟩
  · exact absurd h (by simp; linarith)
  · exact absurd h (by simp; linarith)
  · exact ⟨rfl, neg_inj.1 h⟩

theorem toRat_finite (neg : Bool) (m : Nat) (e : Int) :
    toRat (finite neg m e : Binary F) = signed neg (m * 2 ^ e) := rfl

theorem toRat_finite_zero (neg : Bool) (e : Int) : toRat (finite neg 0 e : Binary F) = 0 := by
  rw [toRat_finite, Nat.cast_zero, zero_mul, signed_zero]

theorem stored_zero (hF : F.Sound) (neg : Bool) : (zero neg : Binary F).Stored :=
  ⟨neg, 0, F.minExp, rfl, hF.holds_zero⟩

/-! Operations -/

/-- The outcome of an operation whose exact result is `v`. -/
def Rounds (x : Binary F) (v : ℚ) : Prop :=
  ∃ neg num den, 0 < den ∧ x = ofRatio neg num den ∧ signed neg (num / den) = v

theorem rounds_ofRatio (neg : Bool) (num : Nat) {den : Nat} (hden : 0 < den) :
    Rounds (ofRatio neg num den : Binary F) (signed neg (num / den)) :=
  ⟨neg, num, den, hden, rfl, rfl⟩

theorem rounds_ofDyadic (neg : Bool) (m : Nat) (e : Int) :
    Rounds (ofDyadic neg m e : Binary F) (signed neg (m * 2 ^ e)) :=
  ⟨neg, _, _, scale_pos Nat.one_pos _, rfl, congrArg (signed neg) (scale_div_scale_one m e)⟩

section
variable {x y : Binary F}

theorem Stored.add (hx : x.Stored) (hy : y.Stored) : Rounds (x + y) (toRat x + toRat y) := by
  obtain ⟨s, m, e, rfl, _⟩ := hx
  obtain ⟨t, n, f, rfl, _⟩ := hy
  have hsum : toRat (finite s m e : Binary F) + toRat (finite t n f : Binary F) =
      (units s m e (min e f) + units t n f (min e f) : Int) * 2 ^ min e f := by
    rw [Int.cast_add, add_mul, units_mul (F := F) s m (min_le_left e f),
      units_mul (F := F) t n (min_le_right e f)]
  change Rounds (Binary.add _ _) _
  unfold Binary.add
  dsimp only
  rw [hsum]
  split
  · next hzero =>
    rw [hzero, Int.cast_zero, zero_mul]
    exact ⟨s && t, 0, 1, Nat.one_pos, rfl, by simp [signed_zero]⟩
  · rw [← signed_natAbs_mul]
    exact rounds_ofDyadic _ _ _

theorem Stored.neg (hx : x.Stored) : (-x).Stored ∧ toRat (-x) = -toRat x := by
  obtain ⟨s, m, e, rfl, hholds⟩ := hx
  refine ⟨⟨!s, m, e, rfl, hholds⟩, ?_⟩
  change toRat (finite (!s) m e) = _
  cases s <;> simp [toRat]

theorem Stored.sub (hx : x.Stored) (hy : y.Stored) : Rounds (x - y) (toRat x - toRat y) := by
  obtain ⟨hstored, hvalue⟩ := hy.neg
  rw [sub_eq_add_neg, ← hvalue]
  exact hx.add hstored

theorem finite_mul_finite (s t : Bool) (m n : Nat) (e f : Int) :
    Rounds (finite s m e * finite t n f : Binary F)
      (toRat (finite s m e : Binary F) * toRat (finite t n f : Binary F)) := by
  have hproduct : (m * 2 ^ e * (n * 2 ^ f) : ℚ) = ((m * n : Nat) : ℚ) * 2 ^ (e + f) := by
    rw [two_zpow_add]
    push_cast
    ring
  rw [toRat_finite, toRat_finite, ← signed_bne_mul, hproduct]
  exact rounds_ofDyadic _ _ _

theorem Stored.mul (hx : x.Stored) (hy : y.Stored) : Rounds (x * y) (toRat x * toRat y) := by
  obtain ⟨s, m, e, rfl, _⟩ := hx
  obtain ⟨t, n, f, rfl, _⟩ := hy
  exact finite_mul_finite s t m n e f

theorem Stored.div (hx : x.Stored) (hy : y.Stored) (hne : toRat y ≠ 0) :
    Rounds (x / y) (toRat x / toRat y) := by
  obtain ⟨s, m, e, rfl, _⟩ := hx
  obtain ⟨t, n, f, rfl, _⟩ := hy
  have hn : n ≠ 0 := by
    rintro rfl
    exact hne (toRat_finite_zero t f)
  rw [toRat_finite, toRat_finite, ← signed_bne_div, ← scale_sub_div_scale_sub,
    finite_div_finite s t hn]
  exact rounds_ofRatio _ _ (scale_pos (Nat.pos_of_ne_zero hn) _)

theorem Stored.abs (hx : x.Stored) : x.abs.Stored ∧ toRat x.abs = |toRat x| := by
  obtain ⟨s, m, e, rfl, hholds⟩ := hx
  exact ⟨⟨false, m, e, rfl, hholds⟩, (abs_toRat s m e).symm⟩

theorem Stored.lt_iff (hx : x.Stored) (hy : y.Stored) : lt x y = true ↔ toRat x < toRat y := by
  obtain ⟨s, m, e, rfl, _⟩ := hx
  obtain ⟨t, n, f, rfl, _⟩ := hy
  exact lt_finite_iff s t

theorem Stored.compare?_eq_iff (hx : x.Stored) (hy : y.Stored) :
    compare? x y = some .eq ↔ toRat x = toRat y := by
  obtain ⟨s, m, e, rfl, _⟩ := hx
  obtain ⟨t, n, f, rfl, _⟩ := hy
  rw [← units_mul s m (min_le_left e f), ← units_mul t n (min_le_right e f),
    mul_left_inj' (two_zpow_pos _).ne', Int.cast_inj]
  unfold compare?
  simp

theorem Stored.le_iff (hx : x.Stored) (hy : y.Stored) : le x y = true ↔ toRat x ≤ toRat y := by
  rw [le, Bool.or_eq_true, decide_eq_true_eq, hx.lt_iff hy, hx.compare?_eq_iff hy,
    le_iff_lt_or_eq]

/-- Where the format has the exact result, that is the outcome. -/
theorem Rounds.eq (hF : F.Sound) {v : ℚ} (hx : Rounds x v) (hy : y.Stored) (hv : v ≠ 0)
    (h : toRat y = v) : x = y := by
  obtain ⟨neg, num, den, hden, rfl, rfl⟩ := hx
  obtain ⟨t, m, e, rfl, hholds⟩ := hy
  have hm : 0 < m := by
    refine Nat.pos_of_ne_zero ?_
    rintro rfl
    exact hv (h.symm.trans (toRat_finite_zero t e))
  have hpos : (0 : ℚ) < m * 2 ^ e := mul_pos (Nat.cast_pos.2 hm) (two_zpow_pos e)
  obtain ⟨rfl, hvalue⟩ := eq_of_signed_eq (by positivity) hpos h.symm
  have hrounds : RoundsTo F m e (num / den) := by
    rw [hvalue]
    exact roundsTo_self hm e
  exact hrounds.ofRatio_eq hden hF.precision_pos neg hm hholds

theorem Rounds.eq_zero (hx : Rounds x 0) : ∃ neg, x = zero neg := by
  obtain ⟨neg, num, den, hden, rfl, h⟩ := hx
  have hratio : (num / den : ℚ) = 0 := by
    rw [← abs_eq_zero, ← abs_signed neg, h, abs_zero]
  have hnum : num = 0 := by
    rcases div_eq_zero_iff.1 hratio with hnum | hzero
    · exact_mod_cast hnum
    · exact absurd (Nat.cast_eq_zero.1 hzero) hden.ne'
  exact ⟨neg, if_pos hnum⟩

theorem toRat_zero (neg : Bool) : toRat (zero neg : Binary F) = 0 := toRat_finite_zero neg F.minExp

theorem Stored.add_zero_of_ne (hF : F.Sound) (hx : x.Stored) (hne : toRat x ≠ 0) (neg : Bool) :
    x + zero neg = x := by
  have hsum := hx.add (stored_zero hF neg)
  rw [toRat_zero, Rat.add_zero] at hsum
  exact hsum.eq hF hx hne rfl

/-- A zero, of either sign, changes no value. -/
theorem Stored.add_zero (hF : F.Sound) (hx : x.Stored) (neg : Bool) :
    (x + zero neg).Stored ∧ toRat (x + zero neg) = toRat x := by
  by_cases hzero : toRat x = 0
  · have hsum := hx.add (stored_zero hF neg)
    rw [toRat_zero, Rat.add_zero, hzero] at hsum
    obtain ⟨t, ht⟩ := hsum.eq_zero
    rw [ht, hzero]
    exact ⟨stored_zero hF t, toRat_zero t⟩
  · rw [hx.add_zero_of_ne hF hzero]
    exact ⟨hx, rfl⟩

end

/-! Errors -/

section
variable {num den : Nat}

theorem abs_rounded_sub_le (F : Format) (hden : 0 < den) :
    |(rounded F num den * 2 ^ lastPlace F num den - num / den : ℚ)| ≤
      2 ^ lastPlace F num den / 2 := by
  obtain ⟨hlow, hhigh⟩ := two_mul_nearestEven_near (scale num (-lastPlace F num den))
    (scale_pos hden (lastPlace F num den))
  have hpos := two_zpow_pos (lastPlace F num den)
  have hquotient : (num / den : ℚ) =
      scale num (-lastPlace F num den) / scale den (lastPlace F num den) *
        2 ^ lastPlace F num den := by
    rw [scale_div_scale, div_mul_cancel₀ _ hpos.ne']
  have hscale : (0 : ℚ) < scale den (lastPlace F num den) := Nat.cast_pos.2 (scale_pos hden _)
  unfold rounded
  rw [hquotient, ← sub_mul, abs_mul, abs_of_pos hpos]
  generalize scale num (-lastPlace F num den) = n at hlow hhigh ⊢
  generalize scale den (lastPlace F num den) = d at hlow hhigh hscale ⊢
  have hlow' : (2 * n : ℚ) ≤ 2 * (nearestEven n d * d) + d := by exact_mod_cast hlow
  have hhigh' : (2 * (nearestEven n d * d) : ℚ) ≤ 2 * n + d := by exact_mod_cast hhigh
  have hhalf : |(nearestEven n d - n / d : ℚ)| ≤ 1 / 2 := by
    have hdiv : (n / d * d : ℚ) = n := div_mul_cancel₀ _ hscale.ne'
    rw [abs_le]
    constructor <;> refine le_of_mul_le_mul_right ?_ hscale <;> rw [sub_mul, hdiv] <;> linarith
  calc |(nearestEven n d - n / d : ℚ)| * 2 ^ lastPlace F num den
      ≤ 1 / 2 * 2 ^ lastPlace F num den := mul_le_mul_of_nonneg_right hhalf hpos.le
    _ = 2 ^ lastPlace F num den / 2 := by ring

/-- Far from the overflow, rounding is all that happens to a quotient. -/
theorem toRat_ofRatio (neg : Bool) (hnum : 0 < num) (hden : 0 < den)
    (hlt : (num / den : ℚ) < 2 ^ (100 : Int)) :
    (ofRatio neg num den : Single).Stored ∧ toRat (ofRatio neg num den : Single) =
      signed neg (rounded .single num den * 2 ^ lastPlace .single num den) := by
  obtain ⟨m, e, hround, hholds, _⟩ :=
    exists_ofRatio_eq_finite Format.single_sound neg hden hlt (by decide) (by decide)
  obtain ⟨m', e', _, _, _, hvalue, hround'⟩ :=
    exists_ofRatio_eq Format.single_sound.precision_pos neg hnum hden
  have hfinite : (finite neg m e : Single) = finite neg m' e' := by
    rw [hround] at hround'
    split at hround'
    · exact absurd hround' nofun
    · exact hround'
  refine ⟨⟨neg, m, e, hround, hholds⟩, ?_⟩
  rw [hround, hfinite, toRat_finite, hvalue]

/-- Half a place of numbers next to one. -/
def roundoff : ℚ := 1 / 2 ^ 24

theorem roundoff_pos : 0 < roundoff := by norm_num [roundoff]

/-- Bounds far from the overflow. -/
structure Range (b : ℚ) : Prop where
  one_le : 1 ≤ b
  le : b ≤ 1024

/-- A place of a quotient up to `b` weighs the part of `b` that the precision allows. -/
theorem two_zpow_lastPlace_div_two_le {b : ℚ} (hb : Range b) (hden : 0 < den) (hnum : 0 < num)
    (hle : (num / den : ℚ) ≤ b) : (2 : ℚ) ^ lastPlace .single num den / 2 ≤ b * roundoff := by
  have hq : (0 : ℚ) < num / den := div_pos (Nat.cast_pos.2 hnum) (Nat.cast_pos.2 hden)
  have hbound : (2 : ℚ) ^ lastPlace .single num den ≤ b * 2 ^ (-23 : Int) := by
    rw [lastPlace_eq_log hnum hden]
    rcases max_cases Format.single.minExp
      (Int.log 2 (num / den : ℚ) + 1 - Format.single.precision) with ⟨heq, _⟩ | ⟨heq, _⟩
    · rw [heq]
      calc (2 : ℚ) ^ (-149 : Int) ≤ 1 * 2 ^ (-23 : Int) := by norm_num
        _ ≤ b * 2 ^ (-23 : Int) := mul_le_mul_of_nonneg_right hb.one_le (two_zpow_pos _).le
    · have hlog : (2 : ℚ) ^ Int.log 2 (num / den : ℚ) ≤ b :=
        ((two_zpow_le_iff_le_log hq _).2 le_rfl).trans hle
      have hexp : Int.log 2 (num / den : ℚ) + 1 - (Format.single.precision : Int) =
          Int.log 2 (num / den : ℚ) + -23 := by
        change _ + 1 - (24 : Int) = _
        omega
      rw [heq, hexp, two_zpow_add]
      exact mul_le_mul_of_nonneg_right hlog (two_zpow_pos _).le
  have hpow : b * (2 : ℚ) ^ (-23 : Int) / 2 = b * roundoff := by
    rw [roundoff, zpow_neg]
    norm_num
    ring
  rw [← hpow]
  exact div_le_div_of_nonneg_right hbound two_pos.le

end

section
variable {x : Single}

/-- A stored number no further than `ε` from `v`. -/
structure Near (x : Single) (v ε : ℚ) : Prop where
  stored : Stored x
  le : |toRat x - v| ≤ ε

theorem Rounds.near {v b : ℚ} (hx : Rounds x v) (hb : Range b) (hv : |v| ≤ b) :
    Near x v (b * roundoff) := by
  obtain ⟨neg, num, den, hden, rfl, rfl⟩ := hx
  have hquotient : (0 : ℚ) ≤ num / den := by positivity
  rw [abs_signed, abs_of_nonneg hquotient] at hv
  rcases Nat.eq_zero_or_pos num with rfl | hnum
  · have hzero : (ofRatio neg 0 den : Single) = finite neg 0 (-149) := rfl
    rw [hzero, Nat.cast_zero, zero_div, signed_zero]
    refine ⟨stored_zero Format.single_sound neg, ?_⟩
    rw [toRat_finite_zero, sub_zero, abs_zero]
    exact mul_nonneg (zero_le_one.trans hb.one_le) roundoff_pos.le
  · have hlt : (num / den : ℚ) < 2 ^ (100 : Int) := by
      calc (num / den : ℚ) ≤ 1024 := hv.trans hb.le
        _ < 2 ^ (100 : Int) := by norm_num
    obtain ⟨hstored, hvalue⟩ := toRat_ofRatio neg hnum hden hlt
    refine ⟨hstored, ?_⟩
    rw [hvalue, ← signed_sub, abs_signed]
    exact (abs_rounded_sub_le .single hden).trans (two_zpow_lastPlace_div_two_le hb hden hnum hv)

end

/-! Whole numbers and parts of one -/

section
variable {x : Single} {n : Nat}

/-- Whole numbers that the mantissa has room for. -/
theorem stored_whole (neg : Bool) (hn : n < 2 ^ 24) :
    (ofRatio neg n 1 : Single).Stored ∧ toRat (ofRatio neg n 1 : Single) = signed neg n := by
  rcases Nat.eq_zero_or_pos n with rfl | hpos
  · refine ⟨stored_zero Format.single_sound neg, ?_⟩
    rw [Nat.cast_zero, signed_zero]
    exact toRat_finite_zero neg _
  · have hcast : ((n : Nat) / (1 : Nat) : ℚ) = n := by rw [Nat.cast_one, div_one]
    have hlt : (n : ℚ) < 2 ^ (24 : Int) := by exact_mod_cast hn
    have hplace : lastPlace .single n 1 ≤ 0 := by
      have hlog : Int.log 2 (n : ℚ) < 24 :=
        (lt_two_zpow_iff_log_lt (Nat.cast_pos.2 hpos) _).1 hlt
      rw [lastPlace_eq_log hpos Nat.one_pos, hcast]
      exact max_le (by decide) (by change _ + 1 - (24 : Int) ≤ 0; omega)
    have hrounded : (rounded .single n 1 * 2 ^ lastPlace .single n 1 : ℚ) = n := by
      have hone : scale 1 (lastPlace .single n 1) = 1 := by
        rw [scale, Int.toNat_of_nonpos hplace]
      have hscale := scale_div_scale n 1 (lastPlace .single n 1)
      rw [hone, Nat.cast_one, div_one, div_one] at hscale
      rw [rounded, hone, nearestEven_one, hscale, div_mul_cancel₀ _ (two_zpow_pos _).ne']
    have hfar : ((n : Nat) / (1 : Nat) : ℚ) < 2 ^ (100 : Int) := by
      rw [hcast]
      exact hlt.trans (zpow_lt_zpow_right₀ one_lt_two (by decide))
    obtain ⟨hstored, hvalue⟩ := toRat_ofRatio neg hpos Nat.one_pos hfar
    exact ⟨hstored, by rw [hvalue, hrounded]⟩

theorem stored_ofNat (hn : n < 2 ^ 24) :
    (ofNat n : Single).Stored ∧ toRat (ofNat n : Single) = n := stored_whole false hn

theorem stored_literal {q : ℚ} (hn : n < 2 ^ 24) (hq : n = q) :
    (OfNat.ofNat n : Single).Stored ∧ toRat (OfNat.ofNat n : Single) = q := by
  obtain ⟨hstored, hvalue⟩ := stored_ofNat hn
  exact ⟨hstored, hvalue.trans hq⟩

theorem stored_nought : (0 : Single).Stored ∧ toRat (0 : Single) = 0 :=
  stored_literal (by norm_num) (by norm_num)

theorem stored_one : (1 : Single).Stored ∧ toRat (1 : Single) = 1 :=
  stored_literal (by norm_num) (by norm_num)

theorem stored_half : (1 / 2 : Single).Stored ∧ toRat (1 / 2 : Single) = 1 / 2 := by
  have hhalf : (1 / 2 : Single) = finite false 8388608 (-24) := by decide
  rw [hhalf]
  exact ⟨⟨false, _, _, rfl, by decide, by decide, by decide, by decide⟩, by norm_num [toRat]⟩

theorem Stored.floor (hx : x.Stored) : x.floor.Stored ∧ toRat x.floor = ⌊toRat x⌋ := by
  obtain ⟨s, m, e, rfl, hholds⟩ := hx
  have hm : m < 2 ^ 24 := hholds.lt
  by_cases he : 0 ≤ e
  · have hself : Binary.floor (finite s m e : Single) = finite s m e := by
      cases s <;> exact if_pos he
    have hwhole : toRat (finite s m e : Single) = (units s m e 0 : Int) := by
      rw [← units_mul s m he, zpow_zero, mul_one]
    rw [hself, hwhole, Int.floor_intCast]
    exact ⟨⟨s, m, e, rfl, hholds⟩, rfl⟩
  · have hd : 0 < scale 1 (-e) := scale_pos Nat.one_pos _
    rw [toRat_finite, mul_two_zpow_eq_div m (not_le.1 he).le]
    cases s with
    | false =>
      obtain ⟨hstored, hvalue⟩ :=
        stored_whole false ((Nat.div_le_self m (scale 1 (-e))).trans_lt hm)
      have hfloor : Binary.floor (finite false m e : Single) =
          ofRatio false (m / scale 1 (-e)) 1 := if_neg he
      rw [hfloor, hvalue]
      exact ⟨hstored, congrArg Int.cast (Rat.floor_natCast_div_natCast m _).symm⟩
    | true =>
      obtain ⟨hstored, hvalue⟩ := stored_whole true ((ceilDiv_le m hd).trans_lt hm)
      have hfloor : Binary.floor (finite true m e : Single) =
          ofRatio true (ceilDiv m (scale 1 (-e))) 1 := if_neg he
      rw [hfloor, hvalue]
      refine ⟨hstored, ?_⟩
      change _ = ((⌊-(_ : ℚ)⌋ : Int) : ℚ)
      rw [Int.floor_neg, ceil_div m hd, Int.cast_neg, Int.cast_natCast]
      rfl

theorem Stored.clampUnit_eq_self (hx : x.Stored) (hlow : 0 ≤ toRat x) (hhigh : toRat x ≤ 1) :
    x.clampUnit = x := by
  have hneg : ¬x.lt 0 = true := by
    rw [hx.lt_iff stored_nought.1, stored_nought.2, not_lt]
    exact hlow
  have hgreat : ¬lt 1 x = true := by
    rw [stored_one.1.lt_iff hx, stored_one.2, not_lt]
    exact hhigh
  exact (if_neg hneg).trans (if_neg hgreat)

theorem Stored.clampUnit (hx : x.Stored) :
    x.clampUnit.Stored ∧ toRat x.clampUnit = max 0 (min 1 (toRat x)) := by
  obtain ⟨hzero, hzeroValue⟩ := stored_nought
  obtain ⟨hone, honeValue⟩ := stored_one
  unfold Binary.clampUnit
  by_cases hneg : x.lt 0 = true
  · rw [if_pos hneg]
    rw [hx.lt_iff hzero, hzeroValue] at hneg
    exact ⟨hzero, by rw [hzeroValue, max_eq_left (min_le_of_right_le hneg.le)]⟩
  · rw [if_neg hneg]
    rw [hx.lt_iff hzero, hzeroValue, not_lt] at hneg
    by_cases hgreat : lt 1 x = true
    · rw [if_pos hgreat]
      rw [hone.lt_iff hx, honeValue] at hgreat
      exact ⟨hone, by rw [honeValue, min_eq_left hgreat.le, max_eq_right zero_le_one]⟩
    · rw [if_neg hgreat]
      rw [hone.lt_iff hx, honeValue, not_lt] at hgreat
      exact ⟨hx, by rw [min_eq_right hgreat, max_eq_right hneg]⟩

theorem Stored.clampUnit_mem (hx : x.Stored) : 0 ≤ toRat x.clampUnit ∧ toRat x.clampUnit ≤ 1 := by
  rw [hx.clampUnit.2]
  exact ⟨le_max_left _ _, max_le zero_le_one (min_le_left _ _)⟩

theorem abs_clamp_sub_le {q v ε : ℚ} (hv : 0 ≤ v) (hv' : v ≤ 1) (h : |q - v| ≤ ε) :
    |max 0 (min 1 q) - v| ≤ ε := by
  rw [abs_le] at h ⊢
  rcases max_cases 0 (min 1 q) with ⟨hmax, _⟩ | ⟨hmax, _⟩ <;>
    rcases min_cases 1 q with ⟨hmin, _⟩ | ⟨hmin, _⟩ <;>
    constructor <;> linarith

theorem Near.clampUnit {v ε : ℚ} (h : Near x v ε) (hv : 0 ≤ v) (hv' : v ≤ 1) :
    Near x.clampUnit v ε := by
  obtain ⟨hstored, hvalue⟩ := h.stored.clampUnit
  exact ⟨hstored, hvalue ▸ abs_clamp_sub_le hv hv' h.le⟩

end

end Binary
end StyleCalls
