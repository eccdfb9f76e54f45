import StyleCalls.Proofs.Color.Conversion

/-! From hue, saturation and lightness back to red, green and blue, where all channels are found again
within a small part of what makes a byte. -/

namespace StyleCalls.Color
open Binary

/-! The hue within one turn -/

theorem abs_le_of_isSubnormal {x : Single} (hx : x.Stored) (h : x.isSubnormal = true) :
    |toRat x| ≤ roundoff := by
  obtain ⟨s, m, e, rfl, hholds⟩ := hx
  obtain ⟨_, hless⟩ := Bool.and_eq_true_iff.1 h
  replace hless : m < 2 ^ 23 := of_decide_eq_true hless
  obtain rfl : e = -149 := hholds.full.resolve_right (Nat.not_le.2 hless)
  have hcast : (m : ℚ) ≤ 2 ^ 23 := by exact_mod_cast hless.le
  rw [abs_toRat]
  calc (m * 2 ^ (-149 : Int) : ℚ) ≤ 2 ^ 23 * 2 ^ (-149 : Int) :=
        mul_le_mul_of_nonneg_right hcast (two_zpow_pos _).le
    _ ≤ roundoff := by norm_num [roundoff]

section
variable {hue : Single} (hhue : hue.Stored) (hge : -180 ≤ toRat hue) (hle : toRat hue ≤ 350)
include hhue hge hle

/-- A whole turn is added or none. -/
theorem near_hue_sub_turns : ∃ a : ℚ, (a = 0 ∨ a = 360) ∧
    -(2880 * roundoff) ≤ toRat hue + a ∧ toRat hue + a ≤ 360 + 2880 * roundoff ∧
      Near (hue - (hue / 360).floor * 360) (toRat hue + a) (1024 * roundoff) := by
  have hu := roundoff_eq
  obtain ⟨hcircle, hcircleValue⟩ := stored_turn
  have hturns := (hhue.div hcircle (by rw [hcircleValue]; norm_num)).near range_eight
    (abs_le.2 (by rw [hcircleValue]; constructor <;> linarith))
  have hturnsBounds := abs_le.1 hturns.le
  rw [hcircleValue] at hturnsBounds
  obtain ⟨hfloor, hfloorValue⟩ := hturns.stored.floor
  have hfloorLe := Int.floor_le (toRat (hue / 360))
  have hltFloor := Int.lt_floor_add_one (toRat (hue / 360))
  generalize ⌊toRat (hue / 360)⌋ = k at hfloorValue hfloorLe hltFloor
  have hk : -(k : ℚ) * 360 = 0 ∨ -(k : ℚ) * 360 = 360 := by
    have hlow : -2 < k := by exact_mod_cast (by linarith : (-2 : ℚ) < k)
    have hhigh : k < 1 := by exact_mod_cast (by linarith : (k : ℚ) < 1)
    obtain rfl | rfl : k = 0 ∨ k = -1 := by omega
    · exact .inl (by norm_num)
    · exact .inr (by norm_num)
  have hkBounds : 0 ≤ -(k : ℚ) * 360 ∧ -(k : ℚ) * 360 ≤ 360 := by
    rcases hk with hk | hk <;> rw [hk] <;> norm_num
  have hwhole := (hfloor.mul hcircle).near range_degrees
    (abs_le.2 (by rw [hfloorValue, hcircleValue]; constructor <;> linarith))
  have hwholeBounds := abs_le.1 hwhole.le
  rw [hfloorValue, hcircleValue] at hwholeBounds
  have hrest := (hhue.sub hwhole.stored).near range_degrees
    (abs_le.2 (by constructor <;> linarith))
  have hrestBounds := abs_le.1 hrest.le
  exact ⟨-k * 360, hk, by linarith, by linarith, hrest.stored,
    abs_le.2 ⟨by linarith, by linarith⟩⟩

theorem near_turn : (turn hue).Stored ∧ -(4096 * roundoff) ≤ toRat (turn hue) ∧
    toRat (turn hue) ≤ 360 ∧
      ∃ a : ℚ, (a = 0 ∨ a = 360) ∧ |toRat (turn hue) - (toRat hue + a)| ≤ 4096 * roundoff := by
  have hu := roundoff_eq
  obtain ⟨a, ha, hlow, hhigh, hrest⟩ := near_hue_sub_turns hhue hge hle
  have hrestBounds := abs_le.1 hrest.le
  have hfull := stored_turn.1.le_iff hrest.stored
  rw [stored_turn.2] at hfull
  unfold turn
  dsimp only
  generalize hue - (hue / 360).floor * 360 = h at hrest hrestBounds hfull ⊢
  split
  · next hnought =>
    rw [stored_nought.2]
    refine ⟨stored_nought.1, by linarith, by norm_num, ?_⟩
    rcases Bool.or_eq_true_iff.1 hnought with hsmall | hturn
    · have hsmallBounds := abs_le.1 (abs_le_of_isSubnormal hrest.stored hsmall)
      exact ⟨a, ha, abs_le.2 ⟨by linarith, by linarith⟩⟩
    · -- A hue right below zero may come out as a full turn, which counts as none.
      rw [hfull] at hturn
      obtain rfl : a = 360 := ha.resolve_left (by rintro rfl; linarith)
      exact ⟨0, .inl rfl, abs_le.2 ⟨by linarith, by linarith⟩⟩
  · next hkept =>
    have hless := mt (fun hle => Bool.or_eq_true_iff.2 (.inr (hfull.2 hle))) hkept
    exact ⟨hrest.stored, by linarith, (not_le.1 hless).le, a, ha, hrest.le.trans (by linarith)⟩

end

theorem inSixth_sixth? {h : Single} (hh : h.Stored) : InSixth (sixth? h) (toRat h) := by
  have hnext : ∀ n < 6, (ofNat n + 1 : Single) = ofNat (n + 1) := by decide
  have hholds {n : Nat} (hn : n < 6) : ((ofNat n).le h && h.lt (ofNat n + 1)) = true ↔
      (n : ℚ) ≤ toRat h ∧ toRat h < n + 1 := by
    obtain ⟨hlow, hlowValue⟩ := stored_ofNat (n := n) (by omega)
    obtain ⟨hhigh, hhighValue⟩ := stored_ofNat (n := n + 1) (by omega)
    rw [Bool.and_eq_true_iff, hnext n hn, hlow.le_iff hh, hh.lt_iff hhigh, hlowValue, hhighValue,
      Nat.cast_succ]
  constructor
  · intro n hn
    have hlt : n < 6 := List.mem_range.1 (List.mem_of_find?_eq_some hn)
    have hfound := List.find?_some (p := fun i => (ofNat i).le h && h.lt (ofNat i + 1)) hn
    obtain ⟨hlow, hhigh⟩ := (hholds hlt).1 hfound
    exact ⟨hlt, hlow, hhigh.le⟩
  · intro hnone
    by_contra hmid
    rw [not_or, not_le, not_le] at hmid
    have hfloor : ⌊toRat h⌋₊ < 6 := (Nat.floor_lt hmid.1.le).2 (by exact_mod_cast hmid.2)
    refine List.find?_eq_none.1 hnone ⌊toRat h⌋₊ (List.mem_range.2 hfloor) ((hholds hfloor).2 ?_)
    exact ⟨Nat.floor_le hmid.1.le, Nat.lt_floor_add_one _⟩

theorem near_one_sub_abs {x : Single} {q ε : ℚ} (hx : Near x q ε) (hε : ε ≤ 1)
    (hq : |q - 1| ≤ 3) : Near (1 - (x - 1).abs) (1 - |q - 1|) (ε + 16 * roundoff) := by
  have hu := roundoff_eq
  have hxBounds := abs_le.1 hx.le
  have hqBounds := abs_le.1 hq
  have hdist := (hx.stored.sub stored_one.1).near range_eight
    (abs_le.2 (by rw [stored_one.2]; constructor <;> linarith))
  have hdistBounds := abs_le.1 hdist.le
  rw [stored_one.2] at hdistBounds
  obtain ⟨habs, habsValue⟩ := hdist.stored.abs
  have habsNear : abs (toRat (x - 1).abs - |q - 1|) ≤ ε + 8 * roundoff := by
    rw [habsValue]
    refine (abs_abs_sub_abs_le_abs_sub _ _).trans (abs_le.2 ?_)
    constructor <;> linarith
  have habsBounds := abs_le.1 habsNear
  have hnonneg := abs_nonneg (q - 1)
  have hwidth := (stored_one.1.sub habs).near range_eight
    (abs_le.2 (by rw [stored_one.2]; constructor <;> linarith))
  have hwidthBounds := abs_le.1 hwidth.le
  rw [stored_one.2] at hwidthBounds
  exact ⟨hwidth.stored, abs_le.2 ⟨by linarith, by linarith⟩⟩

theorem exists_near_tooth {h : Single} (hh : h.Stored) (hge : -1 ≤ toRat h) (hle : toRat h ≤ 7) :
    ∃ k : Int, 2 * k - 16 * roundoff ≤ toRat h ∧ toRat h ≤ 2 * k + 2 + 16 * roundoff ∧
      Near (1 - (h - (h * (1 / 2)).floor * 2 - 1).abs) (tooth k (toRat h)) (40 * roundoff) := by
  have hu := roundoff_eq
  have hhalf := (hh.mul stored_half.1).near range_eight
    (abs_le.2 (by rw [stored_half.2]; constructor <;> linarith))
  have hhalfBounds := abs_le.1 hhalf.le
  rw [stored_half.2] at hhalfBounds
  obtain ⟨hfloor, hfloorValue⟩ := hhalf.stored.floor
  have hfloorLe := Int.floor_le (toRat (h * (1 / 2)))
  have hltFloor := Int.lt_floor_add_one (toRat (h * (1 / 2)))
  generalize ⌊toRat (h * (1 / 2))⌋ = k at hfloorValue hfloorLe hltFloor
  have hlow : 2 * k - 16 * roundoff ≤ toRat h := by linarith
  have hhigh : toRat h ≤ 2 * k + 2 + 16 * roundoff := by linarith
  have hwhole := (hfloor.mul stored_two.1).near range_eight
    (abs_le.2 (by rw [hfloorValue, stored_two.2]; constructor <;> linarith))
  have hwholeBounds := abs_le.1 hwhole.le
  rw [hfloorValue, stored_two.2] at hwholeBounds
  have hrest := (hh.sub hwhole.stored).near range_eight (abs_le.2 (by constructor <;> linarith))
  have hrestBounds := abs_le.1 hrest.le
  have hrestNear : Near (h - (h * (1 / 2)).floor * 2) (toRat h - 2 * k) (16 * roundoff) :=
    ⟨hrest.stored, abs_le.2 ⟨by linarith, by linarith⟩⟩
  have htooth := near_one_sub_abs hrestNear (by linarith) (abs_le.2 ⟨by linarith, by linarith⟩)
  exact ⟨k, hlow, hhigh, htooth.stored, htooth.le.trans (by linarith)⟩

/-! To red, green and blue -/

section
variable {c : Hsla} {v : Primary → ℚ} {low span η : ℚ} (hc : Describes c v low span η)
include hc

/-- The span, found again. -/
theorem near_chroma_of_describes :
    Near ((1 - (c.lightness * 2 - 1).abs) * c.saturation) span (120 * roundoff) := by
  have hu := roundoff_eq
  have hlight := abs_le.1 hc.lightness_near
  have hlow := hc.low_nonneg
  have hspan := hc.span_nonneg
  have hle := hc.le_one
  have hnonneg := hc.saturation_nonneg
  have hleOne := hc.saturation_le_one
  have hdouble := (hc.lightness.mul stored_two.1).near range_eight
    (abs_le.2 (by rw [stored_two.2]; constructor <;> linarith))
  rw [stored_two.2, mul_comm (toRat _)] at hdouble
  have hmid : |2 * toRat c.lightness - 1| ≤ 2 := abs_le.2 ⟨by linarith, by linarith⟩
  have hmidNonneg := abs_nonneg (2 * toRat c.lightness - 1)
  have hwidth := near_one_sub_abs hdouble (by linarith) (hmid.trans (by norm_num))
  have hwidthBounds := abs_le.1 hwidth.le
  have hbound : |toRat (1 - (c.lightness * 2 - 1).abs) * toRat c.saturation| ≤ 8 := by
    rw [abs_mul, abs_of_nonneg hnonneg]
    exact (mul_le_of_le_one_right (abs_nonneg _) hleOne).trans
      (abs_le.2 ⟨by linarith, by linarith⟩)
  have hchroma := (hwidth.stored.mul hc.saturation).near range_eight hbound
  have hpart : |(toRat (1 - (c.lightness * 2 - 1).abs) - (1 - |2 * toRat c.lightness - 1|)) *
      toRat c.saturation| ≤ 24 * roundoff := by
    rw [abs_mul, abs_of_nonneg hnonneg]
    exact (mul_le_of_le_one_right (abs_nonneg _) hleOne).trans
      (abs_le.2 ⟨by linarith, by linarith⟩)
  have hchromaBounds := abs_le.1 hchroma.le
  have hpartBounds := abs_le.1 hpart
  have hnearBounds := abs_le.1 hc.chroma_near
  exact ⟨hchroma.stored, abs_le.2 ⟨by linarith, by linarith⟩⟩

/-- The least channel, found again. -/
theorem near_base :
    let chroma := (1 - (c.lightness * 2 - 1).abs) * c.saturation
    Near (c.lightness - chroma * (1 / 2)) low (100 * roundoff) := by
  intro chroma
  have hu := roundoff_eq
  have hlight := abs_le.1 hc.lightness_near
  have hlow := hc.low_nonneg
  have hspan := hc.span_nonneg
  have hle := hc.le_one
  have hchroma := near_chroma_of_describes hc
  have hchromaBounds := abs_le.1 hchroma.le
  have hhalf := (hchroma.stored.mul stored_half.1).near range_eight
    (abs_le.2 (by rw [stored_half.2]; constructor <;> linarith))
  have hhalfBounds := abs_le.1 hhalf.le
  rw [stored_half.2] at hhalfBounds
  have hbase := (hc.lightness.sub hhalf.stored).near range_eight
    (abs_le.2 (by constructor <;> linarith))
  have hbaseBounds := abs_le.1 hbase.le
  exact ⟨hbase.stored, abs_le.2 ⟨by linarith, by linarith⟩⟩

/-- What the channels are above the least one, by the hue that is found. -/
theorem near_part {h : Single} (hh : h.Stored) (hge : -(128 * roundoff) ≤ toRat h)
    (hle : toRat h ≤ 6 + 128 * roundoff) (p : Primary) :
    let chroma := (1 - (c.lightness * 2 - 1).abs) * c.saturation
    let between := chroma * (1 - (h - (h * (1 / 2)).floor * 2 - 1).abs)
    Near (p.of (arranged chroma between 0 (sixth? h))) (span * p.share (toRat h))
      (700 * roundoff) := by
  intro chroma between
  have hu := roundoff_eq
  have hspan := hc.span_nonneg
  have hspanLe : span ≤ 1 := by linarith [hc.low_nonneg, hc.le_one]
  obtain ⟨k, hlow, hhigh, hfactor⟩ := exists_near_tooth hh (by linarith) (by linarith)
  have hchroma := near_chroma_of_describes hc
  have hchromaBounds := abs_le.1 hchroma.le
  have hfactorBounds := abs_le.1 hfactor.le
  have htooth : -1 ≤ tooth k (toRat h) ∧ tooth k (toRat h) ≤ 1 := by
    have hdist : |toRat h - 2 * k - 1| ≤ 2 := abs_le.2 ⟨by linarith, by linarith⟩
    exact ⟨by unfold tooth; linarith, sub_le_self 1 (abs_nonneg _)⟩
  have hfactorBound : |toRat (1 - (h - (h * (1 / 2)).floor * 2 - 1).abs)| ≤ 2 :=
    abs_le.2 ⟨by linarith, by linarith⟩
  have hbetween := (hchroma.stored.mul hfactor.stored).near range_eight (by
    rw [abs_mul]
    calc _ ≤ (2 : ℚ) * 2 := mul_le_mul (abs_le.2 ⟨by linarith, by linarith⟩) hfactorBound
          (abs_nonneg _) zero_le_two
      _ ≤ 8 := by norm_num)
  have hfirst : |(toRat chroma - span) * toRat (1 - (h - (h * (1 / 2)).floor * 2 - 1).abs)| ≤
      120 * roundoff * 2 := by
    rw [abs_mul]
    exact mul_le_mul hchroma.le hfactorBound (abs_nonneg _) (by linarith)
  have hsecond : |span * (toRat (1 - (h - (h * (1 / 2)).floor * 2 - 1).abs) -
      tooth k (toRat h))| ≤ 1 * (40 * roundoff) := by
    rw [abs_mul, abs_of_nonneg hspan]
    exact mul_le_mul hspanLe hfactor.le (abs_nonneg _) zero_le_one
  have hbetweenBounds := abs_le.1 hbetween.le
  have hfirstBounds := abs_le.1 hfirst
  have hsecondBounds := abs_le.1 hsecond
  have harranged : Near (p.of (arranged chroma between 0 (sixth? h)))
      (span * p.of (arranged 1 (tooth k (toRat h)) 0 (sixth? h))) (300 * roundoff) := by
    refine of_arranged_rel (R := fun x y => Near x (span * y) (300 * roundoff)) ?_ ?_ ?_ _ p
    · rw [mul_one]
      exact ⟨hchroma.stored, abs_le.2 ⟨by linarith, by linarith⟩⟩
    · exact ⟨hbetween.stored, abs_le.2 ⟨by linarith, by linarith⟩⟩
    · rw [mul_zero]
      refine ⟨stored_nought.1, ?_⟩
      rw [stored_nought.2, sub_zero, abs_zero]
      linarith
  have hshare := abs_share_sub_arranged_le (δ := 128 * roundoff) (by linarith) (by linarith)
    (inSixth_sixth? hh) hge hle (k := k) (by linarith) (by linarith) p
  have hweighted : |span * p.share (toRat h) -
      span * p.of (arranged 1 (tooth k (toRat h)) 0 (sixth? h))| ≤
        1 * (3 * (128 * roundoff)) := by
    rw [← mul_sub, abs_mul, abs_of_nonneg hspan]
    exact mul_le_mul hspanLe hshare (abs_nonneg _) zero_le_one
  have harrangedBounds := abs_le.1 harranged.le
  have hweightedBounds := abs_le.1 hweighted
  exact ⟨harranged.stored, abs_le.2 ⟨by linarith, by linarith⟩⟩

/-- The hue that is found fits the channels, as the shares do not change faster than the hue. -/
theorem abs_share_turn_sub_le {h : Single} {a : ℚ} (ha : a = 0 ∨ a = 360)
    (hge : -(128 * roundoff) ≤ toRat h) (hle : toRat h ≤ 6 + 128 * roundoff)
    (hnear : |60 * toRat h - (toRat c.hue + a)| ≤ 5000 * roundoff) (p : Primary) :
    |low + span * p.share (toRat h) - v p| ≤ 500 * roundoff := by
  have hu := roundoff_eq
  have hspan := hc.span_nonneg
  have hspanLe : span ≤ 1 := by linarith [hc.low_nonneg, hc.le_one]
  have hturn : η + a / 60 = η ∨ η + a / 60 = η + 6 := by
    rcases ha with rfl | rfl
    · exact .inl (by norm_num)
    · exact .inr (by norm_num)
  have hsplit : 60 * |toRat h - (η + a / 60)| ≤
      |60 * toRat h - (toRat c.hue + a)| + |toRat c.hue - 60 * η| := by
    calc 60 * |toRat h - (η + a / 60)| = |60 * (toRat h - (η + a / 60))| := by
          rw [abs_mul, abs_of_pos (by norm_num : (0 : ℚ) < 60)]
      _ = |60 * toRat h - (toRat c.hue + a) + (toRat c.hue - 60 * η)| := by
          congr 1
          ring
      _ ≤ |60 * toRat h - (toRat c.hue + a)| + |toRat c.hue - 60 * η| := abs_add_le _ _
  have hclose := hc.hue_close
  have hfar : |toRat h - (η + a / 60)| ≤ 1 / 2 := by linarith
  have hweighted : span * |toRat h - (η + a / 60)| ≤ 160 * roundoff := by
    have hmul := mul_le_mul_of_nonneg_left hsplit hspan
    have hfirst : span * |60 * toRat h - (toRat c.hue + a)| ≤ 1 * (5000 * roundoff) :=
      mul_le_mul hspanLe hnear (abs_nonneg _) zero_le_one
    have hsecond := hc.hue_near
    linarith
  have hbounds := abs_le.1 (le_refl |toRat h - (η + a / 60)|)
  have hfits := hc.fits (|toRat h - (η + a / 60)| + 128 * roundoff)
    (add_nonneg (abs_nonneg _) (by linarith)) (by linarith) (η + a / 60) hturn (by linarith)
    (by linarith) p
  have hshare : |span * p.share (toRat h) - span * p.share (η + a / 60)| ≤ 160 * roundoff := by
    rw [← mul_sub, abs_mul, abs_of_nonneg hspan]
    exact (mul_le_mul_of_nonneg_left (p.abs_share_sub_le _ _) hspan).trans hweighted
  have hslack : span * (128 * roundoff) ≤ 1 * (128 * roundoff) :=
    mul_le_mul_of_nonneg_right hspanLe (by linarith)
  have hfitsBounds := abs_le.1 hfits
  have hshareBounds := abs_le.1 hshare
  exact abs_le.2 ⟨by linarith, by linarith⟩

end

theorem get_toRgba (c : Hsla) (p : Primary) :
    let chroma := (1 - (c.lightness * 2 - 1).abs) * c.saturation
    let h := turn c.hue / 60
    let between := chroma * (1 - (h - (h * (1 / 2)).floor * 2 - 1).abs)
    let base := c.lightness - chroma * (1 / 2)
    p.get c.toRgba = (p.of (arranged chroma between 0 (sixth? h)) + base).clampUnit := by
  unfold Hsla.toRgba
  dsimp only
  generalize sixth? (turn c.hue / 60) = i
  rcases i with _ | _ | _ | _ | _ | _ | n <;> cases p <;> rfl

theorem near_get_toRgba {c : Hsla} {v : Primary → ℚ} {low span η : ℚ}
    (hc : Describes c v low span η) (p : Primary) (hv : 0 ≤ v p) (hv' : v p ≤ 1) :
    Near (p.get c.toRgba) (v p) (2000 * roundoff) := by
  have hu := roundoff_eq
  obtain ⟨hturn, hturnGe, hturnLe, a, ha, hnear⟩ := near_turn hc.hue hc.hue_ge hc.hue_le
  have hh := (hturn.div stored_sixty.1 (by rw [stored_sixty.2]; norm_num)).near range_eight
    (abs_le.2 (by rw [stored_sixty.2]; constructor <;> linarith))
  have hhBounds := abs_le.1 hh.le
  rw [stored_sixty.2] at hhBounds
  have hnearBounds := abs_le.1 hnear
  have hpart := near_part hc hh.stored (by linarith) (by linarith) p
  have hshare := abs_share_turn_sub_le hc (h := turn c.hue / 60) ha (by linarith) (by linarith)
    (abs_le.2 ⟨by linarith, by linarith⟩) p
  have hbase := near_base hc
  have hpartBounds := abs_le.1 hpart.le
  have hshareBounds := abs_le.1 hshare
  have hbaseBounds := abs_le.1 hbase.le
  have hsum := (hpart.stored.add hbase.stored).near range_eight
    (abs_le.2 (by constructor <;> linarith))
  have hsumBounds := abs_le.1 hsum.le
  have hvalue : Near _ (v p) (2000 * roundoff) :=
    ⟨hsum.stored, abs_le.2 ⟨by linarith, by linarith⟩⟩
  rw [get_toRgba]
  exact hvalue.clampUnit hv hv'

end StyleCalls.Color
