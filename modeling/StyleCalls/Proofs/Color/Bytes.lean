import StyleCalls.Proofs.Color.Alpha
import StyleCalls.Proofs.Color.Reconversion

/-! Bytes on their way through hue, saturation and lightness. Moving by nothing changes no value, and
what the conversions change is too little to make another byte of a channel. -/

namespace StyleCalls

/-- No offset in any channel, with either sign of zero. -/
structure Deltas.IsZero (d : Deltas) : Prop where
  hue : d.h.isZero = true
  saturation : d.s.isZero = true
  lightness : d.l.isZero = true
  alpha : d.a.isZero = true

theorem Deltas.IsZero.a_ne_nan {d : Deltas} (hd : d.IsZero) : d.a ≠ .nan := by
  intro hnan
  have hzero := hd.alpha
  rw [hnan] at hzero
  exact Bool.noConfusion hzero

namespace Color
open Binary

/-! Moving by nothing -/

theorem scale_zero (k : Int) : scale 0 k = 0 := Nat.zero_mul _

theorem ofDyadic_zero {F : Format} (neg : Bool) (e : Int) :
    (ofDyadic neg 0 e : Binary F) = zero neg := by
  rw [ofDyadic, scale_zero]
  exact if_pos rfl

theorem exists_eq_of_isZero {F : Format} {x : Binary F} (h : x.isZero = true) :
    ∃ neg e, x = finite neg 0 e := by
  cases x with
  | nan => exact Bool.noConfusion h
  | infinite neg => exact Bool.noConfusion h
  | finite neg m e =>
    obtain rfl : m = 0 := of_decide_eq_true h
    exact ⟨neg, e, rfl⟩

theorem exists_convert_eq {d : Delta} (h : d.isZero = true) :
    ∃ neg, (d.convert : Single) = zero neg := by
  obtain ⟨neg, e, rfl⟩ := exists_eq_of_isZero h
  exact ⟨neg, ofDyadic_zero neg e⟩

theorem exists_points_eq {d : Delta} (h : d.isZero = true) : ∃ neg, points d = zero neg := by
  obtain ⟨neg, e, rfl⟩ := exists_eq_of_isZero h
  have hhundred : (100 : Double) = finite false 7036874417766400 (-46) := by decide
  have hquotient : (finite neg 0 e / 100 : Double) = zero (neg != false) := by
    rw [hhundred, finite_div_finite neg false (by decide), scale_zero]
    exact if_pos rfl
  refine ⟨neg != false, ?_⟩
  rw [points, hquotient]
  exact ofDyadic_zero _ _

theorem clampUnit_add_points {x : Single} (hx : x.Stored) (hlow : 0 ≤ toRat x)
    (hhigh : toRat x ≤ 1) {d : Delta} (hd : d.isZero = true) :
    (x + points d).clampUnit.Stored ∧ toRat (x + points d).clampUnit = toRat x := by
  obtain ⟨neg, hpoints⟩ := exists_points_eq hd
  obtain ⟨hsum, hsumValue⟩ := hx.add_zero Format.single_sound neg
  obtain ⟨hstored, hvalue⟩ := hsum.clampUnit
  rw [hpoints]
  exact ⟨hstored, by rw [hvalue, hsumValue, min_eq_right hhigh, max_eq_right hlow]⟩

theorem Describes.adjust {c : Hsla} {v : Primary → ℚ} {low span η : ℚ}
    (hc : Describes c v low span η) {d : Deltas} (hd : d.IsZero) :
    Describes (c.adjust .standard d) v low span η := by
  obtain ⟨neg, hneg⟩ := exists_convert_eq hd.hue
  have hhue : (c.adjust .standard d).hue.Stored ∧ toRat (c.adjust .standard d).hue = toRat c.hue := by
    rw [Hsla.adjust, hneg]
    exact hc.hue.add_zero Format.single_sound neg
  have hsaturation : (c.adjust .standard d).saturation.Stored ∧
      toRat (c.adjust .standard d).saturation = toRat c.saturation :=
    clampUnit_add_points hc.saturation hc.saturation_nonneg hc.saturation_le_one hd.saturation
  have hlightness : (c.adjust .standard d).lightness.Stored ∧
      toRat (c.adjust .standard d).lightness = toRat c.lightness :=
    clampUnit_add_points hc.lightness hc.lightness_nonneg hc.lightness_le_one hd.lightness
  exact {
    hue := hhue.1
    saturation := hsaturation.1
    lightness := hlightness.1
    low_nonneg := hc.low_nonneg
    span_nonneg := hc.span_nonneg
    le_one := hc.le_one
    saturation_nonneg := hsaturation.2 ▸ hc.saturation_nonneg
    saturation_le_one := hsaturation.2 ▸ hc.saturation_le_one
    lightness_nonneg := hlightness.2 ▸ hc.lightness_nonneg
    lightness_le_one := hlightness.2 ▸ hc.lightness_le_one
    lightness_near := hlightness.2 ▸ hc.lightness_near
    chroma_near := by
      rw [hlightness.2, hsaturation.2]
      exact hc.chroma_near
    hue_near := hhue.2 ▸ hc.hue_near
    hue_close := hhue.2 ▸ hc.hue_close
    hue_ge := hhue.2 ▸ hc.hue_ge
    hue_le := hhue.2 ▸ hc.hue_le
    fits := hc.fits }

theorem near_get_adjust {c : Rgba} (hc : Channels c) {d : Deltas} (hd : d.IsZero) (p : Primary) :
    Near (p.get (c.adjust .standard d)) (p.value c) (2000 * roundoff) := by
  obtain ⟨low, span, η, hdescribes⟩ := exists_describes_toHsla hc
  exact near_get_toRgba (hdescribes.adjust hd) p (hc.nonneg p) (hc.le_one p)

/-! Bytes -/

/-- A way to read bytes as channels. -/
structure Reading (f : Nat → Single) : Prop where
  near : ∀ n < 256, Near (f n) (n / 255) (2100 * roundoff)
  mem : ∀ n < 256, 0 ≤ toRat (f n) ∧ toRat (f n) ≤ 1

theorem stored_greatest : (255 : Single).Stored ∧ toRat (255 : Single) = 255 :=
  stored_literal (by norm_num) (by norm_num)

theorem reading_ofByte : Reading ofByte := by
  have hu := roundoff_eq
  have hinverse := (stored_one.1.div stored_greatest.1
    (by rw [stored_greatest.2]; norm_num)).near range_eight
    (by rw [stored_one.2, stored_greatest.2]; norm_num [abs_le])
  have hinverseBounds := abs_le.1 hinverse.le
  rw [stored_one.2, stored_greatest.2] at hinverseBounds
  have hnear {n : Nat} (hn : n < 256) : Near (ofByte n) (n / 255) (2100 * roundoff) := by
    obtain ⟨hwhole, hvalue⟩ := stored_ofNat (n := n) (by omega)
    have hnonneg : (0 : ℚ) ≤ n := Nat.cast_nonneg n
    have hle : (n : ℚ) ≤ 255 := by exact_mod_cast Nat.le_of_lt_succ hn
    have hfirst : |toRat (ofNat n : Single) * (toRat (1 / 255 : Single) - 1 / 255)| ≤
        255 * (8 * roundoff) := by
      rw [hvalue, abs_mul, abs_of_nonneg hnonneg]
      exact mul_le_mul hle (abs_le.2 hinverseBounds) (abs_nonneg _) (by norm_num)
    have hfirstBounds := abs_le.1 hfirst
    rw [hvalue] at hfirstBounds
    have hproduct := (hwhole.mul hinverse.stored).near range_eight
      (abs_le.2 (by rw [hvalue]; constructor <;> linarith))
    have hproductBounds := abs_le.1 hproduct.le
    rw [hvalue] at hproductBounds
    exact ⟨hproduct.stored, abs_le.2 ⟨by unfold ofByte; linarith, by unfold ofByte; linarith⟩⟩
  refine ⟨fun n hn => hnear hn, fun n hn => ?_⟩
  -- Only at the ends is the error too coarse.
  have hends : (ofByte 0).clampUnit = ofByte 0 ∧ (ofByte 255).clampUnit = ofByte 255 := by decide
  have hbounds := abs_le.1 (hnear hn).le
  rcases Nat.eq_zero_or_pos n with rfl | hpos
  · exact hends.1 ▸ (hnear hn).stored.clampUnit_mem
  rcases Nat.lt_or_eq_of_le (Nat.le_of_lt_succ hn) with hlt | rfl
  · have hge : (1 : ℚ) ≤ n := by exact_mod_cast hpos
    have hle : (n : ℚ) ≤ 254 := by exact_mod_cast Nat.le_of_lt_succ hlt
    constructor <;> linarith
  · exact hends.2 ▸ (hnear hn).stored.clampUnit_mem

theorem reading_quotient : Reading fun n => (ofNat n / 255).clampUnit := by
  have hu := roundoff_eq
  have hnear {n : Nat} (hn : n < 256) :
      Near (ofNat n / 255) (n / 255) (2100 * roundoff) := by
    obtain ⟨hwhole, hvalue⟩ := stored_ofNat (n := n) (by omega)
    have hnonneg : (0 : ℚ) ≤ n := Nat.cast_nonneg n
    have hle : (n : ℚ) ≤ 255 := by exact_mod_cast Nat.le_of_lt_succ hn
    have hquotient := (hwhole.div stored_greatest.1
      (by rw [stored_greatest.2]; norm_num)).near range_eight
      (abs_le.2 (by rw [hvalue, stored_greatest.2]; constructor <;> linarith))
    rw [hvalue, stored_greatest.2] at hquotient
    exact ⟨hquotient.stored, hquotient.le.trans (by linarith)⟩
  have hmem {n : Nat} (hn : n < 256) : (0 : ℚ) ≤ n / 255 ∧ (n / 255 : ℚ) ≤ 1 := by
    have hle : (n : ℚ) ≤ 255 := by exact_mod_cast Nat.le_of_lt_succ hn
    exact ⟨by positivity, by linarith⟩
  exact ⟨fun n hn => (hnear hn).clampUnit (hmem hn).1 (hmem hn).2,
    fun n hn => (hnear hn).stored.clampUnit_mem⟩

theorem Reading.channels {f : Nat → Single} (hf : Reading f) {bytes : Primary → Nat}
    (hbytes : ∀ p, bytes p < 256) {c : Rgba} (hc : ∀ p : Primary, p.get c = f (bytes p)) :
    Channels c := by
  have hu := roundoff_eq
  have hvalue (p : Primary) : p.value c = toRat (f (bytes p)) := congrArg toRat (hc p)
  have hnear (p : Primary) := abs_le.1 (hf.near (bytes p) (hbytes p)).le
  refine ⟨fun p => ?_, fun p => ?_, fun p => ?_, fun p q hpq => ?_⟩
  · rw [hc]
    exact (hf.near _ (hbytes p)).stored
  · rw [hvalue]
    exact (hf.mem _ (hbytes p)).1
  · rw [hvalue]
    exact (hf.mem _ (hbytes p)).2
  · rw [hvalue, hvalue] at hpq ⊢
    have hp := hnear p
    have hq := hnear q
    have hlt : bytes p < bytes q := by
      by_contra hnot
      rcases Nat.lt_or_eq_of_le (not_lt.1 hnot) with hless | heq
      · have hcast : (bytes q + 1 : ℚ) ≤ bytes p := by exact_mod_cast hless
        linarith
      · exact hpq.ne (by rw [heq])
    have hcast : (bytes p + 1 : ℚ) ≤ bytes q := by exact_mod_cast hlt
    linarith

theorem toByte_of_near {x : Single} {n : Nat} (hn : n < 256)
    (hx : Near x (n / 255) (5000 * roundoff)) : toByte x = n := by
  have hu := roundoff_eq
  have hxBounds := abs_le.1 hx.le
  have hnonneg : (0 : ℚ) ≤ n := Nat.cast_nonneg n
  have hle : (n : ℚ) ≤ 255 := by exact_mod_cast Nat.le_of_lt_succ hn
  have hproduct := (hx.stored.mul stored_greatest.1).near range_degrees
    (abs_le.2 (by rw [stored_greatest.2]; constructor <;> linarith))
  have hproductBounds := abs_le.1 hproduct.le
  rw [stored_greatest.2] at hproductBounds
  obtain ⟨neg, m, e, hfinite, _⟩ := hproduct.stored
  rw [hfinite] at hproductBounds
  unfold toByte
  rw [hfinite]
  cases neg with
  | true =>
    have hneg : toRat (finite true m e : Single) ≤ 0 :=
      neg_nonpos.2 (mul_nonneg (Nat.cast_nonneg m) (two_zpow_pos e).le)
    have hless : (n : ℚ) < 1 := by linarith
    have hzero : n < 1 := by exact_mod_cast hless
    exact (Nat.lt_one_iff.1 hzero).symm
  | false =>
    have hround : nearestEven (scale m e) (scale 1 (-e)) = n := by
      refine nearestEven_eq_of_near (scale_pos Nat.one_pos _) ?_
      rw [scale_div_scale_one, abs_lt]
      change -_ ≤ (m * 2 ^ e : ℚ) - _ ∧ (m * 2 ^ e : ℚ) - _ ≤ _ at hproductBounds
      constructor <;> linarith
    change min 255 _ = n
    rw [hround]
    exact min_eq_right (Nat.le_of_lt_succ hn)

/-- How exact a palette is. It reads bytes as channels and finds the byte that a channel is near to,
and what its conversions change about a color that is moved by nothing is as little as rounding
makes it. -/
structure Palette.Exact (P : Palette) : Prop where
  reading : Reading P.ofByte
  toByte_of_near : ∀ {x : Single} {n : Nat}, n < 256 → Near x (n / 255) (5000 * roundoff) →
    P.toByte x = n
  near_get_adjust : ∀ {c : Rgba}, Channels c → ∀ {d : Deltas}, d.IsZero → ∀ p : Primary,
    Near (p.get (c.adjust P d)) (p.value c) (2000 * roundoff)

theorem exact_standard : Palette.standard.Exact where
  reading := reading_ofByte
  toByte_of_near := toByte_of_near
  near_get_adjust := near_get_adjust

/-- Moved by nothing, channels that were read from bytes are written as the same bytes. -/
theorem Reading.toByte_adjust {P : Palette} (hP : P.Exact) {f : Nat → Single} (hf : Reading f)
    {bytes : Primary → Nat} (hbytes : ∀ p, bytes p < 256) {c : Rgba}
    (hc : ∀ p : Primary, p.get c = f (bytes p)) {d : Deltas} (hd : d.IsZero) (p : Primary) :
    P.toByte (p.get (c.adjust P d)) = bytes p := by
  have hu := roundoff_eq
  have hvalue : p.value c = toRat (f (bytes p)) := congrArg toRat (hc p)
  have hread := abs_le.1 (hf.near _ (hbytes p)).le
  have hadjust := hP.near_get_adjust (hf.channels hbytes hc) hd p
  have hadjustBounds := abs_le.1 hadjust.le
  rw [hvalue] at hadjustBounds
  exact hP.toByte_of_near (hbytes p) ⟨hadjust.stored, abs_le.2 ⟨by linarith, by linarith⟩⟩

end Color
end StyleCalls
