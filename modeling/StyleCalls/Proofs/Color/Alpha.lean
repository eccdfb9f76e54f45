import StyleCalls.Color.Model
import StyleCalls.Proofs.Binary.Magnitude

/-! Alpha on its way from the text of a color to that of the adjusted one. It is a number wherever
it comes from, clamping brings it into the unit interval, and from there rounding to three places
cannot leave the range of finite numbers. -/

namespace StyleCalls.Color
open Binary
variable {P : Palette}

/-! Clamping -/

theorem one_eq_finite : (1 : Single) = finite false 8388608 (-23) := by decide +kernel

/-- Finite, and at most one in magnitude. -/
def InUnit (x : Single) : Prop :=
  ∃ (neg : Bool) (m : Nat) (e : Int), x = finite neg m e ∧ (m * 2 ^ e : ℚ) ≤ 1

theorem inUnit_zero : InUnit 0 := ⟨false, 0, -149, rfl, by norm_num⟩

theorem inUnit_one : InUnit 1 := ⟨false, 8388608, -23, one_eq_finite, by norm_num⟩

theorem inUnit_clampUnit {x : Single} (hx : x ≠ nan) : InUnit x.clampUnit := by
  unfold clampUnit
  by_cases hneg : x.lt 0 = true
  · rw [if_pos hneg]
    exact inUnit_zero
  · rw [if_neg hneg]
    by_cases hgreat : lt 1 x = true
    · rw [if_pos hgreat]
      exact inUnit_one
    · rw [if_neg hgreat]
      cases x with
      | nan => exact absurd rfl hx
      | infinite s =>
        -- an infinite number is on one side or the other
        cases s with
        | true => exact absurd rfl hneg
        | false =>
          rw [one_eq_finite] at hgreat
          exact absurd rfl hgreat
      | finite s m e =>
        have hzero : (0 : Single) = finite false 0 (-149) := rfl
        have htoZero : toRat (finite false 0 (-149) : Single) = 0 := by norm_num [toRat]
        have htoOne : toRat (finite false 8388608 (-23) : Single) = 1 := by norm_num [toRat]
        rw [hzero, lt_finite_iff, not_lt, htoZero] at hneg
        rw [one_eq_finite, lt_finite_iff, not_lt, htoOne] at hgreat
        exact ⟨s, m, e, rfl, by rw [← abs_toRat s m e]; rwa [abs_of_nonneg hneg]⟩

theorem InUnit.ne_nan {x : Single} (h : InUnit x) : x ≠ nan := by
  obtain ⟨neg, m, e, rfl, _⟩ := h
  exact nofun

theorem thousand_eq_finite : (1000 : Single) = finite false 16384000 (-14) := by decide +kernel

/-- What is written of alpha is finite. -/
theorem exists_thousandths_eq {x : Single} (h : InUnit x) :
    ∃ (neg : Bool) (m : Nat) (e : Int), (x * 1000).round / 1000 = finite neg m e ∧
      Format.single.Holds m e := by
  obtain ⟨s, m, e, rfl, hle⟩ := h
  have hF := Format.single_sound
  have hthousand : ((16384000 : Nat) * 2 ^ (-14 : Int) : ℚ) = 1000 := by norm_num
  have hmul : (m * 2 ^ e * ((16384000 : Nat) * 2 ^ (-14 : Int)) : ℚ) < 2 ^ (10 : Int) := by
    rw [hthousand]
    calc (m * 2 ^ e * 1000 : ℚ) ≤ 1 * 1000 := mul_le_mul_of_nonneg_right hle (by norm_num)
      _ < 2 ^ (10 : Int) := by norm_num
  obtain ⟨m₁, e₁, hproduct, _, hle₁⟩ :=
    exists_mul_eq_finite hF s false hmul (by decide) (by decide)
  obtain ⟨m₂, e₂, hround, hle₂⟩ :=
    exists_round_eq_finite hF (s != false) (b := 10) hle₁ (by decide) (by decide)
  have hdiv : (m₂ * 2 ^ e₂ / ((16384000 : Nat) * 2 ^ (-14 : Int)) : ℚ) < 2 ^ (2 : Int) := by
    rw [hthousand]
    calc (m₂ * 2 ^ e₂ / 1000 : ℚ) ≤ 2 ^ 11 / 1000 := div_le_div_of_nonneg_right hle₂ (by norm_num)
      _ < 2 ^ (2 : Int) := by norm_num
  obtain ⟨m₃, e₃, hquotient, hholds, _⟩ :=
    exists_div_eq_finite hF (s != false) false (by decide) hdiv (by decide) (by decide)
  refine ⟨(s != false) != false, m₃, e₃, ?_, hholds⟩
  rw [thousand_eq_finite, hproduct, hround, hquotient]

/-! Alpha as it is read -/

theorem clampUnit_ne_nan {x : Single} (hx : x ≠ nan) : x.clampUnit ≠ nan :=
  (inUnit_clampUnit hx).ne_nan

theorem number?_ne_nan {t : Text} {x : Single} (h : number? t = some x) : x ≠ nan := by
  obtain ⟨d, _, hd⟩ := Option.bind_eq_some_iff.1 h
  obtain ⟨hfinite, hx⟩ := Option.ite_none_right_eq_some.1 hd
  obtain rfl := Option.some.inj hx
  intro hnan
  rw [hnan] at hfinite
  exact Bool.noConfusion hfinite

theorem portion?_ne_nan {whole : Single} (hwhole : whole.isFinite = true)
    (hzero : whole.isZero = false) {t : Text} {x : Single} (h : portion? whole t = some x) :
    x ≠ nan := by
  unfold portion? at h
  split at h
  · obtain ⟨y, hy, rfl⟩ := Option.map_eq_some_iff.1 h
    exact clampUnit_ne_nan (div_ne_nan (number?_ne_nan hy) (by decide +kernel) (by decide +kernel))
  · obtain ⟨y, hy, rfl⟩ := Option.map_eq_some_iff.1 h
    exact clampUnit_ne_nan (div_ne_nan (number?_ne_nan hy) hwhole hzero)

theorem byte_ne_nan (n : Nat) : (ofNat n / 255 : Single) ≠ nan :=
  div_ne_nan (ofRatio_ne_nan _ _ _) (by decide +kernel) (by decide +kernel)

theorem alpha_ne_nan_of_ofHex? {t : Text} {c : Rgba} (h : ofHex? P t = some c) : c.alpha ≠ nan := by
  obtain ⟨ds, _, hds⟩ := Option.bind_eq_some_iff.1 h
  simp only at hds
  split at hds
  · obtain rfl := Option.some.inj hds
    exact inUnit_one.ne_nan
  · obtain rfl := Option.some.inj hds
    exact byte_ne_nan _
  · obtain rfl := Option.some.inj hds
    exact inUnit_one.ne_nan
  · obtain rfl := Option.some.inj hds
    exact byte_ne_nan _
  · exact nomatch hds

theorem alpha_ne_nan_of_ofKeyword? {t : Text} {c : Rgba} (h : ofKeyword? P t = some c) :
    c.alpha ≠ nan := by
  unfold ofKeyword? at h
  split at h
  · obtain rfl := Option.some.inj h
    exact inUnit_zero.ne_nan
  · obtain ⟨k, _, rfl⟩ := Option.map_eq_some_iff.1 h
    exact inUnit_one.ne_nan

theorem alpha_ne_nan_of_ofChannels? {function x y z : Text} {alpha : Single} (halpha : alpha ≠ nan)
    {c : Rgba} (h : ofChannels? P function x y z alpha = some c) : c.alpha ≠ nan := by
  unfold ofChannels? at h
  split at h
  · obtain ⟨r, _, h⟩ := Option.bind_eq_some_iff.1 h
    obtain ⟨g, _, h⟩ := Option.bind_eq_some_iff.1 h
    obtain ⟨b, _, h⟩ := Option.bind_eq_some_iff.1 h
    obtain rfl := Option.some.inj h
    exact halpha
  · split at h
    · obtain ⟨hue, _, h⟩ := Option.bind_eq_some_iff.1 h
      obtain ⟨saturation, _, h⟩ := Option.bind_eq_some_iff.1 h
      obtain ⟨lightness, _, h⟩ := Option.bind_eq_some_iff.1 h
      obtain rfl := Option.some.inj h
      rw [P.alpha_toRgba]
      exact clampUnit_ne_nan halpha
    · exact nomatch h

theorem alpha_ne_nan_of_ofFunction? {t : Text} {c : Rgba} (h : ofFunction? P t = some c) :
    c.alpha ≠ nan := by
  unfold ofFunction? at h
  split at h
  · obtain ⟨inner, _, h⟩ := Option.bind_eq_some_iff.1 h
    split at h
    · exact alpha_ne_nan_of_ofChannels? inUnit_one.ne_nan h
    · obtain ⟨alpha, halpha, h⟩ := Option.bind_eq_some_iff.1 h
      refine alpha_ne_nan_of_ofChannels? (portion?_ne_nan ?_ ?_ halpha) h <;> decide +kernel
    · exact nomatch h
  · exact nomatch h

/-- However a color is written, its alpha is a number. -/
theorem alpha_ne_nan_of_read? {t : Text} {c : Rgba} (h : read? P t = some c) : c.alpha ≠ nan := by
  unfold read? at h
  split at h
  · exact alpha_ne_nan_of_ofHex? h
  · rw [Option.orElse_eq_orElse, Option.orElse_eq_or] at h
    rcases Option.or_eq_some_iff.1 h with hkeyword | ⟨_, hfunction⟩
    · exact alpha_ne_nan_of_ofKeyword? hkeyword
    · exact alpha_ne_nan_of_ofFunction? hfunction

/-! Alpha as it is moved -/

theorem points_ne_nan {d : Delta} (hd : d ≠ nan) : points d ≠ nan :=
  convert_ne_nan (div_ne_nan hd (by decide +kernel) (by decide +kernel))

theorem inUnit_alpha_adjust {c : Rgba} (hc : c.alpha ≠ nan) {d : Deltas} (hd : d.a ≠ nan) :
    InUnit (c.adjust P d).alpha := by
  obtain ⟨neg, m, e, hclamp, _⟩ := inUnit_clampUnit hc
  have hsum : (P.toHsla c).alpha + points d.a ≠ nan := by
    rw [P.alpha_toHsla, hclamp]
    exact finite_add_ne_nan neg m e (points_ne_nan hd)
  rw [Rgba.adjust, P.alpha_toRgba]
  exact inUnit_clampUnit (clampUnit_ne_nan hsum)

end StyleCalls.Color
