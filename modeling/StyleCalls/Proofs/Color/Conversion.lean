import StyleCalls.Proofs.Binary.Error
import StyleCalls.Proofs.Color.Circle

/-! Colors converted to hue, saturation and lightness and back. Rounding leaves the hue of a nearly
gray color far from the exact one, but then the hue hardly matters: what each step is off by is bounded
with the weight that it has for the channels in the end. -/

namespace StyleCalls.Color
open Binary

theorem range_eight : Range 8 := ⟨by norm_num, by norm_num⟩

/-- The bound for degrees. -/
theorem range_degrees : Range 512 := ⟨by norm_num, by norm_num⟩

theorem stored_two : (2 : Single).Stored ∧ toRat (2 : Single) = 2 :=
  stored_literal (by norm_num) (by norm_num)

theorem stored_sixty : (60 : Single).Stored ∧ toRat (60 : Single) = 60 :=
  stored_literal (by norm_num) (by norm_num)

theorem stored_turn : (360 : Single).Stored ∧ toRat (360 : Single) = 360 :=
  stored_literal (by norm_num) (by norm_num)

/-! The greatest and the least channel -/

/-- The exact value of a channel. -/
def Primary.value (c : Rgba) (p : Primary) : ℚ := toRat (p.get c)

/-- What is found out about the channels by comparing them. -/
structure Extremes.Of (c : Rgba) (e : Extremes) : Prop where
  max_get : ∃ p : Primary, e.max = p.get c
  min_get : ∃ p : Primary, e.min = p.get c
  min_le : ∀ p : Primary, toRat e.min ≤ p.value c
  le_max : ∀ p : Primary, p.value c ≤ toRat e.max
  fits : ∃ (p q : Primary) (k : Nat), e.separation = p.get c - q.get c ∧ e.sixth = ofNat k ∧ k ≤ 4 ∧
    ∀ η δ : ℚ, 0 ≤ δ → δ < 1 → toRat e.min < toRat e.max →
      (toRat e.max - toRat e.min) * (η - k) = p.value c - q.value c →
      Fits (Primary.value c) (toRat e.min) (toRat e.max - toRat e.min) η δ

section
variable {c : Rgba} {e : Extremes} (hmin : ∀ p : Primary, toRat e.min ≤ p.value c)
  (hmax : ∀ p : Primary, p.value c ≤ toRat e.max)
include hmin hmax

theorem Extremes.of_red (hred : e.max = c.red) (hleast : e.min = c.green ∨ e.min = c.blue)
    (hseparation : e.separation = c.green - c.blue) (hsixth : e.sixth = 0) : e.Of c where
  max_get := ⟨.red, hred⟩
  min_get := hleast.elim (⟨.green, ·⟩) (⟨.blue, ·⟩)
  min_le := hmin
  le_max := hmax
  fits := by
    refine ⟨.green, .blue, 0, hseparation, hsixth, by norm_num, fun η δ hδ _ hspan hη => ?_⟩
    rw [Nat.cast_zero, sub_zero] at hη
    refine fits_of_red (sub_pos.2 hspan) hmin (fun p => by linarith [hmax p]) hδ hη ?_ ?_
    · rw [add_sub_cancel, hred]
      rfl
    · exact hleast.imp (fun h => by rw [h]; rfl) (fun h => by rw [h]; rfl)

theorem Extremes.of_green (hgreen : e.max = c.green) (hleast : e.min = c.blue ∨ e.min = c.red)
    (hseparation : e.separation = c.blue - c.red) (hsixth : e.sixth = 2) : e.Of c where
  max_get := ⟨.green, hgreen⟩
  min_get := hleast.elim (⟨.blue, ·⟩) (⟨.red, ·⟩)
  min_le := hmin
  le_max := hmax
  fits := by
    refine ⟨.blue, .red, 2, hseparation, hsixth, by norm_num, fun η δ hδ hδ' hspan hη => ?_⟩
    refine fits_of_green (sub_pos.2 hspan) hmin (fun p => by linarith [hmax p]) hδ hδ' hη ?_ ?_
    · rw [add_sub_cancel, hgreen]
      rfl
    · exact hleast.imp (fun h => by rw [h]; rfl) (fun h => by rw [h]; rfl)

theorem Extremes.of_blue (hblue : e.max = c.blue) (hleast : e.min = c.red ∨ e.min = c.green)
    (hseparation : e.separation = c.red - c.green) (hsixth : e.sixth = 4) : e.Of c where
  max_get := ⟨.blue, hblue⟩
  min_get := hleast.elim (⟨.red, ·⟩) (⟨.green, ·⟩)
  min_le := hmin
  le_max := hmax
  fits := by
    refine ⟨.red, .green, 4, hseparation, hsixth, le_rfl, fun η δ hδ hδ' hspan hη => ?_⟩
    refine fits_of_blue (sub_pos.2 hspan) hmin (fun p => by linarith [hmax p]) hδ hδ' hη ?_ ?_
    · rw [add_sub_cancel, hblue]
      rfl
    · exact hleast.imp (fun h => by rw [h]; rfl) (fun h => by rw [h]; rfl)

end

theorem of_extremes {c : Rgba} (hc : ∀ p : Primary, (p.get c).Stored) :
    (extremes c.red c.green c.blue).Of c := by
  have hlt (p q : Primary) : lt (p.get c) (q.get c) = true ↔ p.value c < q.value c :=
    (hc p).lt_iff (hc q)
  have hnot (p q : Primary) (h : ¬lt (p.get c) (q.get c) = true) : q.value c ≤ p.value c :=
    not_lt.1 (mt (hlt p q).2 h)
  have hforall {P : Primary → Prop} (hr : P .red) (hg : P .green) (hb : P .blue) (p : Primary) :
      P p := by cases p <;> assumption
  unfold extremes
  dsimp only
  by_cases hgr : lt c.green c.red = true
  · rw [if_pos hgr]
    replace hgr := (hlt .green .red).1 hgr
    by_cases hrb : lt c.red c.blue = true
    · rw [if_pos hrb]
      replace hrb := (hlt .red .blue).1 hrb
      exact Extremes.of_blue (hforall hgr.le le_rfl (hgr.trans hrb).le)
        (hforall hrb.le (hgr.trans hrb).le le_rfl) rfl (.inr rfl) rfl rfl
    · rw [if_neg hrb]
      replace hrb := hnot .red .blue hrb
      by_cases hbg : lt c.blue c.green = true
      · rw [if_pos hbg]
        replace hbg := (hlt .blue .green).1 hbg
        exact Extremes.of_red (hforall hrb hbg.le le_rfl) (hforall le_rfl hgr.le hrb) rfl
          (.inr rfl) rfl rfl
      · rw [if_neg hbg]
        replace hbg := hnot .blue .green hbg
        exact Extremes.of_red (hforall hgr.le le_rfl hbg) (hforall le_rfl hgr.le hrb) rfl
          (.inl rfl) rfl rfl
  · rw [if_neg hgr]
    replace hgr := hnot .green .red hgr
    by_cases hgb : lt c.green c.blue = true
    · rw [if_pos hgb]
      replace hgb := (hlt .green .blue).1 hgb
      exact Extremes.of_blue (hforall le_rfl hgr (hgr.trans hgb.le))
        (hforall (hgr.trans hgb.le) hgb.le le_rfl) rfl (.inl rfl) rfl rfl
    · rw [if_neg hgb]
      replace hgb := hnot .green .blue hgb
      by_cases hbr : lt c.blue c.red = true
      · rw [if_pos hbr]
        replace hbr := (hlt .blue .red).1 hbr
        exact Extremes.of_green (hforall hbr.le hgb le_rfl) (hforall hgr le_rfl hgb) rfl
          (.inl rfl) rfl rfl
      · rw [if_neg hbr]
        replace hbr := hnot .blue .red hbr
        exact Extremes.of_green (hforall le_rfl hgr hbr) (hforall hgr le_rfl hgb) rfl
          (.inr rfl) rfl rfl

/-! To hue, saturation and lightness -/

theorem roundoff_eq : roundoff = 1 / 16777216 := by norm_num [roundoff]

/-- The saturation is what the difference `d` is of the width `w` that the lightness leaves, so the
width times the saturation is the difference again. -/
theorem abs_mul_clamp_sub_le {a w s d span α β γ ε : ℚ} (hw : 0 < w) (hw' : w ≤ 2)
    (ha : |a - w| ≤ α) (hd : |d - span| ≤ β) (hspan : 0 ≤ span) (hγ : 0 ≤ γ) (hle : span ≤ w + γ)
    (hs : |s - d / w| ≤ ε) : |a * max 0 (min 1 s) - span| ≤ α + β + γ + 2 * ε := by
  have hε : 0 ≤ ε := (abs_nonneg _).trans hs
  have hquotient : |s * w - d| ≤ 2 * ε := by
    calc |s * w - d| = |s - d / w| * w := by
          rw [← abs_of_pos hw, ← abs_mul, abs_of_pos hw, sub_mul, div_mul_cancel₀ _ hw.ne']
      _ ≤ ε * 2 := mul_le_mul hs hw' hw.le hε
      _ = 2 * ε := mul_comm _ _
  rw [abs_le] at ha hd hquotient
  have hnear : |w * max 0 (min 1 s) - span| ≤ β + γ + 2 * ε := by
    rw [abs_le]
    rcases max_cases 0 (min 1 s) with ⟨hmax, hcase⟩ | ⟨hmax, hcase⟩
    · have hneg : s * w ≤ 0 := by
        refine mul_nonpos_of_nonpos_of_nonneg ?_ hw.le
        rcases min_cases 1 s with ⟨hmin, _⟩ | ⟨hmin, _⟩ <;> linarith
      rw [hmax]
      constructor <;> linarith
    · rcases min_cases 1 s with ⟨hmin, hone⟩ | ⟨hmin, hone⟩
      · have hgreat : 1 * w ≤ s * w := mul_le_mul_of_nonneg_right hone hw.le
        rw [hmax, hmin]
        constructor <;> linarith
      · rw [hmax, hmin]
        constructor <;> linarith
  have hle : |(a - w) * max 0 (min 1 s)| ≤ α := by
    rw [abs_mul, abs_of_nonneg (le_max_left 0 (min 1 s))]
    refine (mul_le_of_le_one_right (abs_nonneg _) (max_le zero_le_one (min_le_left _ _))).trans ?_
    exact abs_le.2 ha
  calc |a * max 0 (min 1 s) - span|
      = |(a - w) * max 0 (min 1 s) + (w * max 0 (min 1 s) - span)| := by ring_nf
    _ ≤ |(a - w) * max 0 (min 1 s)| + |w * max 0 (min 1 s) - span| := abs_add_le _ _
    _ ≤ α + β + γ + 2 * ε := by linarith

/-- Channels as bytes leave them, in the unit interval and equal or clearly apart. -/
structure Channels (c : Rgba) : Prop where
  stored : ∀ p : Primary, (p.get c).Stored
  nonneg : ∀ p : Primary, 0 ≤ p.value c
  le_one : ∀ p : Primary, p.value c ≤ 1
  apart : ∀ p q : Primary, p.value c < q.value c → 1 / 300 ≤ q.value c - p.value c

/-- What hue, saturation and lightness say of channels `v`, of which `low` is the least and that
reach over `span`. -/
structure Describes (c : Hsla) (v : Primary → ℚ) (low span η : ℚ) : Prop where
  hue : c.hue.Stored
  saturation : c.saturation.Stored
  lightness : c.lightness.Stored
  low_nonneg : 0 ≤ low
  span_nonneg : 0 ≤ span
  le_one : low + span ≤ 1
  saturation_nonneg : 0 ≤ toRat c.saturation
  saturation_le_one : toRat c.saturation ≤ 1
  lightness_nonneg : 0 ≤ toRat c.lightness
  lightness_le_one : toRat c.lightness ≤ 1
  lightness_near : |toRat c.lightness - (low + span / 2)| ≤ 12 * roundoff
  chroma_near : |(1 - |2 * toRat c.lightness - 1|) * toRat c.saturation - span| ≤ 80 * roundoff
  /-- The wider the channels reach, the better the hue is known. -/
  hue_near : span * |toRat c.hue - 60 * η| ≤ 4000 * roundoff
  hue_close : |toRat c.hue - 60 * η| ≤ 1
  hue_ge : -180 ≤ toRat c.hue
  hue_le : toRat c.hue ≤ 350
  fits : ∀ δ, 0 ≤ δ → δ < 1 → Fits v low span η δ

section
variable {x y : Single} (hx : x.Stored) (hy : y.Stored) (hlow : 0 ≤ toRat y)
  (hhigh : toRat x ≤ 1) (hle : toRat y ≤ toRat x)
include hx hy hlow hhigh hle

theorem near_sum : Near (x + y) (toRat x + toRat y) (8 * roundoff) :=
  (hx.add hy).near range_eight (abs_le.2 ⟨by linarith, by linarith⟩)

theorem near_difference : Near (x - y) (toRat x - toRat y) (8 * roundoff) :=
  (hx.sub hy).near range_eight (abs_le.2 ⟨by linarith, by linarith⟩)

theorem near_lightness :
    let l := ((x + y) / 2).clampUnit
    (0 ≤ toRat l ∧ toRat l ≤ 1) ∧ Near l (toRat y + (toRat x - toRat y) / 2) (12 * roundoff) := by
  have hsum := near_sum hx hy hlow hhigh hle
  have hbounds := abs_le.1 hsum.le
  have hu := roundoff_eq
  have hhalf := (hsum.stored.div stored_two.1 (by rw [stored_two.2]; norm_num)).near range_eight
    (abs_le.2 (by rw [stored_two.2]; constructor <;> linarith))
  have hhalfBounds := abs_le.1 hhalf.le
  rw [stored_two.2] at hhalfBounds
  have hnear : Near ((x + y) / 2) (toRat y + (toRat x - toRat y) / 2) (12 * roundoff) :=
    ⟨hhalf.stored, abs_le.2 ⟨by linarith, by linarith⟩⟩
  exact ⟨hnear.stored.clampUnit_mem, hnear.clampUnit (by linarith) (by linarith)⟩

/-- The width that the lightness leaves is the sum of the extremes, or what is missing of two. -/
theorem near_chroma (hapart : 1 / 300 ≤ toRat x - toRat y) :
    let s := (if lt 1 (x + y) then (x - y) / (2 - (x + y)) else (x - y) / (x + y)).clampUnit
    let l := ((x + y) / 2).clampUnit
    s.Stored ∧ (0 ≤ toRat s ∧ toRat s ≤ 1) ∧
      |(1 - |2 * toRat l - 1|) * toRat s - (toRat x - toRat y)| ≤ 80 * roundoff := by
  intro s l
  have hu := roundoff_eq
  have hsum := near_sum hx hy hlow hhigh hle
  have hd := near_difference hx hy hlow hhigh hle
  have hsumBounds := abs_le.1 hsum.le
  have hdBounds := abs_le.1 hd.le
  have hlBounds := abs_le.1 (near_lightness hx hy hlow hhigh hle).2.le
  change -_ ≤ toRat l - _ ∧ toRat l - _ ≤ _ at hlBounds
  have hdist : abs (|2 * toRat l - 1| - |toRat (x + y) - 1|) ≤ 32 * roundoff := by
    refine (abs_abs_sub_abs_le_abs_sub _ _).trans (abs_le.2 ?_)
    constructor <;> linarith
  rw [abs_le] at hdist
  have hwidth {w : Single} (hw : w.Stored) (hge : toRat x - toRat y - 16 * roundoff ≤ toRat w)
      (hle : toRat w ≤ 2) (ha : |1 - |2 * toRat l - 1| - toRat w| ≤ 40 * roundoff) :
      let s := ((x - y) / w).clampUnit
      s.Stored ∧ (0 ≤ toRat s ∧ toRat s ≤ 1) ∧
        |(1 - |2 * toRat l - 1|) * toRat s - (toRat x - toRat y)| ≤ 80 * roundoff := by
    have hpos : 0 < toRat w := by linarith
    have hquotient := (hd.stored.div hw hpos.ne').near range_eight (by
      rw [abs_div, abs_of_pos hpos, div_le_iff₀ hpos, abs_le]
      constructor <;> linarith)
    obtain ⟨hstored, hvalue⟩ := hquotient.stored.clampUnit
    refine ⟨hstored, hquotient.stored.clampUnit_mem, ?_⟩
    rw [hvalue]
    refine (abs_mul_clamp_sub_le hpos hle ha hd.le (by linarith) (γ := 16 * roundoff) (by linarith)
      (by linarith) hquotient.le).trans ?_
    linarith
  by_cases hgreat : lt 1 (x + y) = true
  · have hs : s = ((x - y) / (2 - (x + y))).clampUnit := congrArg Binary.clampUnit (if_pos hgreat)
    rw [stored_one.1.lt_iff hsum.stored, stored_one.2] at hgreat
    have hrest := (stored_two.1.sub hsum.stored).near range_eight
      (abs_le.2 (by rw [stored_two.2]; constructor <;> linarith))
    have hrestBounds := abs_le.1 hrest.le
    rw [stored_two.2] at hrestBounds
    rw [abs_of_pos (sub_pos.2 hgreat)] at hdist
    rw [hs]
    exact hwidth hrest.stored (by linarith) (by linarith) (abs_le.2 ⟨by linarith, by linarith⟩)
  · have hs : s = ((x - y) / (x + y)).clampUnit := congrArg Binary.clampUnit (if_neg hgreat)
    rw [stored_one.1.lt_iff hsum.stored, stored_one.2, not_lt] at hgreat
    rw [abs_of_nonpos (sub_nonpos.2 hgreat)] at hdist
    rw [hs]
    exact hwidth hsum.stored (by linarith) (by linarith) (abs_le.2 ⟨by linarith, by linarith⟩)

/-- The quotient that becomes the hue, times the span. -/
theorem near_separation (hapart : 1 / 300 ≤ toRat x - toRat y) {p q : Single} (hp : p.Stored)
    (hq : q.Stored) (hpq : |toRat p - toRat q| ≤ toRat x - toRat y) :
    let r := (p - q) / (x - y)
    r.Stored ∧ |toRat r| ≤ 3 / 2 ∧
      |(toRat x - toRat y) * toRat r - (toRat p - toRat q)| ≤ 40 * roundoff := by
  intro r
  have hu := roundoff_eq
  have hd := near_difference hx hy hlow hhigh hle
  have hdBounds := abs_le.1 hd.le
  have hpqBounds := abs_le.1 hpq
  have hs := (hp.sub hq).near range_eight (abs_le.2 ⟨by linarith, by linarith⟩)
  have hsBounds := abs_le.1 hs.le
  have hpos : 0 < toRat (x - y) := by linarith
  have hratio : |toRat (p - q) / toRat (x - y)| ≤ 5 / 4 := by
    rw [abs_div, abs_of_pos hpos, div_le_iff₀ hpos, abs_le]
    constructor <;> linarith
  have hr := (hs.stored.div hd.stored hpos.ne').near range_eight (hratio.trans (by norm_num))
  have hrBound : |toRat r| ≤ 3 / 2 := by
    rw [abs_le] at hratio ⊢
    have hrBounds := abs_le.1 hr.le
    constructor <;> linarith
  have hproduct : |toRat r * toRat (x - y) - toRat (p - q)| ≤ 8 * roundoff * 2 := by
    calc |toRat r * toRat (x - y) - toRat (p - q)|
        = |toRat r - toRat (p - q) / toRat (x - y)| * toRat (x - y) := by
          rw [← abs_of_pos hpos, ← abs_mul, abs_of_pos hpos, sub_mul, div_mul_cancel₀ _ hpos.ne']
      _ ≤ 8 * roundoff * 2 := mul_le_mul hr.le (by linarith) hpos.le (by linarith)
  have hspan : |toRat r * (toRat (x - y) - (toRat x - toRat y))| ≤ 3 / 2 * (8 * roundoff) := by
    rw [abs_mul]
    exact mul_le_mul hrBound hd.le (abs_nonneg _) (by norm_num)
  refine ⟨hr.stored, hrBound, ?_⟩
  rw [abs_le] at hproduct hspan ⊢
  constructor <;> linarith

/-- The hue, for a difference of two channels and the place `k` of the greatest. -/
theorem near_hue (hapart : 1 / 300 ≤ toRat x - toRat y) {p q : Single} (hp : p.Stored)
    (hq : q.Stored) (hpq : |toRat p - toRat q| ≤ toRat x - toRat y) {k : Nat} (hk : k ≤ 4) {η : ℚ}
    (hη : (toRat x - toRat y) * (η - k) = toRat p - toRat q) :
    let hue := ((p - q) / (x - y) + ofNat k) * 60
    Binary.Stored hue ∧ (toRat x - toRat y) * |toRat hue - 60 * η| ≤ 4000 * roundoff ∧
      |toRat hue - 60 * η| ≤ 1 ∧ -180 ≤ toRat hue ∧ toRat hue ≤ 350 := by
  intro hue
  have hu := roundoff_eq
  obtain ⟨hr, hrBound, hspan⟩ := near_separation hx hy hlow hhigh hle hapart hp hq hpq
  obtain ⟨hkStored, hkValue⟩ := stored_ofNat (n := k) (by omega)
  have hkBound : (k : ℚ) ≤ 4 := by exact_mod_cast hk
  have hkNonneg : (0 : ℚ) ≤ k := Nat.cast_nonneg k
  have hrBounds := abs_le.1 hrBound
  have hsum := (hr.add hkStored).near range_eight
    (abs_le.2 (by rw [hkValue]; constructor <;> linarith))
  have hsumBounds := abs_le.1 hsum.le
  rw [hkValue] at hsumBounds
  have hdegrees := (hsum.stored.mul stored_sixty.1).near range_degrees
    (abs_le.2 (by rw [stored_sixty.2]; constructor <;> linarith))
  have hdegreesBounds := abs_le.1 hdegrees.le
  rw [stored_sixty.2] at hdegreesBounds
  have hnear : |toRat hue - 60 * (toRat ((p - q) / (x - y)) + k)| ≤ 1000 * roundoff :=
    abs_le.2 ⟨by linarith, by linarith⟩
  have hdiff : (toRat x - toRat y) * (toRat hue - 60 * η) =
      (toRat x - toRat y) * (toRat hue - 60 * (toRat ((p - q) / (x - y)) + k)) +
        60 * ((toRat x - toRat y) * toRat ((p - q) / (x - y)) - (toRat p - toRat q)) := by
    rw [← hη]
    ring
  have hpos : 0 ≤ toRat x - toRat y := by linarith
  have hweighted : (toRat x - toRat y) * |toRat hue - 60 * η| ≤ 4000 * roundoff := by
    calc (toRat x - toRat y) * |toRat hue - 60 * η|
        = |(toRat x - toRat y) * (toRat hue - 60 * η)| := by rw [abs_mul, abs_of_nonneg hpos]
      _ ≤ |(toRat x - toRat y) * (toRat hue - 60 * (toRat ((p - q) / (x - y)) + k))| +
          |60 * ((toRat x - toRat y) * toRat ((p - q) / (x - y)) - (toRat p - toRat q))| := by
          rw [hdiff]
          exact abs_add_le _ _
      _ ≤ 1 * (1000 * roundoff) + 60 * (40 * roundoff) := by
          rw [abs_mul, abs_mul, abs_of_nonneg hpos, abs_of_pos (by norm_num : (0 : ℚ) < 60)]
          exact add_le_add (mul_le_mul (by linarith) hnear (abs_nonneg _) zero_le_one)
            (mul_le_mul_of_nonneg_left hspan (by norm_num))
      _ ≤ 4000 * roundoff := by linarith
  have hclose : |toRat hue - 60 * η| ≤ 1 := by
    have hpart : 1 / 300 * |toRat hue - 60 * η| ≤ 4000 * roundoff :=
      (mul_le_mul_of_nonneg_right hapart (abs_nonneg _)).trans hweighted
    linarith
  exact ⟨hdegrees.stored, hweighted, hclose, by linarith, by linarith⟩

end

namespace Extremes.Of
variable {c : Rgba} {e : Extremes} (hof : e.Of c) (hc : Channels c)
include hof hc

theorem stored_max : e.max.Stored := by
  obtain ⟨p, hp⟩ := hof.max_get
  exact hp ▸ hc.stored p

theorem stored_min : e.min.Stored := by
  obtain ⟨p, hp⟩ := hof.min_get
  exact hp ▸ hc.stored p

theorem max_le_one : toRat e.max ≤ 1 := by
  obtain ⟨p, hp⟩ := hof.max_get
  exact hp ▸ hc.le_one p

theorem min_nonneg : 0 ≤ toRat e.min := by
  obtain ⟨p, hp⟩ := hof.min_get
  exact hp ▸ hc.nonneg p

omit hc in
theorem min_le_max : toRat e.min ≤ toRat e.max := by
  obtain ⟨p, hp⟩ := hof.min_get
  exact hp ▸ hof.le_max p

theorem apart (hlt : toRat e.min < toRat e.max) : 1 / 300 ≤ toRat e.max - toRat e.min := by
  obtain ⟨p, hp⟩ := hof.max_get
  obtain ⟨q, hq⟩ := hof.min_get
  rw [hp, hq] at hlt ⊢
  exact hc.apart q p hlt

omit hc in
theorem abs_sub_le (p q : Primary) : |p.value c - q.value c| ≤ toRat e.max - toRat e.min := by
  have hp := hof.min_le p
  have hq := hof.min_le q
  have hp' := hof.le_max p
  have hq' := hof.le_max q
  exact abs_le.2 ⟨by linarith, by linarith⟩

/-- Without a span, no matter which hue. -/
theorem describes_of_eq (hgray : toRat e.max = toRat e.min) (alpha : Single) :
    Describes (Hsla.clamp ⟨0, 0, (e.max + e.min) / 2, alpha⟩) (Primary.value c) (toRat e.min)
      (toRat e.max - toRat e.min) 0 := by
  have hu := roundoff_eq
  have hlow := hof.min_nonneg hc
  have hhigh := hof.max_le_one hc
  have hspan : toRat e.max - toRat e.min = 0 := sub_eq_zero.2 hgray
  obtain ⟨hlightMem, hlight⟩ :=
    near_lightness (hof.stored_max hc) (hof.stored_min hc) hlow hhigh hof.min_le_max
  obtain ⟨hzero, hzeroValue⟩ := stored_nought.1.clampUnit
  have hclamp : toRat (Binary.clampUnit 0 : Single) = 0 := by
    rw [hzeroValue, stored_nought.2, min_eq_right zero_le_one, max_self]
  have hhue : |toRat (0 : Single) - 60 * 0| = 0 := by
    rw [stored_nought.2]
    norm_num
  exact {
    hue := stored_nought.1
    saturation := hzero
    lightness := hlight.stored
    low_nonneg := hlow
    span_nonneg := hspan.ge
    le_one := by linarith
    saturation_nonneg := hclamp.ge
    saturation_le_one := hclamp.trans_le zero_le_one
    lightness_nonneg := hlightMem.1
    lightness_le_one := hlightMem.2
    lightness_near := hlight.le
    chroma_near := by
      change |(1 - |2 * _ - 1|) * toRat (Binary.clampUnit 0 : Single) - _| ≤ _
      rw [hclamp, hspan, mul_zero, sub_zero, abs_zero]
      linarith
    hue_near := by
      rw [hspan, zero_mul]
      linarith
    hue_close := hhue.trans_le zero_le_one
    hue_ge := by
      change -180 ≤ toRat (0 : Single)
      rw [stored_nought.2]
      norm_num
    hue_le := by
      change toRat (0 : Single) ≤ 350
      rw [stored_nought.2]
      norm_num
    fits := fun δ _ _ h _ _ _ p => by
      have hp := hof.min_le p
      have hp' := hof.le_max p
      rw [hspan, zero_mul, zero_mul, abs_le]
      constructor <;> linarith }

theorem exists_describes_of_lt (hlt : toRat e.min < toRat e.max) (alpha : Single) :
    ∃ η, Describes (Hsla.clamp ⟨(e.separation / (e.max - e.min) + e.sixth) * 60,
        if lt 1 (e.max + e.min) then (e.max - e.min) / (2 - (e.max + e.min))
        else (e.max - e.min) / (e.max + e.min), (e.max + e.min) / 2, alpha⟩)
      (Primary.value c) (toRat e.min) (toRat e.max - toRat e.min) η := by
  have hmax := hof.stored_max hc
  have hmin := hof.stored_min hc
  have hlow := hof.min_nonneg hc
  have hhigh := hof.max_le_one hc
  have hle := hof.min_le_max
  have hapart := hof.apart hc hlt
  have hspan : 0 < toRat e.max - toRat e.min := sub_pos.2 hlt
  obtain ⟨p, q, k, hseparation, hsixth, hk, hfits⟩ := hof.fits
  let η := (p.value c - q.value c) / (toRat e.max - toRat e.min) + k
  have hη : (toRat e.max - toRat e.min) * (η - k) = p.value c - q.value c := by
    rw [add_sub_cancel_right, mul_div_cancel₀ _ hspan.ne']
  obtain ⟨hlightMem, hlight⟩ := near_lightness hmax hmin hlow hhigh hle
  obtain ⟨hhue, hhueNear, hhueClose, hhueGe, hhueLe⟩ :=
    near_hue hmax hmin hlow hhigh hle hapart (hc.stored p) (hc.stored q) (hof.abs_sub_le p q) hk hη
  obtain ⟨hsaturation, hsaturationMem, hchroma⟩ := near_chroma hmax hmin hlow hhigh hle hapart
  rw [hseparation, hsixth]
  exact ⟨η, {
    hue := hhue
    saturation := hsaturation
    lightness := hlight.stored
    low_nonneg := hlow
    span_nonneg := hspan.le
    le_one := by linarith
    saturation_nonneg := hsaturationMem.1
    saturation_le_one := hsaturationMem.2
    lightness_nonneg := hlightMem.1
    lightness_le_one := hlightMem.2
    lightness_near := hlight.le
    chroma_near := hchroma
    hue_near := hhueNear
    hue_close := hhueClose
    hue_ge := hhueGe
    hue_le := hhueLe
    fits := fun δ hδ hδ' => hfits η δ hδ hδ' hlt hη }⟩

end Extremes.Of

theorem exists_describes_toHsla {c : Rgba} (hc : Channels c) :
    ∃ low span η, Describes c.toHsla (Primary.value c) low span η := by
  have hof := of_extremes hc.stored
  unfold Rgba.toHsla
  generalize extremes c.red c.green c.blue = e at hof ⊢
  have heq := (hof.stored_max hc).compare?_eq_iff (hof.stored_min hc)
  dsimp only
  split
  · next hgray => exact ⟨_, _, _, hof.describes_of_eq hc (heq.1 hgray) c.alpha⟩
  · next hcolored =>
    have hlt := lt_of_le_of_ne hof.min_le_max (Ne.symm (mt heq.2 hcolored))
    exact ⟨_, _, hof.exists_describes_of_lt hc hlt c.alpha⟩

end StyleCalls.Color
