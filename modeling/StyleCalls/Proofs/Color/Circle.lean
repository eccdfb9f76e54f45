import Mathlib.Algebra.Order.Group.MinMax
import Mathlib.Data.Rat.Defs
import Mathlib.Tactic.IntervalCases
import Mathlib.Tactic.Linarith
import Mathlib.Tactic.NormNum
import Mathlib.Tactic.Ring
import StyleCalls.Color.Conversion

/-! The color circle, with exact numbers. Between the least channel and the greatest, each channel has
a share that depends on the hue alone, rises and falls linearly around the place of the channel on the
circle, and is the same at both ends of the turn. Hues are in sixths of a turn. -/

namespace StyleCalls.Color

/-- One within a sixth around `a` and zero from two sixths on. -/
def hill (a h : ℚ) : ℚ := max 0 (min 1 (2 - |h - a|))

theorem abs_hill_sub_le (a x y : ℚ) : |hill a x - hill a y| ≤ |x - y| := by
  calc |hill a x - hill a y|
      ≤ max |(0 : ℚ) - 0| |min 1 (2 - |x - a|) - min 1 (2 - |y - a|)| :=
        abs_max_sub_max_le_max _ _ _ _
    _ = |min 1 (2 - |x - a|) - min 1 (2 - |y - a|)| := by
        rw [sub_zero, abs_zero, max_eq_right (abs_nonneg _)]
    _ ≤ max |(1 : ℚ) - 1| |(2 - |x - a|) - (2 - |y - a|)| := abs_min_sub_min_le_max _ _ _ _
    _ = abs (|y - a| - |x - a|) := by
        rw [sub_self, abs_zero, max_eq_right (abs_nonneg _), sub_sub_sub_cancel_left]
    _ ≤ |(y - a) - (x - a)| := abs_abs_sub_abs_le_abs_sub _ _
    _ = |x - y| := by rw [sub_sub_sub_cancel_right, abs_sub_comm]

section
variable {a h : ℚ}

theorem hill_top (hlow : a - 1 ≤ h) (hhigh : h ≤ a + 1) : hill a h = 1 := by
  have habs : |h - a| ≤ 1 := abs_le.2 ⟨by linarith, by linarith⟩
  rw [hill, min_eq_left (by linarith), max_eq_right zero_le_one]

theorem hill_rise (hlow : a - 2 ≤ h) (hhigh : h ≤ a - 1) : hill a h = h - (a - 2) := by
  rw [hill, abs_of_nonpos (by linarith), min_eq_right (by linarith), max_eq_right (by linarith)]
  ring

theorem hill_fall (hlow : a + 1 ≤ h) (hhigh : h ≤ a + 2) : hill a h = a + 2 - h := by
  rw [hill, abs_of_nonneg (by linarith), min_eq_right (by linarith), max_eq_right (by linarith)]
  ring

theorem hill_before (hhigh : h ≤ a - 2) : hill a h = 0 := by
  rw [hill, abs_of_nonpos (by linarith), min_eq_right (by linarith), max_eq_left (by linarith)]

theorem hill_after (hlow : a + 2 ≤ h) : hill a h = 0 := by
  rw [hill, abs_of_nonneg (by linarith), min_eq_right (by linarith), max_eq_left (by linarith)]

end

inductive Primary where
  | red
  | green
  | blue
deriving DecidableEq

namespace Primary

def get (c : Rgba) : Primary → Single
  | red => c.red
  | green => c.green
  | blue => c.blue

/-- The part of the way from the least channel to the greatest. -/
def share : Primary → ℚ → ℚ
  | red, h => 1 - hill 3 h
  | green, h => hill 2 h
  | blue, h => hill 4 h

variable (p : Primary)

theorem abs_share_sub_le (x y : ℚ) : |p.share x - p.share y| ≤ |x - y| := by
  cases p with
  | red =>
    change |1 - hill 3 x - (1 - hill 3 y)| ≤ _
    rw [sub_sub_sub_cancel_left, abs_sub_comm]
    exact abs_hill_sub_le 3 x y
  | green => exact abs_hill_sub_le 2 x y
  | blue => exact abs_hill_sub_le 4 x y

end Primary

/-! Channels on the circle -/

/-- Channels with their greatest, their least and their hue, the same for both names that the hues
next to red have, and up to `δ` around the ends of the turn. -/
def Fits (v : Primary → ℚ) (low span hue δ : ℚ) : Prop :=
  ∀ h, (h = hue ∨ h = hue + 6) → -δ ≤ h → h ≤ 6 + δ →
    ∀ p : Primary, |low + span * p.share h - v p| ≤ span * δ

section
variable {v : Primary → ℚ} {low span η δ : ℚ} (hspan : 0 < span) (hlow : ∀ p, low ≤ v p)
  (hhigh : ∀ p, v p ≤ low + span)
include hspan hlow hhigh

/-- The difference of two channels in parts of the span. -/
theorem abs_le_one_of_span_mul {p q : Primary} (h : span * η = v p - v q) : -1 ≤ η ∧ η ≤ 1 := by
  have hp := hlow p
  have hq := hlow q
  have hp' := hhigh p
  have hq' := hhigh q
  exact ⟨le_of_mul_le_mul_left (by linarith) hspan, le_of_mul_le_mul_left (by linarith) hspan⟩

theorem fits_of_red (hδ : 0 ≤ δ) (hη : span * η = v .green - v .blue) (hred : v .red = low + span)
    (hleast : v .green = low ∨ v .blue = low) : Fits v low span η δ := by
  obtain ⟨hge, hle⟩ := abs_le_one_of_span_mul hspan hlow hhigh hη
  have hδspan : 0 ≤ span * δ := mul_nonneg hspan.le hδ
  have hgreen := hlow .green
  have hblue := hlow .blue
  have hsign : 0 ≤ η ∧ v .blue = low ∨ η ≤ 0 ∧ v .green = low := by
    rcases hleast with hleast | hleast
    · exact .inr ⟨le_of_mul_le_mul_left (by linarith) hspan, hleast⟩
    · exact .inl ⟨le_of_mul_le_mul_left (by linarith) hspan, hleast⟩
  rintro h hturn hh hh' p
  rw [abs_le]
  rcases hsign with ⟨hpos, hleast⟩ | ⟨hneg, hleast⟩ <;> rcases hturn with rfl | rfl
  · cases p with
    | red => rw [Primary.share, hill_before (by linarith)]; constructor <;> linarith
    | green => rw [Primary.share, hill_rise (by linarith) (by linarith)]; constructor <;> linarith
    | blue => rw [Primary.share, hill_before (by linarith)]; constructor <;> linarith
  · have hslack : span * η ≤ span * δ := mul_le_mul_of_nonneg_left (by linarith) hspan.le
    cases p with
    | red => rw [Primary.share, hill_after (by linarith)]; constructor <;> linarith
    | green => rw [Primary.share, hill_after (by linarith)]; constructor <;> linarith
    | blue => rw [Primary.share, hill_after (by linarith)]; constructor <;> linarith
  · have hslack : span * -δ ≤ span * h := mul_le_mul_of_nonneg_left hh hspan.le
    cases p with
    | red => rw [Primary.share, hill_before (by linarith)]; constructor <;> linarith
    | green => rw [Primary.share, hill_before (by linarith)]; constructor <;> linarith
    | blue => rw [Primary.share, hill_before (by linarith)]; constructor <;> linarith
  · cases p with
    | red => rw [Primary.share, hill_after (by linarith)]; constructor <;> linarith
    | green => rw [Primary.share, hill_after (by linarith)]; constructor <;> linarith
    | blue => rw [Primary.share, hill_fall (by linarith) (by linarith)]; constructor <;> linarith

theorem fits_of_green (hδ : 0 ≤ δ) (hδ' : δ < 1) (hη : span * (η - 2) = v .blue - v .red)
    (hgreen : v .green = low + span) (hleast : v .blue = low ∨ v .red = low) :
    Fits v low span η δ := by
  obtain ⟨hge, hle⟩ := abs_le_one_of_span_mul hspan hlow hhigh hη
  have hδspan : 0 ≤ span * δ := mul_nonneg hspan.le hδ
  have hred := hlow .red
  have hblue := hlow .blue
  rintro h hturn hh hh' p
  obtain rfl : h = η := hturn.resolve_right (by rintro rfl; linarith)
  rw [abs_le]
  rcases hleast with hleast | hleast
  · have hneg : h - 2 ≤ 0 := le_of_mul_le_mul_left (by linarith) hspan
    cases p with
    | red => rw [Primary.share, hill_rise (by linarith) (by linarith)]; constructor <;> linarith
    | green => rw [Primary.share, hill_top (by linarith) (by linarith)]; constructor <;> linarith
    | blue => rw [Primary.share, hill_before (by linarith)]; constructor <;> linarith
  · have hpos : 0 ≤ h - 2 := le_of_mul_le_mul_left (by linarith) hspan
    cases p with
    | red => rw [Primary.share, hill_top (by linarith) (by linarith)]; constructor <;> linarith
    | green => rw [Primary.share, hill_top (by linarith) (by linarith)]; constructor <;> linarith
    | blue => rw [Primary.share, hill_rise (by linarith) (by linarith)]; constructor <;> linarith

theorem fits_of_blue (hδ : 0 ≤ δ) (hδ' : δ < 1) (hη : span * (η - 4) = v .red - v .green)
    (hblue : v .blue = low + span) (hleast : v .red = low ∨ v .green = low) :
    Fits v low span η δ := by
  obtain ⟨hge, hle⟩ := abs_le_one_of_span_mul hspan hlow hhigh hη
  have hδspan : 0 ≤ span * δ := mul_nonneg hspan.le hδ
  have hred := hlow .red
  have hgreen := hlow .green
  rintro h hturn hh hh' p
  obtain rfl : h = η := hturn.resolve_right (by rintro rfl; linarith)
  rw [abs_le]
  rcases hleast with hleast | hleast
  · have hneg : h - 4 ≤ 0 := le_of_mul_le_mul_left (by linarith) hspan
    cases p with
    | red => rw [Primary.share, hill_top (by linarith) (by linarith)]; constructor <;> linarith
    | green => rw [Primary.share, hill_fall (by linarith) (by linarith)]; constructor <;> linarith
    | blue => rw [Primary.share, hill_top (by linarith) (by linarith)]; constructor <;> linarith
  · have hpos : 0 ≤ h - 4 := le_of_mul_le_mul_left (by linarith) hspan
    cases p with
    | red => rw [Primary.share, hill_fall (by linarith) (by linarith)]; constructor <;> linarith
    | green => rw [Primary.share, hill_after (by linarith)]; constructor <;> linarith
    | blue => rw [Primary.share, hill_top (by linarith) (by linarith)]; constructor <;> linarith

end

/-! Sixths of the circle -/

/-- Red, green and blue by the sixth of the hue, which says where the greatest of them stands and
where the least one. -/
def arranged {α : Type} (greatest between least : α) : Option Nat → α × α × α
  | some 0 => (greatest, between, least)
  | some 1 => (between, greatest, least)
  | some 2 => (least, greatest, between)
  | some 3 => (least, between, greatest)
  | some 4 => (between, least, greatest)
  | _ => (greatest, least, between)

def Primary.of {α : Type} (t : α × α × α) : Primary → α
  | red => t.1
  | green => t.2.1
  | blue => t.2.2

theorem of_arranged_rel {α β : Type} {R : α → β → Prop} {a b c : α} {a' b' c' : β} (ha : R a a')
    (hb : R b b') (hc : R c c') (i : Option Nat) (p : Primary) :
    R (p.of (arranged a b c i)) (p.of (arranged a' b' c' i)) := by
  unfold arranged
  split <;> cases p <;> assumption

/-- Up from `2 * k` to `2 * k + 1` and down again. -/
def tooth (k : Int) (h : ℚ) : ℚ := 1 - |h - 2 * k - 1|

theorem tooth_rise {k : Int} {h : ℚ} (h' : h ≤ 2 * k + 1) : tooth k h = h - 2 * k := by
  rw [tooth, abs_of_nonpos (by linarith)]
  ring

theorem tooth_fall {k : Int} {h : ℚ} (h' : 2 * k + 1 ≤ h) : tooth k h = 2 * k + 2 - h := by
  rw [tooth, abs_of_nonneg (by linarith)]
  ring

theorem share_eq_of_hill {h x y z : ℚ} (hred : hill 3 h = 1 - x) (hgreen : hill 2 h = y)
    (hblue : hill 4 h = z) (p : Primary) : p.share h = p.of (x, y, z) := by
  cases p with
  | red =>
    rw [Primary.share, hred]
    exact sub_sub_cancel 1 x
  | green => exact hgreen
  | blue => exact hblue

/-- In each sixth the share of one channel is all, that of one is nothing, and that of the third is
on its way between the two. -/
theorem exists_share_eq {n : Nat} {h : ℚ} (hn : n < 6) (hlow : n ≤ h) (hhigh : h ≤ n + 1) :
    ∃ j : Int, 2 * (j : ℚ) ≤ h ∧ h ≤ 2 * j + 2 ∧
      ∀ p : Primary, p.share h = p.of (arranged 1 (tooth j h) 0 (some n)) := by
  obtain rfl | rfl | rfl | rfl | rfl | rfl : n = 0 ∨ n = 1 ∨ n = 2 ∨ n = 3 ∨ n = 4 ∨ n = 5 := by
    omega
  all_goals norm_num at hlow hhigh
  · refine ⟨0, by norm_num; linarith, by norm_num; linarith, share_eq_of_hill ?_ ?_ ?_⟩
    · rw [hill_before (by linarith), sub_self]
    · rw [hill_rise (by linarith) (by linarith), tooth_rise (by norm_num; linarith)]
      norm_num
    · exact hill_before (by linarith)
  · refine ⟨0, by norm_num; linarith, by norm_num; linarith, share_eq_of_hill ?_ ?_ ?_⟩
    · rw [hill_rise (by linarith) (by linarith), tooth_fall (by norm_num; linarith)]
      norm_num
      ring
    · exact hill_top (by linarith) (by linarith)
    · exact hill_before (by linarith)
  · refine ⟨1, by norm_num; linarith, by norm_num; linarith, share_eq_of_hill ?_ ?_ ?_⟩
    · rw [hill_top (by linarith) (by linarith), sub_zero]
    · exact hill_top (by linarith) (by linarith)
    · rw [hill_rise (by linarith) (by linarith), tooth_rise (by norm_num; linarith)]
      norm_num
  · refine ⟨1, by norm_num; linarith, by norm_num; linarith, share_eq_of_hill ?_ ?_ ?_⟩
    · rw [hill_top (by linarith) (by linarith), sub_zero]
    · rw [hill_fall (by linarith) (by linarith), tooth_fall (by norm_num; linarith)]
      norm_num
    · exact hill_top (by linarith) (by linarith)
  · refine ⟨2, by norm_num; linarith, by norm_num; linarith, share_eq_of_hill ?_ ?_ ?_⟩
    · rw [hill_fall (by linarith) (by linarith), tooth_rise (by norm_num; linarith)]
      norm_num
      ring
    · exact hill_after (by linarith)
    · exact hill_top (by linarith) (by linarith)
  · refine ⟨2, by norm_num; linarith, by norm_num; linarith, share_eq_of_hill ?_ ?_ ?_⟩
    · rw [hill_after (by linarith), sub_self]
    · exact hill_after (by linarith)
    · rw [hill_fall (by linarith) (by linarith), tooth_fall (by norm_num; linarith)]
      norm_num

/-- At both ends of the turn the channels are those of red. -/
theorem share_of_beyond {h : ℚ} (hh : h ≤ 0 ∨ 6 ≤ h) (p : Primary) : p.share h = p.of (1, 0, 0) := by
  have hflat {a : ℚ} (ha : 2 ≤ a) (ha' : a ≤ 4) : hill a h = 0 :=
    hh.elim (fun h => hill_before (by linarith)) fun h => hill_after (by linarith)
  exact share_eq_of_hill ((hflat (by norm_num) (by norm_num)).trans (sub_self 1).symm)
    (hflat (by norm_num) (by norm_num)) (hflat (by norm_num) (by norm_num)) p

/-- The sixth, where there is one, holds the hue. -/
structure InSixth (i : Option Nat) (h : ℚ) : Prop where
  within : ∀ n, i = some n → n < 6 ∧ (n : ℚ) ≤ h ∧ h ≤ n + 1
  beyond : i = none → h ≤ 0 ∨ 6 ≤ h

section
variable {h δ : ℚ} (hδ : 0 ≤ δ) (hδ' : δ < 1)
include hδ hδ'

/-- Next to where one tooth ends the next one begins. -/
theorem abs_tooth_sub_le {j k : Int} (hj : 2 * j ≤ h) (hj' : h ≤ 2 * j + 2) (hk : 2 * k - δ ≤ h)
    (hk' : h ≤ 2 * k + 2 + δ) : |tooth j h - tooth k h| ≤ 2 * δ := by
  have hle : k < j + 2 := by exact_mod_cast (by linarith : (k : ℚ) < j + 2)
  have hge : j - 2 < k := by exact_mod_cast (by linarith : (j - 2 : ℚ) < k)
  obtain rfl | rfl | rfl : k = j - 1 ∨ k = j ∨ k = j + 1 := by omega
  · push_cast at hk'
    rw [tooth_rise (by linarith), tooth_fall (by push_cast; linarith), abs_le]
    push_cast
    constructor <;> linarith
  · rw [sub_self, abs_zero]
    linarith
  · push_cast at hk
    rw [tooth_fall (by linarith), tooth_rise (by push_cast; linarith), abs_le]
    push_cast
    constructor <;> linarith

theorem exists_share_near {i : Option Nat} (hi : InSixth i h) (hh : -δ ≤ h) (hh' : h ≤ 6 + δ) :
    ∃ j : Int, 2 * (j : ℚ) ≤ h ∧ h ≤ 2 * j + 2 ∧
      ∀ p : Primary, |p.share h - p.of (arranged 1 (tooth j h) 0 i)| ≤ δ := by
  cases i with
  | none =>
    have hshare := share_of_beyond (hi.beyond rfl)
    have htooth : ∃ j : Int, 2 * (j : ℚ) ≤ h ∧ h ≤ 2 * j + 2 ∧ |tooth j h| ≤ δ := by
      rcases hi.beyond rfl with hneg | hpos
      · refine ⟨-1, by norm_num; linarith, by norm_num; linarith, ?_⟩
        rw [tooth_fall (by norm_num; linarith), abs_le]
        norm_num
        constructor <;> linarith
      · refine ⟨3, by norm_num; linarith, by norm_num; linarith, ?_⟩
        rw [tooth_rise (by norm_num; linarith), abs_le]
        norm_num
        constructor <;> linarith
    obtain ⟨j, hj, hj', hsmall⟩ := htooth
    refine ⟨j, hj, hj', fun p => ?_⟩
    rw [hshare]
    cases p with
    | red =>
      change |(1 : ℚ) - 1| ≤ δ
      rwa [sub_self, abs_zero]
    | green =>
      change |(0 : ℚ) - 0| ≤ δ
      rwa [sub_self, abs_zero]
    | blue =>
      change |0 - tooth j h| ≤ δ
      rwa [zero_sub, abs_neg]
  | some n =>
    obtain ⟨hn, hlow, hhigh⟩ := hi.within n rfl
    obtain ⟨j, hj, hj', heq⟩ := exists_share_eq hn hlow hhigh
    refine ⟨j, hj, hj', fun p => ?_⟩
    rw [heq, sub_self, abs_zero]
    exact hδ

/-- The shares as color conversion finds them, also if it takes one tooth for the next. -/
theorem abs_share_sub_arranged_le {i : Option Nat} (hi : InSixth i h) (hh : -δ ≤ h)
    (hh' : h ≤ 6 + δ) {k : Int} (hk : 2 * k - δ ≤ h) (hk' : h ≤ 2 * k + 2 + δ) (p : Primary) :
    |p.share h - p.of (arranged 1 (tooth k h) 0 i)| ≤ 3 * δ := by
  obtain ⟨j, hj, hj', hshare⟩ := exists_share_near hδ hδ' hi hh hh'
  have htooth : |p.of (arranged 1 (tooth j h) 0 i) - p.of (arranged 1 (tooth k h) 0 i)| ≤ 2 * δ :=
    of_arranged_rel (R := fun x y => |x - y| ≤ 2 * δ) (by norm_num; exact hδ)
      (abs_tooth_sub_le hδ hδ' hj hj' hk hk') (by norm_num; exact hδ) i p
  calc |p.share h - p.of (arranged 1 (tooth k h) 0 i)|
      ≤ |p.share h - p.of (arranged 1 (tooth j h) 0 i)| +
          |p.of (arranged 1 (tooth j h) 0 i) - p.of (arranged 1 (tooth k h) 0 i)| :=
        abs_sub_le _ _ _
    _ ≤ δ + 2 * δ := add_le_add (hshare p) htooth
    _ = 3 * δ := by ring

end

end StyleCalls.Color
