import StyleCalls.Proofs.Color.Thousandths
import StyleCalls.Proofs.ColorAdjust.Closed

/-! Adjusting by nothing. What it writes is written again, but for an alpha that is below one and
written as one: there the color is opaque the next time. -/

namespace StyleCalls.Color
open Binary

/-- Functional notation with an alpha of one. -/
def WritesOne (t : Text) : Prop := ",1)".toList <:+ t

instance (t : Text) : Decidable (WritesOne t) := inferInstanceAs (Decidable (_ <:+ _))

/-- What stands behind the last comma. -/
theorem eq_of_append_cons_eq {c : Char} {t u t' u' : Text} (hu : c ∉ u) (hu' : c ∉ u')
    (h : t ++ c :: u = t' ++ c :: u') : u = u' := by
  rcases List.append_eq_append_iff.1 h with ⟨w, _, hw⟩ | ⟨w, _, hw⟩
  · cases w with
    | nil => exact (List.cons.inj hw).2
    | cons b w => exact absurd ((List.cons.inj hw).2 ▸ List.mem_append_right w List.mem_cons_self) hu
  · cases w with
    | nil => exact (List.cons.inj hw).2.symm
    | cons b w => exact absurd ((List.cons.inj hw).2 ▸ List.mem_append_right w List.mem_cons_self) hu'

theorem not_writesOne_hex {t : Text} (h : OfNumerals t) : ¬WritesOne ('#' :: t) := by
  intro hsuffix
  have hmem : ')' ∈ '#' :: t := hsuffix.subset (by decide)
  rcases List.mem_cons.1 hmem with hhash | hnumeral
  · exact absurd hhash (by decide)
  · exact absurd (h _ hnumeral) (by decide)

theorem writesOne_function_iff (r g b : Nat) {alpha : Text} (h : OfNumerals alpha) :
    WritesOne ("rgba".toList ++ '(' :: (listed r g b alpha ++ [')'])) ↔ alpha = ['1'] := by
  have hcomma : ',' ∉ alpha ++ [')'] := by
    intro hmem
    rcases List.mem_append.1 hmem with hmem | hmem
    · exact absurd (h _ hmem) (by decide)
    · exact absurd hmem (by decide)
  have hsplit : "rgba".toList ++ '(' :: (listed r g b alpha ++ [')']) =
      ("rgba(".toList ++ (Decimal.digitsOf r ++ ',' :: (Decimal.digitsOf g ++
        ',' :: Decimal.digitsOf b))) ++ ',' :: (alpha ++ [')']) := by
    simp [listed_eq]
  constructor
  · rintro ⟨front, hfront⟩
    rw [hsplit] at hfront
    exact (List.append_cancel_right
      (eq_of_append_cons_eq (u := ['1', ')']) (by decide) hcomma hfront)).symm
  · rintro rfl
    rw [hsplit]
    exact List.suffix_append _ _

section
variable (P : Palette)

theorem adjust_of_read? {t : Text} {c : Rgba} (h : read? P t = some c) (d : Deltas) :
    (model P).adjust t d = write P (c.adjust P d) := by
  simp only [model, h]

/-- The bytes that are written of a color. -/
def bytes (c : Rgba) (p : Primary) : Nat := P.toByte (p.get c)

theorem bytes_lt (c : Rgba) (p : Primary) : bytes P c p < 256 := P.toByte_lt _

def hexOf (c : Rgba) : Text :=
  '#' :: hexBytes (bytes P c .red) (bytes P c .green) (bytes P c .blue)

def functionOf (c : Rgba) (alpha : Text) : Text :=
  "rgba".toList ++ '(' ::
    (listed (bytes P c .red) (bytes P c .green) (bytes P c .blue) alpha ++ [')'])

theorem write_eq_hexOf {c : Rgba} (h : Binary.le 1 c.alpha = true) : write P c = hexOf P c :=
  write_of_one_le P h

theorem write_eq_functionOf {c : Rgba} (h : Binary.le 1 c.alpha = false) :
    write P c = functionOf P c (writtenAlpha c.alpha).text := write_of_not_one_le P h

end

theorem movedAlpha_one (neg : Bool) : Binary.le 1 (movedAlpha 1 neg) = true := by
  cases neg <;> decide

theorem text_one : (1 : Single).text = ['1'] := by decide

theorem clampUnit_one_div_one : ((1 : Single) / 1).clampUnit = 1 := by decide

theorem one_eq_of_text_eq {x : Single} (hx : x.Stored) (h : x.text = ['1']) : x = 1 := by
  obtain ⟨s, m, e, rfl, hholds⟩ := hx
  have hread := number?_text s hholds
  have hone : number? ['1'] = some 1 := by decide
  rw [h, hone] at hread
  exact (Option.some.inj hread).symm

section
variable {P : Palette} (hP : P.Exact) {c : Rgba} {d : Deltas} (hd : d.IsZero)
include hP hd

theorem bytes_adjust {f : Nat → Single} (hf : Reading f) (read : Rgba)
    (hread : ∀ p : Primary, p.get read = f (bytes P c p)) :
    bytes P (read.adjust P d) = bytes P c :=
  funext fun p => hf.toByte_adjust hP (bytes_lt P c) hread hd p

/-- An opaque color is written again as it was. -/
theorem adjust_write_of_one_le (h : Binary.le 1 c.alpha = true) :
    (model P).adjust (write P c) d = hexOf P c := by
  obtain ⟨neg, hpoints⟩ := exists_points_eq hd.alpha
  have hbytes := bytes_adjust hP (c := c) hd hP.reading
    (opaqueOf P (bytes P c .red) (bytes P c .green) (bytes P c .blue))
    (fun p => by cases p <;> rfl)
  rw [adjust_of_read? P (read?_write_of_one_le P h), write_eq_hexOf]
  · unfold hexOf
    rw [← hbytes]
    rfl
  · rw [alpha_adjust _ _ hpoints]
    exact movedAlpha_one neg

/-- Any other color is written with the same bytes, and what becomes of alpha is up to what was
written of it. -/
theorem adjust_write_of_not_one_le {neg : Bool} (hpoints : points d.a = zero neg)
    (hunit : InUnit c.alpha) (h : Binary.le 1 c.alpha = false) :
    (model P).adjust (write P c) d =
      let alpha := movedAlpha (writtenAlpha c.alpha / 1).clampUnit neg
      if Binary.le 1 alpha then hexOf P c else functionOf P c (writtenAlpha alpha).text := by
  obtain ⟨s, m, e, hwritten, hholds⟩ := exists_thousandths_eq hunit
  change writtenAlpha c.alpha = _ at hwritten
  have hread := read?_write_of_not_one_le P h hwritten hholds
  have hbytes := bytes_adjust hP (c := c) hd reading_quotient
    ⟨(ofNat (bytes P c .red) / 255).clampUnit, (ofNat (bytes P c .green) / 255).clampUnit,
      (ofNat (bytes P c .blue) / 255).clampUnit, (finite s m e / 1).clampUnit⟩
    (fun p => by cases p <;> rfl)
  rw [adjust_of_read? P hread, hwritten]
  dsimp only
  split
  · next hone =>
    rw [write_eq_hexOf, hexOf, hexOf, ← hbytes]
    · rfl
    · rw [alpha_adjust _ _ hpoints]
      exact hone
  · next hone =>
    rw [write_eq_functionOf, functionOf, functionOf, ← hbytes, alpha_adjust _ _ hpoints]
    · rfl
    · rw [alpha_adjust _ _ hpoints]
      exact Bool.eq_false_iff.2 hone

/-- An alpha that is written as one is read as one, and the color is opaque the next time. -/
theorem adjust_write_of_written_one (hunit : InUnit c.alpha) (h : Binary.le 1 c.alpha = false)
    (hwritten : writtenAlpha c.alpha = 1) :
    write P c = functionOf P c ['1'] ∧ (model P).adjust (write P c) d = hexOf P c := by
  obtain ⟨neg, hpoints⟩ := exists_points_eq hd.alpha
  have hadjust := adjust_write_of_not_one_le hP hd hpoints hunit h
  rw [hwritten, clampUnit_one_div_one] at hadjust
  dsimp only at hadjust
  rw [if_pos (movedAlpha_one neg)] at hadjust
  refine ⟨?_, hadjust⟩
  rw [write_eq_functionOf P h, hwritten, text_one]

/-- Any other alpha is written again as it was. -/
theorem adjust_write_of_settled {neg : Bool} (hpoints : points d.a = zero neg)
    (hunit : InUnit c.alpha) (h : Binary.le 1 c.alpha = false)
    (hsettled : Settled (writtenAlpha c.alpha) neg) :
    (model P).adjust (write P c) d = write P c ∧ ¬WritesOne (write P c) := by
  have hstored : (writtenAlpha c.alpha).Stored := exists_thousandths_eq hunit
  have hnumerals : OfNumerals (writtenAlpha c.alpha).text := by
    obtain ⟨s, m, e, hwritten, _⟩ := hstored
    rw [hwritten]
    exact ofNumerals_text s m e
  constructor
  · rw [adjust_write_of_not_one_le hP hd hpoints hunit h]
    dsimp only
    rw [if_neg (Bool.eq_false_iff.1 hsettled.not_one_le), hsettled.written, write_eq_functionOf P h]
  · intro hwritesOne
    rw [write_eq_functionOf P h] at hwritesOne
    have htext := (writesOne_function_iff _ _ _ hnumerals).1 hwritesOne
    have hbad := hsettled.not_one_le
    rw [one_eq_of_text_eq hstored htext, clampUnit_one_div_one, movedAlpha_one] at hbad
    exact Bool.noConfusion hbad

/-- With any exact palette, a color that was moved by nothing is written the same again, unless it
is written with an alpha of one. -/
theorem adjust_write_adjust {c₀ : Rgba} (hnan : c₀.alpha ≠ nan) :
    let c := c₀.adjust P d
    ((model P).adjust (write P c) d = write P c ∧ ¬WritesOne (write P c)) ∨
      (WritesOne (write P c) ∧ write P c = functionOf P c ['1'] ∧
        (model P).adjust (write P c) d = hexOf P c) := by
  intro c
  obtain ⟨neg, hpoints⟩ := exists_points_eq hd.alpha
  have halpha : c.alpha = movedAlpha c₀.alpha neg := alpha_adjust P c₀ hpoints
  have hunit : InUnit c.alpha := inUnit_alpha_adjust hnan hd.a_ne_nan
  cases hone : Binary.le 1 c.alpha with
  | true =>
    have hhex : ¬WritesOne (write P c) := by
      rw [write_eq_hexOf P hone]
      exact not_writesOne_hex (ofNumerals_hexBytes (bytes_lt P c .red) (bytes_lt P c .green)
        (bytes_lt P c .blue))
    exact .inl ⟨(adjust_write_of_one_le hP hd hone).trans (write_eq_hexOf P hone).symm, hhex⟩
  | false =>
    have hwritten := writtenAlpha_movedAlpha hnan neg
    rw [← halpha] at hwritten
    rcases hwritten with hwritten | hsettled
    · obtain ⟨hfunction, hadjust⟩ := adjust_write_of_written_one hP hd hunit hone hwritten
      refine .inr ⟨?_, hfunction, hadjust⟩
      rw [hfunction]
      exact (writesOne_function_iff _ _ _ (by decide)).2 rfl
    · exact .inl (adjust_write_of_settled hP hd hpoints hunit hone hsettled)

end

/-- Adjusting by nothing, with zeros of either sign, a color that was adjusted by nothing gives the
same text again, unless that text has an alpha of one. Such a text stands for an opaque color, and what
it gives is the hexadecimal notation with the same bytes. -/
theorem adjust_adjust_of_isZero {v : Text} (hv : css.test v = true) {d : Deltas}
    (hd : d.IsZero) :
    let w := css.adjust v d
    (css.adjust w d = w ↔ ¬WritesOne w) ∧
      (WritesOne w → ∃ r g b, r < 256 ∧ g < 256 ∧ b < 256 ∧
        w = "rgba".toList ++ '(' :: (listed r g b ['1'] ++ [')']) ∧
        css.adjust w d = '#' :: hexBytes r g b) := by
  intro w
  obtain ⟨c₀, hc₀⟩ := (test_model v).1 hv
  let c := c₀.adjust .standard d
  have hw : w = write .standard c := adjust_of_read? .standard hc₀ d
  rcases adjust_write_adjust exact_standard hd (alpha_ne_nan_of_read? hc₀) with
    ⟨hsame, hnot⟩ | ⟨hwritesOne, hfunction, hadjust⟩
  · rw [hw]
    exact ⟨iff_of_true hsame hnot, fun h => absurd h hnot⟩
  · have hlt := bytes_lt .standard c
    rw [hw]
    refine ⟨iff_of_false ?_ (not_not.2 hwritesOne), fun _ => ⟨_, _, _, hlt .red, hlt .green,
      hlt .blue, hfunction, hadjust⟩⟩
    show (model .standard).adjust (write .standard c) d ≠ write .standard c
    rw [hadjust, hfunction]
    exact fun h => absurd (List.cons.inj h).1 (by decide)

theorem isZero_default : Deltas.IsZero {} := ⟨rfl, rfl, rfl, rfl⟩

/-- An alpha right below one. -/
def nearlyOpaque : Text := "rgba(255,0,0,0.9996)".toList

theorem test_nearlyOpaque : css.test nearlyOpaque = true := by decide

theorem adjust_nearlyOpaque : css.adjust nearlyOpaque {} = "rgba(255,0,0,1)".toList := by
  decide

theorem nearlyOpaque_adjust :
    let half := "hsla(240deg 100% 50% / 50%)".toList
    css.test half = true ∧ css.test nearlyOpaque = true ∧
      css.adjust (css.adjust half {}) {} = css.adjust half {} ∧
      css.adjust (css.adjust nearlyOpaque {}) {} ≠ css.adjust nearlyOpaque {} := by
  intro half
  have hhalf : css.test half = true := by decide
  have hwrites : WritesOne (css.adjust nearlyOpaque {}) := by
    rw [adjust_nearlyOpaque]
    decide
  exact ⟨hhalf, test_nearlyOpaque,
    (adjust_adjust_of_isZero hhalf isZero_default).1.2 (by decide),
    fun h => (adjust_adjust_of_isZero test_nearlyOpaque isZero_default).1.1 h hwrites⟩

theorem not_forall_adjust_adjust :
    ¬∀ v, css.test v = true → css.adjust (css.adjust v {}) {} = css.adjust v {} := by
  intro h
  have hsame := h nearlyOpaque test_nearlyOpaque
  rw [adjust_nearlyOpaque] at hsame
  exact absurd hsame (by decide)

end StyleCalls.Color
