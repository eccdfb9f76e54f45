import StyleCalls.Proofs.Color.Alpha
import StyleCalls.Proofs.Color.Written
import StyleCalls.Proofs.ColorAdjust.Channels

/-! Adjusted colors are colors again, whatever they are moved by, and stand for one argument each.
So calls can be nested, with the result of the one as the color of the next. -/

namespace StyleCalls

namespace Delimiters
open Nesting
variable {d : Delimiters} {s : Nesting} {t : Text}

theorem whole_of_any_eq_false (h : t.any d.holds = false) : d.Whole s t := by
  rintro u c v rfl
  rw [cuts, Bool.eq_false_iff.2 (List.any_eq_false.1 h c (by simp)), Bool.and_false]

/-- Nothing ends inside a group. -/
theorem whole_inGroup_of_plain (h : Plain t) : d.Whole inGroup t := by
  rintro u c v rfl
  rw [inGroup_run_of_plain (List.forall_mem_append.1 h).1]
  rfl

end Delimiters

/-! Offsets are numbers -/

theorem Decimal.toBinary_ne_nan {F : Format} (d : Decimal) : (d.toBinary : Binary F) ≠ .nan := by
  unfold toBinary
  split
  · exact nofun
  split
  · exact nofun
  split
  · exact nofun
  · exact Binary.ofRatio_ne_nan _ _ _

theorem Delta.parse_ne_nan (t : Text) : Delta.parse t ≠ .nan := by
  unfold parse
  dsimp only
  split
  · exact Decimal.toBinary_ne_nan _
  · exact nofun

namespace Color
open Delimiters Nesting Binary
variable {P : Palette}

theorem test_model (t : Text) : (model P).test t = true ↔ ∃ c, read? P t = some c :=
  Option.isSome_iff_exists

/-! A written color is one argument -/

theorem OfNumerals.plain {t : Text} (h : OfNumerals t) : Plain t := by
  have hnone : numerals.any (· ∈ marks) = false := by decide
  exact fun c hc hmark => List.any_eq_false.1 hnone c (h c hc) (decide_eq_true hmark)

theorem plain_listed (r g b : Nat) {alpha : Text} (h : OfNumerals alpha) :
    Plain (listed r g b alpha) := by
  have hdigits (n : Nat) : Plain (Decimal.digitsOf n) := (ofNumerals_digitsOf n).plain
  have hcons {t : Text} (ht : Plain t) : Plain (',' :: t) := List.forall_mem_cons.2 ⟨by decide, ht⟩
  have happend {t u : Text} (ht : Plain t) (hu : Plain u) : Plain (t ++ u) :=
    List.forall_mem_append.2 ⟨ht, hu⟩
  rw [listed_eq]
  exact happend (hdigits r) (hcons
    (happend (hdigits g) (hcons (happend (hdigits b) (hcons h.plain)))))

/-- The commas between the parentheses end no argument. -/
theorem whole_function {inner : Text} (h : Plain inner) :
    commasAndBlanks.Whole outside ("rgba".toList ++ '(' :: (inner ++ [')'])) ∧
      outside.run ("rgba".toList ++ '(' :: (inner ++ [')'])) = outside := by
  have hname : outside.run "rgba".toList = outside := by decide
  have hopen : outside.step '(' = inGroup := by decide
  have hinner := inGroup_run_of_plain h
  constructor
  · rw [whole_append, hname, whole_cons, hopen, whole_append, hinner]
    exact ⟨whole_of_any_eq_false (by decide), by decide, whole_inGroup_of_plain h,
      whole_of_any_eq_false (by decide)⟩
  · rw [run_append, hname]
    change (outside.step '(').run (inner ++ [')']) = outside
    rw [hopen, run_append, hinner]
    decide

theorem whole_hex {t : Text} (h : OfNumerals t) :
    commasAndBlanks.Whole outside ('#' :: t) ∧ outside.run ('#' :: t) = outside := by
  have hnone : numerals.any commasAndBlanks.holds = false := by decide
  constructor
  · exact whole_of_any_eq_false (List.any_eq_false.2 (List.forall_mem_cons.2
      ⟨by decide, fun c hc => List.any_eq_false.1 hnone c (h c hc)⟩))
  · exact run_of_plain (quoted_of_unquoted rfl) (List.cons_ne_nil _ _)
      (List.forall_mem_cons.2 ⟨by decide, h.plain⟩)

/-- A color as adjustment writes it. -/
def Adjusted (P : Palette) (t : Text) : Prop := ∃ c : Rgba, InUnit c.alpha ∧ t = write P c

theorem adjusted_adjust {t : Text} (h : (model P).test t = true) {d : Deltas} (hd : d.a ≠ nan) :
    Adjusted P ((model P).adjust t d) := by
  obtain ⟨c, hc⟩ := (test_model t).1 h
  refine ⟨c.adjust P d, inUnit_alpha_adjust (alpha_ne_nan_of_read? hc) hd, ?_⟩
  simp only [model, hc]

theorem Adjusted.test {t : Text} (h : Adjusted P t) : (model P).test t = true := by
  obtain ⟨c, halpha, rfl⟩ := h
  rw [test_model]
  cases hone : Binary.le 1 c.alpha with
  | true => exact ⟨_, read?_write_of_one_le P hone⟩
  | false =>
    obtain ⟨neg, m, e, hthousandths, hm⟩ := exists_thousandths_eq halpha
    exact ⟨_, read?_write_of_not_one_le P hone hthousandths hm⟩

theorem Adjusted.ne_nil {t : Text} (h : Adjusted P t) : t ≠ [] := by
  obtain ⟨c, _, rfl⟩ := h
  cases hone : Binary.le 1 c.alpha with
  | true =>
    rw [write_of_one_le P hone]
    exact List.cons_ne_nil _ _
  | false =>
    rw [write_of_not_one_le P hone]
    exact List.cons_ne_nil _ _

theorem Adjusted.isWritten {t : Text} (h : Adjusted P t) : IsWritten t ∧
    commasAndBlanks.Whole outside t ∧ outside.run t = outside := by
  obtain ⟨c, halpha, rfl⟩ := h
  cases hone : Binary.le 1 c.alpha with
  | true =>
    have hhex := ofNumerals_hexBytes (P.toByte_lt c.red) (P.toByte_lt c.green) (P.toByte_lt c.blue)
    rw [write_of_one_le P hone]
    exact ⟨isWritten_cons.2 ⟨by decide, hhex.isWritten⟩, whole_hex hhex⟩
  | false =>
    obtain ⟨neg, m, e, hthousandths, _⟩ := exists_thousandths_eq halpha
    have hnumerals := ofNumerals_text neg m e
    rw [write_of_not_one_le P hone, hthousandths]
    exact ⟨isWritten_function (isWritten_listed _ _ _ hnumerals),
      whole_function (plain_listed _ _ _ hnumerals)⟩

end Color

/-! Calls -/

namespace ColorAdjust
open Arguments Color
variable {σ : Type} {host : Host σ} {P : Palette}

/-- The functions that adjust colors. -/
def adjusters : List Builtin := [.hslaAdjust, .hslAdjust, .hAdjust, .sAdjust, .lAdjust, .aAdjust]

theorem exists_channels {b : Builtin} (hb : b ∈ adjusters) (host : Host σ) :
    ∃ channels, b.run host = run channels host := by
  simp only [adjusters, List.mem_cons, List.not_mem_nil, or_false] at hb
  rcases hb with rfl | rfl | rfl | rfl | rfl | rfl <;> exact ⟨_, rfl⟩

theorem set_a_ne_nan (channel : Channel) {d : Deltas} (hd : d.a ≠ .nan) (t : Text) :
    (channel.set d (Delta.parse t)).a ≠ .nan := by
  cases channel with
  | alpha => exact Delta.parse_ne_nan t
  | hue => exact hd
  | saturation => exact hd
  | lightness => exact hd

theorem readArgs_a_ne_nan (channels : List Channel) (input : Text) :
    (readArgs channels input).2.a ≠ .nan := by
  have hfold (args : List (Channel × Text)) {d : Deltas} (hd : d.a ≠ .nan) :
      (args.foldl (fun d p => p.1.set d (Delta.parse p.2)) d).a ≠ .nan := by
    induction args generalizing d with
    | nil => exact hd
    | cons p args ih => exact ih (set_a_ne_nan p.1 hd p.2)
  have hzero : (0 : Delta) ≠ .nan := nofun
  exact hfold _ hzero

section
variable (hcolors : host.colors = model P) (hhooks : host.hooks = {})
include hcolors hhooks

theorem run_of_no_hooks (channels : List Channel) (input : Text) (s : Setting σ) :
    (run channels host input s).1 =
      if (model P).test (readArgs channels input).1 then
        (model P).adjust (readArgs channels input).1 (readArgs channels input).2
      else [] := by
  unfold run adjust
  rw [hcolors, hhooks]
  rfl

theorem adjusted_run {b : Builtin} (hb : b ∈ adjusters) {input color : Text}
    (hinput : (split .commasAndBlanks input).head? = some color)
    (hcolor : (model P).test color = true) (s : Setting σ) : Adjusted P (b.run host input s).1 := by
  obtain ⟨channels, hrun⟩ := exists_channels hb host
  have hread : (readArgs channels input).1 = color := by
    change (split .commasAndBlanks input).headD [] = color
    rw [List.headD_eq_head?_getD, hinput, Option.getD_some]
  rw [hrun, run_of_no_hooks hcolors hhooks, hread, if_pos hcolor]
  exact adjusted_adjust hcolor (readArgs_a_ne_nan channels input)

end

theorem head?_split_of_adjusted {color rest : Text} (h : Adjusted P color)
    (hrest : ∀ c ∈ rest.head?, isBreak c = true) :
    (split .commasAndBlanks (color ++ rest)).head? = some color := by
  obtain ⟨hwritten, hwhole, hrun⟩ := h.isWritten
  have hsingle : Arguments.Single .commasAndBlanks color := ⟨h.ne_nil, hwritten.trimmed, hwhole⟩
  cases rest with
  | nil => rw [List.append_nil, hsingle.split_eq, List.head?_cons]
  | cons c rest => rw [split_append_cons hsingle hrun (hrest c rfl), List.head?_cons]

/-- Calls around a call, from the inside out, each with the result of the one inside it for its
color and further arguments behind it. -/
def nested (host : Host σ) (calls : List (Builtin × Text)) (inner : Text × Setting σ) :
    Text × Setting σ :=
  calls.foldl (fun p call => call.1.run host (p.1 ++ call.2) p.2) inner

theorem adjusted_nested (hcolors : host.colors = model P) (hhooks : host.hooks = {})
    {calls : List (Builtin × Text)}
    (hcalls : ∀ call ∈ calls, call.1 ∈ adjusters ∧ ∀ c ∈ call.2.head?, isBreak c = true)
    {inner : Text × Setting σ} (hinner : Adjusted P inner.1) :
    Adjusted P (nested host calls inner).1 := by
  induction calls generalizing inner with
  | nil => exact hinner
  | cons call calls ih =>
    obtain ⟨⟨hadjuster, hrest⟩, hcalls⟩ := List.forall_mem_cons.1 hcalls
    exact ih hcalls (adjusted_run hcolors hhooks hadjuster (head?_split_of_adjusted hinner hrest)
      hinner.test inner.2)

/-- Adjusting a color gives a color, also by offsets beyond all numbers. So no call turns a color
into nothing, however many calls there are around it. -/
theorem test_adjust_parse {v : Text} (hv : css.test v = true) (h s l a : Text) :
    css.test (css.adjust v ⟨.parse h, .parse s, .parse l, .parse a⟩) = true ∧
    ∀ (host : Host σ) (setting : Setting σ), host.colors = css → host.hooks = {} →
      ∀ b ∈ adjusters, ∀ input, (split .commasAndBlanks input).head? = some v →
      ∀ calls : List (Builtin × Text),
        (∀ call ∈ calls, call.1 ∈ adjusters ∧ ∀ c ∈ call.2.head?, isBreak c = true) →
        let result := (nested host calls (b.run host input setting)).1
        css.test result = true ∧ result ≠ [] := by
  refine ⟨(adjusted_adjust hv (Delta.parse_ne_nan a)).test, ?_⟩
  intro host setting hcolors hhooks b hb input hinput calls hcalls result
  have hresult : Adjusted .standard result :=
    adjusted_nested hcolors hhooks hcalls (adjusted_run hcolors hhooks hb hinput hv setting)
  exact ⟨hresult.test, hresult.ne_nil⟩

/-- An offset that is read as infinite. -/
def endless : Text := List.replicate 320 '9'

theorem endless_adjust :
    let v := "hsla(240deg 100% 50% / 50%)".toList
    let host : Host Unit := {}
    let inner := Builtin.hslAdjust.run host (v ++ (' ' :: endless ++ " -20%".toList)) ⟨none, {}, ()⟩
    let result := (nested host [(.hAdjust, " 30".toList), (.aAdjust, ',' :: '-' :: endless)] inner).1
    Delta.parse endless = .infinite false ∧
      Color.css.test (Color.css.adjust v ⟨.parse endless, .parse ('-' :: endless), .parse [],
        .parse endless⟩) = true ∧
      Color.css.test result = true ∧ result ≠ [] := by
  intro v host inner result
  have hv : Color.css.test v = true := by decide +kernel
  have hclosed := @test_adjust_parse Unit v hv endless ('-' :: endless) [] endless
  have hcalls : ∀ call ∈
      [(Builtin.hAdjust, " 30".toList), (Builtin.aAdjust, ',' :: '-' :: endless)],
      call.1 ∈ adjusters ∧ ∀ c ∈ call.2.head?, isBreak c = true :=
    List.forall_mem_cons.2 ⟨⟨by decide, fun _ hc => Option.some.inj hc ▸ rfl⟩,
      List.forall_mem_singleton.2 ⟨by decide, fun _ hc => Option.some.inj hc ▸ rfl⟩⟩
  exact ⟨by decide +kernel, hclosed.1, hclosed.2 host ⟨none, {}, ()⟩ rfl rfl .hslAdjust (by decide) _
    (by decide +kernel) _ hcalls⟩

end ColorAdjust
end StyleCalls
