import StyleCalls.Color.Notation
import StyleCalls.Proofs.Binary.Magnitude
import StyleCalls.Proofs.Decimal.RoundTrip
import StyleCalls.Proofs.Text.Pieces
import StyleCalls.Proofs.Unicode.Ascii

/-! Written colors, read again. The characters of numbers neither end a channel nor change with the
case, so every channel comes back as it was written. -/

namespace StyleCalls

namespace Text

theorem before?_eq_some_iff {stop t u : Text} : before? stop t = some u ↔ t = u ++ stop := by
  rw [before?, Option.map_eq_some_iff]
  constructor
  · rintro ⟨r, hr, rfl⟩
    rw [after?_eq_some_iff] at hr
    rw [← List.reverse_inj, hr, List.reverse_append, List.reverse_reverse]
  · rintro rfl
    refine ⟨u.reverse, ?_, List.reverse_reverse u⟩
    rw [after?_eq_some_iff, List.reverse_append]

theorem before?_singleton_eq_none {c : Char} {t : Text} (h : c ∉ t) : before? [c] t = none := by
  rw [Option.eq_none_iff_forall_ne_some]
  intro u hu
  rw [before?_eq_some_iff.1 hu] at h
  exact h (List.mem_append_right u (List.mem_singleton_self c))

end Text

namespace Color
open Binary
variable (P : Palette)

/-! The characters of numbers -/

def numerals : Text := "0123456789abcdef.-".toList

/-- The text of a number, in decimal or in hexadecimal digits. -/
def OfNumerals (t : Text) : Prop := ∀ c ∈ t, c ∈ numerals

instance (t : Text) : Decidable (OfNumerals t) := List.decidableBAll _ t

theorem mem_numerals_of_isDigit {c : Char} (h : c.isDigit = true) : c ∈ numerals := by
  have hascii : c.isAscii = true :=
    Unicode.isAscii_of_isAlphanum (Bool.or_eq_true_iff.2 (.inr h))
  exact Unicode.forall_isAscii (P := fun c => c.isDigit = true → c ∈ numerals)
    (by decide +kernel) hascii h

theorem ofNumerals_digitsOf (n : Nat) : OfNumerals (Decimal.digitsOf n) :=
  fun _ hc => mem_numerals_of_isDigit (Decimal.isDigit_of_mem_digitsOf hc)

theorem ofNumerals_sign (neg : Bool) : OfNumerals (sign neg) := by
  cases neg <;> decide

theorem ofNumerals_of_isPlain {t : Text} (h : Decimal.IsPlain t) : OfNumerals t := by
  cases h with
  | @whole neg ds _ hds _ =>
    exact List.forall_mem_append.2
      ⟨ofNumerals_sign neg, fun c hc => mem_numerals_of_isDigit (hds c hc)⟩
  | @pointed neg ds es _ _ hdigits _ =>
    obtain ⟨hds, hes⟩ := List.forall_mem_append.1 hdigits
    refine List.forall_mem_append.2 ⟨ofNumerals_sign neg, List.forall_mem_append.2
      ⟨fun c hc => mem_numerals_of_isDigit (hds c hc), List.forall_mem_cons.2 ⟨by decide, ?_⟩⟩⟩
    exact fun c hc => mem_numerals_of_isDigit (hes c hc)

theorem ofNumerals_text (neg : Bool) (m : Nat) (e : Int) :
    OfNumerals (text (finite neg m e : Single)) := by
  by_cases hm : m = 0
  · rw [text, if_pos hm]
    have hzero : OfNumerals ['0'] := by decide
    exact List.forall_mem_append.2 ⟨ofNumerals_sign neg, hzero⟩
  · exact ofNumerals_of_isPlain (isPlain_text (fun h => absurd h hm) e)

theorem digitChar_mem_numerals : ∀ n < 16, n.digitChar ∈ numerals := by decide

theorem ofNumerals_hexByte {n : Nat} (h : n < 256) : OfNumerals (hexByte n) :=
  List.forall_mem_cons.2 ⟨digitChar_mem_numerals _ (by omega),
    List.forall_mem_singleton.2 (digitChar_mem_numerals _ (by omega))⟩

theorem not_isSeparator_of_mem_numerals {c : Char} (h : c ∈ numerals) : isSeparator c = false := by
  have hnone : numerals.any isSeparator = false := by decide
  exact Bool.eq_false_iff.2 (List.any_eq_false.1 hnone c h)

theorem OfNumerals.percent_notMem {t : Text} (h : OfNumerals t) : '%' ∉ t :=
  fun hmem => absurd (h '%' hmem) (by decide)

/-! Channels -/

theorem number?_text (neg : Bool) {m : Nat} {e : Int} (h : Format.single.Holds m e) :
    number? (text (finite neg m e : Single)) = some (finite neg m e) := by
  obtain ⟨d, hread, hbinary⟩ :=
    Option.map_eq_some_iff.1 (read?_text Format.single_withinHorizon neg h)
  simp [number?, hread, hbinary, isFinite]

theorem toBinary_natural {n : Nat} (h : n < 256) :
    (Decimal.toBinary ⟨false, n, 0⟩ : Single) = ofNat n := by
  by_cases hn : n = 0
  · rw [hn]
    rfl
  · have hlength : (Decimal.digitsOf n).length ≤ 3 :=
      (Nat.length_toDigits_le_iff (by decide) (by decide)).2 (by omega)
    have hpos : 0 < (Decimal.digitsOf n).length := List.length_pos_iff.2 (Decimal.digitsOf_ne_nil n)
    have hleading : ¬Decimal.horizon < Decimal.leading ⟨false, n, 0⟩ ∧
        ¬Decimal.leading ⟨false, n, 0⟩ < -Decimal.horizon := by
      unfold Decimal.leading Decimal.horizon
      dsimp only
      omega
    unfold Decimal.toBinary
    rw [if_neg hn, if_neg hleading.1, if_neg hleading.2]
    change ofRatio false (n * 1) 1 = ofNat n
    rw [Nat.mul_one]
    rfl

theorem isFinite_ofNat {n : Nat} (h : n < 256) : (ofNat n : Single).isFinite = true := by
  have hlt : ((n : Nat) / (1 : Nat) : ℚ) < 2 ^ (8 : Int) := by
    rw [Nat.cast_one, div_one]
    exact_mod_cast h
  obtain ⟨m, e, hfinite, _⟩ := exists_ofRatio_eq_finite Format.single_sound false
    Nat.one_pos hlt (by decide) (by decide)
  rw [ofNat, hfinite]
  rfl

theorem number?_digitsOf {n : Nat} (h : n < 256) :
    number? (Decimal.digitsOf n) = some (ofNat n) := by
  have hread := Decimal.read?_whole false (Decimal.digitsOf_ne_nil n)
    fun c => Decimal.isDigit_of_mem_digitsOf
  rw [Decimal.valueOf_digitsOf] at hread
  change Decimal.read? (Decimal.digitsOf n) = _ at hread
  simp [number?, hread, toBinary_natural h, isFinite_ofNat h]

theorem portion?_of_numerals {t : Text} (h : OfNumerals t) (whole : Single) :
    portion? whole t = (number? t).map fun x => (x / whole).clampUnit := by
  rw [portion?, Text.before?_singleton_eq_none h.percent_notMem]

theorem hexDigit?_digitChar : ∀ n < 16, hexDigit? n.digitChar = some n := by decide

theorem ofHex?_hexBytes {r g b : Nat} (hr : r < 256) (hg : g < 256) (hb : b < 256) :
    ofHex? P (hexByte r ++ hexByte g ++ hexByte b) = some (opaqueOf P r g b) := by
  have hdigit {n : Nat} (hn : n < 256) : hexDigit? (n / 16).digitChar = some (n / 16) ∧
      hexDigit? (n % 16).digitChar = some (n % 16) :=
    ⟨hexDigit?_digitChar _ (by omega), hexDigit?_digitChar _ (by omega)⟩
  simp [ofHex?, hexByte, hdigit hr, hdigit hg, hdigit hb, Nat.div_add_mod]

/-! Whole colors -/

/-- The characters of a written color. -/
def IsWritten (t : Text) : Prop := ∀ c ∈ t, c ∈ numerals ∨ c ∈ "#rg(),".toList

instance (t : Text) : Decidable (IsWritten t) := List.decidableBAll _ t

theorem OfNumerals.isWritten {t : Text} (h : OfNumerals t) : IsWritten t :=
  fun c hc => .inl (h c hc)

theorem isWritten_append {t u : Text} : IsWritten (t ++ u) ↔ IsWritten t ∧ IsWritten u :=
  List.forall_mem_append

theorem isWritten_cons {c : Char} {t : Text} :
    IsWritten (c :: t) ↔ (c ∈ numerals ∨ c ∈ "#rg(),".toList) ∧ IsWritten t := List.forall_mem_cons

theorem IsWritten.not_isBlank {t : Text} (h : IsWritten t) :
    ∀ c ∈ t, Unicode.isBlank c = false := by
  have hnone : (numerals ++ "#rg(),".toList).any Unicode.isBlank = false := by decide
  intro c hc
  exact Bool.eq_false_iff.2 (List.any_eq_false.1 hnone c (List.mem_append.2 (h c hc)))

theorem IsWritten.trimmed {t : Text} (h : IsWritten t) : t.Trimmed where
  head c hc := h.not_isBlank c (List.mem_of_mem_head? hc)
  last c hc := h.not_isBlank c (List.mem_of_getLast? hc)

theorem IsWritten.asciiLower_trim {t : Text} (h : IsWritten t) : t.trim.asciiLower = t := by
  have hall : (numerals ++ "#rg(),".toList).all (fun c => c.toLower = c) = true := by decide
  have hlower : ∀ c ∈ t, c.toLower = c := fun c hc =>
    of_decide_eq_true (List.all_eq_true.1 hall c (List.mem_append.2 (h c hc)))
  rw [h.trimmed.trim_eq_self]
  exact (List.map_congr_left hlower).trans t.map_id'

def hexBytes (r g b : Nat) : Text := hexByte r ++ hexByte g ++ hexByte b

/-- The channels between the parentheses. -/
def listed (r g b : Nat) (alpha : Text) : Text :=
  [','].intercalate [Decimal.digitsOf r, Decimal.digitsOf g, Decimal.digitsOf b, alpha]

theorem write_of_one_le {c : Rgba} (h : Binary.le 1 c.alpha = true) :
    write P c = '#' :: hexBytes (P.toByte c.red) (P.toByte c.green) (P.toByte c.blue) := if_pos h

theorem write_of_not_one_le {c : Rgba} (h : Binary.le 1 c.alpha = false) :
    write P c = "rgba".toList ++ '(' :: (listed (P.toByte c.red) (P.toByte c.green)
      (P.toByte c.blue) ((c.alpha * 1000).round / 1000).text ++ [')']) :=
  if_neg (Bool.eq_false_iff.1 h)

theorem ofNumerals_hexBytes {r g b : Nat} (hr : r < 256) (hg : g < 256) (hb : b < 256) :
    OfNumerals (hexBytes r g b) :=
  List.forall_mem_append.2 ⟨List.forall_mem_append.2 ⟨ofNumerals_hexByte hr, ofNumerals_hexByte hg⟩,
    ofNumerals_hexByte hb⟩

theorem read?_write_of_one_le {c : Rgba} (h : Binary.le 1 c.alpha = true) :
    read? P (write P c) =
      some (opaqueOf P (P.toByte c.red) (P.toByte c.green) (P.toByte c.blue)) := by
  have hwritten :
      IsWritten ('#' :: hexBytes (P.toByte c.red) (P.toByte c.green) (P.toByte c.blue)) :=
    isWritten_cons.2 ⟨by decide,
      (ofNumerals_hexBytes (P.toByte_lt _) (P.toByte_lt _) (P.toByte_lt _)).isWritten⟩
  rw [write_of_one_le P h, read?, hwritten.asciiLower_trim]
  exact ofHex?_hexBytes P (P.toByte_lt _) (P.toByte_lt _) (P.toByte_lt _)

theorem listed_eq (r g b : Nat) (alpha : Text) :
    listed r g b alpha = Decimal.digitsOf r ++ ',' :: (Decimal.digitsOf g ++
      ',' :: (Decimal.digitsOf b ++ ',' :: alpha)) := by
  simp [listed, List.intercalate]

theorem pieces_listed (r g b : Nat) {alpha : Text} (h : OfNumerals alpha) (hne : alpha ≠ []) :
    Text.pieces isSeparator (listed r g b alpha) =
      [Decimal.digitsOf r, Decimal.digitsOf g, Decimal.digitsOf b, alpha] := by
  have hpiece {t : Text} (ht : OfNumerals t) (hne : t ≠ []) : Text.pieces isSeparator t = [t] :=
    Text.pieces_eq_singleton hne fun c hc => not_isSeparator_of_mem_numerals (ht c hc)
  have hdigits (n : Nat) : Text.pieces isSeparator (Decimal.digitsOf n) = [Decimal.digitsOf n] :=
    hpiece (ofNumerals_digitsOf n) (Decimal.digitsOf_ne_nil n)
  have hcomma : isSeparator ',' = true := by decide
  rw [listed_eq, Text.pieces_append_cons hcomma, Text.pieces_append_cons hcomma,
    Text.pieces_append_cons hcomma, hdigits, hdigits, hdigits, hpiece h hne]
  rfl

theorem ofKeyword?_eq_none {t : Text} (h : '(' ∈ t) : ofKeyword? P t = none := by
  have hkeywords : ∀ k ∈ keywords, '(' ∉ k.1.toList := by decide
  have htransparent : t ≠ "transparent".toList := by
    rintro rfl
    exact absurd h (by decide)
  rw [ofKeyword?, if_neg htransparent, List.find?_eq_none.2, Option.map_none]
  intro k hk hkey
  exact hkeywords k hk (of_decide_eq_true hkey ▸ h)

theorem isWritten_listed (r g b : Nat) {alpha : Text} (h : OfNumerals alpha) :
    IsWritten (listed r g b alpha) := by
  have hdigits (n : Nat) : IsWritten (Decimal.digitsOf n) := (ofNumerals_digitsOf n).isWritten
  have hcomma : ',' ∈ numerals ∨ ',' ∈ "#rg(),".toList := by decide
  simp only [listed_eq, isWritten_append, isWritten_cons, hdigits, hcomma, h.isWritten, and_self]

theorem isWritten_function {inner : Text} (h : IsWritten inner) :
    IsWritten ("rgba".toList ++ '(' :: (inner ++ [')'])) :=
  isWritten_append.2 ⟨by decide, isWritten_cons.2 ⟨by decide, isWritten_append.2 ⟨h, by decide⟩⟩⟩

theorem ofFunction?_function (inner : Text) :
    ofFunction? P ("rgba".toList ++ '(' :: (inner ++ [')'])) =
      match Text.pieces isSeparator inner with
      | [x, y, z] => ofChannels? P (Text.trim "rgba".toList) x y z 1
      | [x, y, z, a] => do ofChannels? P (Text.trim "rgba".toList) x y z (← portion? 1 a)
      | _ => none := by
  have hbefore : Text.before? [')'] (inner ++ [')']) = some inner := Text.before?_eq_some_iff.2 rfl
  have hspan : ("rgba".toList ++ '(' :: (inner ++ [')'])).span (· != '(') =
      ("rgba".toList, '(' :: (inner ++ [')'])) := rfl
  unfold ofFunction?
  rw [hspan]
  dsimp only
  rw [hbefore]
  rfl

theorem read?_write_of_not_one_le {c : Rgba} (h : Binary.le 1 c.alpha = false) {neg : Bool}
    {m : Nat} {e : Int} (halpha : (c.alpha * 1000).round / 1000 = finite neg m e)
    (hm : Format.single.Holds m e) :
    read? P (write P c) = some ⟨(ofNat (P.toByte c.red) / 255).clampUnit,
      (ofNat (P.toByte c.green) / 255).clampUnit, (ofNat (P.toByte c.blue) / 255).clampUnit,
      (finite neg m e / 1).clampUnit⟩ := by
  have hnumerals : OfNumerals (text (finite neg m e : Single)) := ofNumerals_text neg m e
  have hne : text (finite neg m e : Single) ≠ [] := by
    intro hnil
    have hread := number?_text neg hm
    rw [hnil] at hread
    exact absurd hread nofun
  have hportion {n : Nat} (hn : n < 256) : portion? 255 (Decimal.digitsOf n) =
      some ((ofNat n / 255).clampUnit) := by
    rw [portion?_of_numerals (ofNumerals_digitsOf n), number?_digitsOf hn, Option.map_some]
  have hportionAlpha : portion? 1 (text (finite neg m e : Single)) =
      some ((finite neg m e / 1).clampUnit) := by
    rw [portion?_of_numerals hnumerals, number?_text neg hm, Option.map_some]
  rw [write_of_not_one_le P h, halpha, read?,
    (isWritten_function (isWritten_listed _ _ _ hnumerals)).asciiLower_trim]
  change (ofKeyword? P _ <|> ofFunction? P ("rgba".toList ++ '(' :: _)) = _
  have htrim : Text.trim "rgba".toList = "rgba".toList := by decide
  rw [ofKeyword?_eq_none P (by simp), ofFunction?_function, pieces_listed _ _ _ hnumerals hne,
    htrim]
  simp [hportionAlpha, ofChannels?, hportion (P.toByte_lt _)]

end Color
end StyleCalls
