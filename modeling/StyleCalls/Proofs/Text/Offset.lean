import Mathlib.Data.List.TakeWhile
import StyleCalls.Text.Basic

/-! Byte offsets and the cuts they allow. An offset that is reached by passing whole characters is
a place to cut at, whatever stands behind it. -/

namespace StyleCalls.Text

theorem size_cons (c : Char) (t : Text) : size (c :: t) = c.utf8Size + size t := rfl

theorem bytes_cons (c : Char) (t : Text) : bytes (c :: t) = String.utf8EncodeChar c ++ bytes t := rfl

theorem bytes_append (s t : Text) : bytes (s ++ t) = bytes s ++ bytes t := List.flatMap_append

theorem length_bytes (t : Text) : (bytes t).length = size t := by
  induction t with
  | nil => rfl
  | cons c t ih =>
    rw [bytes_cons, List.length_append, String.length_utf8EncodeChar, ih, size_cons]

theorem drop_bytes_append (s t : Text) : (bytes (s ++ t)).drop (size s) = bytes t := by
  rw [bytes_append, ← length_bytes, List.drop_left]

theorem utf8EncodeChar_of_le {c : Char} (h : c.toNat ≤ 0x7f) :
    String.utf8EncodeChar c = [c.toUInt8] := by
  rw [String.utf8EncodeChar_eq_singleton (Char.utf8Size_eq_one_iff.2 h), Char.toUInt8_val]

theorem toNat_toUInt8_of_le {c : Char} (h : c.toNat ≤ 0x7f) : c.toUInt8.toNat = c.toNat := by
  rw [← Char.toUInt8_val, UInt32.toNat_toUInt8]
  exact Nat.mod_eq_of_lt (Nat.lt_of_le_of_lt h (by decide))

theorem eq_of_utf8EncodeChar_append {c d : Char} {bs bs' : List UInt8}
    (h : String.utf8EncodeChar c ++ bs = String.utf8EncodeChar d ++ bs') : c = d := by
  have hc := ByteArray.utf8DecodeChar?_utf8EncodeChar_append (b := bs.toByteArray) (c := c)
  have hd := ByteArray.utf8DecodeChar?_utf8EncodeChar_append (b := bs'.toByteArray) (c := d)
  rw [← List.toByteArray_append] at hc hd
  rw [h] at hc
  exact Option.some.inj (hc.symm.trans hd)

theorem isPrefix_of_bytes {g t : Text} (h : bytes g <+: bytes t) : g <+: t := by
  induction g generalizing t with
  | nil => exact List.nil_prefix
  | cons c g ih =>
    obtain ⟨more, hmore⟩ := h
    cases t with
    | nil => simp [bytes, String.utf8EncodeChar_ne_nil] at hmore
    | cons d t =>
      rw [bytes_cons, bytes_cons, List.append_assoc] at hmore
      obtain rfl := eq_of_utf8EncodeChar_append hmore
      exact (List.prefix_cons_inj c).2 (ih ⟨more, List.append_cancel_left hmore⟩)

theorem splitAt?_zero (t : Text) : splitAt? 0 t = some ([], t) := by
  cases t <;> rfl

theorem splitAt?_add (s : Text) (n : Nat) (t : Text) :
    splitAt? (size s + n) (s ++ t) = (splitAt? n t).map fun p => (s ++ p.1, p.2) := by
  induction s with
  | nil => simp [size]
  | cons c s ih =>
    have hc : 0 < c.utf8Size := Char.utf8Size_pos c
    obtain ⟨k, hk⟩ : ∃ k, size (c :: s) + n = k + 1 := ⟨size (c :: s) + n - 1, by
      rw [size_cons]
      omega⟩
    have hs : k + 1 - c.utf8Size = size s + n := by
      rw [← hk, size_cons]
      omega
    have hle : c.utf8Size ≤ k + 1 := by
      rw [← hk, size_cons]
      omega
    rw [hk, List.cons_append, splitAt?, if_pos hle, hs, ih, Option.map_map]
    rfl

theorem eq_of_append_eq_append {s s' t t' : Text} (h : s ++ t = s' ++ t')
    (hsize : size s = size s') : s = s' ∧ t = t' := by
  have hcut := splitAt?_size_append s t
  rw [h, hsize, splitAt?_size_append] at hcut
  obtain ⟨hs, ht⟩ := Prod.mk.inj (Option.some.inj hcut)
  exact ⟨hs.symm, ht.symm⟩

theorem forall_ne_paren {w : Text} (h : '(' ∉ w) : ∀ c ∈ w, decide (c ≠ '(') = true := by
  intro c hc
  rw [decide_eq_true_eq]
  exact fun hparen => h (hparen ▸ hc)

theorem takeWhile_append_paren {w : Text} (h : '(' ∉ w) (rest : Text) :
    (w ++ '(' :: rest).takeWhile (· ≠ '(') = w := by
  rw [List.takeWhile_append_of_pos (forall_ne_paren h)]
  simp

theorem dropWhile_append_paren {w : Text} (h : '(' ∉ w) (rest : Text) :
    (w ++ '(' :: rest).dropWhile (· ≠ '(') = '(' :: rest := by
  rw [List.dropWhile_append_of_pos (forall_ne_paren h)]
  simp

end StyleCalls.Text
