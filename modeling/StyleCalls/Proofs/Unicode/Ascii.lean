import Mathlib.Data.String.Defs

/-! The ASCII characters and their two cases. -/

namespace StyleCalls.Unicode

theorem forall_isAscii {P : Char → Prop} (h : ∀ n < 128, P (Char.ofNat n)) {c : Char}
    (hc : c.isAscii = true) : P c := by
  have hP := h c.toNat (of_decide_eq_true hc)
  rwa [Char.ofNat_toNat] at hP

theorem toLower_of_not_isAscii {c : Char} (h : ¬c.isAscii = true) : c.toLower = c := by
  have hc : ¬c.toNat < 128 := fun hlt => h (decide_eq_true hlt)
  have hupper : ¬(c.val ≥ 'A'.val ∧ c.val ≤ 'Z'.val) := by
    rintro ⟨_, hle⟩
    have hZ : c.toNat ≤ 90 := hle
    omega
  exact dif_neg hupper

theorem isAscii_toLower (c : Char) : c.toLower.isAscii = c.isAscii := by
  by_cases h : c.isAscii = true
  · exact forall_isAscii (P := fun c => c.toLower.isAscii = c.isAscii) (by decide +kernel) h
  · rw [toLower_of_not_isAscii h]

theorem isAscii_of_isAlphanum {c : Char} (h : c.isAlphanum = true) : c.isAscii = true := by
  have hbound : c.toNat ≤ 122 := by
    rcases Bool.or_eq_true_iff.1 h with halpha | hdigit
    · rcases Bool.or_eq_true_iff.1 halpha with hupper | hlower
      · exact Nat.le_trans (UInt32.le_iff_toNat_le.1 (of_decide_eq_true hupper).2) (by decide)
      · exact UInt32.le_iff_toNat_le.1 (of_decide_eq_true (Bool.and_eq_true_iff.1 hlower).2)
    · exact Nat.le_trans (Char.isDigit_iff_toNat.1 hdigit).2 (by decide)
  exact decide_eq_true (Nat.lt_of_le_of_lt hbound (by decide))

end StyleCalls.Unicode
