import Mathlib.Data.Nat.Notation
import StyleCalls.Decimal.Shortest

/-! Plain numerals: digits, perhaps with a point between two of them and a minus in front. So every
finite number is written, and only a negative zero has a minus but no other digit than zero. -/

namespace StyleCalls

namespace Decimal

/-- The minus of a negative number, digits, and perhaps a point and more digits. A negative number
has a digit other than zero. -/
inductive IsPlain : Text → Prop where
  | whole {neg : Bool} {ds : Text} : ds ≠ [] → (∀ c ∈ ds, c.isDigit = true) →
      (neg = true → ∃ c ∈ ds, c ≠ '0') → IsPlain (Binary.sign neg ++ ds)
  | pointed {neg : Bool} {ds es : Text} : ds ≠ [] → es ≠ [] → (∀ c ∈ ds ++ es, c.isDigit = true) →
      (neg = true → ∃ c ∈ ds ++ es, c ≠ '0') → IsPlain (Binary.sign neg ++ (ds ++ '.' :: es))

theorem IsPlain.ne_negative_zero {t : Text} (h : IsPlain t) : t ≠ ['-', '0'] := by
  rintro rfl
  generalize hw : ['-', '0'] = w at h
  cases h with
  | @whole neg ds _ hdigits hneg =>
    cases neg with
    | false =>
      obtain rfl : ['-', '0'] = ds := hw
      exact absurd (hdigits '-' (by decide)) (by decide)
    | true =>
      obtain rfl : ['0'] = ds := (List.cons.inj hw).2
      obtain ⟨c, hc, hne⟩ := hneg rfl
      exact absurd (List.mem_singleton.1 hc) hne
  | @pointed neg ds es _ _ _ _ =>
    have hpoint : '.' ∈ ['-', '0'] := by
      rw [hw]
      simp
    exact absurd hpoint (by decide)

theorem digitsOf_ne_nil (n : Nat) : digitsOf n ≠ [] :=
  List.length_pos_iff.1 Nat.length_toDigits_pos

theorem isDigit_of_mem_digitsOf {n : Nat} {c : Char} (h : c ∈ digitsOf n) : c.isDigit = true :=
  Nat.isDigit_of_mem_toDigits (by decide) (by decide) h

theorem digitChar_ne_zero : ∀ n < 10, n ≠ 0 → n.digitChar ≠ '0' := by decide

theorem exists_mem_digitsOf_ne_zero {n : Nat} (h : n ≠ 0) : ∃ c ∈ digitsOf n, c ≠ '0' := by
  induction n using Nat.strongRecOn with
  | ind n ih =>
    rw [digitsOf, Nat.toDigits_eq_if (by decide)]
    split
    · next hlt => exact ⟨_, List.mem_singleton_self _, digitChar_ne_zero n hlt h⟩
    · next hge =>
      obtain ⟨c, hc, hne⟩ := ih (n / 10) (by omega) (by omega)
      exact ⟨c, List.mem_append_left _ hc, hne⟩

theorem isDigit_of_mem_replicate {k : Nat} {c : Char} (h : c ∈ List.replicate k '0') :
    c.isDigit = true := by
  rw [List.eq_of_mem_replicate h]
  decide

theorem isPlain_positional (neg : Bool) {d : Decimal} (h : d.digits ≠ 0) :
    IsPlain (Binary.sign neg ++ d.positional) := by
  obtain ⟨c, hc, hne⟩ := exists_mem_digitsOf_ne_zero h
  have hdigits : ∀ e ∈ digitsOf d.digits, e.isDigit = true := fun e => isDigit_of_mem_digitsOf
  have hzeros (k : Nat) : ∀ e ∈ List.replicate k '0', e.isDigit = true :=
    fun e => isDigit_of_mem_replicate
  have hnonempty := digitsOf_ne_nil d.digits
  simp only [positional]
  split
  · exact .whole (by simp [hnonempty]) (List.forall_mem_append.2 ⟨hdigits, hzeros _⟩)
      fun _ => ⟨c, List.mem_append_left _ hc, hne⟩
  · next hexp =>
    have hplaces : 0 < (-d.exp).toNat := by omega
    split
    · next hle =>
      rw [List.append_assoc]
      change IsPlain (Binary.sign neg ++
        (['0'] ++ '.' :: (List.replicate _ '0' ++ digitsOf d.digits)))
      refine .pointed (List.cons_ne_nil _ _) (by simp [hnonempty]) ?_ fun _ => ⟨c, by simp [hc], hne⟩
      rw [List.forall_mem_append, List.forall_mem_append]
      exact ⟨List.forall_mem_singleton.2 (by decide), hzeros _, hdigits⟩
    · next hgt =>
      have hsplit := List.take_append_drop ((digitsOf d.digits).length - (-d.exp).toNat)
        (digitsOf d.digits)
      rw [List.append_assoc, List.singleton_append]
      refine .pointed ?_ ?_ (by rwa [hsplit]) fun _ => ⟨c, by rwa [hsplit], hne⟩
      · rw [← List.length_pos_iff, List.length_take]
        omega
      · rw [← List.length_pos_iff, List.length_drop]
        omega

end Decimal

namespace Binary
variable {F : Format}

/-! The shortest decimal of a number other than zero is not zero -/

theorem readsBack_zero {m : Nat} (hm : m ≠ 0) (e k : Int) : readsBack F m e 0 k = false := by
  have hlow {n : Nat} (hn : n ≠ 0) : compareDecimal 0 k n (e - 2) = .lt := by
    have hpos : 0 < n * Nat.pow 2 (e - 2).toNat * Nat.pow 10 (-k).toNat :=
      Nat.mul_pos (Nat.mul_pos (Nat.pos_of_ne_zero hn) (Nat.pow_pos (by decide)))
        (Nat.pow_pos (by decide))
    rw [compareDecimal, Nat.compare_eq_lt]
    simpa using hpos
  unfold readsBack
  simp only
  rw [hlow (by split <;> omega)]
  split <;> rfl

theorem readsBack_of_onGrid? {m c : Nat} {e k : Int} (h : onGrid? F m e k = some c) :
    readsBack F m e c k = true := by
  simp only [onGrid?] at h
  split at h
  · next hbelow habove =>
    obtain rfl := Option.some.inj h
    split
    · exact hbelow
    · exact habove
  · next hbelow _ => exact Option.some.inj h ▸ hbelow
  · next _ habove => exact Option.some.inj h ▸ habove
  · exact nomatch h

theorem digits_shortest_ne_zero (neg : Bool) {m : Nat} (hm : m ≠ 0) (e : Int) :
    (shortest F neg m e).digits ≠ 0 := by
  unfold shortest
  split
  · next c k hfind =>
    obtain ⟨k', _, hgrid⟩ := List.exists_of_findSome?_eq_some hfind
    obtain ⟨c', hc, heq⟩ := Option.map_eq_some_iff.1 hgrid
    obtain ⟨rfl, rfl⟩ := Prod.mk.inj heq
    rintro rfl
    have hread := readsBack_of_onGrid? hc
    rw [readsBack_zero hm] at hread
    exact Bool.noConfusion hread
  · exact Nat.ne_of_gt (Nat.mul_pos
      (Nat.mul_pos (Nat.pos_of_ne_zero hm) (Nat.pow_pos (by decide))) (Nat.pow_pos (by decide)))

theorem isPlain_text {neg : Bool} {m : Nat} (h : m = 0 → neg = false) (e : Int) :
    Decimal.IsPlain (text (.finite neg m e : Binary F)) := by
  by_cases hm : m = 0
  · obtain rfl := h hm
    have htext : text (.finite false m e : Binary F) = sign false ++ ['0'] := by
      rw [text, if_pos hm]
    rw [htext]
    exact .whole (List.cons_ne_nil _ _) (List.forall_mem_singleton.2 (by decide))
      fun hneg => nomatch hneg
  · have htext : text (.finite neg m e : Binary F) = sign neg ++ (shortest F neg m e).positional := by
      rw [text, if_neg hm]
    rw [htext]
    exact Decimal.isPlain_positional neg (digits_shortest_ne_zero neg hm e)

end Binary
end StyleCalls
