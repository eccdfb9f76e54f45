import Mathlib.Algebra.Ring.Nat
import Mathlib.Data.List.TakeWhile
import StyleCalls.Proofs.Decimal.Plain

/-! Numerals without an exponent, read again. The number is that of all digits together, with as many
places as there are digits behind the point. -/

namespace StyleCalls.Decimal
variable {ds es : Text}

theorem readSign_sign_append (neg : Bool) (hne : ds ≠ []) (hds : ∀ c ∈ ds, c.isDigit = true)
    (t : Text) : readSign (Binary.sign neg ++ (ds ++ t)) = (neg, ds ++ t) := by
  cases neg with
  | true => rfl
  | false =>
    cases ds with
    | nil => exact absurd rfl hne
    | cons c ds =>
      have hc : c.isDigit = true := hds c (List.mem_cons_self ..)
      have hplus : c ≠ '+' := by
        rintro rfl
        exact absurd hc (by decide)
      have hminus : c ≠ '-' := by
        rintro rfl
        exact absurd hc (by decide)
      simp [Binary.sign, readSign, hplus, hminus]

theorem takeWhile_append_digits (hds : ∀ c ∈ ds, c.isDigit = true) (t : Text) :
    (ds ++ t).takeWhile isDigit = ds ++ t.takeWhile isDigit := List.takeWhile_append_of_pos hds

theorem dropWhile_append_digits (hds : ∀ c ∈ ds, c.isDigit = true) (t : Text) :
    (ds ++ t).dropWhile isDigit = t.dropWhile isDigit := List.dropWhile_append_of_pos hds

theorem takeWhile_digits (hds : ∀ c ∈ ds, c.isDigit = true) : ds.takeWhile isDigit = ds :=
  List.takeWhile_eq_self_iff.2 hds

theorem dropWhile_digits (hds : ∀ c ∈ ds, c.isDigit = true) : ds.dropWhile isDigit = [] :=
  List.dropWhile_eq_nil_iff.2 hds

theorem readRun_whole (hds : ∀ c ∈ ds, c.isDigit = true) : readRun ds = (ds, [], []) := by
  unfold readRun
  rw [takeWhile_digits hds, dropWhile_digits hds]

theorem readRun_pointed (hds : ∀ c ∈ ds, c.isDigit = true) (hes : ∀ c ∈ es, c.isDigit = true) :
    readRun (ds ++ '.' :: es) = (ds, es, []) := by
  have hpoint : isDigit '.' = false := rfl
  unfold readRun
  rw [takeWhile_append_digits hds, dropWhile_append_digits hds,
    List.takeWhile_cons_of_neg (Bool.eq_false_iff.1 hpoint),
    List.dropWhile_cons_of_neg (Bool.eq_false_iff.1 hpoint), List.append_nil]
  change (ds, es.takeWhile isDigit, es.dropWhile isDigit) = (ds, es, [])
  rw [takeWhile_digits hes, dropWhile_digits hes]

theorem read?_whole (neg : Bool) (hne : ds ≠ []) (hds : ∀ c ∈ ds, c.isDigit = true) :
    read? (Binary.sign neg ++ ds) = some ⟨neg, valueOf ds, 0⟩ := by
  have hsign := readSign_sign_append neg hne hds []
  rw [List.append_nil] at hsign
  unfold read?
  rw [hsign]
  dsimp only
  rw [readRun_whole hds]
  cases ds with
  | nil => exact absurd rfl hne
  | cons c ds => simp [readExponent?, ofRun?]

theorem read?_pointed (neg : Bool) (hne : ds ≠ []) (hds : ∀ c ∈ ds, c.isDigit = true)
    (hes : ∀ c ∈ es, c.isDigit = true) :
    read? (Binary.sign neg ++ (ds ++ '.' :: es)) =
      some ⟨neg, valueOf (ds ++ es), -(es.length : Int)⟩ := by
  unfold read?
  rw [readSign_sign_append neg hne hds]
  dsimp only
  rw [readRun_pointed hds hes]
  cases ds with
  | nil => exact absurd rfl hne
  | cons c ds => simp [readExponent?, ofRun?]

/-! The value of digits -/

theorem valueOf_digitsOf (n : Nat) : valueOf (digitsOf n) = n := Nat.ofDigitChars_ten_toDigits

theorem valueOf_append_zeros (t : Text) (k : Nat) :
    valueOf (t ++ List.replicate k '0') = valueOf t * 10 ^ k := by
  rw [Nat.mul_comm]
  exact (Nat.ofDigitChars_append 0).trans Nat.ofDigitChars_replicate_zero

theorem valueOf_zeros_append (k : Nat) (t : Text) :
    valueOf (List.replicate k '0' ++ t) = valueOf t := by
  have hzeros : Nat.ofDigitChars 10 (List.replicate k '0') 0 = 0 := by
    rw [Nat.ofDigitChars_replicate_zero, Nat.mul_zero]
  refine (Nat.ofDigitChars_append 0).trans ?_
  rw [hzeros]
  rfl

/-- Written out, a decimal keeps its value; the zeros of a power of ten become digits. -/
theorem read?_positional (neg : Bool) (d : Decimal) :
    read? (Binary.sign neg ++ d.positional) =
      some ⟨neg, d.digits * 10 ^ d.exp.toNat, min d.exp 0⟩ := by
  have hdigits : ∀ c ∈ digitsOf d.digits, c.isDigit = true := fun c => isDigit_of_mem_digitsOf
  have hzeros (k : Nat) : ∀ c ∈ List.replicate k '0', c.isDigit = true :=
    fun c => isDigit_of_mem_replicate
  have hnonempty := digitsOf_ne_nil d.digits
  simp only [positional]
  split
  · next hexp =>
    rw [read?_whole neg (by simp [hnonempty]) (List.forall_mem_append.2 ⟨hdigits, hzeros _⟩),
      valueOf_append_zeros, valueOf_digitsOf, Int.min_eq_right hexp]
  · next hexp =>
    have hwhole : d.digits * 10 ^ d.exp.toNat = d.digits := by
      rw [Int.toNat_of_nonpos (by omega), Nat.pow_zero, Nat.mul_one]
    rw [hwhole]
    split
    · next hle =>
      have hvalue (k : Nat) : valueOf (['0'] ++ (List.replicate k '0' ++ digitsOf d.digits)) =
          d.digits := (valueOf_zeros_append (k + 1) _).trans (valueOf_digitsOf _)
      have hzero : ∀ c ∈ ['0'], c.isDigit = true := List.forall_mem_singleton.2 (by decide)
      have hread := read?_pointed neg (List.cons_ne_nil _ _) hzero
        (List.forall_mem_append.2 ⟨hzeros ((-d.exp).toNat - (digitsOf d.digits).length), hdigits⟩)
      rw [hvalue, List.length_append, List.length_replicate] at hread
      rw [List.append_assoc]
      refine hread.trans ?_
      congr 2
      omega
    · next hgt =>
      have hsplit := List.take_append_drop ((digitsOf d.digits).length - (-d.exp).toNat)
        (digitsOf d.digits)
      have hne : (digitsOf d.digits).take ((digitsOf d.digits).length - (-d.exp).toNat) ≠ [] := by
        rw [← List.length_pos_iff, List.length_take]
        omega
      rw [List.append_assoc, List.singleton_append, read?_pointed neg hne
        (fun c hc => hdigits c (List.mem_of_mem_take hc))
        (fun c hc => hdigits c (List.mem_of_mem_drop hc)), hsplit, valueOf_digitsOf,
        List.length_drop]
      congr 2
      omega

end StyleCalls.Decimal
