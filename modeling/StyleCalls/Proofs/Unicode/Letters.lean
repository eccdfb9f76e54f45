import Mathlib.Data.List.Chain
import StyleCalls.Proofs.Pattern.Spelling
import StyleCalls.Unicode.Alphabetic

/-! Folding takes letters to letters and leaves every other character alone. -/

namespace StyleCalls.Unicode

/-- Whether one of the ranges reaches from `lo` to `hi`. -/
def Ranges.covers (rs : Ranges) (lo hi : Nat) : Bool :=
  rs.any fun r => Nat.ble hi r.2 && Nat.ble r.1 lo

theorem Ranges.holds_of_covers {rs : Ranges} (h : rs.Pairwise fun r q => r.1 ≤ q.1) {lo hi : Nat}
    (hcovers : rs.covers lo hi = true) {c : Char} (hlo : lo ≤ c.toNat) (hhi : c.toNat ≤ hi) :
    rs.holds c = true := by
  induction rs with
  | nil => exact Bool.noConfusion hcovers
  | cons r rs ih =>
    obtain ⟨hle, hrest⟩ := List.pairwise_cons.1 h
    obtain ⟨q, hq, hcover⟩ := List.any_eq_true.1 hcovers
    rw [Bool.and_eq_true, Nat.ble_eq, Nat.ble_eq] at hcover
    rw [holds]
    rcases List.mem_cons.1 hq with rfl | hmem
    · simp only [if_neg (show ¬c.toNat < q.1 by omega), decide_eq_true (hhi.trans hcover.1),
        Bool.true_or]
    · have hstart := hle q hmem
      have hholds := ih hrest (List.any_eq_true.2 ⟨q, hmem, by simpa using hcover⟩)
      rw [if_neg (by omega), hholds, Bool.or_true]

theorem pairwise_alphabetic : alphabetic.Pairwise fun r q => r.1 ≤ q.1 := by
  have hchain : (alphabetic.map Prod.fst).IsChain (· ≤ ·) := by decide +kernel
  exact List.pairwise_map.1 hchain.pairwise

/-- The characters of a run and those they fold to are letters. -/
def runsOnLetters : Nat × Nat × Nat × Nat → Bool
  | (first, last, step, target) =>
    (alphabetic.covers first last ||
      (List.range ((last - first) / step + 1)).all fun k =>
        alphabetic.covers (first + k * step) (first + k * step)) &&
    alphabetic.covers target (target + (last - first))

theorem runsOnLetters_of_mem : ∀ r ∈ foldRuns, runsOnLetters r = true := by
  have hall : foldRuns.all runsOnLetters = true := by decide +kernel
  exact List.all_eq_true.1 hall

theorem fold_cases (c : Char) : fold c = c.toNat ∨
    isAlphabetic c = true ∧ ∀ d : Char, d.toNat = fold c → isAlphabetic d = true := by
  rcases foldFrom_cases c.toNat foldRuns with hc | ⟨first, last, step, target, hmem, hrun⟩
  · exact .inl hc
  · obtain ⟨hfirst, hlast, hstep, hfold⟩ := hrun
    have hletters := runsOnLetters_of_mem _ hmem
    rw [runsOnLetters, Bool.and_eq_true, Bool.or_eq_true] at hletters
    obtain ⟨hsource, htarget⟩ := hletters
    refine .inr ⟨?_, fun d hd => ?_⟩
    · rcases hsource with hwhole | hsteps
      · exact Ranges.holds_of_covers pairwise_alphabetic hwhole hfirst hlast
      · have hcancel := Nat.div_mul_cancel (Nat.dvd_of_mod_eq_zero hstep)
        have hle : (c.toNat - first) / step ≤ (last - first) / step :=
          Nat.div_le_div_right (Nat.sub_le_sub_right hlast first)
        have hone := List.all_eq_true.1 hsteps _ (List.mem_range.2 (Nat.lt_succ_of_le hle))
        rw [hcancel, Nat.add_sub_cancel' hfirst] at hone
        exact Ranges.holds_of_covers pairwise_alphabetic hone le_rfl le_rfl
    · have hd' : d.toNat = target + (c.toNat - first) := hd.trans hfold
      exact Ranges.holds_of_covers pairwise_alphabetic htarget (by omega) (by omega)

theorem isAlphabetic_eq_of_fold_eq {a b : Char} (h : fold a = fold b) :
    isAlphabetic a = isAlphabetic b := by
  rcases fold_cases a with ha | ⟨ha, ha'⟩ <;> rcases fold_cases b with hb | ⟨hb, hb'⟩
  · rw [ha, hb] at h
    rw [Char.toNat_inj.1 h]
  · rw [hb, hb' a (ha.symm.trans h)]
  · rw [ha, ha' b (hb.symm.trans h.symm)]
  · rw [ha, hb]

end StyleCalls.Unicode
