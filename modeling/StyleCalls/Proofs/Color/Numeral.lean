import StyleCalls.Proofs.Color.Delta
import StyleCalls.Proofs.Decimal.Longest

/-! An offset is the number written by the longest numeral that the text begins with, blanks apart.
The reader of whole numerals takes this numeral, whose point at the end, if there is one, is left
out. -/

namespace StyleCalls

namespace Decimal
variable {s r t : Text}

theorem read?_append_of_mem (hs : s ∈ signs) (hr : IsRun r) (hdigit : ∃ c ∈ r, isDigit c = true) :
    read? ((s ++ r).rdropWhile (· = '.')) =
      ofRun? (decide (s = ['-'])) (readRun r).1 (readRun r).2.1 0 := by
  have hkept : ∃ c ∈ r.rdropWhile (· = '.'), isDigit c = true := by
    obtain ⟨c, hc, hdigit⟩ := hdigit
    have hsplit : r.rdropWhile (· = '.') ++ r.rtakeWhile (· = '.') = r :=
      List.rdropWhile_append_rtakeWhile
    rw [← hsplit, List.mem_append] at hc
    refine ⟨c, hc.resolve_right fun hpoint => ?_, hdigit⟩
    exact not_point_of_isDigit hdigit (by simpa using List.mem_rtakeWhile_imp hpoint)
  have hrun : IsRun (r.rdropWhile (· = '.')) := hr.of_begins (List.rdropWhile_prefix _ r)
  have hne : r.rdropWhile (· = '.') ≠ [] := List.ne_nil_of_mem hkept.choose_spec.1
  have hunsigned := unsigned_of_isRun hrun hne []
  rw [List.append_nil] at hunsigned
  rw [rdropWhile_append_of_mem s hdigit, read?, readSign_append_of_mem hs hunsigned]
  dsimp only
  rw [readRun_rdropWhile hr, readRun_of_isRun hr]
  rfl

/-- The longest numeral is made of the sign and of all digits that the reader finds behind it. -/
theorem longest_numeral (hs : s ∈ signs) (ht : t = s ++ (readSign t).2) {rest : Text}
    (hrun : Longest IsRun r (readSign t).2) (hrest : (readSign t).2 = r ++ rest)
    (hdigit : ∃ c ∈ r, isDigit c = true) : Longest IsNumeral (s ++ r) t where
  begins := ⟨rest, by rw [List.append_assoc, ← hrest, ← ht]⟩
  holds := ⟨s, hs, r, rfl, hrun.holds, hdigit⟩
  length_le := by
    rintro q hq ⟨s', hs', r', rfl, hr', c, hc, _⟩
    obtain ⟨hbegins, hlength⟩ := begins_readSign hs' hr' (List.ne_nil_of_mem hc) hq
    have hle := hrun.length_le r' hbegins hr'
    have hwhole := congrArg List.length ht
    simp only [List.length_append] at hwhole ⊢
    omega

theorem not_isNumeral_of_begins (hrun : Longest IsRun r (readSign t).2)
    (hdigit : ¬∃ c ∈ r, isDigit c = true) {p : Text} (hp : p <+: t) : ¬IsNumeral p := by
  rintro ⟨s, hs, r', rfl, hr', c, hc, hc'⟩
  obtain ⟨hbegins, _⟩ := begins_readSign hs hr' (List.ne_nil_of_mem hc) hp
  have hsub : r' <+: r :=
    List.prefix_of_prefix_length_le hbegins hrun.begins (hrun.length_le r' hbegins hr')
  exact hdigit ⟨c, hsub.subset hc, hc'⟩

end Decimal

namespace Delta
open Decimal

theorem parse_eq (t : Text) : parse t =
    match ofRun? (readSign t.trimStart).1 (readRun (readSign t.trimStart).2).1
      (readRun (readSign t.trimStart).2).2.1 0 with
    | some d => d.toBinary
    | none => 0 := rfl

/-- Either the text begins, behind blanks, with a numeral, and then the longest one without a point
at its end is a whole number that gives the offset, whatever follows that could not go on with it; or
it begins with none and the offset is zero. -/
theorem parse_longest_numeral (t : Text) :
    (∃ p, Longest IsNumeral p t.trimStart ∧
      (read? (p.rdropWhile (· = '.'))).map toBinary = some (parse t) ∧
      ∀ u, StopsNumber u → parse (t ++ u) = parse t) ∨
    ((∀ p, p <+: t.trimStart → ¬IsNumeral p) ∧ parse t = 0) := by
  obtain ⟨s, hs, hsign, hneg⟩ := exists_sign_append t.trimStart
  obtain ⟨r, hr, hrun, hread, hstop⟩ := exists_run_eq (readSign t.trimStart).2
  have hlongest : Longest IsRun r (readSign t.trimStart).2 := by
    rw [hr]
    exact longest_run hrun hstop
  have hparse : ofRun? (readSign t.trimStart).1 (readRun (readSign t.trimStart).2).1
      (readRun (readSign t.trimStart).2).2.1 0 =
      ofRun? (decide (s = ['-'])) (readRun r).1 (readRun r).2.1 0 := by
    rw [hneg, hread]
  by_cases hdigit : ∃ c ∈ r, isDigit c = true
  · obtain ⟨d, hd⟩ : ∃ d, ofRun? (decide (s = ['-'])) (readRun r).1 (readRun r).2.1 0 = some d :=
      Option.ne_none_iff_exists'.1 fun hnone =>
        (ofRun?_readRun_eq_none_iff hrun _ 0).1 hnone hdigit
    have hblank : ¬t.Blank := by
      intro hblank
      have hnil : t.trimStart = [] := List.dropWhile_eq_nil_iff.2 hblank
      obtain ⟨c, hc, _⟩ := hdigit
      have hmem : c ∈ t.trimStart := by
        rw [hsign, hr]
        simp [hc]
      rw [hnil] at hmem
      exact absurd hmem List.not_mem_nil
    refine .inl ⟨s ++ r, longest_numeral hs hsign hlongest hr hdigit, ?_,
      fun u hu => parse_append hblank hu⟩
    rw [read?_append_of_mem hs hrun hdigit, parse_eq, hparse, hd]
    rfl
  · refine .inr ⟨fun p hp => not_isNumeral_of_begins hlongest hdigit hp, ?_⟩
    rw [parse_eq, hparse, (ofRun?_readRun_eq_none_iff hrun _ 0).2 hdigit]

end Delta
end StyleCalls
