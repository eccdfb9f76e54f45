import StyleCalls.Proofs.Pattern.Match

/-! Names come to a pattern in some order, but without parentheses in them no order shows. Whatever
names match at a place, they spell the same text, the one up to the next parenthesis. -/

namespace StyleCalls.Pattern
open Text

theorem firstSpelling?_eq_none_of_notMem (names : List Text) {t : Text} (h : '(' ∉ t) :
    firstSpelling? names t = none := by
  rw [firstSpelling?_eq_none_iff]
  rintro n _ w rest rfl
  exact absurd (List.mem_append_right _ (List.mem_cons_self ..)) h

theorem firstSpelling?_eq_of_mem_iff {names names' : List Text} (hnames : ∀ n ∈ names, '(' ∉ n)
    (h : ∀ n, n ∈ names ↔ n ∈ names') (t : Text) :
    firstSpelling? names t = firstSpelling? names' t := by
  by_cases ht : '(' ∈ t
  · obtain ⟨w, rest, rfl, hw⟩ := List.eq_append_cons_of_mem ht
    have hnames' : ∀ n ∈ names', '(' ∉ n := fun n hn => hnames n ((h n).2 hn)
    rw [firstSpelling?_append_paren hw hnames, firstSpelling?_append_paren hw hnames']
    simp only [h]
  · rw [firstSpelling?_eq_none_of_notMem names ht, firstSpelling?_eq_none_of_notMem names' ht]

section
variable {p p' : Pattern} (hp : ∀ n ∈ p.idents ++ p.symbols, '(' ∉ n)
  (hidents : ∀ n, n ∈ p.idents ↔ n ∈ p'.idents) (hsymbols : ∀ n, n ∈ p.symbols ↔ n ∈ p'.symbols)
include hp hidents hsymbols

theorem match?_eq_of_mem_iff (t : Text) : p.match? t = p'.match? t := by
  have hi := firstSpelling?_eq_of_mem_iff (fun n hn => hp n (List.mem_append_left _ hn)) hidents
  have hs := firstSpelling?_eq_of_mem_iff (fun n hn => hp n (List.mem_append_right _ hn)) hsymbols
  have hhyphen : p.hyphenated? t = p'.hyphenated? t := by
    rw [hyphenated?.eq_def, hyphenated?.eq_def]
    split
    · rw [hi]
    · rfl
  rw [match?, match?, hhyphen, hi, hs]

theorem sitesFrom_eq_of_mem_iff (b : Option Char) (offset skipped : Nat) (t : Text) :
    p.sitesFrom b offset skipped t = p'.sitesFrom b offset skipped t := by
  induction t generalizing b offset skipped with
  | nil => rfl
  | cons c t ih =>
    cases skipped with
    | succ n => exact ih ..
    | zero =>
      have haccepted : p.accepted? b (c :: t) = p'.accepted? b (c :: t) := by
        rw [accepted?, accepted?, match?_eq_of_mem_iff hp hidents hsymbols]
      rw [sitesFrom, sitesFrom, haccepted]
      cases p'.accepted? b (c :: t) with
      | none => exact ih ..
      | some m => exact congrArg (_ :: ·) (ih ..)

end

theorem ofNames?_eq_none_iff {names : List Text} :
    ofNames? names = none ↔ ∀ n ∈ names, n = [] := by
  constructor
  · intro h n hn
    by_contra hne
    have hsome := ofNames?_eq_some_iff.2 ⟨⟨n, hn, hne⟩, rfl⟩
    exact Option.some_ne_none _ (hsome.symm.trans h)
  · intro h
    rw [Option.eq_none_iff_forall_ne_some]
    intro p hp
    obtain ⟨⟨n, hn, hne⟩, _⟩ := ofNames?_eq_some_iff.1 hp
    exact hne (h n hn)

/-- The same names in any two orders, and any number of times each, make patterns that find the same
sites, if they make a pattern at all. -/
theorem map_findAll_ofNames?_eq_of_mem_iff {names names' : List Text}
    (hnames : ∀ n ∈ names, '(' ∉ n) (h : ∀ n, n ∈ names ↔ n ∈ names') (t : Text) :
    (ofNames? names).map (findAll · t) = (ofNames? names').map (findAll · t) := by
  cases hp : ofNames? names with
  | none =>
    have hp' : ofNames? names' = none :=
      ofNames?_eq_none_iff.2 fun n hn => ofNames?_eq_none_iff.1 hp n ((h n).2 hn)
    rw [hp']
  | some p =>
    obtain ⟨n, hn, hne⟩ := (ofNames?_eq_some_iff.1 hp).1
    obtain ⟨p', hp'⟩ : ∃ p', ofNames? names' = some p' :=
      ⟨_, ofNames?_eq_some_iff.2 ⟨⟨n, (h n).1 hn, hne⟩, rfl⟩⟩
    have hparens : ∀ n ∈ p.idents ++ p.symbols, '(' ∉ n :=
      fun n hn => hnames n (mem_names_of_ofNames? hp hn).1
    have hidents (n : Text) : n ∈ p.idents ↔ n ∈ p'.idents := by
      rw [mem_idents_iff hp, mem_idents_iff hp', h]
    have hsymbols (n : Text) : n ∈ p.symbols ↔ n ∈ p'.symbols := by
      rw [mem_symbols_iff hp, mem_symbols_iff hp', h]
    rw [hp']
    exact congrArg some (sitesFrom_eq_of_mem_iff hparens hidents hsymbols none 0 0 t)

end StyleCalls.Pattern
