import StyleCalls.Proofs.Pattern.Recognition
import StyleCalls.Proofs.Unicode.Letters

/-! Names that are not words. Nothing has to stand apart from them, and yet one can be missed: where
it reads as a hyphen and a word, the word is tried first, and if the word is refused for what stands
before it the search goes on behind the hyphen. -/

namespace StyleCalls.Pattern
open Text

theorem isIdent_eq_of_sameFold {n w : Text} (h : SameFold n w) : isIdent n = isIdent w := by
  cases n with
  | nil =>
    obtain rfl : w = [] := by simpa [SameFold] using h.symm
    rfl
  | cons a n =>
    cases w with
    | nil => simp [SameFold] at h
    | cons c w =>
      have hfold : Unicode.fold a = Unicode.fold c := of_decide_eq_true (sameFold_cons.1 h).1
      have hunderscore : a = '_' ↔ c = '_' := by
        constructor
        · rintro rfl
          exact Unicode.eq_of_fold_eq hfold.symm (by decide)
        · rintro rfl
          exact Unicode.eq_of_fold_eq hfold (by decide)
      simp only [isIdent, Unicode.isAlphabetic_eq_of_fold_eq hfold, hunderscore]

/-- At a symbol a pattern recognises the symbol, or the hyphen and the word that it reads as. -/
theorem exists_match?_of_symbol {names : List Text} {p : Pattern} (hp : ofNames? names = some p)
    (hparens : ∀ n ∈ names, '(' ∉ n) {n name : Text} (hn : n ∈ names) (hne : n ≠ [])
    (hsymbol : isIdent n = false) (hfold : SameFold n name) (rest : Text) :
    ∃ m : Match, p.match? (name ++ '(' :: rest) = some m ∧ m.lead ++ m.name = name ∧
      (m.isWord = true ↔ Shadowed names name) := by
  have hname : '(' ∉ name := fun h => hparens n hn ((hfold.mem_iff (by decide)).2 h)
  by_cases hshadow : Shadowed names name
  · obtain ⟨w, rfl, k, hk, hident, hkw⟩ := id hshadow
    have hw : '(' ∉ w := fun h => hname (List.mem_cons_of_mem _ h)
    refine ⟨⟨true, true, w⟩, ?_, rfl, iff_of_true rfl hshadow⟩
    rw [match?, hyphenated?_of_shadowed hp hparens hw hk hident hkw]
    rfl
  · have hi : ∀ n ∈ p.idents, '(' ∉ n := fun n hn => hparens n ((mem_idents_iff hp).1 hn).1
    have hs : ∀ n ∈ p.symbols, '(' ∉ n := fun n hn => hparens n ((mem_symbols_iff hp).1 hn).1
    have hword : ¬∃ k ∈ p.idents, SameFold k name := by
      rintro ⟨k, hk, hkname⟩
      have hident := ((mem_idents_iff hp).1 hk).2
      rw [isIdent_eq_of_sameFold hkname, ← isIdent_eq_of_sameFold hfold, hsymbol] at hident
      exact Bool.noConfusion hident
    refine ⟨⟨false, false, name⟩, ?_, rfl, iff_of_false Bool.false_ne_true hshadow⟩
    rw [match?, hyphenated?_of_not_shadowed hp hparens hname hshadow,
      firstSpelling?_append_paren hname hi, firstSpelling?_append_paren hname hs, if_neg hword,
      if_pos ⟨n, (mem_symbols_iff hp).2 ⟨hn, hne, hsymbol⟩, hfold⟩]
    rfl

/-- A site at the place of a name is this name. -/
theorem exists_accepted?_of_offset_eq {p : Pattern} (hp : p.NoParens) {before name rest : Text}
    (hname : '(' ∉ name) {site : Site} (hsite : site ∈ p.findAll (before ++ (name ++ '(' :: rest)))
    (hoffset : site.offset = Text.size before) :
    site = ⟨name, Text.size before⟩ ∧
      ∃ b, ∃ m : Match, m.name = name ∧ p.accepted? b (m.head ++ rest) = some m := by
  obtain ⟨u, m, rest', ht, hm, rfl⟩ := exists_accepted?_of_mem_sitesFrom hsite
  have hmname : '(' ∉ m.name := (notMem_name_of_match? hp (match?_of_accepted? hm)).1
  have hsize : Text.size (u ++ m.lead) = Text.size before := (Nat.zero_add _).symm.trans hoffset
  rw [m.head_append, ← List.append_assoc u] at ht
  obtain ⟨_, hcut⟩ := eq_of_append_eq_append ht.symm hsize
  obtain ⟨rfl, rfl⟩ := (append_paren_inj hmname hname).1 hcut
  exact ⟨congrArg (Site.mk m.name) hoffset, _, m, rfl, hm⟩

section
variable {names : List Text} {p : Pattern} (hp : ofNames? names = some p)
  (hparens : ∀ n ∈ names, '(' ∉ n ∧ ')' ∉ n) {before name n : Text} (hn : n ∈ names)
  (hsymbol : isIdent n = false) (hfold : SameFold n name)
include hp hparens hn hsymbol hfold

/-- Where no word is refused, something that is recognised has the parenthesis. -/
theorem exists_mem_findAll_of_symbol (hne : n ≠ [])
    (hfree : Shadowed names name → isBoundary before.getLast? = true) (rest : Text) :
    ∃ site ∈ p.findAll (before ++ (name ++ '(' :: rest)),
      site.stop = Site.stop ⟨name, Text.size before⟩ := by
  obtain ⟨m, hm, rfl, hword⟩ :=
    exists_match?_of_symbol hp (fun n hn => (hparens n hn).1) hn hne hsymbol hfold rest
  have hnoParens := noParens_of_ofNames? hp hparens
  have hname : '(' ∉ m.name := (notMem_name_of_match? hnoParens hm).1
  have hstop : Site.stop ⟨m.name, Text.size (before ++ m.lead)⟩ =
      Site.stop ⟨m.lead ++ m.name, Text.size before⟩ := by
    simp only [Site.stop, size_append]
    omega
  rw [List.append_assoc, ← m.head_append] at hm ⊢
  rw [← hstop]
  rcases findAll_append_head_cases hnoParens before hname rest with ⟨left, hleft⟩ | ⟨site, h⟩
  · have haccepted : p.accepted? before.getLast? (m.head ++ rest) = some m := by
      refine Option.filter_eq_some_iff.2 ⟨hm, ?_⟩
      cases hw : m.isWord with
      | false => rfl
      | true => exact hfree (hword.1 hw)
    refine ⟨⟨m.name, Text.size (before ++ m.lead)⟩, ?_, rfl⟩
    rw [hleft, sitesFrom_head_append _ haccepted, ← size_append]
    exact List.mem_append_right _ (List.mem_cons_self ..)
  · exact ⟨site, h.1, h.2.1⟩

/-- Where the word is refused, neither the word nor the symbol is recognised. -/
theorem offset_ne_of_shadowed (hshadow : Shadowed names name)
    (hrefused : isBoundary before.getLast? = false) {rest : Text} {site : Site}
    (hsite : site ∈ p.findAll (before ++ (name ++ '(' :: rest))) :
    site.offset ≠ Text.size before ∧ site.offset ≠ Text.size before + 1 := by
  have hnoParens := noParens_of_ofNames? hp hparens
  have hname : '(' ∉ name := fun h => (hparens n hn).1 ((hfold.mem_iff (by decide)).2 h)
  obtain ⟨w, rfl, k, hk, hident, hkw⟩ := hshadow
  have hw : '(' ∉ w := fun h => hname (List.mem_cons_of_mem _ h)
  constructor
  · intro hoffset
    obtain ⟨_, b, m, hmname, hm⟩ := exists_accepted?_of_offset_eq hnoParens hname hsite hoffset
    -- what spells the symbol is no word, and the symbol is not tried behind the word
    have hword {v : Text} (hv : firstSpelling? p.idents v = some ('-' :: w)) : False := by
      obtain ⟨⟨j, hj, hjname⟩, _⟩ := firstSpelling?_eq_some hv
      have hjident := ((mem_idents_iff hp).1 hj).2
      rw [isIdent_eq_of_sameFold hjname, ← isIdent_eq_of_sameFold hfold, hsymbol] at hjident
      exact Bool.noConfusion hjident
    rcases match?_cases (match?_of_accepted? hm) with
      ⟨v, _, rfl, _, hv⟩ | ⟨v, rfl, _, hv⟩ | ⟨v, rfl, hnone, _⟩
    · obtain rfl : v = '-' :: w := hmname
      exact hword hv
    · obtain rfl : v = '-' :: w := hmname
      exact hword hv
    · obtain rfl : v = '-' :: w := hmname
      have hsome := hyphenated?_of_shadowed hp (fun n hn => (hparens n hn).1) hw hk hident hkw rest
      rw [Match.head_append] at hnone
      exact Option.some_ne_none _ (hsome.symm.trans hnone)
  · intro hoffset
    have htext : before ++ ('-' :: w ++ '(' :: rest) = before ++ ['-'] ++ (w ++ '(' :: rest) := by
      simp
    have hplace : Text.size before + 1 = Text.size (before ++ ['-']) := by
      rw [size_append]
      rfl
    rw [htext] at hsite
    rw [hplace] at hoffset
    obtain ⟨rfl, _⟩ := exists_accepted?_of_offset_eq hnoParens hw hsite hoffset
    have happart := startsApart_of_mem_findAll hsite ((mem_idents_iff hp).2 ⟨hk, hident⟩) hkw
    rw [startsApart, List.getLast?_concat, if_pos rfl, List.dropLast_concat, hrefused] at happart
    exact Bool.noConfusion happart

end

/-- A name that is no word is recognised wherever it stands before a parenthesis, or else a site
that begins elsewhere ends with that parenthesis. It fails where the name is a hyphen and a word
and the word is refused, for then neither of the two is recognised. -/
theorem findAll_symbols {names : List Text} (hne : ∃ n ∈ names, n ≠ [])
    (hparens : ∀ n ∈ names, '(' ∉ n ∧ ')' ∉ n) : ∃ p, ofNames? names = some p ∧
      ∀ before name rest, (∃ n ∈ names, n ≠ [] ∧ isIdent n = false ∧ SameFold n name) →
        let sites := p.findAll (before ++ (name ++ '(' :: rest))
        let refused := Shadowed names name ∧ isBoundary before.getLast? = false
        (¬refused → ∃ site ∈ sites,
          site.offset = Text.size before ∨ site.stop = Site.stop ⟨name, Text.size before⟩) ∧
        (refused → ∀ site ∈ sites,
          site.offset ≠ Text.size before ∧ site.offset ≠ Text.size before + 1) := by
  obtain ⟨p, hp⟩ : ∃ p, ofNames? names = some p := ⟨_, ofNames?_eq_some_iff.2 ⟨hne, rfl⟩⟩
  refine ⟨p, hp, ?_⟩
  rintro before name rest ⟨n, hn, hnne, hsymbol, hfold⟩
  constructor
  · intro hfree
    have hboundary : Shadowed names name → isBoundary before.getLast? = true := fun hshadow =>
      Bool.of_not_eq_false fun hrefused => hfree ⟨hshadow, hrefused⟩
    obtain ⟨site, hsite, hstop⟩ :=
      exists_mem_findAll_of_symbol hp hparens hn hsymbol hfold hnne hboundary rest
    exact ⟨site, hsite, .inr hstop⟩
  · rintro ⟨hshadow, hrefused⟩ site hsite
    exact offset_ne_of_shadowed hp hparens hn hsymbol hfold hshadow hrefused hsite

/-- A sign in the middle of a word, and a hyphen with a word behind a space and behind a letter. -/
theorem signSample_findAll :
    let names := ["a".toList, "$".toList, "-a".toList]
    let p : Pattern := ⟨["a".toList], ["$".toList, "-a".toList]⟩
    let t := "é$(1) -A(2) b-a(3)".toList
    ((∃ n ∈ names, n ≠ []) ∧ ∀ n ∈ names, '(' ∉ n ∧ ')' ∉ n) ∧ ofNames? names = some p ∧
      (∃ site ∈ p.findAll t, site.offset = 2 ∨ site.stop = 4) ∧
      (∃ site ∈ p.findAll t, site.offset = 7 ∨ site.stop = 10) ∧
      ∀ site ∈ p.findAll t, site.offset ≠ 14 ∧ site.offset ≠ 15 := by
  intro names p t
  have hne : ∃ n ∈ names, n ≠ [] := ⟨"a".toList, by decide, by decide⟩
  have hparens : ∀ n ∈ names, '(' ∉ n ∧ ')' ∉ n := by decide
  have hnames : ofNames? names = some p := rfl
  obtain ⟨q, hq, hsymbol⟩ := findAll_symbols hne hparens
  obtain rfl : p = q := Option.some.inj (hnames.symm.trans hq)
  have hsign := hsymbol "é".toList "$".toList "1) -A(2) b-a(3)".toList
    ⟨"$".toList, by decide, by decide, by decide +kernel, SameFold.refl _⟩
  have hspace := hsymbol "é$(1) ".toList "-A".toList "2) b-a(3)".toList
    ⟨"-a".toList, by decide, by decide, by decide +kernel, by decide +kernel⟩
  have hletter := hsymbol "é$(1) -A(2) b".toList "-a".toList "3)".toList
    ⟨"-a".toList, by decide, by decide, by decide +kernel, SameFold.refl _⟩
  refine ⟨⟨hne, hparens⟩, hnames, hsign.1 ?_, hspace.1 ?_, hletter.2 ⟨?_, by decide +kernel⟩⟩
  · rintro ⟨⟨w, hw, _⟩, _⟩
    exact absurd (List.cons.inj hw).1 (by decide)
  · exact fun hrefused => absurd hrefused.2 (by decide +kernel)
  · exact ⟨"a".toList, rfl, "a".toList, by decide, by decide +kernel, SameFold.refl _⟩

/-- Behind a letter the word is refused, and the symbol is lost with it. -/
theorem not_forall_symbol_recognised : ¬∀ names : List Text, names ≠ [] →
    (∀ n ∈ names, n ≠ [] ∧ '(' ∉ n ∧ ')' ∉ n) → ∀ p, ofNames? names = some p →
      ∀ before name rest, (∃ n ∈ names, isIdent n = false ∧ SameFold n name) →
        ∃ site ∈ p.findAll (before ++ (name ++ '(' :: rest)),
          site.offset = Text.size before ∨ site.stop = Site.stop ⟨name, Text.size before⟩ := by
  intro h
  let p : Pattern := ⟨["b".toList], ["-b".toList]⟩
  have hnone : p.findAll "x-b(1)".toList = [] := rfl
  obtain ⟨site, hsite, _⟩ := h ["b".toList, "-b".toList] (by decide) (by decide) p rfl "x".toList
    "-b".toList "1)".toList ⟨"-b".toList, by decide, by decide, SameFold.refl _⟩
  exact List.not_mem_nil (hnone ▸ hsite)

end StyleCalls.Pattern
