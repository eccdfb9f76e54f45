import Mathlib.Data.List.Basic
import StyleCalls.Proofs.Pattern.Site

/-! Which names are recognised, said without the search. A word is recognised where it stands apart
from the word before, unless a name that begins earlier has the same parenthesis. -/

namespace StyleCalls

/-- The byte offset behind the parenthesis. -/
def Site.stop (site : Site) : Nat := site.offset + Text.size site.name + 1

namespace Pattern
open Text

/-! Sites one after the other -/

theorem le_offset_of_mem_sitesFrom {p : Pattern} {b : Option Char} {offset : Nat} {t : Text}
    {site : Site} (h : site ∈ p.sitesFrom b offset 0 t) : offset ≤ site.offset := by
  rw [sitesFrom_eq_map_shift] at h
  obtain ⟨site, _, rfl⟩ := List.mem_map.1 h
  exact Nat.le_add_right ..

theorem pairwise_sitesFrom (p : Pattern) (b : Option Char) (offset : Nat) (t : Text) :
    (p.sitesFrom b offset 0 t).Pairwise fun site next => site.stop ≤ next.offset := by
  induction b, t using p.scan_induction generalizing offset with
  | nil b => exact .nil
  | pass b c t hc ih =>
    rw [sitesFrom_pass offset hc]
    exact ih _
  | site b m rest hm ih =>
    rw [sitesFrom_head_append offset hm]
    refine .cons (fun next hnext => ?_) (ih _)
    have hle := le_offset_of_mem_sitesFrom hnext
    rw [m.size_head] at hle
    dsimp only [Site.stop]
    omega

theorem eq_or_stop_le_of_mem_findAll {p : Pattern} {t : Text} {site site' : Site}
    (h : site ∈ p.findAll t) (h' : site' ∈ p.findAll t) :
    site = site' ∨ site.stop ≤ site'.offset ∨ site'.stop ≤ site.offset := by
  have hpairwise := p.pairwise_sitesFrom none 0 t
  refine List.Pairwise.forall_of_forall_of_flip
    (R := fun site site' => site = site' ∨ site.stop ≤ site'.offset ∨ site'.stop ≤ site.offset)
    (fun _ _ => .inl rfl) ?_ ?_ h h'
  · exact hpairwise.imp fun hle => .inr (.inl hle)
  · exact hpairwise.imp fun hle => .inr (.inr hle)

/-! Sites across a place -/

/-- A search comes by every place of the text, unless a site reaches across that place. -/
theorem sitesFrom_append_cases (p : Pattern) (b : Option Char) (offset : Nat) (u rest : Text) :
    (∃ left, p.sitesFrom b offset 0 (u ++ rest) =
      left ++ p.sitesFrom (u.getLast?.or b) (offset + Text.size u) 0 rest) ∨
    ∃ w x y r, ∃ m : Match, u = w ++ x ∧ rest = y ++ r ∧ m.head = x ++ y ∧ x ≠ [] ∧ y ≠ [] ∧
      ⟨m.name, offset + Text.size (w ++ m.lead)⟩ ∈ p.sitesFrom b offset 0 (u ++ rest) := by
  obtain ⟨t, ht⟩ : ∃ t, t = u ++ rest := ⟨_, rfl⟩
  rw [← ht]
  have here (offset : Nat) (b : Option Char) (t : Text) : ∃ left, p.sitesFrom b offset 0 t =
      left ++ p.sitesFrom (([] : Text).getLast?.or b) (offset + Text.size []) 0 t := ⟨[], rfl⟩
  induction b, t using p.scan_induction generalizing offset u with
  | nil b =>
    obtain ⟨rfl, rfl⟩ := List.append_eq_nil_iff.1 ht.symm
    exact .inl (here offset b [])
  | pass b c t hc ih =>
    cases u with
    | nil =>
      rw [List.nil_append] at ht
      exact .inl (ht ▸ here offset b _)
    | cons d u =>
      obtain ⟨rfl, rfl⟩ := List.cons.inj ht
      rw [sitesFrom_pass offset hc, getLast?_cons_or, size_cons, ← Nat.add_assoc]
      rcases ih (offset + c.utf8Size) u rfl with hleft | ⟨w, x, y, r, m, rfl, h⟩
      · exact .inl hleft
      · refine .inr ⟨c :: w, x, y, r, m, rfl, ?_⟩
        rwa [List.cons_append, size_cons, ← Nat.add_assoc]
  | site b m r hm ih =>
    rw [sitesFrom_head_append offset hm]
    rcases List.append_eq_append_iff.1 ht with ⟨u', rfl, rfl⟩ | ⟨y, hy, rfl⟩
    · rw [getLast?_head_append_or, size_append, ← Nat.add_assoc]
      rcases ih (offset + Text.size m.head) u' rfl with ⟨left, hleft⟩ | ⟨w, x, y, r, m', rfl, h⟩
      · exact .inl ⟨_ :: left, by rw [hleft]; rfl⟩
      · obtain ⟨hrest, hhead, hx, hy, hmem⟩ := h
        have hsize : offset + Text.size (m.head ++ w ++ m'.lead) =
            offset + Text.size m.head + Text.size (w ++ m'.lead) := by
          rw [List.append_assoc, size_append m.head, Nat.add_assoc]
        refine .inr ⟨m.head ++ w, x, y, r, m', (List.append_assoc ..).symm, hrest, hhead, hx, hy,
          List.mem_cons_of_mem _ ?_⟩
        rw [hsize]
        exact hmem
    · -- the place lies in this head, unless it is one of its ends
      by_cases hu : u = []
      · subst hu
        exact .inl ⟨[], by rw [← sitesFrom_head_append offset hm, hy]; rfl⟩
      by_cases hy' : y = []
      · subst hy'
        rw [List.append_nil] at hy
        refine .inl ⟨[⟨m.name, offset + Text.size m.lead⟩], ?_⟩
        rw [← hy, m.getLast?_head]
        rfl
      exact .inr ⟨[], u, y, r, m, rfl, rfl, hy, hu, hy', List.mem_cons_self ..⟩

/-- Behind a cut through one head, where another begins, the first goes on as the whole other. -/
theorem eq_head_of_append_eq_append {m m' : Match} {x y r r' : Text} (hm : '(' ∉ m.name)
    (hm' : '(' ∉ m'.name) (hcut : m.head = x ++ y) (hy : y ≠ []) (h : m'.head ++ r' = y ++ r) :
    y = m'.head := by
  have hlast : y.getLast? = some '(' := by
    have hhead := m.getLast?_head
    rwa [hcut, List.getLast?_append_of_ne_nil x hy] at hhead
  obtain ⟨z, rfl⟩ := List.getLast?_eq_some_iff.1 hlast
  have hz : '(' ∉ z := by
    rw [m.head_eq_append_singleton, ← List.append_assoc] at hcut
    have hmem := Match.notMem_lead_append hm
    rw [(List.append_inj' hcut rfl).1] at hmem
    exact fun h => hmem (List.mem_append_right _ h)
  rw [m'.head_append, ← List.append_assoc, List.append_assoc z] at h
  rw [m'.head_eq_append_singleton,
    ((append_paren_inj (Match.notMem_lead_append hm') hz).1 h).1]

theorem size_lead_lt {m : Match} {x y : Text} (h : m.head = x ++ y) (hx : x ≠ [])
    (hlast : x.getLast? ≠ some '-') : Text.size m.lead < Text.size x := by
  cases x with
  | nil => exact absurd rfl hx
  | cons c x =>
    have hc := Char.utf8Size_pos c
    rw [m.size_lead, size_cons]
    split
    · next hhyphen =>
      -- a hyphen alone would be the last character
      cases x with
      | nil =>
        rw [Match.head, Match.lead, if_pos hhyphen] at h
        exact absurd (congrArg some (List.cons.inj h).1.symm) hlast
      | cons d x =>
        have hd := Char.utf8Size_pos d
        rw [size_cons]
        omega
    · omega

/-- A search comes by the place of a head, unless an earlier site has the same parenthesis. -/
theorem findAll_append_head_cases {p : Pattern} (hp : p.NoParens) (u : Text) {m : Match}
    (hm : '(' ∉ m.name) (rest : Text) :
    (∃ left, p.findAll (u ++ (m.head ++ rest)) =
      left ++ p.sitesFrom u.getLast? (Text.size u) 0 (m.head ++ rest)) ∨
    ∃ site ∈ p.findAll (u ++ (m.head ++ rest)),
      site.stop = Site.stop ⟨m.name, Text.size (u ++ m.lead)⟩ ∧
      (u.getLast? ≠ some '-' → site.offset < Text.size u) := by
  have hcases := p.sitesFrom_append_cases none 0 u (m.head ++ rest)
  rw [Option.or_none, Nat.zero_add] at hcases
  refine hcases.imp_right ?_
  rintro ⟨w, x, y, r, m', rfl, hrest, hhead, hx, hy, hmem⟩
  rw [Nat.zero_add] at hmem
  have hm' : '(' ∉ m'.name := by
    obtain ⟨_, m₁, _, _, hm₁, hsite⟩ := exists_accepted?_of_mem_sitesFrom hmem
    rw [(Site.mk.inj hsite).1]
    exact (notMem_name_of_match? hp (match?_of_accepted? hm₁)).1
  obtain rfl : y = m.head := eq_head_of_append_eq_append hm' hm hhead hy hrest
  have hsize := congrArg Text.size hhead
  rw [size_append, m'.size_head, m.size_head] at hsize
  refine ⟨_, hmem, ?_, fun hlast => ?_⟩
  · simp only [Site.stop, size_append]
    omega
  · rw [List.getLast?_append_of_ne_nil w hx] at hlast
    have hlt := size_lead_lt hhead hx hlast
    simp only [size_append]
    omega

/-! Words that stand apart -/

/-- Whether a word may begin behind this text. A hyphen at its end belongs to the word. -/
def startsApart (before : Text) : Bool :=
  if before.getLast? = some '-' then isBoundary before.dropLast.getLast?
  else isBoundary before.getLast?

theorem startsApart_append_lead {u : Text} (m : Match) (h : isBoundary u.getLast? = true) :
    startsApart (u ++ m.lead) = true := by
  unfold Match.lead
  split
  · simp [startsApart, h]
  · have hne : u.getLast? ≠ some '-' := fun hu => ne_hyphen_of_isBoundary (hu ▸ h) rfl
    rw [List.append_nil, startsApart, if_neg hne, h]

/-- A word that may begin here is the name of a match, with the hyphen before it, if there is one. -/
theorem exists_match_of_startsApart {before : Text} (h : startsApart before = true) (name : Text) :
    ∃ u, ∃ m : Match, m.isWord = true ∧ m.name = name ∧ before = u ++ m.lead ∧
      isBoundary u.getLast? = true := by
  unfold startsApart at h
  split at h
  · next hlast =>
    obtain ⟨u, rfl⟩ := List.getLast?_eq_some_iff.1 hlast
    rw [List.dropLast_concat] at h
    exact ⟨u, ⟨true, true, name⟩, rfl, rfl, rfl, h⟩
  · exact ⟨before, ⟨true, false, name⟩, rfl, rfl, (List.append_nil _).symm, h⟩

theorem accepted?_head_append_of_sameFold {p : Pattern} (hp : p.NoParens) {b : Option Char}
    {m : Match} (hword : m.isWord = true) {n : Text} (hn : n ∈ p.idents)
    (hident : isIdent n = true) (hfold : SameFold n m.name) (hb : isBoundary b = true)
    (rest : Text) : p.accepted? b (m.head ++ rest) = some m := by
  obtain ⟨isWord, hyphen, name⟩ := m
  obtain rfl : isWord = true := hword
  have hparen : ∀ n ∈ p.idents, '(' ∉ n := fun n hn => (hp n (List.mem_append_left _ hn)).1
  have hname : '(' ∉ name := fun h => hparen n hn ((hfold.mem_iff (by decide)).2 h)
  have hfirst : firstSpelling? p.idents (name ++ '(' :: rest) = some name := by
    rw [firstSpelling?_append_paren hname hparen, if_pos ⟨n, hn, hfold⟩]
  rw [Match.head_append]
  cases hyphen with
  | true => exact accepted?_hyphen_of_firstSpelling? hb hfirst
  | false => exact accepted?_of_firstSpelling? hident hfold hb hfirst

theorem isBoundary_of_accepted? {p : Pattern} {b : Option Char} {m : Match} {rest n : Text}
    (h : p.accepted? b (m.head ++ rest) = some m) (hn : n ∈ p.idents) (hfold : SameFold n m.name) :
    isBoundary b = true := by
  have hword : m.isWord = true := by
    rcases match?_cases (match?_of_accepted? h) with
      ⟨w, u, rfl, _⟩ | ⟨w, rfl, _⟩ | ⟨w, rfl, _, hnone, _⟩
    · rfl
    · rfl
    · -- a symbol is tried only when no word is spelled here
      exact absurd hfold (firstSpelling?_eq_none_iff.1 hnone n hn w rest
        (Match.head_append ⟨false, false, w⟩ rest))
  have hfilter := (Option.filter_eq_some_iff.1 h).2
  simpa [hword] using hfilter

theorem startsApart_of_mem_findAll {p : Pattern} {before name rest n : Text}
    (h : ⟨name, Text.size before⟩ ∈ p.findAll (before ++ (name ++ '(' :: rest))) (hn : n ∈ p.idents)
    (hfold : SameFold n name) : startsApart before = true := by
  obtain ⟨u, m, r, ht, hm, hsite⟩ := exists_accepted?_of_mem_sitesFrom h
  obtain ⟨rfl, hsize⟩ := Site.mk.inj hsite
  rw [Match.head_append, ← List.append_assoc u] at ht
  obtain ⟨rfl, _⟩ := eq_of_append_eq_append ht (hsize.trans (Nat.zero_add _))
  have hb := isBoundary_of_accepted? hm hn hfold
  rw [Option.or_none] at hb
  exact startsApart_append_lead m hb

theorem mem_findAll_of_startsApart {p : Pattern} (hp : p.NoParens) {before name rest n : Text}
    (hn : n ∈ p.idents) (hident : isIdent n = true) (hfold : SameFold n name)
    (happart : startsApart before = true)
    (hfree : ∀ site ∈ p.findAll (before ++ (name ++ '(' :: rest)),
      site.offset < Text.size before → site.stop ≠ Site.stop ⟨name, Text.size before⟩) :
    ⟨name, Text.size before⟩ ∈ p.findAll (before ++ (name ++ '(' :: rest)) := by
  obtain ⟨u, m, hword, rfl, rfl, hb⟩ := exists_match_of_startsApart happart name
  have hm : p.accepted? (u.getLast?.or none) (m.head ++ rest) = some m := by
    rw [Option.or_none]
    exact accepted?_head_append_of_sameFold hp hword hn hident hfold hb rest
  have hname : '(' ∉ m.name := (notMem_name_of_match? hp (match?_of_accepted? hm)).1
  rw [List.append_assoc, ← Match.head_append] at hfree ⊢
  rw [Option.or_none] at hm
  rcases findAll_append_head_cases hp u hname rest with ⟨left, hleft⟩ | ⟨site, hsite, hstop, hlt⟩
  · rw [hleft, sitesFrom_head_append _ hm, ← size_append]
    exact List.mem_append_right _ (List.mem_cons_self ..)
  · have hlast : u.getLast? ≠ some '-' := fun h => ne_hyphen_of_isBoundary (h ▸ hb) rfl
    have hle : Text.size u ≤ Text.size (u ++ m.lead) := by
      rw [size_append]
      exact Nat.le_add_right ..
    exact absurd hstop (hfree site hsite (Nat.lt_of_lt_of_le (hlt hlast) hle))

/-- Every site is a name of the pattern as the text spells it, directly before a parenthesis, the
sites are disjoint and in their order, and a word is among them just when it stands apart and no
earlier site has its parenthesis. -/
theorem findAll_exact {names : List Text} (hne : ∃ n ∈ names, n ≠ [])
    (hparens : ∀ n ∈ names, '(' ∉ n ∧ ')' ∉ n) : ∃ p, ofNames? names = some p ∧ ∀ t,
      (p.findAll t).Pairwise (fun site next =>
        site.offset < next.offset ∧ site.stop ≤ next.offset) ∧
      (∀ site ∈ p.findAll t,
        (∃ before rest, t = before ++ (site.name ++ '(' :: rest) ∧
          Text.size before = site.offset) ∧
        ∃ n ∈ names, n ≠ [] ∧ SameFold n site.name) ∧
      ∀ before name rest, t = before ++ (name ++ '(' :: rest) →
        (∃ n ∈ names, isIdent n = true ∧ SameFold n name) →
        (⟨name, Text.size before⟩ ∈ p.findAll t ↔
          startsApart before = true ∧ ∀ site ∈ p.findAll t, site.offset < Text.size before →
            site.stop ≠ Site.stop ⟨name, Text.size before⟩) := by
  obtain ⟨p, hp⟩ : ∃ p, ofNames? names = some p := ⟨_, ofNames?_eq_some_iff.2 ⟨hne, rfl⟩⟩
  have hnoParens := noParens_of_ofNames? hp hparens
  refine ⟨p, hp, fun t => ⟨?_, ?_, ?_⟩⟩
  · refine (p.pairwise_sitesFrom none 0 t).imp fun {site next} hle => ⟨?_, hle⟩
    unfold Site.stop at hle
    omega
  · intro site hsite
    obtain ⟨u, m, rest, rfl, hm, rfl⟩ := exists_accepted?_of_mem_sitesFrom hsite
    refine ⟨⟨u ++ m.lead, rest, ?_, (Nat.zero_add _).symm⟩, ?_⟩
    · rw [Match.head_append, List.append_assoc]
    · obtain ⟨n, hn, hfold⟩ := exists_sameFold_of_match? (match?_of_accepted? hm)
      exact ⟨n, (mem_names_of_ofNames? hp hn).1, (mem_names_of_ofNames? hp hn).2, hfold⟩
  · rintro before name rest rfl ⟨n, hn, hident, hfold⟩
    have hmem : n ∈ p.idents := (mem_idents_iff hp).2 ⟨hn, hident⟩
    constructor
    · intro h
      refine ⟨startsApart_of_mem_findAll h hmem hfold, fun site hsite hlt hstop => ?_⟩
      rcases eq_or_stop_le_of_mem_findAll hsite h with rfl | hle | hle
      · exact Nat.lt_irrefl _ hlt
      all_goals
        simp only [Site.stop] at hle hstop
        omega
    · rintro ⟨happart, hfree⟩
      exact mem_findAll_of_startsApart hnoParens hmem hident hfold happart hfree

/-- A word that is also the end of a symbol. -/
def overlapSample : Pattern := ⟨["a".toList], ["$-a".toList]⟩

theorem overlapSample_findAll :
    let names := ["a".toList, "$-a".toList]
    let t := "é -A(1) xa(2) $-a(3)".toList
    (ofNames? names = some overlapSample ∧ (∃ n ∈ names, n ≠ []) ∧
        ∀ n ∈ names, '(' ∉ n ∧ ')' ∉ n) ∧
      overlapSample.findAll t = [⟨"A".toList, 4⟩, ⟨"$-a".toList, 15⟩] ∧
      ⟨"A".toList, 4⟩ ∈ overlapSample.findAll t ∧
      startsApart "é -A(1) x".toList = false ∧
      ⟨"a".toList, 10⟩ ∉ overlapSample.findAll t ∧
      startsApart "é -A(1) xa(2) $-".toList = true ∧
      ⟨"a".toList, 17⟩ ∉ overlapSample.findAll t := by
  intro names t
  have hnames : ofNames? names = some overlapSample := rfl
  have hne : ∃ n ∈ names, n ≠ [] := ⟨"a".toList, by decide, by decide⟩
  have hparens : ∀ n ∈ names, '(' ∉ n ∧ ')' ∉ n := by decide
  have hsites : overlapSample.findAll t = [⟨"A".toList, 4⟩, ⟨"$-a".toList, 15⟩] := rfl
  obtain ⟨p, hp, hexact⟩ := findAll_exact hne hparens
  obtain rfl : overlapSample = p := Option.some.inj (hnames.symm.trans hp)
  obtain ⟨_, _, hword⟩ := hexact t
  have hfirst := hword "é -".toList "A".toList "1) xa(2) $-a(3)".toList (by decide +kernel)
    ⟨"a".toList, by decide, by decide +kernel, by decide +kernel⟩
  have hjoined := hword "é -A(1) x".toList "a".toList "2) $-a(3)".toList (by decide +kernel)
    ⟨"a".toList, by decide, by decide +kernel, by decide +kernel⟩
  have hcovered := hword "é -A(1) xa(2) $-".toList "a".toList "3)".toList (by decide +kernel)
    ⟨"a".toList, by decide, by decide +kernel, by decide +kernel⟩
  have hx : startsApart "é -A(1) x".toList = false := by decide +kernel
  refine ⟨⟨hnames, hne, hparens⟩, hsites, hfirst.2 ⟨by decide +kernel, ?_⟩, hx, fun h => ?_,
    by decide +kernel, fun h => ?_⟩
  · rw [hsites]
    decide
  · exact absurd (hjoined.1 h).1 (by rw [hx]; decide)
  · -- the symbol begins earlier and has the same parenthesis
    refine (hcovered.1 h).2 ⟨"$-a".toList, 15⟩ ?_ (by decide +kernel) rfl
    rw [hsites]
    decide

end Pattern
end StyleCalls
