import StyleCalls.Proofs.Pattern.Spelling

/-! What a pattern recognises at the start of a text: a name, perhaps behind a hyphen, and a
parenthesis. -/

namespace StyleCalls

namespace Pattern
open Text

namespace Match

def lead (m : Match) : Text := if m.hyphen then ['-'] else []

def head (m : Match) : Text := m.lead ++ (m.name ++ ['('])

theorem head_append (m : Match) (rest : Text) :
    m.head ++ rest = m.lead ++ (m.name ++ '(' :: rest) := by
  simp [head]

theorem length_head (m : Match) : m.head.length = m.length := by
  simp only [head, lead, length, List.length_append, List.length_singleton]
  split <;> simp [Nat.add_assoc]

theorem size_lead (m : Match) : Text.size m.lead = if m.hyphen then 1 else 0 := by
  unfold lead
  split <;> rfl

theorem head_eq_append_singleton (m : Match) : m.head = (m.lead ++ m.name) ++ ['('] :=
  (List.append_assoc ..).symm

theorem size_head (m : Match) :
    Text.size m.head = Text.size m.lead + Text.size m.name + 1 := by
  rw [head, size_append, size_append, Nat.add_assoc]
  rfl

theorem getLast?_head (m : Match) : m.head.getLast? = some '(' := by
  rw [m.head_eq_append_singleton, List.getLast?_concat]

theorem notMem_lead_append {m : Match} (h : '(' ∉ m.name) : '(' ∉ m.lead ++ m.name := by
  have hlead : '(' ∉ m.lead := by
    unfold lead
    split <;> decide
  rw [List.mem_append, not_or]
  exact ⟨hlead, h⟩

end Match

/-- The three ways to be recognised, each when those before it have failed. -/
theorem match?_cases {p : Pattern} {t : Text} {m : Match} (h : p.match? t = some m) :
    (∃ w u, m = ⟨true, true, w⟩ ∧ t = '-' :: u ∧ firstSpelling? p.idents u = some w) ∨
    (∃ w, m = ⟨true, false, w⟩ ∧ p.hyphenated? t = none ∧ firstSpelling? p.idents t = some w) ∨
    (∃ w, m = ⟨false, false, w⟩ ∧ p.hyphenated? t = none ∧ firstSpelling? p.idents t = none ∧
      firstSpelling? p.symbols t = some w) := by
  simp only [match?, Option.orElse_eq_orElse, Option.orElse_eq_or, Option.or_eq_some_iff,
    Option.map_eq_none_iff] at h
  rcases h with h | ⟨hh, h | ⟨hi, h⟩⟩
  · unfold hyphenated? at h
    split at h
    · next u =>
      obtain ⟨w, hw, rfl⟩ := Option.map_eq_some_iff.1 h
      exact .inl ⟨w, u, rfl, rfl, hw⟩
    · simp at h
  · obtain ⟨w, hw, rfl⟩ := Option.map_eq_some_iff.1 h
    exact .inr (.inl ⟨w, rfl, hh, hw⟩)
  · obtain ⟨w, hw, rfl⟩ := Option.map_eq_some_iff.1 h
    exact .inr (.inr ⟨w, rfl, hh, hi, hw⟩)

theorem exists_eq_head_append {p : Pattern} {t : Text} {m : Match} (h : p.match? t = some m) :
    ∃ rest, t = m.head ++ rest := by
  rcases match?_cases h with ⟨w, u, rfl, rfl, hw⟩ | ⟨w, rfl, _, hw⟩ | ⟨w, rfl, _, _, hw⟩
  all_goals
    obtain ⟨_, rest, rfl⟩ := firstSpelling?_eq_some hw
    exact ⟨rest, by simp [Match.head, Match.lead]⟩

theorem exists_sameFold_of_match? {p : Pattern} {t : Text} {m : Match} (h : p.match? t = some m) :
    ∃ n ∈ p.idents ++ p.symbols, SameFold n m.name := by
  rcases match?_cases h with ⟨w, u, rfl, _, hw⟩ | ⟨w, rfl, _, hw⟩ | ⟨w, rfl, _, _, hw⟩
  all_goals obtain ⟨⟨n, hn, hfold⟩, _⟩ := firstSpelling?_eq_some hw
  · exact ⟨n, List.mem_append_left _ hn, hfold⟩
  · exact ⟨n, List.mem_append_left _ hn, hfold⟩
  · exact ⟨n, List.mem_append_right _ hn, hfold⟩

theorem match?_of_accepted? {p : Pattern} {b : Option Char} {t : Text} {m : Match}
    (h : p.accepted? b t = some m) : p.match? t = some m := (Option.filter_eq_some_iff.1 h).1

theorem accepted?_eq_none_of_match? {p : Pattern} {t : Text} (b : Option Char)
    (h : p.match? t = none) : p.accepted? b t = none := by
  rw [accepted?, h]
  rfl

theorem match?_nil (p : Pattern) : p.match? [] = none := by
  rw [Option.eq_none_iff_forall_ne_some]
  intro m hm
  obtain ⟨rest, h⟩ := exists_eq_head_append hm
  simp [Match.head] at h

theorem accepted?_congr {b b' : Option Char} (p : Pattern) (t : Text)
    (h : isBoundary b = isBoundary b') : p.accepted? b t = p.accepted? b' t := by
  rw [accepted?, accepted?, h]

/-! The names of a pattern -/

theorem ofNames?_eq_some_iff {names : List Text} {p : Pattern} :
    ofNames? names = some p ↔ (∃ n ∈ names, n ≠ []) ∧
      p = ⟨names.filter fun n => !n.isEmpty && isIdent n,
        names.filter fun n => !n.isEmpty && !isIdent n⟩ := by
  have hidents : (names.filter (!·.isEmpty)).filter isIdent =
      names.filter fun n => !n.isEmpty && isIdent n := by
    simp [List.filter_filter, Bool.and_comm]
  have hsymbols : (names.filter (!·.isEmpty)).filter (!isIdent ·) =
      names.filter fun n => !n.isEmpty && !isIdent n := by
    simp [List.filter_filter, Bool.and_comm]
  rw [← hidents, ← hsymbols]
  unfold ofNames?
  split
  · next h =>
    rw [List.filter_eq_nil_iff] at h
    constructor
    · simp
    · rintro ⟨⟨n, hn, hne⟩, _⟩
      exact absurd (h n hn) (by simpa using hne)
  · next h =>
    obtain ⟨n, hn⟩ := List.exists_mem_of_ne_nil _ h
    rw [List.mem_filter] at hn
    have hex : ∃ n ∈ names, n ≠ [] := ⟨n, hn.1, by simpa using hn.2⟩
    rw [Option.some_inj, eq_comm]
    exact (and_iff_right hex).symm

theorem mem_idents_iff {names : List Text} {p : Pattern} (h : ofNames? names = some p) {n : Text} :
    n ∈ p.idents ↔ n ∈ names ∧ isIdent n = true := by
  rw [(ofNames?_eq_some_iff.1 h).2, List.mem_filter]
  cases n <;> simp [isIdent]

theorem mem_symbols_iff {names : List Text} {p : Pattern} (h : ofNames? names = some p)
    {n : Text} : n ∈ p.symbols ↔ n ∈ names ∧ n ≠ [] ∧ isIdent n = false := by
  rw [(ofNames?_eq_some_iff.1 h).2, List.mem_filter]
  cases n <;> simp

theorem mem_names_of_ofNames? {names : List Text} {p : Pattern} (h : ofNames? names = some p)
    {n : Text} (hn : n ∈ p.idents ++ p.symbols) : n ∈ names ∧ n ≠ [] := by
  rcases List.mem_append.1 hn with hi | hs
  · obtain ⟨hmem, hident⟩ := (mem_idents_iff h).1 hi
    exact ⟨hmem, by rintro rfl; simp [isIdent] at hident⟩
  · obtain ⟨hmem, hne, _⟩ := (mem_symbols_iff h).1 hs
    exact ⟨hmem, hne⟩

/-! Names without parentheses -/

def NoParens (p : Pattern) : Prop := ∀ n ∈ p.idents ++ p.symbols, '(' ∉ n ∧ ')' ∉ n

theorem noParens_of_ofNames? {names : List Text} {p : Pattern} (h : ofNames? names = some p)
    (hn : ∀ n ∈ names, '(' ∉ n ∧ ')' ∉ n) : p.NoParens :=
  fun n hmem => hn n (mem_names_of_ofNames? h hmem).1

theorem notMem_name_of_match? {p : Pattern} (hp : p.NoParens) {t : Text} {m : Match}
    (h : p.match? t = some m) : '(' ∉ m.name ∧ ')' ∉ m.name := by
  obtain ⟨n, hn, hfold⟩ := exists_sameFold_of_match? h
  exact ⟨fun hm => (hp n hn).1 ((hfold.mem_iff (by decide)).2 hm),
    fun hm => (hp n hn).2 ((hfold.mem_iff (by decide)).2 hm)⟩

theorem firstSpelling?_congr {names : List Text} {t u : Text}
    (h : ∀ n ∈ names, spelling? n t = spelling? n u) :
    firstSpelling? names t = firstSpelling? names u := by
  induction names with
  | nil => rfl
  | cons n names ih =>
    have hnames := ih fun k hk => h k (List.mem_cons_of_mem _ hk)
    rw [firstSpelling?] at hnames ⊢
    rw [List.findSome?_cons, h n (List.mem_cons_self ..), hnames]
    rfl

theorem match?_congr {p : Pattern} {t u : Text}
    (h : ∀ n ∈ p.idents ++ p.symbols, spelling? n t = spelling? n u)
    (hh : p.hyphenated? t = p.hyphenated? u) : p.match? t = p.match? u := by
  have hi : firstSpelling? p.idents t = firstSpelling? p.idents u :=
    firstSpelling?_congr fun n hn => h n (List.mem_append_left _ hn)
  have hs : firstSpelling? p.symbols t = firstSpelling? p.symbols u :=
    firstSpelling?_congr fun n hn => h n (List.mem_append_right _ hn)
  rw [match?, match?, hh, hi, hs]

theorem hyphenated?_hyphen (p : Pattern) (t : Text) :
    p.hyphenated? ('-' :: t) = (firstSpelling? p.idents t).map (⟨true, true, ·⟩) := rfl

theorem hyphenated?_of_ne {p : Pattern} {c : Char} (t : Text) (h : c ≠ '-') :
    p.hyphenated? (c :: t) = none := by
  rw [hyphenated?.eq_def]
  split
  · next heq => exact absurd (List.cons.inj heq).1 h
  · rfl

theorem hyphenated?_congr {p : Pattern} {t u : Text}
    (h : firstSpelling? p.idents t = firstSpelling? p.idents u) (c : Char) :
    p.hyphenated? (c :: t) = p.hyphenated? (c :: u) := by
  by_cases hc : c = '-'
  · subst hc
    rw [hyphenated?_hyphen, hyphenated?_hyphen, h]
  · rw [hyphenated?_of_ne _ hc, hyphenated?_of_ne _ hc]

/-! Characters that no match contains -/

/-- A character that is neither part of a name, in whatever case, nor what may stand around one. -/
structure Separates (p : Pattern) (c : Char) : Prop where
  ne_paren : c ≠ '('
  ne_hyphen : c ≠ '-'
  sameFold_eq_false : ∀ n ∈ p.idents ++ p.symbols, ∀ d ∈ n, Unicode.sameFold d c = false

theorem separates_close {p : Pattern} (hp : p.NoParens) : p.Separates ')' where
  ne_paren := by decide
  ne_hyphen := by decide
  sameFold_eq_false n hn d hd := by
    rw [Bool.eq_false_iff]
    intro hfold
    obtain rfl : d = ')' := Unicode.eq_of_fold_eq (of_decide_eq_true hfold) (by decide)
    exact (hp n hn).2 hd

theorem separates_of_ofNames? {names : List Text} {p : Pattern} (h : ofNames? names = some p)
    {c : Char} (hparen : c ≠ '(') (hhyphen : c ≠ '-')
    (hfold : ∀ n ∈ names, ∀ d ∈ n, Unicode.sameFold d c = false) : p.Separates c where
  ne_paren := hparen
  ne_hyphen := hhyphen
  sameFold_eq_false n hn := hfold n (mem_names_of_ofNames? h hn).1

theorem accepted?_append_cons {p : Pattern} {c : Char} (hc : p.Separates c) (b : Option Char)
    (t rest : Text) : p.accepted? b (t ++ c :: rest) = p.accepted? b t := by
  have hspell (u : Text) : ∀ n ∈ p.idents ++ p.symbols,
      spelling? n (u ++ c :: rest) = spelling? n u := by
    intro n hn
    exact spelling?_append_cons hc.ne_paren (hc.sameFold_eq_false n hn) u rest
  have hhyphen : p.hyphenated? (t ++ c :: rest) = p.hyphenated? t := by
    cases t with
    | nil => exact hyphenated?_of_ne rest hc.ne_hyphen
    | cons d t =>
      exact hyphenated?_congr
        (firstSpelling?_congr fun n hn => hspell t n (List.mem_append_left _ hn)) d
  rw [accepted?, accepted?, match?_congr (hspell t) hhyphen]

theorem accepted?_append_close {p : Pattern} (hp : p.NoParens) (b : Option Char) (t rest : Text) :
    p.accepted? b (t ++ ')' :: rest) = p.accepted? b t :=
  accepted?_append_cons (separates_close hp) b t rest

theorem accepted?_append_paren {p : Pattern} (hp : p.NoParens) (b : Option Char) {w : Text}
    (hw : '(' ∉ w) (r s : Text) :
    p.accepted? b (w ++ '(' :: r) = p.accepted? b (w ++ '(' :: s) := by
  have hspell {u : Text} (hu : '(' ∉ u) : ∀ n ∈ p.idents ++ p.symbols,
      spelling? n (u ++ '(' :: r) = spelling? n (u ++ '(' :: s) := by
    intro n hn
    rw [spelling?_append_paren hu (hp n hn).1, spelling?_append_paren hu (hp n hn).1]
  have hhyphen : p.hyphenated? (w ++ '(' :: r) = p.hyphenated? (w ++ '(' :: s) := by
    cases w with
    | nil => rfl
    | cons c w =>
      have hw' : '(' ∉ w := fun hm => hw (List.mem_cons_of_mem _ hm)
      exact hyphenated?_congr
        (firstSpelling?_congr fun n hn => hspell hw' n (List.mem_append_left _ hn)) c
  rw [accepted?, accepted?, match?_congr (hspell hw) hhyphen]

theorem accepted?_head_append {p : Pattern} (hp : p.NoParens) {b : Option Char} {m : Match}
    {r : Text} (h : p.accepted? b (m.head ++ r) = some m) (s : Text) :
    p.accepted? b (m.head ++ s) = some m := by
  have hname : '(' ∉ m.name := (notMem_name_of_match? hp (match?_of_accepted? h)).1
  rw [Match.head_append, ← List.append_assoc] at h ⊢
  rw [accepted?_append_paren hp b (Match.notMem_lead_append hname) s r, h]

/-! A name at the start of a text -/

/-- A hyphen before a word is no part of a name: the word is recognised instead. -/
def Shadowed (names : List Text) (f : Text) : Prop :=
  ∃ w, f = '-' :: w ∧ ∃ n ∈ names, isIdent n = true ∧ SameFold n w

theorem hyphenated?_of_shadowed {names : List Text} {p : Pattern} (hp : ofNames? names = some p)
    (hparens : ∀ n ∈ names, '(' ∉ n) {w : Text} (hw : '(' ∉ w) {n : Text} (hn : n ∈ names)
    (hident : isIdent n = true) (hfold : SameFold n w) (rest : Text) :
    p.hyphenated? ('-' :: w ++ '(' :: rest) = some ⟨true, true, w⟩ := by
  have hi : ∀ n ∈ p.idents, '(' ∉ n := fun n hn => hparens n ((mem_idents_iff hp).1 hn).1
  rw [List.cons_append, hyphenated?_hyphen, firstSpelling?_append_paren hw hi,
    if_pos ⟨n, (mem_idents_iff hp).2 ⟨hn, hident⟩, hfold⟩]
  rfl

theorem hyphenated?_of_not_shadowed {names : List Text} {p : Pattern}
    (hp : ofNames? names = some p) (hparens : ∀ n ∈ names, '(' ∉ n) {f : Text} (hf : '(' ∉ f)
    (hshadow : ¬Shadowed names f) (rest : Text) : p.hyphenated? (f ++ '(' :: rest) = none := by
  have hi : ∀ n ∈ p.idents, '(' ∉ n := fun n hn => hparens n ((mem_idents_iff hp).1 hn).1
  cases f with
  | nil => exact hyphenated?_of_ne _ (by decide)
  | cons c w =>
    by_cases hc : c = '-'
    · subst hc
      have hw : '(' ∉ w := fun h => hf (List.mem_cons_of_mem _ h)
      have hnone : ¬∃ n ∈ p.idents, SameFold n w := by
        rintro ⟨n, hn, hfold⟩
        obtain ⟨hmem, hident⟩ := (mem_idents_iff hp).1 hn
        exact hshadow ⟨w, rfl, n, hmem, hident, hfold⟩
      rw [List.cons_append, hyphenated?_hyphen, firstSpelling?_append_paren hw hi, if_neg hnone]
      rfl
    · exact hyphenated?_of_ne _ hc

theorem exists_accepted?_append_paren {names : List Text} {p : Pattern}
    (hp : ofNames? names = some p) (hparens : ∀ n ∈ names, '(' ∉ n) {f : Text} (hf : f ∈ names)
    (hne : f ≠ []) (hshadow : ¬Shadowed names f) (rest : Text) :
    ∃ isWord, p.accepted? none (f ++ '(' :: rest) = some ⟨isWord, false, f⟩ := by
  have hi : ∀ n ∈ p.idents, '(' ∉ n := fun n hn => hparens n ((mem_idents_iff hp).1 hn).1
  have hs : ∀ n ∈ p.symbols, '(' ∉ n := fun n hn => hparens n ((mem_symbols_iff hp).1 hn).1
  rw [accepted?, match?, hyphenated?_of_not_shadowed hp hparens (hparens f hf) hshadow,
    firstSpelling?_append_paren (hparens f hf) hi, firstSpelling?_append_paren (hparens f hf) hs]
  by_cases hword : ∃ n ∈ p.idents, SameFold n f
  · rw [if_pos hword]
    exact ⟨true, rfl⟩
  · have hident : isIdent f = false := by
      rw [Bool.eq_false_iff]
      intro h
      exact hword ⟨f, (mem_idents_iff hp).2 ⟨hf, h⟩, SameFold.refl f⟩
    have hsymbol : ∃ n ∈ p.symbols, SameFold n f :=
      ⟨f, (mem_symbols_iff hp).2 ⟨hf, hne, hident⟩, SameFold.refl f⟩
    rw [if_neg hword, if_pos hsymbol]
    exact ⟨false, rfl⟩

theorem ne_hyphen_of_isIdent {c : Char} {w : Text} (h : isIdent (c :: w) = true) : c ≠ '-' := by
  rintro rfl
  have hletter : (Unicode.isAlphabetic '-' || '-' = '_') = false := by decide
  exact absurd (h.symm.trans hletter) (by decide)

theorem hyphenated?_of_sameFold {p : Pattern} {n w : Text} (hn : isIdent n = true)
    (h : SameFold n w) (rest : Text) : p.hyphenated? (w ++ '(' :: rest) = none := by
  cases w with
  | nil => exact hyphenated?_of_ne rest (by decide)
  | cons c w =>
    refine hyphenated?_of_ne _ ?_
    rintro rfl
    cases n with
    | nil => exact absurd hn (by decide)
    | cons a n =>
      have hfold : Unicode.fold a = Unicode.fold '-' := of_decide_eq_true (sameFold_cons.1 h).1
      exact ne_hyphen_of_isIdent hn (Unicode.eq_of_fold_eq hfold (by decide))

theorem accepted?_of_firstSpelling? {p : Pattern} {b : Option Char} {n w rest : Text}
    (hn : isIdent n = true) (hfold : SameFold n w) (hb : isBoundary b = true)
    (h : firstSpelling? p.idents (w ++ '(' :: rest) = some w) :
    p.accepted? b (w ++ '(' :: rest) = some ⟨true, false, w⟩ := by
  rw [accepted?, match?, hyphenated?_of_sameFold hn hfold, h, hb]
  rfl

theorem accepted?_hyphen_of_firstSpelling? {p : Pattern} {b : Option Char} {w t : Text}
    (hb : isBoundary b = true) (h : firstSpelling? p.idents t = some w) :
    p.accepted? b ('-' :: t) = some ⟨true, true, w⟩ := by
  rw [accepted?, match?, hyphenated?_hyphen, h, hb]
  rfl

theorem accepted?_of_notMem {p : Pattern} {b : Option Char} {w rest : Text} (hmem : w ∈ p.idents)
    (hw : isIdent w = true ∧ '(' ∉ w) (hrest : '(' ∉ rest) (hb : isBoundary b = true) :
    p.accepted? b (w ++ '(' :: rest) = some ⟨true, false, w⟩ := by
  refine accepted?_of_firstSpelling? hw.1 (SameFold.refl w) hb ?_
  obtain ⟨v, hv, rfl | ⟨_, _, _, hcut⟩⟩ := exists_firstSpelling?_append_paren hmem hw.2 rest
  · exact hv
  · exact absurd (by rw [hcut]; simp) hrest

/-! A name inside another's parentheses -/

theorem isSome_spelling?_nested {n inner outer y : Text} (hinner : '(' ∉ inner)
    (houter : '(' ∉ outer) (hy : '(' ∉ y) :
    (spelling? n (outer ++ '(' :: (inner ++ '(' :: y))).isSome ↔
      SameFold n outer ∨ SameFold n (outer ++ '(' :: inner) := by
  rw [Option.isSome_iff_exists]
  constructor
  · rintro ⟨w, hw⟩
    obtain ⟨hfold, rest, hcut⟩ := spelling?_eq_some_iff.1 hw
    rcases append_paren_cases houter hcut with ⟨rfl, _⟩ | ⟨u, rfl, hinside⟩
    · exact .inl hfold
    · rcases append_paren_cases hinner hinside with ⟨rfl, _⟩ | ⟨_, _, hrest⟩
      · exact .inr hfold
      · exact absurd (by rw [hrest]; simp) hy
  · rintro (hfold | hfold)
    · exact ⟨_, spelling?_eq_some_iff.2 ⟨hfold, _, rfl⟩⟩
    · exact ⟨_, spelling?_eq_some_iff.2 ⟨hfold, y, by simp⟩⟩

/-- Of the words that spell `outer`, or `outer` with a parenthesis and `inner`, the first spells
`outer` alone. -/
def Foremost (names : List Text) (inner outer : Text) : Prop :=
  ∀ n ∈ names.find? fun n => isIdent n ∧ (SameFold n outer ∨ SameFold n (outer ++ '(' :: inner)),
    SameFold n outer

instance (names : List Text) (inner outer : Text) : Decidable (Foremost names inner outer) :=
  inferInstanceAs (Decidable (∀ n ∈ List.find? _ names, SameFold n outer))

theorem accepted?_nested {names : List Text} {p : Pattern} (hp : ofNames? names = some p)
    {inner outer y : Text} (hmem : outer ∈ names) (hident : isIdent outer = true)
    (hinner : '(' ∉ inner) (houter : '(' ∉ outer) (hy : '(' ∉ y)
    (hfirst : Foremost names inner outer) :
    p.accepted? none (outer ++ '(' :: (inner ++ '(' :: y)) = some ⟨true, false, outer⟩ := by
  have hfind :
      p.idents.find? (fun n => (spelling? n (outer ++ '(' :: (inner ++ '(' :: y))).isSome) =
        names.find? fun n =>
          isIdent n ∧ (SameFold n outer ∨ SameFold n (outer ++ '(' :: inner)) := by
    rw [(ofNames?_eq_some_iff.1 hp).2, List.find?_filter]
    congr 1
    funext n
    rw [Bool.eq_iff_iff, decide_eq_true_iff, decide_eq_true_iff,
      isSome_spelling?_nested hinner houter hy]
    cases n <;> simp [isIdent]
  refine accepted?_of_firstSpelling? hident (SameFold.refl outer) rfl ?_
  obtain ⟨w, hw, rfl | ⟨u, _, rfl, _⟩⟩ := exists_firstSpelling?_append_paren
    ((mem_idents_iff hp).2 ⟨hmem, hident⟩) houter (inner ++ '(' :: y)
  · exact hw
  · -- the name that is found would have a parenthesis in it, but the first one has none
    obtain ⟨n, hn, hspelling⟩ := exists_find?_of_firstSpelling? hw
    have hn' : SameFold n outer := hfirst n (hfind ▸ hn)
    have hfold := (spelling?_eq_some_iff.1 hspelling).1
    have hopen : '(' ∈ n := (hfold.mem_iff (by decide)).2 (by simp)
    exact absurd ((hn'.mem_iff (by decide)).1 hopen) houter

end Pattern
end StyleCalls
