import StyleCalls.Proofs.Pattern.Match

/-! The sites of a text are found in one pass. Each is a name of the pattern as spelled in the text
with a parenthesis behind it, and the pass goes on behind that parenthesis as it would in a text
of its own. -/

namespace StyleCalls

def Site.shift (k : Nat) (site : Site) : Site := { site with offset := k + site.offset }

namespace Pattern
open Text

theorem sitesFrom_add (p : Pattern) (k : Nat) (b : Option Char) (offset skipped : Nat) (t : Text) :
    p.sitesFrom b (k + offset) skipped t = (p.sitesFrom b offset skipped t).map (Site.shift k) := by
  induction t generalizing b offset skipped with
  | nil => rfl
  | cons c t ih =>
    cases skipped with
    | succ n => rw [sitesFrom, sitesFrom, Nat.add_assoc, ih]
    | zero =>
      rw [sitesFrom, sitesFrom, Nat.add_assoc]
      cases p.accepted? b (c :: t) with
      | none => exact ih ..
      | some m =>
        rw [List.map_cons, ← ih]
        simp only [Site.shift]
        split <;> rfl

theorem sitesFrom_eq_map_shift (p : Pattern) (b : Option Char) (offset : Nat) (t : Text) :
    p.sitesFrom b offset 0 t = (p.sitesFrom b 0 0 t).map (Site.shift offset) :=
  p.sitesFrom_add offset b 0 0 t

theorem sitesFrom_skip (p : Pattern) (b : Option Char) (offset : Nat) (w : Text) (c : Char)
    (t : Text) : p.sitesFrom b offset (w.length + 1) (w ++ c :: t) =
      p.sitesFrom (some c) (offset + Text.size (w ++ [c])) 0 t := by
  induction w generalizing b offset with
  | nil => rw [List.nil_append, sitesFrom]; rfl
  | cons d w ih =>
    rw [List.cons_append, sitesFrom, List.length_cons, ih, List.cons_append, size_cons,
      Nat.add_assoc]

theorem sitesFrom_pass {p : Pattern} {b : Option Char} {c : Char} {t : Text} (offset : Nat)
    (h : p.accepted? b (c :: t) = none) :
    p.sitesFrom b offset 0 (c :: t) = p.sitesFrom (some c) (offset + c.utf8Size) 0 t := by
  rw [sitesFrom, h]

theorem sitesFrom_accepted {p : Pattern} {b : Option Char} {c : Char} {t : Text} {m : Match}
    (offset : Nat) (h : p.accepted? b (c :: t) = some m) :
    p.sitesFrom b offset 0 (c :: t) = ⟨m.name, offset + Text.size m.lead⟩ ::
      p.sitesFrom (some c) (offset + c.utf8Size) (m.length - 1) t := by
  have hoffset : (if m.hyphen then offset + 1 else offset) = offset + Text.size m.lead := by
    rw [Match.size_lead]
    split <;> rfl
  rw [sitesFrom, h, ← hoffset]

theorem sitesFrom_head_append {p : Pattern} {b : Option Char} {m : Match} {rest : Text}
    (offset : Nat) (h : p.accepted? b (m.head ++ rest) = some m) :
    p.sitesFrom b offset 0 (m.head ++ rest) = ⟨m.name, offset + Text.size m.lead⟩ ::
      p.sitesFrom (some '(') (offset + Text.size m.head) 0 rest := by
  obtain ⟨w, hw⟩ : ∃ w, m.head = w ++ ['('] := ⟨_, m.head_eq_append_singleton⟩
  have hlength : m.length = w.length + 1 := by
    rw [← m.length_head, hw, List.length_append, List.length_singleton]
  rw [hw, List.append_assoc, List.singleton_append] at h ⊢
  cases w with
  | nil =>
    rw [List.nil_append] at h ⊢
    rw [sitesFrom_accepted offset h, hlength]
    rfl
  | cons d w =>
    rw [List.cons_append] at h ⊢
    rw [sitesFrom_accepted offset h, hlength, List.length_cons, Nat.add_sub_cancel,
      sitesFrom_skip, List.cons_append, size_cons, Nat.add_assoc]

theorem getLast?_cons_or (c : Char) (u : Text) (b : Option Char) :
    (c :: u).getLast?.or b = u.getLast?.or (some c) := by
  cases h : u.getLast? <;> simp [List.getLast?_cons, h]

theorem getLast?_head_append_or (m : Match) (u : Text) (b : Option Char) :
    (m.head ++ u).getLast?.or b = u.getLast?.or (some '(') := by
  rw [List.getLast?_append, m.getLast?_head]
  cases u.getLast? <;> rfl

/-- A text is gone over character by character, and from site to site by whole heads. -/
@[elab_as_elim]
theorem scan_induction (p : Pattern) {motive : Option Char → Text → Prop}
    (nil : ∀ b, motive b [])
    (pass : ∀ b c t, p.accepted? b (c :: t) = none → motive (some c) t → motive b (c :: t))
    (site : ∀ b m rest, p.accepted? b (m.head ++ rest) = some m → motive (some '(') rest →
      motive b (m.head ++ rest))
    (b : Option Char) (t : Text) : motive b t := by
  -- on the length, since a head is passed as a whole
  obtain ⟨n, hn⟩ : ∃ n, t.length ≤ n := ⟨_, Nat.le_refl _⟩
  induction n generalizing b t with
  | zero =>
    rw [List.length_eq_zero_iff.1 (Nat.le_zero.1 hn)]
    exact nil b
  | succ n ih =>
    cases t with
    | nil => exact nil b
    | cons c t =>
      cases h : p.accepted? b (c :: t) with
      | none => exact pass b c t h (ih _ _ (Nat.le_of_succ_le_succ hn))
      | some m =>
        obtain ⟨rest, hrest⟩ := exists_eq_head_append (match?_of_accepted? h)
        rw [hrest] at h hn ⊢
        refine site b m rest h (ih _ _ ?_)
        rw [List.length_append, m.length_head, Match.length] at hn
        omega

/-- A site is a match. Behind it the list goes on with the sites of the text behind its
parenthesis. -/
theorem exists_accepted?_of_sitesFrom_eq_append {p : Pattern} {b : Option Char} {offset : Nat}
    {t : Text} {left right : List Site} {site : Site}
    (h : p.sitesFrom b offset 0 t = left ++ site :: right) :
    ∃ u, ∃ m : Match, ∃ rest, t = u ++ (m.head ++ rest) ∧
      p.accepted? (u.getLast?.or b) (m.head ++ rest) = some m ∧
      site = ⟨m.name, offset + Text.size (u ++ m.lead)⟩ ∧
      right = p.sitesFrom (some '(') (offset + Text.size (u ++ m.head)) 0 rest := by
  induction b, t using p.scan_induction generalizing offset left with
  | nil b => cases left <;> simp [sitesFrom] at h
  | pass b c t hc ih =>
    rw [sitesFrom_pass offset hc] at h
    obtain ⟨u, m, rest, rfl, hm, rfl, hright⟩ := ih h
    refine ⟨c :: u, m, rest, rfl, ?_, ?_, ?_⟩
    · rw [getLast?_cons_or, hm]
    · rw [List.cons_append, size_cons, Nat.add_assoc]
    · rw [hright, List.cons_append, size_cons, Nat.add_assoc]
  | site b m rest hm ih =>
    rw [sitesFrom_head_append offset hm] at h
    cases left with
    | nil =>
      obtain ⟨rfl, rfl⟩ := List.cons.inj h
      exact ⟨[], m, rest, rfl, hm, rfl, rfl⟩
    | cons first left =>
      obtain ⟨u, m', rest', rfl, hm', rfl, hright⟩ := ih (List.cons.inj h).2
      refine ⟨m.head ++ u, m', rest', (List.append_assoc ..).symm, ?_, ?_, ?_⟩
      · rw [getLast?_head_append_or, hm']
      · rw [List.append_assoc, size_append m.head, Nat.add_assoc]
      · rw [hright, List.append_assoc, size_append m.head, Nat.add_assoc]

theorem exists_accepted?_of_mem_sitesFrom {p : Pattern} {b : Option Char} {offset : Nat} {t : Text}
    {site : Site} (h : site ∈ p.sitesFrom b offset 0 t) :
    ∃ u, ∃ m : Match, ∃ rest, t = u ++ (m.head ++ rest) ∧
      p.accepted? (u.getLast?.or b) (m.head ++ rest) = some m ∧
      site = ⟨m.name, offset + Text.size (u ++ m.lead)⟩ := by
  obtain ⟨left, right, hsplit⟩ := List.append_of_mem h
  obtain ⟨u, m, rest, ht, hm, hsite, _⟩ := exists_accepted?_of_sitesFrom_eq_append hsplit
  exact ⟨u, m, rest, ht, hm, hsite⟩

theorem exists_of_sitesFrom_eq_append {p : Pattern} {b : Option Char} {offset : Nat} {t : Text}
    {left right : List Site} {site : Site} (h : p.sitesFrom b offset 0 t = left ++ site :: right) :
    ∃ before rest, t = before ++ (site.name ++ '(' :: rest) ∧
      site.offset = offset + Text.size before ∧ right = p.sitesFrom (some '(')
        (offset + Text.size (before ++ (site.name ++ ['(']))) 0 rest := by
  obtain ⟨u, m, rest, rfl, _, rfl, hright⟩ := exists_accepted?_of_sitesFrom_eq_append h
  refine ⟨u ++ m.lead, rest, ?_, rfl, ?_⟩
  · rw [m.head_append, List.append_assoc]
  · rw [hright, List.append_assoc]
    rfl

/-- A character that no match contains parts the sites before it from those behind it. -/
theorem sitesFrom_append_cons {p : Pattern} {c : Char} (hc : p.Separates c) (b : Option Char)
    (offset : Nat) (t rest : Text) : p.sitesFrom b offset 0 (t ++ c :: rest) =
      p.sitesFrom b offset 0 t ++
        p.sitesFrom (some c) (offset + Text.size t + c.utf8Size) 0 rest := by
  induction b, t using p.scan_induction generalizing offset with
  | nil b =>
    have hnone : p.accepted? b (c :: rest) = none :=
      (accepted?_append_cons hc b [] rest).trans (accepted?_eq_none_of_match? b p.match?_nil)
    rw [List.nil_append, sitesFrom_pass offset hnone]
    rfl
  | pass b d t hd ih =>
    have hd' : p.accepted? b (d :: (t ++ c :: rest)) = none :=
      (accepted?_append_cons hc b (d :: t) rest).trans hd
    rw [List.cons_append, sitesFrom_pass offset hd', sitesFrom_pass offset hd, ih, size_cons,
      Nat.add_assoc offset]
  | site b m u hm ih =>
    have hm' : p.accepted? b (m.head ++ (u ++ c :: rest)) = some m := by
      rw [← List.append_assoc, accepted?_append_cons hc, hm]
    rw [List.append_assoc, sitesFrom_head_append offset hm', sitesFrom_head_append offset hm, ih,
      size_append, Nat.add_assoc offset, List.cons_append]

theorem sitesFrom_append_close {p : Pattern} (hp : p.NoParens) (b : Option Char) (offset : Nat)
    (t rest : Text) : p.sitesFrom b offset 0 (t ++ ')' :: rest) =
      p.sitesFrom b offset 0 t ++ p.sitesFrom (some ')') (offset + Text.size t + 1) 0 rest :=
  sitesFrom_append_cons (separates_close hp) b offset t rest

theorem sitesFrom_congr {b b' : Option Char} (h : isBoundary b = isBoundary b') (p : Pattern)
    (offset : Nat) (t : Text) : p.sitesFrom b offset 0 t = p.sitesFrom b' offset 0 t := by
  cases t with
  | nil => rfl
  | cons c t => rw [sitesFrom, sitesFrom, accepted?_congr p _ h]

theorem ne_hyphen_of_isBoundary {c : Char} (h : isBoundary (some c) = true) : c ≠ '-' := by
  rintro rfl
  simp [isBoundary] at h

/-- A text that ends apart from all names and words leaves the sites of what follows alone. -/
theorem findAll_append {p : Pattern} {a : Text} {c : Char} (ha : a.getLast? = some c)
    (hc : p.Separates c) (hb : isBoundary (some c) = true) (t : Text) :
    p.findAll (a ++ t) = p.findAll a ++ (p.findAll t).map (Site.shift (Text.size a)) := by
  obtain ⟨u, rfl⟩ := List.getLast?_eq_some_iff.1 ha
  have hsize : 0 + Text.size u + c.utf8Size = Text.size (u ++ [c]) := by
    simp [size_append, Text.size]
  have hleft : p.findAll (u ++ [c]) = p.sitesFrom none 0 0 u := by
    rw [findAll, sitesFrom_append_cons hc, sitesFrom, List.append_nil]
  have hright : p.sitesFrom (some c) (Text.size (u ++ [c])) 0 t =
      (p.findAll t).map (Site.shift (Text.size (u ++ [c]))) := by
    have hnone : isBoundary (some c) = isBoundary none := hb
    rw [sitesFrom_congr hnone, sitesFrom_eq_map_shift, findAll]
  rw [hleft, ← hright, ← hsize, findAll, List.append_assoc, List.singleton_append,
    sitesFrom_append_cons hc]

/-! Texts without sites -/

theorem sitesFrom_eq_nil {p : Pattern} (b : Option Char) (offset : Nat) {t : Text}
    (h : ∀ u v, t = u ++ v → p.match? v = none) : p.sitesFrom b offset 0 t = [] := by
  induction t generalizing b offset with
  | nil => rfl
  | cons c t ih =>
    rw [sitesFrom_pass offset (accepted?_eq_none_of_match? b (h [] _ rfl))]
    exact ih _ _ fun u v huv => h (c :: u) v (huv ▸ rfl)

theorem sitesFrom_eq_nil_of_notMem (p : Pattern) (b : Option Char) (offset : Nat) {t : Text}
    (h : '(' ∉ t) : p.sitesFrom b offset 0 t = [] := by
  refine sitesFrom_eq_nil b offset fun u v huv => ?_
  rw [Option.eq_none_iff_forall_ne_some]
  intro m hm
  obtain ⟨rest, rfl⟩ := exists_eq_head_append hm
  exact h (by simp [huv, Match.head])

/-- None of the names stands directly before a parenthesis, in whatever case. -/
def CallFree (names : List Text) (t : Text) : Prop :=
  ∀ n ∈ names, n ≠ [] → ∀ u w rest, t = u ++ (w ++ '(' :: rest) → ¬SameFold n w

theorem callFree_of_notMem {names : List Text} {t : Text} (h : '(' ∉ t) : CallFree names t := by
  rintro n _ _ u w rest rfl
  simp at h

theorem sitesFrom_eq_nil_of_callFree {names : List Text} {p : Pattern}
    (hp : ofNames? names = some p) {t : Text} (ht : CallFree names t) (b : Option Char)
    (offset : Nat) : p.sitesFrom b offset 0 t = [] := by
  refine sitesFrom_eq_nil b offset fun u v huv => ?_
  rw [Option.eq_none_iff_forall_ne_some]
  intro m hm
  obtain ⟨rest, rfl⟩ := exists_eq_head_append hm
  obtain ⟨n, hn, hfold⟩ := exists_sameFold_of_match? hm
  have happend : t = (u ++ m.lead) ++ (m.name ++ '(' :: rest) := by
    rw [huv, Match.head_append, List.append_assoc]
  have hname : n ∈ names ∧ n ≠ [] := mem_names_of_ofNames? hp hn
  exact ht n hname.1 hname.2 _ _ _ happend hfold

end Pattern
end StyleCalls
