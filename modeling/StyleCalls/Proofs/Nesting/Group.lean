import StyleCalls.Proofs.Nesting.Close

/-! The grammar of groups. A scan for the end of a group goes over whole items, so it finds the end
just where the grammar has it. -/

namespace StyleCalls.Nesting

/-! The grammar -/

inductive Phrase where
  | quoted (mark : Char)
  | quotation
  | group
  | item
  | items

/-- What the phrases are made of. An escape takes away the meaning of any character, in quotes and
outside. -/
inductive Derives : Phrase → Text → Prop where
  | quotedNil {q} : Derives (.quoted q) []
  | quotedEscape {q t} (c : Char) : Derives (.quoted q) t → Derives (.quoted q) ('\\' :: c :: t)
  | quotedOther {q c t} : c ≠ q → c ≠ '\\' → Derives (.quoted q) t → Derives (.quoted q) (c :: t)
  | quotation {q t} : q = '"' ∨ q = '\'' → Derives (.quoted q) t →
      Derives .quotation (q :: (t ++ [q]))
  | group {t} : Derives .items t → Derives .group ('(' :: (t ++ [')']))
  | escape (c : Char) : Derives .item ['\\', c]
  | ofQuotation {t} : Derives .quotation t → Derives .item t
  | ofGroup {t} : Derives .group t → Derives .item t
  | other {c} : c ∉ marks → Derives .item [c]
  | nil : Derives .items []
  | cons {t u} : Derives .item t → Derives .items u → Derives .items (t ++ u)

theorem Derives.append_quoted {q : Char} {t u : Text} (h : Derives (.quoted q) t)
    (hu : Derives (.quoted q) u) : Derives (.quoted q) (t ++ u) := by
  generalize hp : Phrase.quoted q = p at h
  induction h with
  | quotedNil =>
    obtain rfl := Phrase.quoted.inj hp
    exact hu
  | quotedEscape c _ ih =>
    obtain rfl := Phrase.quoted.inj hp
    exact .quotedEscape c (ih rfl)
  | quotedOther hq hb _ ih =>
    obtain rfl := Phrase.quoted.inj hp
    exact .quotedOther hq hb (ih rfl)
  | _ => exact nomatch hp

theorem Derives.concat {t u : Text} (h : Derives .items t) (hu : Derives .item u) :
    Derives .items (t ++ u) := by
  generalize hp : Phrase.items = p at h
  induction h with
  | nil =>
    have hone := Derives.cons hu .nil
    rwa [List.append_nil] at hone
  | cons hitem _ _ ih =>
    rw [List.append_assoc]
    exact .cons hitem (ih hp)
  | _ => exact nomatch hp

/-! What is derived is passed -/

/-- Where the scan of a phrase begins, and where it ends. -/
def Phrase.start (depth : Nat) : Phrase → Nesting
  | .quoted q => ⟨depth + 1, some q, false⟩
  | _ => ⟨depth + 1, none, false⟩

theorem passes_of_step {s s' : Nesting} {c : Char} (hc : ¬s.closes c = true) (h : s.step c = s') :
    s.Passes [c] s' := passes_cons.2 ⟨hc, h ▸ (s.step c).passes_nil⟩

theorem not_closes_of_not_bare {s : Nesting} (h : s.bare = false) (c : Char) :
    ¬s.closes c = true := by simp [closes, h]

theorem passes_escape {s : Nesting} (h : s.escaped = false) (c : Char) :
    s.Passes ['\\', c] s := by
  rcases s with ⟨depth, quote, escaped⟩
  obtain rfl : escaped = false := h
  have hstep : step ⟨depth, quote, false⟩ '\\' = ⟨depth, quote, true⟩ := rfl
  rw [passes_cons, hstep]
  exact ⟨not_closes_of_ne _ (by decide), passes_of_step (not_closes_of_not_bare rfl c) rfl⟩

theorem passes_of_derives {p : Phrase} {t : Text} (h : Derives p t) (depth : Nat) :
    (p.start depth).Passes t (p.start depth) := by
  induction h generalizing depth with
  | quotedNil => exact passes_nil _
  | quotedEscape c _ ih => exact (passes_escape rfl c).append (ih depth)
  | @quotedOther q c t hq hb _ ih =>
    have hstep : step ⟨depth + 1, some q, false⟩ c = ⟨depth + 1, some q, false⟩ := by
      simp [step, hq, hb]
    exact (passes_of_step (not_closes_of_not_bare rfl c) hstep).append (ih depth)
  | @quotation q t hq _ ih =>
    have hopen : step ⟨depth + 1, none, false⟩ q = ⟨depth + 1, some q, false⟩ := by
      rcases hq with rfl | rfl <;> rfl
    have hend : step ⟨depth + 1, some q, false⟩ q = ⟨depth + 1, none, false⟩ := by
      rcases hq with rfl | rfl <;> rfl
    have hne : q ≠ ')' := by rcases hq with rfl | rfl <;> decide
    exact (passes_of_step (not_closes_of_ne _ hne) hopen).append
      ((ih depth).append (passes_of_step (not_closes_of_not_bare rfl q) hend))
  | group _ ih =>
    have hclose : ¬closes ⟨depth + 2, none, false⟩ ')' = true := by simp [closes]
    exact (passes_of_step (not_closes_of_ne _ (by decide)) rfl).append
      ((ih (depth + 1)).append (passes_of_step hclose rfl))
  | escape c => exact passes_escape rfl c
  | ofQuotation _ ih => exact ih depth
  | ofGroup _ ih => exact ih depth
  | @other c hc =>
    have hne : c ≠ ')' := fun heq => hc (heq ▸ by decide)
    exact passes_of_step (not_closes_of_ne _ hne)
      (step_of_notMem_marks (quoted_of_unquoted rfl) hc)
  | nil => exact passes_nil _
  | cons _ _ iht ihu => exact (iht depth).append (ihu depth)

/-! What is passed is derived -/

/-- The text before a group under way: in each group around it the items so far, and then the
parenthesis of the next. -/
inductive Encloses : Nat → Text → Prop where
  | nil : Encloses 0 []
  | cons {depth t u} : Encloses depth t → Derives .items u → Encloses (depth + 1) (t ++ u ++ ['('])

/-- The text that a state inside a group stands for. -/
inductive Holds : Nesting → Text → Prop where
  | bare {depth t u} : Encloses depth t → Derives .items u → Holds ⟨depth + 1, none, false⟩ (t ++ u)
  | escaped {depth t u} : Encloses depth t → Derives .items u →
      Holds ⟨depth + 1, none, true⟩ (t ++ u ++ ['\\'])
  | quoted {depth t u q v} : Encloses depth t → Derives .items u → q = '"' ∨ q = '\'' →
      Derives (.quoted q) v → Holds ⟨depth + 1, some q, false⟩ (t ++ u ++ q :: v)
  | quotedEscaped {depth t u q v} : Encloses depth t → Derives .items u → q = '"' ∨ q = '\'' →
      Derives (.quoted q) v → Holds ⟨depth + 1, some q, true⟩ (t ++ u ++ q :: (v ++ ['\\']))

theorem Holds.item {depth : Nat} {t u v : Text} (ht : Encloses depth t) (hu : Derives .items u)
    (hv : Derives .item v) : Holds ⟨depth + 1, none, false⟩ (t ++ u ++ v) := by
  rw [List.append_assoc]
  exact .bare ht (hu.concat hv)

theorem Holds.step_bare {depth : Nat} {t u : Text} (ht : Encloses depth t) (hu : Derives .items u)
    {c : Char} (hc : ¬closes ⟨depth + 1, none, false⟩ c = true) :
    Holds (step ⟨depth + 1, none, false⟩ c) (t ++ u ++ [c]) := by
  by_cases hmarks : c ∈ marks
  · simp only [marks, List.mem_cons, List.not_mem_nil, or_false] at hmarks
    rcases hmarks with rfl | rfl | rfl | rfl | rfl
    · exact .escaped ht hu
    · exact .quoted ht hu (.inl rfl) .quotedNil
    · exact .quoted ht hu (.inr rfl) .quotedNil
    · have hopen := Holds.bare (ht.cons hu) .nil
      rwa [List.append_nil] at hopen
    · -- a parenthesis that does not end the outermost group ends the one under way
      cases ht with
      | nil => exact absurd rfl hc
      | @cons depth t v ht hv =>
        have hstep : step ⟨depth + 2, none, false⟩ ')' = ⟨depth + 1, none, false⟩ := rfl
        have hgroup := Holds.item ht hv (.ofGroup (.group hu))
        rw [hstep]
        simpa using hgroup
  · rw [step_of_notMem_marks (quoted_of_unquoted rfl) hmarks]
    exact .item ht hu (.other hmarks)

theorem Holds.step_quoted {depth : Nat} {t u v : Text} {q : Char} (ht : Encloses depth t)
    (hu : Derives .items u) (hq : q = '"' ∨ q = '\'') (hv : Derives (.quoted q) v) (c : Char) :
    Holds (step ⟨depth + 1, some q, false⟩ c) (t ++ u ++ q :: (v ++ [c])) := by
  have hqb : q ≠ '\\' := by rcases hq with rfl | rfl <;> decide
  by_cases hb : c = '\\'
  · subst hb
    exact .quotedEscaped ht hu hq hv
  by_cases hend : c = q
  · subst hend
    have hstep : step ⟨depth + 1, some c, false⟩ c = ⟨depth + 1, none, false⟩ := by
      simp [step, hqb]
    rw [hstep]
    exact .item ht hu (.ofQuotation (.quotation hq hv))
  · have hstep : step ⟨depth + 1, some q, false⟩ c = ⟨depth + 1, some q, false⟩ := by
      simp [step, hb, hend]
    rw [hstep]
    exact .quoted ht hu hq (hv.append_quoted (.quotedOther hend hb .quotedNil))

theorem Holds.step {s : Nesting} {t : Text} {c : Char} (h : s.Holds t)
    (hc : ¬s.closes c = true) : (s.step c).Holds (t ++ [c]) := by
  cases h with
  | bare ht hu => exact step_bare ht hu hc
  | @escaped depth t u ht hu =>
    have hstep : Nesting.step ⟨depth + 1, none, true⟩ c = ⟨depth + 1, none, false⟩ := rfl
    have hitem := Holds.item ht hu (.escape c)
    rw [hstep]
    simpa using hitem
  | quoted ht hu hq hv =>
    have hquoted := step_quoted ht hu hq hv c
    simpa using hquoted
  | @quotedEscaped depth t u q v ht hu hq hv =>
    have hstep : Nesting.step ⟨depth + 1, some q, true⟩ c = ⟨depth + 1, some q, false⟩ := rfl
    have hquoted := Holds.quoted ht hu hq (hv.append_quoted (.quotedEscape c .quotedNil))
    rw [hstep]
    simpa using hquoted

theorem Holds.passes {s s' : Nesting} {t u : Text} (h : s.Holds t) (hu : s.Passes u s') :
    s'.Holds (t ++ u) := by
  induction u generalizing s t with
  | nil =>
    obtain rfl : s = s' := hu.2
    rwa [List.append_nil]
  | cons c u ih =>
    obtain ⟨hc, hrest⟩ := passes_cons.1 hu
    have hnext := ih (h.step hc) hrest
    rwa [List.append_assoc] at hnext

theorem holds_inGroup : inGroup.Holds [] := .bare .nil .nil

theorem derives_of_holds {t : Text} (h : inGroup.Holds t) : Derives .items t := by
  generalize hs : inGroup = s at h
  cases h with
  | bare ht hu =>
    cases ht with
    | nil => exact hu
    | cons ht hv => exact absurd hs (by simp [inGroup])
  | _ => exact absurd hs (by simp [inGroup])

/-- The items of a group are just what the scan goes over and stays in the group. -/
theorem derives_items_iff {t : Text} : Derives .items t ↔ inGroup.Passes t inGroup :=
  ⟨fun h => passes_of_derives h 0, fun h => derives_of_holds (holds_inGroup.passes h)⟩

theorem Holds.eq_inGroup_of_closes {s : Nesting} {t : Text} {c : Char} (h : s.Holds t)
    (hc : s.closes c = true) : s = inGroup := by
  simp only [closes, Nesting.bare, Bool.and_eq_true, decide_eq_true_eq] at hc
  cases h with
  | @bare depth t u ht hu =>
    obtain rfl : depth = 0 := Nat.le_zero.1 (Nat.le_of_succ_le_succ hc.1.2)
    rfl
  | _ => simp at hc

theorem inGroup_close?_eq_some_iff {t inside after : Text} :
    inGroup.close? t = some (inside, after) ↔
      t = inside ++ ')' :: after ∧ Derives .items inside := by
  constructor
  · intro h
    obtain ⟨hpass, hclose⟩ := passes_of_close? h
    have hend := (holds_inGroup.passes hpass).eq_inGroup_of_closes hclose
    rw [hend] at hpass
    exact ⟨eq_append_of_close? h, derives_items_iff.2 hpass⟩
  · rintro ⟨rfl, h⟩
    rw [(derives_items_iff.1 h).close?_append]
    simp [close?, closes, inGroup, bare]

theorem derives_group_iff {t : Text} :
    Derives .group t ↔ ∃ u, Derives .items u ∧ t = '(' :: (u ++ [')']) := by
  constructor
  · intro h
    cases h with
    | group hu => exact ⟨_, hu, rfl⟩
  · rintro ⟨u, hu, rfl⟩
    exact .group hu

end StyleCalls.Nesting

namespace StyleCalls.Text
open Nesting

theorem closingParen?_append_paren (before rest : Text) :
    closingParen? (before ++ '(' :: rest) (size before) =
      (inGroup.close? rest).map fun p => size before + 1 + size p.1 := by
  have hsize : '('.utf8Size = 1 := by decide
  rw [closingParen?, splitAt?_size_append]
  simp only [Option.bind_eq_bind, Option.bind_some, outside_close?_paren]
  cases inGroup.close? rest with
  | none => rfl
  | some p => simp [size_cons, hsize, Nat.add_assoc]

/-- The bytes from one offset to another, both included, are those of a group. -/
def GroupSpan (t : Text) (start stop : Nat) : Prop :=
  ∃ g, Derives .group g ∧ bytes g <+: (bytes t).drop start ∧ start + size g = stop + 1

theorem groupSpan_iff {before rest : Text} {stop : Nat} :
    GroupSpan (before ++ '(' :: rest) (size before) stop ↔
      ∃ inside after, rest = inside ++ ')' :: after ∧ Derives .items inside ∧
        size before + 1 + size inside = stop := by
  have hsize : '('.utf8Size = 1 ∧ ')'.utf8Size = 1 := by decide
  rw [GroupSpan, drop_bytes_append]
  constructor
  · rintro ⟨g, hg, hbytes, hstop⟩
    obtain ⟨inside, hinside, rfl⟩ := derives_group_iff.1 hg
    obtain ⟨after, hafter⟩ := isPrefix_of_bytes hbytes
    simp only [List.cons_append, List.append_assoc, List.cons.injEq, true_and,
      List.nil_append] at hafter
    simp only [size_append, hsize, size] at hstop
    exact ⟨inside, after, hafter.symm, hinside, by omega⟩
  · rintro ⟨inside, after, rfl, hinside, rfl⟩
    refine ⟨'(' :: (inside ++ [')']), .group hinside, ?_, ?_⟩
    · have hcut : '(' :: (inside ++ ')' :: after) = '(' :: (inside ++ [')']) ++ after := by simp
      rw [hcut, bytes_append]
      exact List.prefix_append ..
    · simp only [size_append, hsize, size]
      omega

theorem closingParen?_eq_some_iff {before rest : Text} {stop : Nat} :
    closingParen? (before ++ '(' :: rest) (size before) = some stop ↔
      GroupSpan (before ++ '(' :: rest) (size before) stop := by
  rw [closingParen?_append_paren, groupSpan_iff]
  simp only [Option.map_eq_some_iff, Prod.exists, inGroup_close?_eq_some_iff, and_assoc]

theorem exists_groupSpan {t g : Text} {start : Nat} (hg : Derives .group g)
    (h : bytes g <+: (bytes t).drop start) : ∃ stop, GroupSpan t start stop := by
  obtain ⟨u, _, hu⟩ := derives_group_iff.1 hg
  have hpos : 0 < size g := by
    rw [hu, size_cons]
    exact Nat.add_pos_left (Char.utf8Size_pos _) _
  exact ⟨start + size g - 1, g, hg, h, by omega⟩

/-- The parenthesis at an offset is closed where the grammar ends the group, which is in one place
at most and between characters, and reading bytes for characters finds the same place. Where it is
not closed, no group begins there. -/
theorem closingParen?_ends_group {t : Text} {start : Nat}
    (h : (bytes t)[start]? = some '('.toUInt8) :
    (∀ stop, closingParen? t start = some stop ↔ GroupSpan t start stop) ∧
    (∀ stop stop', GroupSpan t start stop → GroupSpan t start stop' → stop = stop') ∧
    (∀ stop, GroupSpan t start stop → ∃ u v, splitAt? stop t = some (u, ')' :: v)) ∧
    (closingParen? t start = none ↔ ∀ g, Derives .group g → ¬bytes g <+: (bytes t).drop start) ∧
    closingByte? t start = closingParen? t start := by
  obtain ⟨before, rest, rfl, rfl⟩ := exists_of_getElem?_bytes (by decide) h
  have hsize : '('.utf8Size = 1 := by decide
  refine ⟨fun stop => closingParen?_eq_some_iff, fun stop stop' hstop hstop' => ?_,
    fun stop hstop => ?_, ?_, ?_⟩
  · rw [← closingParen?_eq_some_iff] at hstop hstop'
    exact Option.some.inj (hstop.symm.trans hstop')
  · obtain ⟨inside, after, rfl, _, rfl⟩ := groupSpan_iff.1 hstop
    have hcut := splitAt?_size_append (before ++ '(' :: inside) (')' :: after)
    rw [size_append, size_cons, hsize, ← Nat.add_assoc, List.append_assoc, List.cons_append] at hcut
    exact ⟨_, _, hcut⟩
  · rw [Option.eq_none_iff_forall_ne_some]
    constructor
    · intro hnone g hg hbytes
      obtain ⟨stop, hstop⟩ := exists_groupSpan hg hbytes
      exact hnone stop (closingParen?_eq_some_iff.2 hstop)
    · intro hnone stop hstop
      obtain ⟨g, hg, hbytes, _⟩ := closingParen?_eq_some_iff.1 hstop
      exact hnone g hg hbytes
  · rw [closingByte?_append, closingParen?_append_paren, outside_close?_paren, Option.map_map]
    congr 1
    funext p
    simp only [Function.comp_apply, size_append, size_cons, hsize, Nat.add_assoc]

theorem unevenParens_closingParen? :
    let t := "ß f(\\)é, ')\"', (\"\\\")\") x) g)".toList
    (bytes t)[4]? = some '('.toUInt8 ∧ GroupSpan t 4 26 ∧
      ∀ stop, GroupSpan t 4 stop → stop = 26 := by
  intro t
  have hparen : (bytes t)[4]? = some '('.toUInt8 := by decide
  obtain ⟨hgroup, hunique, -⟩ := closingParen?_ends_group hparen
  have hspan : GroupSpan t 4 26 := (hgroup 26).1 (by decide)
  exact ⟨hparen, hspan, fun stop hstop => hunique stop 26 hstop hspan⟩

end StyleCalls.Text
