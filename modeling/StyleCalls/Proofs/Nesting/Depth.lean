import StyleCalls.Proofs.Nesting.Close

/-! Parentheses by counting. Where nothing is quoted or escaped, a group ends with the first
parenthesis that closes more than was opened in it. -/

namespace StyleCalls.Text

/-- The number of open groups behind a character; none if it closes a group that is not open. -/
def rise? (depth : Nat) (c : Char) : Option Nat :=
  if c = '(' then some (depth + 1)
  else if c = ')' then if depth = 0 then none else some (depth - 1)
  else some depth

def depth? (depth : Nat) (t : Text) : Option Nat := t.foldlM rise? depth

/-- The text before and the text behind the first parenthesis that closes more than is open. -/
def matching? (depth : Nat) : Text → Option (Text × Text)
  | [] => none
  | c :: t =>
    match rise? depth c with
    | none => some ([], t)
    | some depth => (matching? depth t).map fun p => (c :: p.1, p.2)

theorem rise?_eq_none_iff {depth : Nat} {c : Char} :
    rise? depth c = none ↔ c = ')' ∧ depth = 0 := by
  unfold rise?
  split_ifs with ho hc hd
  · simp [ho]
  · simp [hc, hd]
  · simp [hd]
  · simp [hc]

theorem rise?_add {depth k : Nat} {c : Char} (h : rise? depth c = some k) (n : Nat) :
    rise? (depth + n) c = some (k + n) := by
  unfold rise? at h ⊢
  split_ifs at h ⊢ with ho hc hd <;> simp only [Option.some_inj] at h ⊢ <;> omega

theorem rise?_of_ne {c : Char} (depth : Nat) (ho : c ≠ '(') (hc : c ≠ ')') :
    rise? depth c = some depth := by
  rw [rise?, if_neg ho, if_neg hc]

theorem depth?_cons (depth : Nat) (c : Char) (t : Text) :
    depth? depth (c :: t) = (rise? depth c).bind (depth? · t) := List.foldlM_cons

theorem depth?_append (depth : Nat) (s t : Text) :
    depth? depth (s ++ t) = (depth? depth s).bind (depth? · t) := List.foldlM_append

theorem depth?_add {depth k : Nat} {t : Text} (h : depth? depth t = some k) (n : Nat) :
    depth? (depth + n) t = some (k + n) := by
  induction t generalizing depth with
  | nil =>
    obtain rfl : depth = k := Option.some.inj h
    rfl
  | cons c t ih =>
    rw [depth?_cons] at h ⊢
    obtain ⟨j, hj, ht⟩ := Option.bind_eq_some_iff.1 h
    rw [rise?_add hj, Option.bind_some, ih ht]

theorem depth?_of_notMem (depth : Nat) {t : Text} (ho : '(' ∉ t) (hc : ')' ∉ t) :
    depth? depth t = some depth := by
  induction t with
  | nil => rfl
  | cons c t ih =>
    rw [List.mem_cons, not_or] at ho hc
    rw [depth?_cons, rise?_of_ne depth (Ne.symm ho.1) (Ne.symm hc.1), Option.bind_some,
      ih ho.2 hc.2]

theorem depth?_append_close {inside : Text} (h : depth? 0 inside = some 0) (depth : Nat)
    (rest : Text) : depth? (depth + 1) (inside ++ ')' :: rest) = depth? depth rest := by
  have hinside : depth? (depth + 1) inside = some (depth + 1) := by
    have hadd := depth?_add h (depth + 1)
    rwa [Nat.zero_add] at hadd
  have hclose : rise? (depth + 1) ')' = some depth := rfl
  rw [depth?_append, hinside, Option.bind_some, depth?_cons, hclose, Option.bind_some]

theorem matching?_eq_some_iff {depth : Nat} {t inside after : Text} :
    matching? depth t = some (inside, after) ↔
      t = inside ++ ')' :: after ∧ depth? depth inside = some 0 := by
  induction t generalizing depth inside with
  | nil => simp [matching?]
  | cons c t ih =>
    rw [matching?]
    cases hr : rise? depth c with
    | none =>
      obtain ⟨rfl, rfl⟩ := rise?_eq_none_iff.1 hr
      cases inside with
      | nil => simp [depth?]
      | cons d inside =>
        simp only [Option.some_inj, Prod.mk.injEq, reduceCtorEq, false_and, false_iff, not_and]
        intro heq
        obtain rfl : ')' = d := (List.cons.inj heq).1
        simp [depth?_cons, hr]
    | some k =>
      simp only [Option.map_eq_some_iff, Prod.mk.injEq, Prod.exists]
      cases inside with
      | nil =>
        simp only [reduceCtorEq, false_and, and_false, exists_false, false_iff, not_and]
        intro heq hdepth
        obtain rfl : c = ')' := (List.cons.inj heq).1
        obtain rfl : depth = 0 := Option.some.inj hdepth
        simp [rise?] at hr
      | cons d inside =>
        constructor
        · rintro ⟨i, a, hi, hcons, rfl⟩
          obtain ⟨rfl, rfl⟩ := List.cons.inj hcons
          obtain ⟨rfl, hdepth⟩ := ih.1 hi
          exact ⟨rfl, by rw [depth?_cons, hr, Option.bind_some, hdepth]⟩
        · rintro ⟨heq, hdepth⟩
          obtain ⟨rfl, rfl⟩ := List.cons.inj heq
          rw [depth?_cons, hr, Option.bind_some] at hdepth
          exact ⟨inside, after, ih.2 ⟨rfl, hdepth⟩, rfl, rfl⟩

theorem matching?_eq_none_iff {depth : Nat} {t : Text} :
    matching? depth t = none ↔ ∃ k, depth? depth t = some k := by
  induction t generalizing depth with
  | nil => simp [matching?, depth?]
  | cons c t ih =>
    rw [matching?, depth?_cons]
    cases rise? depth c with
    | none => simp
    | some k => rw [Option.map_eq_none_iff, ih, Option.bind_some]

def Unquoted (t : Text) : Prop := ∀ c ∈ t, c ≠ '\\' ∧ c ≠ '"' ∧ c ≠ '\''

instance (t : Text) : Decidable t.Unquoted := List.decidableBAll _ t

theorem unquoted_cons {c : Char} {t : Text} :
    Unquoted (c :: t) ↔ (c ≠ '\\' ∧ c ≠ '"' ∧ c ≠ '\'') ∧ t.Unquoted := List.forall_mem_cons

theorem unquoted_append {s t : Text} : (s ++ t).Unquoted ↔ s.Unquoted ∧ t.Unquoted :=
  List.forall_mem_append

/-- For text without quotes and escapes the scan counts parentheses. -/
theorem close?_eq_matching? {t : Text} (h : t.Unquoted) (depth : Nat) :
    Nesting.close? ⟨depth + 1, none, false⟩ t = matching? depth t := by
  induction t generalizing depth with
  | nil => rfl
  | cons c t ih =>
    obtain ⟨⟨hb, hq, ha⟩, ht⟩ := unquoted_cons.1 h
    rw [Nesting.close?, matching?]
    cases hr : rise? depth c with
    | none =>
      obtain ⟨rfl, rfl⟩ := rise?_eq_none_iff.1 hr
      rfl
    | some k =>
      -- the scan counts the group it is in, so it stands one deeper
      have hcloses : ¬Nesting.closes ⟨depth + 1, none, false⟩ c = true := by
        simp only [Nesting.closes, Nesting.bare, Bool.and_eq_true, decide_eq_true_eq]
        rintro ⟨⟨_, hdepth⟩, hc⟩
        have hnone : rise? depth c = none := rise?_eq_none_iff.2 ⟨hc, by omega⟩
        exact absurd (hr.symm.trans hnone) (Option.some_ne_none k)
      have hstep : Nesting.step ⟨depth + 1, none, false⟩ c = ⟨k + 1, none, false⟩ := by
        simp only [Nesting.step, hb, hq, ha, decide_false, Bool.or_self, Bool.false_eq_true,
          if_false]
        unfold rise? at hr
        split_ifs at hr ⊢ with ho hc hd
        · obtain rfl : depth + 1 = k := Option.some.inj hr
          rfl
        · obtain rfl : depth - 1 = k := Option.some.inj hr
          have hdepth : depth + 1 - 1 = depth - 1 + 1 := by omega
          rw [hdepth]
        · obtain rfl : depth = k := Option.some.inj hr
          rfl
      rw [if_neg hcloses, hstep, ih ht]

end StyleCalls.Text
