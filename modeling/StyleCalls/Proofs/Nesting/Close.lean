import Mathlib.Tactic.SplitIfs
import StyleCalls.Nesting
import StyleCalls.Proofs.Text.Offset

/-! Where a group ends depends on the text up to there alone, and reading the bytes of a text
instead of its characters finds the same end. -/

namespace StyleCalls.Nesting

theorem not_closes_of_ne {c : Char} (s : Nesting) (h : c ≠ ')') : ¬s.closes c = true := by
  simp [closes, h]

/-! Scans that go over a text -/

/-- The scan goes over all of the text without an end of the group, and into the state `s'`. -/
def Passes (s : Nesting) (t : Text) (s' : Nesting) : Prop := s.close? t = none ∧ s.run t = s'

theorem passes_nil (s : Nesting) : s.Passes [] s := ⟨rfl, rfl⟩

theorem passes_cons {s s' : Nesting} {c : Char} {t : Text} :
    s.Passes (c :: t) s' ↔ ¬s.closes c = true ∧ (s.step c).Passes t s' := by
  rw [Passes, close?]
  split
  · next hc => simp [hc]
  · next hc =>
    rw [Option.map_eq_none_iff]
    exact ⟨fun h => ⟨hc, h⟩, fun h => h.2⟩

theorem passes_append {s s' : Nesting} {t u : Text} :
    s.Passes (t ++ u) s' ↔ s.Passes t (s.run t) ∧ (s.run t).Passes u s' := by
  induction t generalizing s with
  | nil => exact ⟨fun h => ⟨s.passes_nil, h⟩, fun h => h.2⟩
  | cons c t ih => rw [List.cons_append, passes_cons, passes_cons, ih, and_assoc]; rfl

theorem Passes.append {s s' s'' : Nesting} {t u : Text} (h : s.Passes t s')
    (hu : s'.Passes u s'') : s.Passes (t ++ u) s'' := by
  obtain rfl := h.2
  exact passes_append.2 ⟨h, hu⟩

theorem Passes.close?_append {s s' : Nesting} {t : Text} (h : s.Passes t s') (u : Text) :
    s.close? (t ++ u) = (s'.close? u).map fun p => (t ++ p.1, p.2) := by
  induction t generalizing s with
  | nil =>
    obtain rfl : s = s' := h.2
    simp
  | cons c t ih =>
    obtain ⟨hc, ht⟩ := passes_cons.1 h
    rw [List.cons_append, close?, if_neg hc, ih ht, Option.map_map]
    rfl

theorem passes_of_close? {s : Nesting} {t inside after : Text}
    (h : s.close? t = some (inside, after)) :
    s.Passes inside (s.run inside) ∧ (s.run inside).closes ')' = true := by
  induction t generalizing s inside with
  | nil => simp [close?] at h
  | cons c t ih =>
    rw [close?] at h
    split at h
    · next hc =>
      obtain ⟨rfl, rfl⟩ := Prod.mk.inj (Option.some.inj h)
      have hparen : c = ')' := by
        simp only [closes, Bool.and_eq_true, decide_eq_true_eq] at hc
        exact hc.2
      exact ⟨s.passes_nil, hparen ▸ hc⟩
    · next hc =>
      obtain ⟨⟨i, a⟩, hi, hia⟩ := Option.map_eq_some_iff.1 h
      obtain ⟨rfl, rfl⟩ := Prod.mk.inj hia
      obtain ⟨hpass, hclose⟩ := ih hi
      exact ⟨passes_cons.2 ⟨hc, hpass⟩, hclose⟩

theorem passes_of_notMem {w : Text} (s : Nesting) (h : ')' ∉ w) : s.Passes w (s.run w) := by
  induction w generalizing s with
  | nil => exact s.passes_nil
  | cons c w ih =>
    rw [List.mem_cons, not_or] at h
    exact passes_cons.2 ⟨s.not_closes_of_ne (Ne.symm h.1), ih (s.step c) h.2⟩

theorem close?_append_of_notMem {w : Text} (s : Nesting) (t : Text) (h : ')' ∉ w) :
    s.close? (w ++ t) = ((s.run w).close? t).map fun p => (w ++ p.1, p.2) :=
  (s.passes_of_notMem h).close?_append t

/-- What stands behind the end of a group has no part in finding it. -/
theorem close?_append {s : Nesting} {t inside after : Text}
    (h : s.close? t = some (inside, after)) (u : Text) :
    s.close? (t ++ u) = some (inside, after ++ u) := by
  induction t generalizing s inside with
  | nil => simp [close?] at h
  | cons c t ih =>
    rw [close?] at h
    rw [List.cons_append, close?]
    split at h
    · next hc =>
      obtain ⟨rfl, rfl⟩ := Prod.mk.inj (Option.some.inj h)
      rw [if_pos hc]
    · next hc =>
      obtain ⟨⟨i, a⟩, hclose, hpair⟩ := Option.map_eq_some_iff.1 h
      obtain ⟨rfl, rfl⟩ := Prod.mk.inj hpair
      rw [if_neg hc, ih hclose]
      rfl

/-! Text that a scan passes over -/

/-- The characters that a scan takes notice of. -/
def marks : Text := ['\\', '"', '\'', '(', ')']

def Plain (t : Text) : Prop := ∀ c ∈ t, c ∉ marks

instance (t : Text) : Decidable (Plain t) := List.decidableBAll _ t

theorem Plain.notMem {t : Text} {c : Char} (h : Plain t) (hc : c ∈ marks) : c ∉ t :=
  fun ht => h c ht hc

/-- A quotation mark is open or none; a scan never takes another character for one. -/
def Quoted (s : Nesting) : Prop := ∀ q ∈ s.quote, q = '"' ∨ q = '\''

theorem quoted_of_unquoted {s : Nesting} (h : s.quote = none) : s.Quoted := by simp [Quoted, h]

theorem quoted_step {s : Nesting} (h : s.Quoted) (c : Char) : (s.step c).Quoted := by
  rcases s with ⟨depth, quote, escaped⟩
  intro q hq
  cases escaped with
  | true => exact h q hq
  | false =>
    by_cases hb : c = '\\'
    · simp only [step, hb, if_true, Bool.false_eq_true, if_false] at hq
      exact h q hq
    cases quote with
    | some r =>
      by_cases hr : c = r
      · subst hr
        simp [step, hb] at hq
      · simp only [step, hb, hr, Bool.false_eq_true, if_false] at hq
        exact h q hq
    | none =>
      by_cases hm : c = '"' ∨ c = '\''
      · obtain rfl : c = q := by simpa [step, hb, hm] using hq
        exact hm
      · have hn : (step ⟨depth, none, false⟩ c).quote = none := by
          rw [not_or] at hm
          simp only [step, hb, hm.1, hm.2, Bool.false_eq_true, if_false, decide_false, Bool.or_self]
          split_ifs <;> rfl
        simp [hn] at hq

theorem step_of_notMem_marks {s : Nesting} {c : Char} (hs : s.Quoted) (h : c ∉ marks) :
    s.step c = { s with escaped := false } := by
  simp only [marks, List.mem_cons, List.not_mem_nil, or_false, not_or] at h
  rcases s with ⟨depth, quote, escaped⟩
  cases escaped with
  | true => simp [step]
  | false =>
    -- the open quotation mark is itself a mark, so this character does not end the quotation
    cases quote with
    | none => simp [step, h]
    | some q =>
      have hq : c ≠ q := by
        rcases hs q rfl with rfl | rfl
        · exact h.2.1
        · exact h.2.2.1
      simp [step, h.1, hq]

theorem run_of_plain {s : Nesting} {w : Text} (hs : s.Quoted) (hw : w ≠ []) (h : Plain w) :
    s.run w = { s with escaped := false } := by
  induction w generalizing s with
  | nil => exact absurd rfl hw
  | cons c w ih =>
    have hstep := step_of_notMem_marks hs (h c (List.mem_cons_self ..))
    rw [run, List.foldl_cons, hstep]
    cases w with
    | nil => rfl
    | cons d w =>
      exact ih (s := { s with escaped := false }) hs (List.cons_ne_nil d w)
        fun e he => h e (List.mem_cons_of_mem _ he)

theorem inGroup_run_of_plain {w : Text} (h : Plain w) : inGroup.run w = inGroup := by
  by_cases hw : w = []
  · rw [hw]
    rfl
  · exact run_of_plain (quoted_of_unquoted rfl) hw h

theorem inGroup_close?_of_plain {w : Text} (h : Plain w) (rest : Text) :
    inGroup.close? (w ++ ')' :: rest) = some (w, rest) := by
  rw [close?_append_of_notMem _ _ (h.notMem (by decide)), inGroup_run_of_plain h]
  simp [close?, closes, inGroup, bare]

/-! Parentheses around a text -/

theorem outside_close?_paren (t : Text) :
    outside.close? ('(' :: t) = (inGroup.close? t).map fun p => ('(' :: p.1, p.2) := by
  have hstep : outside.step '(' = inGroup := by decide
  rw [close?, if_neg (not_closes_of_ne _ (by decide)), hstep]

/-- Parentheses put around the text belong together: the one closes the other. -/
def Enclosable (t : Text) : Prop := closingParen? ('(' :: (t ++ [')'])) 0 = some (Text.size t + 1)

instance (t : Text) : Decidable (Enclosable t) := inferInstanceAs (Decidable (_ = _))

theorem enclosable_iff {t : Text} :
    Enclosable t ↔ inGroup.close? (t ++ [')']) = some (t, []) := by
  have hparen : '('.utf8Size = 1 := by decide
  rw [Enclosable, closingParen?, Text.splitAt?_zero]
  simp only [Option.bind_eq_bind, Option.bind_some, outside_close?_paren]
  cases hclose : inGroup.close? (t ++ [')']) with
  | none => simp
  | some q =>
    obtain ⟨inside, after⟩ := q
    simp only [Option.map_some, Option.bind_some, pure, Option.some_inj, Prod.mk.injEq,
      Text.size_cons, hparen, Nat.zero_add]
    constructor
    · intro h
      have hsize : Text.size inside = Text.size t := by omega
      have hinside := Text.splitAt?_size_append inside (')' :: after)
      rw [hsize, ← eq_append_of_close? hclose, Text.splitAt?_size_append] at hinside
      obtain ⟨rfl, hafter⟩ := Prod.mk.inj (Option.some.inj hinside)
      exact ⟨rfl, (List.cons.inj hafter).2.symm⟩
    · rintro ⟨rfl, rfl⟩
      exact Nat.add_comm ..

/-! Bytes -/

/-- Each byte taken for the character of its value. -/
def ofBytes (bytes : List UInt8) : Text := bytes.map fun b => Char.ofNat b.toNat

theorem length_ofBytes (bytes : List UInt8) : (ofBytes bytes).length = bytes.length :=
  List.length_map ..

theorem ofBytes_utf8EncodeChar_of_le {c : Char} (h : c.toNat ≤ 0x7f) :
    ofBytes (String.utf8EncodeChar c) = [c] := by
  rw [Text.utf8EncodeChar_of_le h, ofBytes, List.map_singleton, Text.toNat_toUInt8_of_le h,
    Char.ofNat_toNat]

theorem le_of_mem_utf8EncodeChar {c : Char} {b : UInt8} (h : ¬c.toNat ≤ 0x7f)
    (hb : b ∈ String.utf8EncodeChar c) : 0x80 ≤ b.toNat := by
  have hval : ¬c.val.toNat ≤ 0x7f := h
  simp only [String.utf8EncodeChar, hval, if_false] at hb
  split_ifs at hb
  all_goals
    simp only [List.mem_cons, List.not_mem_nil, or_false] at hb
    rcases hb with rfl | hb
    · simp only [UInt8.toNat_ofNat']
      omega
  · rw [hb, UInt8.toNat_ofNat']
    omega
  · rcases hb with rfl | rfl <;> simp only [UInt8.toNat_ofNat'] <;> omega
  · rcases hb with rfl | rfl | rfl <;> simp only [UInt8.toNat_ofNat'] <;> omega

theorem plain_ofBytes_utf8EncodeChar {c : Char} (h : ¬c.toNat ≤ 0x7f) :
    Plain (ofBytes (String.utf8EncodeChar c)) := by
  intro d hd
  obtain ⟨b, hb, rfl⟩ := List.mem_map.1 hd
  have hbytes : ∀ n < 256, 0x80 ≤ n → Char.ofNat n ∉ marks := by decide +kernel
  exact hbytes b.toNat b.toNat_lt (le_of_mem_utf8EncodeChar h hb)

theorem notMem_marks_of_not_le {c : Char} (h : ¬c.toNat ≤ 0x7f) : c ∉ marks := by
  intro hc
  have hmarks : ∀ d ∈ marks, d.toNat ≤ 0x7f := by simp [marks]
  exact h (hmarks c hc)

theorem close?_ofBytes {s : Nesting} (hs : s.Quoted) (t : Text) :
    s.close? (ofBytes (Text.bytes t)) =
      (s.close? t).map fun p => (ofBytes (Text.bytes p.1), ofBytes (Text.bytes p.2)) := by
  induction t generalizing s with
  | nil => rfl
  | cons c t ih =>
    have hbytes (u : Text) : ofBytes (Text.bytes (c :: u)) =
        ofBytes (String.utf8EncodeChar c) ++ ofBytes (Text.bytes u) := List.map_append
    have hstep := ih (quoted_step hs c)
    by_cases hc : c.toNat ≤ 0x7f
    · simp only [ofBytes_utf8EncodeChar_of_le hc, List.singleton_append] at hbytes
      rw [hbytes, close?, close?]
      split
      · rfl
      · rw [hstep, Option.map_map, Option.map_map]
        simp only [Function.comp_def, hbytes]
    · -- no byte beyond ASCII is a mark: together they move the scan as the character does
      have hne : ofBytes (String.utf8EncodeChar c) ≠ [] := by
        simp [ofBytes, String.utf8EncodeChar_ne_nil]
      have hplain : Plain (ofBytes (String.utf8EncodeChar c)) := plain_ofBytes_utf8EncodeChar hc
      have hmark : c ∉ marks := notMem_marks_of_not_le hc
      have hparen : c ≠ ')' := fun h => hmark (h ▸ by decide)
      rw [hbytes, close?_append_of_notMem _ _ (hplain.notMem (by decide)),
        run_of_plain hs hne hplain, ← step_of_notMem_marks hs hmark, hstep, close?,
        if_neg (not_closes_of_ne s hparen), Option.map_map, Option.map_map]
      simp only [Function.comp_def, hbytes]

end StyleCalls.Nesting

namespace StyleCalls.Text

/-- The byte of an ASCII character is in no text but where that character is. -/
theorem exists_of_getElem?_bytes {t : Text} {start : Nat} {c : Char} (hc : c.toNat ≤ 0x7f)
    (h : (bytes t)[start]? = some c.toUInt8) :
    ∃ before after, t = before ++ c :: after ∧ size before = start := by
  induction t generalizing start with
  | nil => simp [bytes] at h
  | cons d t ih =>
    rw [bytes_cons] at h
    by_cases hstart : start < d.utf8Size
    · rw [List.getElem?_append_left (by rwa [String.length_utf8EncodeChar])] at h
      have hmem : c.toUInt8 ∈ String.utf8EncodeChar d := List.mem_of_getElem? h
      have hd : d.toNat ≤ 0x7f := by
        by_contra hd
        have hlow := Nesting.le_of_mem_utf8EncodeChar hd hmem
        rw [toNat_toUInt8_of_le hc] at hlow
        omega
      rw [utf8EncodeChar_of_le hd, List.mem_singleton] at hmem
      have hnat : c.toNat = d.toNat := by
        rw [← toNat_toUInt8_of_le hc, hmem, toNat_toUInt8_of_le hd]
      obtain rfl := Char.toNat_inj.1 hnat
      have hone : c.utf8Size = 1 := Char.utf8Size_eq_one_iff.2 hc
      exact ⟨[], t, rfl, by rw [size]; omega⟩
    · rw [Nat.not_lt] at hstart
      rw [List.getElem?_append_right (by rwa [String.length_utf8EncodeChar]),
        String.length_utf8EncodeChar] at h
      obtain ⟨before, after, rfl, hsize⟩ := ih h
      exact ⟨d :: before, after, rfl, by rw [size_cons]; omega⟩

/-- The byte offset of the `)` that closes the group opened at a byte offset. -/
def closingByte? (t : Text) (start : Nat) : Option Nat :=
  (Nesting.outside.close? (Nesting.ofBytes ((bytes t).drop start))).map (start + ·.1.length)

theorem closingByte?_append (u t : Text) : closingByte? (u ++ t) (size u) =
    (Nesting.outside.close? t).map fun p => size (u ++ p.1) := by
  have hquoted : Nesting.outside.Quoted := Nesting.quoted_of_unquoted rfl
  rw [closingByte?, drop_bytes_append, Nesting.close?_ofBytes hquoted, Option.map_map]
  congr 1
  funext p
  simp only [Function.comp_apply, Nesting.length_ofBytes, length_bytes, size_append]

end StyleCalls.Text
