import StyleCalls.Arith.Eval
import StyleCalls.Proofs.Arith.Grammar
import StyleCalls.Proofs.Text.Offset

/-! Blanks in expressions. All they do is end a number, so an expression has the same value without
them unless they part two numbers, and then it has none. -/

namespace StyleCalls.Arith

/-! Characters of numbers, and blanks -/

/-- A character that numbers are made of. -/
def isNumeral (c : Char) : Bool := Decimal.isDigit c || c = '.'

/-- The text without its blanks. -/
def unspaced (t : Text) : Text := t.filter (!Token.isSkipped ·)

/-- Blanks, and a character of a number behind them. -/
def Interrupts (t : Text) : Prop := ∃ gap c rest, t = gap ++ c :: rest ∧ gap ≠ [] ∧
  (∀ b ∈ gap, Token.isSkipped b = true) ∧ isNumeral c = true

/-- Somewhere blanks alone stand between two characters of numbers. -/
def Gapped (t : Text) : Prop := ∃ before c rest, t = before ++ c :: rest ∧ isNumeral c = true ∧
  Interrupts rest

theorem not_isNumeral_of_isSkipped {c : Char} (h : Token.isSkipped c = true) :
    isNumeral c = false := by
  simp only [Token.isSkipped, Bool.or_eq_true, decide_eq_true_eq] at h
  rcases h with ((rfl | rfl) | rfl) | rfl <;> decide

theorem Gapped.cons {t : Text} (h : Gapped t) (c : Char) : Gapped (c :: t) := by
  obtain ⟨before, a, rest, rfl, ha, hrest⟩ := h
  exact ⟨c :: before, a, rest, rfl, ha, hrest⟩

theorem gapped_cons_of_interrupts {c : Char} {t : Text} (hc : isNumeral c = true)
    (h : Interrupts t) : Gapped (c :: t) := ⟨[], c, t, rfl, hc, h⟩

theorem unspaced_cons_of_isSkipped {c : Char} (h : Token.isSkipped c = true) (t : Text) :
    unspaced (c :: t) = unspaced t := List.filter_cons_of_neg (by simp [h])

theorem unspaced_cons_of_not_isSkipped {c : Char} (h : Token.isSkipped c = false) (t : Text) :
    unspaced (c :: t) = c :: unspaced t := List.filter_cons_of_pos (by simp [h])

theorem unspaced_unspaced (t : Text) : unspaced (unspaced t) = unspaced t := by
  rw [unspaced, unspaced, List.filter_filter]
  simp only [Bool.and_self]

theorem not_gapped_unspaced (t : Text) : ¬Gapped (unspaced t) := by
  rintro ⟨before, c, rest, heq, _, gap, e, after, rfl, hne, hgap, _⟩
  obtain ⟨b, hb⟩ := List.exists_mem_of_ne_nil gap hne
  have hmem : b ∈ unspaced t := by
    rw [heq]
    simp [hb]
  have hskipped := (List.mem_filter.1 hmem).2
  rw [hgap b hb] at hskipped
  exact Bool.noConfusion hskipped

/-- What follows a blank begins with no character of a number once the blanks are gone, unless the
blanks interrupt one. -/
theorem not_isNumeral_head?_unspaced {b : Char} (hb : Token.isSkipped b = true) {t : Text}
    (h : ¬Interrupts (b :: t)) : ∀ c ∈ (unspaced t).head?, isNumeral c = false := by
  intro c hc
  refine eq_false_of_ne_true fun hnumeral => h ?_
  rw [unspaced, List.head?_filter] at hc
  obtain ⟨_, gap, rest, rfl, hgap⟩ := List.find?_eq_some_iff_append.1 hc
  refine ⟨b :: gap, c, rest, rfl, List.cons_ne_nil _ _, ?_, hnumeral⟩
  exact List.forall_mem_cons.2 ⟨hb, fun e he => by simpa using hgap e he⟩

namespace Run

theorem start?_of_not_isNumeral {c : Char} (h : isNumeral c = false) : start? c = none := by
  obtain ⟨hdigit, hpoint⟩ : Decimal.isDigit c = false ∧ c ≠ '.' := by simpa [isNumeral] using h
  simp [start?, hdigit, hpoint]

theorem extend?_of_not_isNumeral {c : Char} (h : isNumeral c = false) (r : Run) :
    r.extend? c = none := by
  obtain ⟨hdigit, hpoint⟩ : Decimal.isDigit c = false ∧ c ≠ '.' := by simpa [isNumeral] using h
  rcases r with ⟨ds, _ | es⟩ <;> simp [extend?, hdigit, hpoint]

theorem exists_start? {c : Char} (h : isNumeral c = true) : ∃ r, start? c = some r := by
  unfold start?
  split
  · exact ⟨_, rfl⟩
  · next hdigit =>
    have hpoint : c = '.' := by simpa [isNumeral, hdigit] using h
    exact ⟨_, if_pos hpoint⟩

theorem isNumeral_of_start? {c : Char} {r : Run} (h : start? c = some r) : isNumeral c = true := by
  by_contra hc
  rw [start?_of_not_isNumeral (eq_false_of_ne_true hc)] at h
  exact nomatch h

theorem isNumeral_of_extend? {c : Char} {r r' : Run} (h : r.extend? c = some r') :
    isNumeral c = true := by
  by_contra hc
  rw [extend?_of_not_isNumeral (eq_false_of_ne_true hc)] at h
  exact nomatch h

theorem exists_number_of_token {r : Run} {t : Token} (h : r.token = .ok t) : ∃ x, t = .number x := by
  unfold token at h
  split at h
  · exact ⟨_, (Except.ok.inj h).symm⟩
  · exact nomatch h

end Run

theorem map_eq_ok_iff {α β : Type} {x : Except Error α} {f : α → β} {b : β} :
    x.map f = .ok b ↔ ∃ a, x = .ok a ∧ f a = b := by
  cases x with
  | error err => exact iff_of_false nofun nofun
  | ok a => exact ⟨fun h => ⟨a, rfl, Except.ok.inj h⟩, fun ⟨_, ha, h⟩ => Except.ok.inj ha ▸ h ▸ rfl⟩

namespace Token

/-- Where a number cannot go on it ends, and what follows is read as outside numbers. -/
theorem scanFrom_some_cons_of_not_extend? {r : Run} {b : UInt8}
    (h : r.extend? (Char.ofNat b.toNat) = none) (bs : List UInt8) : scanFrom (some r) (b :: bs) =
      r.token.bind fun x => (scanFrom none (b :: bs)).map (x :: ·) := by
  cases hstart : Run.start? (Char.ofNat b.toNat) with
  | some r' =>
    simp only [scanFrom, h, hstart]
    cases r.token <;> cases scanFrom (some r') bs <;> rfl
  | none =>
    simp only [scanFrom, h, hstart]
    cases r.token <;> cases scanFrom none bs <;> rfl

/-! Scanning ASCII text -/

def Ascii (t : Text) : Prop := ∀ c ∈ t, c.isAscii = true

theorem Ascii.unspaced {t : Text} (h : Ascii t) : Ascii (unspaced t) :=
  fun c hc => h c (List.mem_filter.1 hc).1

theorem bytes_cons_of_isAscii {c : Char} (h : c.isAscii = true) (t : Text) :
    Text.bytes (c :: t) = c.toUInt8 :: Text.bytes t ∧ Char.ofNat c.toUInt8.toNat = c := by
  have hle : c.toNat ≤ 0x7f := Nat.le_of_lt_succ (of_decide_eq_true h)
  rw [Text.bytes_cons, Text.utf8EncodeChar_of_le hle, Text.toNat_toUInt8_of_le hle,
    Char.ofNat_toNat]
  exact ⟨rfl, rfl⟩

/-- The tokens of an ASCII character outside numbers. -/
theorem ofByte_of_isSkipped {c : Char} (h : c.isAscii = true) (hc : isSkipped c = true) :
    ofByte c.toUInt8 = [] := by
  simp [ofByte, (bytes_cons_of_isAscii h []).2, hc]

section Steps
variable {c : Char} {r r' : Run}

theorem scanFrom_none_of_start? (hc : c.isAscii = true) (h : Run.start? c = some r) (t : Text) :
    scanFrom none (Text.bytes (c :: t)) = scanFrom (some r) (Text.bytes t) := by
  obtain ⟨hbytes, hchar⟩ := bytes_cons_of_isAscii hc t
  simp only [hbytes, scanFrom, hchar, h]

theorem scanFrom_none_of_not_start? (hc : c.isAscii = true) (h : Run.start? c = none) (t : Text) :
    scanFrom none (Text.bytes (c :: t)) =
      (scanFrom none (Text.bytes t)).map (ofByte c.toUInt8 ++ ·) := by
  obtain ⟨hbytes, hchar⟩ := bytes_cons_of_isAscii hc t
  simp only [hbytes, scanFrom, hchar, h]

theorem scanFrom_some_of_extend? (hc : c.isAscii = true) (h : r.extend? c = some r') (t : Text) :
    scanFrom (some r) (Text.bytes (c :: t)) = scanFrom (some r') (Text.bytes t) := by
  obtain ⟨hbytes, hchar⟩ := bytes_cons_of_isAscii hc t
  simp only [hbytes, scanFrom, hchar, h]

theorem scanFrom_some_of_not_extend? (hc : c.isAscii = true) (h : r.extend? c = none) (t : Text) :
    scanFrom (some r) (Text.bytes (c :: t)) =
      r.token.bind fun x => (scanFrom none (Text.bytes (c :: t))).map (x :: ·) := by
  obtain ⟨hbytes, hchar⟩ := bytes_cons_of_isAscii hc t
  rw [hbytes]
  exact scanFrom_some_cons_of_not_extend? (hchar.symm ▸ h) _

theorem scanFrom_none_of_isSkipped (hc : c.isAscii = true) (h : isSkipped c = true) (t : Text) :
    scanFrom none (Text.bytes (c :: t)) = scanFrom none (Text.bytes t) := by
  rw [scanFrom_none_of_not_start? hc (Run.start?_of_not_isNumeral (not_isNumeral_of_isSkipped h)),
    ofByte_of_isSkipped hc h]
  cases scanFrom none (Text.bytes t) <;> rfl

end Steps

/-- A number ends where no character of a number follows. -/
theorem scanFrom_some_of_not_isNumeral {t : Text} (ht : Ascii t)
    (h : ∀ c ∈ t.head?, isNumeral c = false) (r : Run) : scanFrom (some r) (Text.bytes t) =
      r.token.bind fun x => (scanFrom none (Text.bytes t)).map (x :: ·) := by
  cases t with
  | nil => cases htoken : r.token <;> simp [Text.bytes, scanFrom, htoken, Except.map, Except.bind]
  | cons c t =>
    exact scanFrom_some_of_not_extend? (ht c (List.mem_cons_self ..))
      (Run.extend?_of_not_isNumeral (h c rfl) r) t

/-- Blanks that interrupt no number make no difference to the tokens. -/
theorem scanFrom_unspaced {t : Text} (ht : Ascii t) (hgap : ¬Gapped t) {run : Option Run}
    (hrun : run.isSome = true → ¬Interrupts t) :
    scanFrom run (Text.bytes (unspaced t)) = scanFrom run (Text.bytes t) := by
  induction t generalizing run with
  | nil => rfl
  | cons c t ih =>
    obtain ⟨hc, ht⟩ : c.isAscii = true ∧ Ascii t := List.forall_mem_cons.1 ht
    have hgap' : ¬Gapped t := fun h => hgap (h.cons c)
    have hoff : scanFrom none (Text.bytes (unspaced t)) = scanFrom none (Text.bytes t) :=
      ih ht hgap' fun h => nomatch h
    by_cases hskipped : isSkipped c = true
    · have hcons := scanFrom_none_of_isSkipped hc hskipped t
      rw [unspaced_cons_of_isSkipped hskipped]
      cases run with
      | none => rw [hoff, hcons]
      | some r =>
        have hhead := not_isNumeral_head?_unspaced hskipped (hrun rfl)
        have hextend := Run.extend?_of_not_isNumeral (not_isNumeral_of_isSkipped hskipped) r
        rw [scanFrom_some_of_not_isNumeral ht.unspaced hhead, hoff,
          scanFrom_some_of_not_extend? hc hextend, hcons]
    · have hon {r : Run} (hnumeral : isNumeral c = true) :
          scanFrom (some r) (Text.bytes (unspaced t)) = scanFrom (some r) (Text.bytes t) :=
        ih ht hgap' fun _ h => hgap (gapped_cons_of_interrupts hnumeral h)
      have hnone : scanFrom none (Text.bytes (c :: unspaced t)) =
          scanFrom none (Text.bytes (c :: t)) := by
        cases hstart : Run.start? c with
        | none =>
          rw [scanFrom_none_of_not_start? hc hstart, scanFrom_none_of_not_start? hc hstart, hoff]
        | some r =>
          rw [scanFrom_none_of_start? hc hstart, scanFrom_none_of_start? hc hstart,
            hon (Run.isNumeral_of_start? hstart)]
      rw [unspaced_cons_of_not_isSkipped (eq_false_of_ne_true hskipped)]
      cases run with
      | none => exact hnone
      | some r =>
        cases hextend : r.extend? c with
        | none =>
          rw [scanFrom_some_of_not_extend? hc hextend, scanFrom_some_of_not_extend? hc hextend,
            hnone]
        | some r' =>
          rw [scanFrom_some_of_extend? hc hextend, scanFrom_some_of_extend? hc hextend,
            hon (Run.isNumeral_of_extend? hextend)]

/-! Numbers that blanks part -/

/-- A character leaves some tokens behind it and some way for the scan to go on, inside a number if
it is one of a number. -/
theorem exists_of_scanFrom_cons {c : Char} (hc : c.isAscii = true) {run : Option Run} {t : Text}
    {ts : List Token} (h : scanFrom run (Text.bytes (c :: t)) = .ok ts) :
    ∃ us run' vs, ts = us ++ vs ∧ scanFrom run' (Text.bytes t) = .ok vs ∧
      (isNumeral c = true → run'.isSome = true) := by
  have hnone {ts : List Token} (h : scanFrom none (Text.bytes (c :: t)) = .ok ts) :
      ∃ us run' vs, ts = us ++ vs ∧ scanFrom run' (Text.bytes t) = .ok vs ∧
        (isNumeral c = true → run'.isSome = true) := by
    cases hstart : Run.start? c with
    | some r =>
      rw [scanFrom_none_of_start? hc hstart] at h
      exact ⟨[], some r, ts, rfl, h, fun _ => rfl⟩
    | none =>
      rw [scanFrom_none_of_not_start? hc hstart] at h
      obtain ⟨vs, hvs, rfl⟩ := map_eq_ok_iff.1 h
      refine ⟨_, none, vs, rfl, hvs, fun hnumeral => ?_⟩
      obtain ⟨r, hr⟩ := Run.exists_start? hnumeral
      rw [hr] at hstart
      exact nomatch hstart
  cases run with
  | none => exact hnone h
  | some r =>
    cases hextend : r.extend? c with
    | some r' =>
      rw [scanFrom_some_of_extend? hc hextend] at h
      exact ⟨[], some r', ts, rfl, h, fun _ => rfl⟩
    | none =>
      rw [scanFrom_some_of_not_extend? hc hextend] at h
      obtain ⟨x, _, hx⟩ := bind_eq_ok_iff.1 h
      obtain ⟨ts', hts, rfl⟩ := map_eq_ok_iff.1 hx
      obtain ⟨us, run', vs, rfl, hvs, hrun⟩ := hnone hts
      exact ⟨x :: us, run', vs, rfl, hvs, hrun⟩

theorem exists_of_scanFrom_append {s t : Text} (hs : Ascii s) {run : Option Run} {ts : List Token}
    (h : scanFrom run (Text.bytes (s ++ t)) = .ok ts) :
    ∃ us run' vs, ts = us ++ vs ∧ scanFrom run' (Text.bytes t) = .ok vs := by
  induction s generalizing run ts with
  | nil => exact ⟨[], run, ts, rfl, h⟩
  | cons c s ih =>
    obtain ⟨hc, hs⟩ := List.forall_mem_cons.1 hs
    obtain ⟨us, run', vs, rfl, hvs, _⟩ := exists_of_scanFrom_cons hc h
    obtain ⟨us', run'', ws, rfl, hws⟩ := ih hs hvs
    exact ⟨us ++ us', run'', ws, (List.append_assoc ..).symm, hws⟩

/-- A number under way is the first token to come. -/
theorem exists_number_of_scanFrom_some {t : Text} (ht : Ascii t) {r : Run} {ts : List Token}
    (h : scanFrom (some r) (Text.bytes t) = .ok ts) : ∃ x us, ts = .number x :: us := by
  induction t generalizing r with
  | nil =>
    obtain ⟨x, hx, rfl⟩ := map_eq_ok_iff.1 h
    obtain ⟨d, rfl⟩ := Run.exists_number_of_token hx
    exact ⟨d, [], rfl⟩
  | cons c t ih =>
    obtain ⟨hc, ht⟩ := List.forall_mem_cons.1 ht
    cases hextend : r.extend? c with
    | some r' =>
      rw [scanFrom_some_of_extend? hc hextend] at h
      exact ih ht h
    | none =>
      rw [scanFrom_some_of_not_extend? hc hextend] at h
      obtain ⟨x, hx, hts⟩ := bind_eq_ok_iff.1 h
      obtain ⟨us, _, rfl⟩ := map_eq_ok_iff.1 hts
      obtain ⟨d, rfl⟩ := Run.exists_number_of_token hx
      exact ⟨d, us, rfl⟩

theorem scanFrom_none_append_of_isSkipped {gap : Text} (hascii : Ascii gap)
    (hgap : ∀ b ∈ gap, isSkipped b = true) (t : Text) :
    scanFrom none (Text.bytes (gap ++ t)) = scanFrom none (Text.bytes t) := by
  induction gap with
  | nil => rfl
  | cons b gap ih =>
    obtain ⟨hb, hascii⟩ := List.forall_mem_cons.1 hascii
    obtain ⟨hskipped, hgap⟩ := List.forall_mem_cons.1 hgap
    rw [List.cons_append, scanFrom_none_of_isSkipped hb hskipped, ih hascii hgap]

/-- Blanks that interrupt a number make two of it. -/
theorem exists_numbers_of_interrupts {t : Text} (ht : Ascii t) (h : Interrupts t) {r : Run}
    {ts : List Token} (hscan : scanFrom (some r) (Text.bytes t) = .ok ts) :
    ∃ x y us, ts = .number x :: .number y :: us := by
  obtain ⟨gap, c, rest, rfl, hne, hgap, hc⟩ := h
  obtain ⟨hascii, hrest⟩ : Ascii gap ∧ Ascii (c :: rest) := List.forall_mem_append.1 ht
  obtain ⟨b, gap', hcons⟩ := List.exists_cons_of_ne_nil hne
  have hhead : ∀ e ∈ (gap ++ c :: rest).head?, isNumeral e = false := by
    rw [hcons]
    rintro e ⟨⟩
    exact not_isNumeral_of_isSkipped (hgap b (hcons ▸ List.mem_cons_self ..))
  rw [scanFrom_some_of_not_isNumeral ht hhead] at hscan
  obtain ⟨x, hx, hts⟩ := bind_eq_ok_iff.1 hscan
  obtain ⟨us, hus, rfl⟩ := map_eq_ok_iff.1 hts
  obtain ⟨d, rfl⟩ := Run.exists_number_of_token hx
  obtain ⟨hcascii, hrest⟩ := List.forall_mem_cons.1 hrest
  obtain ⟨r', hr'⟩ := Run.exists_start? hc
  rw [scanFrom_none_append_of_isSkipped hascii hgap, scanFrom_none_of_start? hcascii hr'] at hus
  obtain ⟨e, vs, rfl⟩ := exists_number_of_scanFrom_some hrest hus
  exact ⟨d, e, vs, rfl⟩

theorem exists_numbers_of_gapped {t : Text} (ht : Ascii t) (h : Gapped t) {ts : List Token}
    (hscan : scan t = .ok ts) : ∃ us x y vs, ts = us ++ .number x :: .number y :: vs := by
  obtain ⟨before, c, rest, rfl, hc, hrest⟩ := h
  obtain ⟨hbefore, hcons⟩ : Ascii before ∧ Ascii (c :: rest) := List.forall_mem_append.1 ht
  obtain ⟨hcascii, hascii⟩ := List.forall_mem_cons.1 hcons
  obtain ⟨us, run, vs, rfl, hvs⟩ := exists_of_scanFrom_append hbefore hscan
  obtain ⟨us', run', ws, rfl, hws, hrun⟩ := exists_of_scanFrom_cons hcascii hvs
  obtain ⟨r, rfl⟩ := Option.isSome_iff_exists.1 (hrun hc)
  obtain ⟨x, y, xs, rfl⟩ := exists_numbers_of_interrupts hascii hrest hws
  exact ⟨us ++ us', x, y, xs, (List.append_assoc ..).symm⟩

end Token

namespace ParseState

/-- No expression has two numbers next to each other. -/
theorem run_numbers_ne_ok (us vs : List Token) (x y : Double) (s s' : ParseState) :
    s.run (us ++ .number x :: .number y :: vs) ≠ .ok s' := by
  intro h
  rw [run_append] at h
  obtain ⟨s₁, _, h₁⟩ := bind_eq_ok_iff.1 h
  rw [run_cons] at h₁
  obtain ⟨s₂, hstep, h₂⟩ := bind_eq_ok_iff.1 h₁
  cases s₁ with
  | operand f outer =>
    obtain rfl := Except.ok.inj hstep
    exact nomatch h₂
  | term sum e outer => exact nomatch hstep

end ParseState

namespace Expr
open Token (Ascii)

theorem evalText_eq (source : Text) :
    evalText source = ((Token.scan source).bind ofTokens).bind eval := rfl

theorem evalText_unspaced {t : Text} (ht : Ascii t) (h : ¬Gapped t) :
    evalText (unspaced t) = evalText t := by
  have hscan : Token.scan (unspaced t) = Token.scan t :=
    Token.scanFrom_unspaced ht h fun hnone => nomatch hnone
  rw [evalText_eq, hscan, ← evalText_eq]

theorem exists_error_of_gapped {t : Text} (ht : Ascii t) (h : Gapped t) :
    ∃ err, evalText t = .error err := by
  cases heval : evalText t with
  | error err => exact ⟨err, rfl⟩
  | ok x =>
    obtain ⟨e, hparse, _⟩ := bind_eq_ok_iff.1 heval
    obtain ⟨ts, hscan, htokens⟩ := bind_eq_ok_iff.1 hparse
    obtain ⟨us, x, y, vs, rfl⟩ := Token.exists_numbers_of_gapped ht h hscan
    obtain ⟨s, hrun, _⟩ := bind_eq_ok_iff.1 htokens
    exact (ParseState.run_numbers_ne_ok us vs x y _ s hrun).elim

end Expr
end StyleCalls.Arith
