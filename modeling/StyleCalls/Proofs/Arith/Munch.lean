import StyleCalls.Proofs.Arith.Blanks
import StyleCalls.Proofs.Decimal.Longest
import StyleCalls.Proofs.Nesting.Close

/-! What becomes of the bytes of a source. Each of them belongs to one piece: a blank, a byte that
stands for itself, or as long a run of digits with at most one point as can be had from where it
begins. Each piece but the blanks is one token, and a point alone is the only one that is none. -/

namespace StyleCalls.Arith
open Decimal (IsRun)
open Nesting (ofBytes)

/-! Runs of digits as they grow -/

namespace Run

/-- Nothing but digits on either side of the point. -/
structure Digital (r : Run) : Prop where
  whole : ∀ c ∈ r.whole, Decimal.isDigit c = true
  fraction : ∀ ds ∈ r.fraction, ∀ c ∈ ds, Decimal.isDigit c = true

variable {r r' : Run} {c : Char}

theorem Digital.isRun (h : r.Digital) : IsRun r.text := by
  rcases r with ⟨ds, _ | es⟩
  · exact Decimal.isRun_of_digits h.whole
  · exact Decimal.isRun_pointed h.whole (h.fraction es rfl)

theorem Digital.readRun_text (h : r.Digital) :
    Decimal.readRun r.text = (r.whole, r.fraction.getD [], []) := by
  rcases r with ⟨ds, _ | es⟩
  · exact Decimal.readRun_whole h.whole
  · exact Decimal.readRun_pointed h.whole (h.fraction es rfl)

theorem digital_of_start? (h : start? c = some r) : r.Digital ∧ r.text = [c] := by
  unfold start? at h
  split at h
  · next hdigit =>
    obtain rfl := Option.some.inj h
    exact ⟨⟨List.forall_mem_singleton.2 hdigit, nofun⟩, rfl⟩
  · obtain ⟨rfl, h⟩ := Option.ite_none_right_eq_some.1 h
    obtain rfl := Option.some.inj h
    exact ⟨⟨List.forall_mem_nil _, fun ds hds => Option.some.inj hds ▸ List.forall_mem_nil _⟩, rfl⟩

theorem Digital.extend? (hr : r.Digital) (h : r.extend? c = some r') :
    r'.Digital ∧ r'.text = r.text ++ [c] := by
  rcases r with ⟨ds, _ | es⟩
  · simp only [Run.extend?] at h
    split at h
    · next hdigit =>
      obtain rfl := Option.some.inj h
      exact ⟨⟨List.forall_mem_append.2 ⟨hr.whole, List.forall_mem_singleton.2 hdigit⟩,
        hr.fraction⟩, rfl⟩
    · obtain ⟨rfl, h⟩ := Option.ite_none_right_eq_some.1 h
      obtain rfl := Option.some.inj h
      exact ⟨⟨hr.whole, fun ds hds => Option.some.inj hds ▸ List.forall_mem_nil _⟩, rfl⟩
  · obtain ⟨hdigit, h⟩ := Option.ite_none_right_eq_some.1 h
    obtain rfl := Option.some.inj h
    refine ⟨⟨hr.whole, fun fs hfs => ?_⟩, by simp [text]⟩
    obtain rfl := Option.some.inj hfs
    exact List.forall_mem_append.2 ⟨hr.fraction es rfl, List.forall_mem_singleton.2 hdigit⟩

/-- A run that cannot be extended would be none with the character behind it. -/
theorem not_isRun_of_extend?_eq_none (h : r.extend? c = none) : ¬IsRun (r.text ++ [c]) := by
  intro hrun
  rcases r with ⟨ds, _ | es⟩
  · rcases hrun.mem c (by simp) with hdigit | rfl
    · simp [Run.extend?, hdigit] at h
    · simp [Run.extend?, Decimal.isDigit] at h
  · rcases hrun.mem c (by simp) with hdigit | rfl
    · simp [Run.extend?, hdigit] at h
    · have hcount := hrun.count_le
      simp only [text, List.append_assoc, List.cons_append, List.count_append,
        List.count_cons_self] at hcount
      omega

theorem exists_extend?_of_isRun (h : IsRun (r.text ++ [c])) : ∃ r', r.extend? c = some r' :=
  Option.ne_none_iff_exists'.1 fun hnone => not_isRun_of_extend?_eq_none hnone h

end Run

namespace Token

/-- The token of a numeral, read as a whole. -/
def ofNumeral (t : Text) : Except Error Token :=
  match Decimal.read? t with
  | some d => .ok (.number d.toBinary)
  | none => .error (.invalidNumber t)

theorem read?_of_isRun {t : Text} (h : IsRun t) (hne : t ≠ []) :
    Decimal.read? t = Decimal.ofRun? false (Decimal.readRun t).1 (Decimal.readRun t).2.1 0 := by
  have hunsigned := Decimal.unsigned_of_isRun h hne []
  rw [List.append_nil] at hunsigned
  have hsign := Decimal.readSign_append_of_mem (s := []) (by decide) hunsigned
  rw [List.nil_append] at hsign
  rw [Decimal.read?, hsign]
  dsimp only
  rw [Decimal.readRun_of_isRun h]
  rfl

theorem token_eq_ofNumeral {r : Run} (h : r.Digital) (hne : r.text ≠ []) :
    r.token = ofNumeral r.text := by
  rw [ofNumeral, read?_of_isRun h.isRun hne, h.readRun_text]
  rfl

/-- Only a point alone is no number. -/
theorem ofNumeral_cases {t : Text} (h : IsRun t) (hne : t ≠ []) :
    (t = ['.'] ∧ ofNumeral t = .error (.invalidNumber ['.'])) ∨
      (t ≠ ['.'] ∧ ∃ d, Decimal.read? t = some d ∧ ofNumeral t = .ok (.number d.toBinary)) := by
  by_cases hpoint : t = ['.']
  · rw [hpoint]
    exact .inl ⟨rfl, rfl⟩
  · obtain ⟨d, hd⟩ : ∃ d, Decimal.read? t = some d := by
      rw [read?_of_isRun h hne]
      refine Option.ne_none_iff_exists'.1 fun hnone => ?_
      have hdigit := (Decimal.ofRun?_readRun_eq_none_iff h _ _).1 hnone
      have hall : ∀ c ∈ t, c = '.' :=
        fun c hc => (h.mem c hc).resolve_left fun hc' => hdigit ⟨c, hc, hc'⟩
      have hreplicate := List.eq_replicate_iff.2 ⟨rfl, hall⟩
      have hcount := h.count_le
      rw [hreplicate, List.count_replicate_self] at hcount
      have hpos := List.length_pos_iff.2 hne
      have hone : t.length = 1 := by omega
      rw [hone] at hreplicate
      exact hpoint hreplicate
    exact .inr ⟨hpoint, d, hd, by rw [ofNumeral, hd]⟩

/-! Pieces -/

/-- A piece of the source. -/
inductive Piece where
  | blank (b : UInt8)
  | number (numeral : List UInt8)
  | single (b : UInt8)
deriving DecidableEq

def Piece.bytes : Piece → List UInt8
  | blank b => [b]
  | number n => n
  | single b => [b]

def Piece.isBlank : Piece → Bool
  | blank _ => true
  | _ => false

/-- From left to right: blanks, the longest runs of digits with at most one point, and all other
bytes one by one. -/
inductive CutInto : List UInt8 → List Piece → Prop where
  | nil : CutInto [] []
  | blank {b bs ps} : isSkipped (Char.ofNat b.toNat) = true → CutInto bs ps →
      CutInto (b :: bs) (.blank b :: ps)
  | number {n bs ps} : n ≠ [] → Longest (fun q => IsRun (ofBytes q)) n (n ++ bs) → CutInto bs ps →
      CutInto (n ++ bs) (.number n :: ps)
  | single {b bs ps} : isSkipped (Char.ofNat b.toNat) = false →
      isNumeral (Char.ofNat b.toNat) = false → CutInto bs ps → CutInto (b :: bs) (.single b :: ps)

/-- The token that a piece stands for. -/
inductive Reads : Piece → Token → Prop where
  | number {n d} : Decimal.read? (ofBytes n) = some d → Reads (.number n) (.number d.toBinary)
  | single {b t} : ofByte b = [t] → Reads (.single b) t

theorem ofBytes_append (bs bs' : List UInt8) : ofBytes (bs ++ bs') = ofBytes bs ++ ofBytes bs' :=
  List.map_append

theorem isRun_of_begins {p q : List UInt8} (hq : q <+: p) (h : IsRun (ofBytes p)) :
    IsRun (ofBytes q) := h.of_begins (hq.map _)

theorem isNumeral_of_isRun_cons {c : Char} {t : Text} (h : IsRun (c :: t)) : isNumeral c = true := by
  simpa [isNumeral] using h.mem c (List.mem_cons_self ..)

theorem isRun_singleton_of_isNumeral {c : Char} (h : isNumeral c = true) : IsRun [c] where
  mem := List.forall_mem_singleton.2 (by simpa [isNumeral] using h)
  count_le := List.count_le_length

/-- The longest run can be had from every digit and every point. -/
theorem exists_longest {b : UInt8} (h : isNumeral (Char.ofNat b.toNat) = true) (bs : List UInt8) :
    ∃ n rest, b :: bs = n ++ rest ∧ n ≠ [] ∧ Longest (fun q => IsRun (ofBytes q)) n (n ++ rest) := by
  obtain ⟨r, hr, hrun, _, hstop⟩ := Decimal.exists_run_eq (ofBytes (b :: bs))
  obtain ⟨n, rest, hsplit, rfl, hrest⟩ := List.map_eq_append_iff.1 hr
  have hstop' : ∀ a ∈ rest.head?, ¬IsRun (ofBytes (n ++ [a])) := by
    intro a ha
    rw [ofBytes_append]
    refine hstop _ ?_
    rw [← hrest, List.head?_map, Option.mem_def.1 ha]
    rfl
  refine ⟨n, rest, hsplit, ?_, longest_append (fun _ _ => isRun_of_begins) hrun hstop'⟩
  rintro rfl
  have hone : IsRun (ofBytes [b]) := isRun_singleton_of_isNumeral h
  exact hstop' b (by rw [← List.nil_append rest, ← hsplit]; rfl) hone

theorem exists_cutInto (bs : List UInt8) : ∃ ps, CutInto bs ps := by
  induction hn : bs.length using Nat.strong_induction_on generalizing bs with
  | _ k ih =>
    cases bs with
    | nil => exact ⟨[], .nil⟩
    | cons b bs =>
      rw [List.length_cons] at hn
      cases hskipped : isSkipped (Char.ofNat b.toNat) with
      | true =>
        obtain ⟨ps, hps⟩ := ih bs.length (by omega) bs rfl
        exact ⟨_, .blank hskipped hps⟩
      | false =>
        cases hnumeral : isNumeral (Char.ofNat b.toNat) with
        | true =>
          obtain ⟨n, rest, hsplit, hne, hlongest⟩ := exists_longest hnumeral bs
          have hpos := List.length_pos_iff.2 hne
          have hlength := congrArg List.length hsplit
          rw [List.length_cons, List.length_append] at hlength
          obtain ⟨ps, hps⟩ := ih rest.length (by omega) rest rfl
          rw [hsplit]
          exact ⟨_, .number hne hlongest hps⟩
        | false =>
          obtain ⟨ps, hps⟩ := ih bs.length (by omega) bs rfl
          exact ⟨_, .single hskipped hnumeral hps⟩

/-- No byte is lost, none is read twice. -/
theorem CutInto.flatMap_bytes {bs : List UInt8} {ps : List Piece} (h : CutInto bs ps) :
    ps.flatMap Piece.bytes = bs := by
  induction h with
  | nil => rfl
  | blank _ _ ih => rw [List.flatMap_cons, ih]; rfl
  | number _ _ _ ih => rw [List.flatMap_cons, ih]; rfl
  | single _ _ _ ih => rw [List.flatMap_cons, ih]; rfl

theorem isNumeral_head {b : UInt8} {n bs : List UInt8} (hrun : IsRun (ofBytes n)) (hne : n ≠ [])
    {rest : List UInt8} (h : n ++ rest = b :: bs) : isNumeral (Char.ofNat b.toNat) = true := by
  cases n with
  | nil => exact absurd rfl hne
  | cons a n =>
    obtain rfl := (List.cons.inj h).1
    exact isNumeral_of_isRun_cons hrun

theorem CutInto.eq {bs : List UInt8} {ps qs : List Piece} (h : CutInto bs ps) (hq : CutInto bs qs) :
    qs = ps := by
  induction h generalizing qs with
  | nil =>
    generalize hnil : ([] : List UInt8) = bs at hq
    cases hq with
    | nil => rfl
    | blank => exact nomatch hnil
    | number hne => exact absurd (List.append_eq_nil_iff.1 hnil.symm).1 hne
    | single => exact nomatch hnil
  | @blank b bs ps hb _ ih =>
    have hnumeral := not_isNumeral_of_isSkipped hb
    generalize hcons : b :: bs = cs at hq
    cases hq with
    | nil => exact nomatch hcons
    | blank _ hq =>
      obtain ⟨rfl, rfl⟩ := List.cons.inj hcons
      rw [ih hq]
    | number hne hn =>
      exact Bool.noConfusion (hnumeral.symm.trans (isNumeral_head hn.holds hne hcons.symm))
    | single hb' =>
      obtain ⟨rfl, rfl⟩ := List.cons.inj hcons
      exact Bool.noConfusion (hb.symm.trans hb')
  | @number n bs ps hne hn _ ih =>
    generalize hcons : n ++ bs = cs at hq
    cases hq with
    | nil => exact absurd (List.append_eq_nil_iff.1 hcons).1 hne
    | blank hb =>
      have hnumeral := isNumeral_head hn.holds hne hcons
      exact Bool.noConfusion ((not_isNumeral_of_isSkipped hb).symm.trans hnumeral)
    | @number n' bs' qs hne' hn' hq =>
      -- each of the two is as long as the other
      have hle := hn.length_le n' (hcons ▸ hn'.begins) hn'.holds
      have hge := hn'.length_le n (hcons ▸ hn.begins) hn.holds
      obtain ⟨rfl, rfl⟩ := List.append_inj hcons (Nat.le_antisymm hge hle)
      rw [ih hq]
    | single _ hb =>
      exact Bool.noConfusion (hb.symm.trans (isNumeral_head hn.holds hne hcons))
  | @single b bs ps hb hb' _ ih =>
    generalize hcons : b :: bs = cs at hq
    cases hq with
    | nil => exact nomatch hcons
    | blank hskipped =>
      obtain ⟨rfl, rfl⟩ := List.cons.inj hcons
      exact Bool.noConfusion (hb.symm.trans hskipped)
    | number hne hn =>
      exact Bool.noConfusion (hb'.symm.trans (isNumeral_head hn.holds hne hcons.symm))
    | single _ _ hq =>
      obtain ⟨rfl, rfl⟩ := List.cons.inj hcons
      rw [ih hq]

/-! The scan -/

theorem scanFrom_some_append {r : Run} (hr : r.Digital) (hne : r.text ≠ []) {n : List UInt8}
    (hn : IsRun (r.text ++ ofBytes n)) {bs : List UInt8}
    (hstop : ∀ b ∈ bs.head?, ¬IsRun (r.text ++ ofBytes n ++ [Char.ofNat b.toNat])) :
    scanFrom (some r) (n ++ bs) = (ofNumeral (r.text ++ ofBytes n)).bind fun t =>
      (scanFrom none bs).map (t :: ·) := by
  induction n generalizing r with
  | nil =>
    have htoken := token_eq_ofNumeral hr hne
    rw [ofBytes, List.map_nil, List.append_nil] at hstop ⊢
    rw [← htoken, List.nil_append]
    cases bs with
    | nil => cases htoken : r.token <;> simp [scanFrom, htoken, Except.map, Except.bind]
    | cons b bs =>
      cases hextend : r.extend? (Char.ofNat b.toNat) with
      | none => exact scanFrom_some_cons_of_not_extend? hextend bs
      | some r' =>
        obtain ⟨hr', htext⟩ := hr.extend? hextend
        exact absurd (htext ▸ hr'.isRun) (hstop b rfl)
  | cons b n ih =>
    have hcons : r.text ++ ofBytes (b :: n) = (r.text ++ [Char.ofNat b.toNat]) ++ ofBytes n :=
      List.append_cons ..
    rw [hcons] at hn hstop ⊢
    obtain ⟨r', hextend⟩ := Run.exists_extend?_of_isRun (hn.of_begins (List.prefix_append _ _))
    obtain ⟨hr', htext⟩ := hr.extend? hextend
    rw [← htext] at hn hstop ⊢
    simp only [List.cons_append, scanFrom, hextend]
    exact ih hr' (by rw [htext]; simp) hn hstop

theorem not_isRun_of_longest {n bs : List UInt8}
    (h : Longest (fun q => IsRun (ofBytes q)) n (n ++ bs)) :
    ∀ b ∈ bs.head?, ¬IsRun (ofBytes n ++ [Char.ofNat b.toNat]) := by
  intro b hb hrun
  cases bs with
  | nil => exact absurd hb (Option.not_mem_none b)
  | cons a bs =>
    obtain rfl := Option.some.inj hb
    have hle := h.length_le (n ++ [a]) ⟨bs, by simp⟩ (by rw [ofBytes_append]; exact hrun)
    rw [List.length_append, List.length_singleton] at hle
    omega

/-- A number and all that follows it. -/
theorem scanFrom_none_append {n bs : List UInt8} (hne : n ≠ [])
    (h : Longest (fun q => IsRun (ofBytes q)) n (n ++ bs)) :
    scanFrom none (n ++ bs) =
      (ofNumeral (ofBytes n)).bind fun t => (scanFrom none bs).map (t :: ·) := by
  cases n with
  | nil => exact absurd rfl hne
  | cons b n =>
    have hcons : ofBytes (b :: n) = [Char.ofNat b.toNat] ++ ofBytes n := rfl
    have hstop := not_isRun_of_longest h
    have hrun : IsRun (ofBytes (b :: n)) := h.holds
    obtain ⟨r, hstart⟩ := Run.exists_start? (isNumeral_of_isRun_cons hrun)
    obtain ⟨hr, htext⟩ := Run.digital_of_start? hstart
    rw [hcons, ← htext] at hrun hstop ⊢
    simp only [List.cons_append, scanFrom, hstart]
    exact scanFrom_some_append hr (by rw [htext]; simp) hrun hstop

theorem scanFrom_none_cons_of_not_isNumeral {b : UInt8}
    (h : isNumeral (Char.ofNat b.toNat) = false) (bs : List UInt8) :
    scanFrom none (b :: bs) = (scanFrom none bs).map (ofByte b ++ ·) := by
  simp only [scanFrom, Run.start?_of_not_isNumeral h]

theorem ofByte_eq_nil {b : UInt8} (h : isSkipped (Char.ofNat b.toNat) = true) : ofByte b = [] := by
  simp [ofByte, h]

theorem exists_ofByte_eq {b : UInt8} (h : isSkipped (Char.ofNat b.toNat) = false) :
    ∃ t, ofByte b = [t] := by
  unfold ofByte
  dsimp only
  rw [if_neg (Bool.eq_false_iff.1 h)]
  split_ifs <;> exact ⟨_, rfl⟩

/-! One token after the other -/

/-- What is read next, with what follows it; nothing where only blanks are left. -/
def next? : List UInt8 → Except Error (Option (Token × List UInt8))
  | [] => .ok none
  | b :: bs =>
    if isSkipped (Char.ofNat b.toNat) then next? bs
    else if isNumeral (Char.ofNat b.toNat) then
      let rest := (Decimal.readRun (ofBytes (b :: bs))).2.2
      let length := (b :: bs).length - rest.length
      (ofNumeral (ofBytes ((b :: bs).take length))).map fun t => some (t, (b :: bs).drop length)
    else .ok ((ofByte b).head?.map fun t => (t, bs))

/-- Reading again and again gives these tokens, and the end behind them. -/
inductive Lexes : List UInt8 → List (Option Token) → Prop where
  | stop {bs} : next? bs = .ok none → Lexes bs [none]
  | more {bs t rest ls} : next? bs = .ok (some (t, rest)) → Lexes rest ls → Lexes bs (some t :: ls)

theorem Lexes.of_next?_eq {bs bs' : List UInt8} {ls : List (Option Token)} (h : Lexes bs ls)
    (heq : next? bs' = next? bs) : Lexes bs' ls := by
  cases h with
  | stop hstop => exact .stop (heq.trans hstop)
  | more hmore hrest => exact .more (heq.trans hmore) hrest

theorem next?_append {n bs : List UInt8} (hne : n ≠ [])
    (h : Longest (fun q => IsRun (ofBytes q)) n (n ++ bs)) :
    next? (n ++ bs) = (ofNumeral (ofBytes n)).map fun t => some (t, bs) := by
  have hlength : (n ++ bs).length - (Decimal.readRun (ofBytes (n ++ bs))).2.2.length = n.length := by
    obtain ⟨r, hr, hrun, _, hstop⟩ := Decimal.exists_run_eq (ofBytes (n ++ bs))
    have hlongest := Decimal.longest_run hrun hstop
    rw [← hr] at hlongest
    have hle := hlongest.length_le (ofBytes n) (h.begins.map _) h.holds
    obtain ⟨m, rest, hsplit, rfl, hrest⟩ := List.map_eq_append_iff.1 hr
    have hge := h.length_le m (hsplit ▸ List.prefix_append m rest) hrun
    rw [← hrest, hsplit, List.length_append, List.length_map]
    rw [ofBytes, List.length_map, List.length_map] at hle
    omega
  cases n with
  | nil => exact absurd rfl hne
  | cons b n =>
    have hnumeral : isNumeral (Char.ofNat b.toNat) = true :=
      isNumeral_of_isRun_cons h.holds
    have hskipped : isSkipped (Char.ofNat b.toNat) = false :=
      Bool.eq_false_iff.2 fun hb => Bool.noConfusion
        ((not_isNumeral_of_isSkipped hb).symm.trans hnumeral)
    rw [List.cons_append] at hlength ⊢
    rw [next?, if_neg (Bool.eq_false_iff.1 hskipped), if_pos hnumeral]
    dsimp only
    rw [hlength, ← List.cons_append, List.take_left, List.drop_left]

theorem CutInto.ne_point_of_notMem {n : List UInt8} {ps : List Piece}
    (h : .number ['.'.toUInt8] ∉ .number n :: ps) (hne : n ≠ []) : ofBytes n ≠ ['.'] := by
  intro heq
  cases n with
  | nil => exact hne rfl
  | cons b n =>
    obtain ⟨hb, hn⟩ := List.cons.inj heq
    obtain rfl := List.map_eq_nil_iff.1 hn
    have hbytes : ∀ k < 256, Char.ofNat k = '.' → k = '.'.toUInt8.toNat := by decide +kernel
    obtain rfl := UInt8.toNat_inj.1 (hbytes b.toNat b.toNat_lt hb)
    exact h (List.mem_cons_self ..)

/-- Where no piece is a point alone, every piece but the blanks is a token, and they are read one
after the other up to the end. -/
theorem CutInto.exists_tokens {bs : List UInt8} {ps : List Piece} (h : CutInto bs ps)
    (hpoint : .number ['.'.toUInt8] ∉ ps) : ∃ ts, scanFrom none bs = .ok ts ∧
      List.Forall₂ Reads (ps.filter (!·.isBlank)) ts ∧ Lexes bs (ts.map some ++ [none]) := by
  induction h with
  | nil => exact ⟨[], rfl, .nil, .stop rfl⟩
  | @blank b bs ps hb _ ih =>
    obtain ⟨ts, hts, hreads, hlexes⟩ := ih (List.not_mem_of_not_mem_cons hpoint)
    refine ⟨ts, ?_, hreads, hlexes.of_next?_eq (if_pos hb)⟩
    rw [scanFrom_none_cons_of_not_isNumeral (not_isNumeral_of_isSkipped hb), ofByte_eq_nil hb, hts]
    rfl
  | @number n bs ps hne hn _ ih =>
    obtain ⟨ts, hts, hreads, hlexes⟩ := ih (List.not_mem_of_not_mem_cons hpoint)
    have hnil : ofBytes n ≠ [] := fun hnil => hne (List.map_eq_nil_iff.1 hnil)
    obtain ⟨d, hd, htoken⟩ :=
      ((ofNumeral_cases hn.holds hnil).resolve_left fun hdot => ne_point_of_notMem hpoint hne hdot.1).2
    refine ⟨.number d.toBinary :: ts, ?_, .cons (.number hd) hreads, .more ?_ hlexes⟩
    · rw [scanFrom_none_append hne hn, htoken, hts]
      rfl
    · rw [next?_append hne hn, htoken]
      rfl
  | @single b bs ps hb hb' _ ih =>
    obtain ⟨ts, hts, hreads, hlexes⟩ := ih (List.not_mem_of_not_mem_cons hpoint)
    obtain ⟨t, ht⟩ := exists_ofByte_eq hb
    refine ⟨t :: ts, ?_, .cons (.single ht) hreads, .more ?_ hlexes⟩
    · rw [scanFrom_none_cons_of_not_isNumeral hb', ht, hts]
      rfl
    · rw [next?, if_neg (Bool.eq_false_iff.1 hb), if_neg (Bool.eq_false_iff.1 hb'), ht]
      rfl

theorem CutInto.scanFrom_eq_error {bs : List UInt8} {ps : List Piece} (h : CutInto bs ps)
    (hpoint : .number ['.'.toUInt8] ∈ ps) : scanFrom none bs = .error (.invalidNumber ['.']) := by
  induction h with
  | nil => exact absurd hpoint List.not_mem_nil
  | blank hb _ ih =>
    have hmem := (List.mem_cons.1 hpoint).resolve_left nofun
    rw [scanFrom_none_cons_of_not_isNumeral (not_isNumeral_of_isSkipped hb), ih hmem]
    rfl
  | @number n bs ps hne hn _ ih =>
    have hnil : ofBytes n ≠ [] := fun hnil => hne (List.map_eq_nil_iff.1 hnil)
    rw [scanFrom_none_append hne hn]
    rcases ofNumeral_cases hn.holds hnil with ⟨_, herror⟩ | ⟨hdot, d, _, htoken⟩
    · rw [herror]
      rfl
    · rcases List.mem_cons.1 hpoint with heq | hmem
      · obtain rfl := Piece.number.inj heq
        exact absurd (by decide) hdot
      · rw [htoken, ih hmem]
        rfl
  | single _ hb' _ ih =>
    have hmem := (List.mem_cons.1 hpoint).resolve_left nofun
    rw [scanFrom_none_cons_of_not_isNumeral hb', ih hmem]
    rfl

/-- A source has one cut into blanks, numbers as long as can be and single bytes. If one of the
numbers is a point alone, scanning fails with it, and it fails for no other reason; else each piece
but the blanks is read as one token, in their order, and then there is the end. -/
theorem scan_cutInto (source : Text) : ∃ ps, CutInto source.bytes ps ∧
    (∀ qs, CutInto source.bytes qs → qs = ps) ∧ ps.flatMap Piece.bytes = source.bytes ∧
    (∀ err, scan source = .error err ↔
      .number ['.'.toUInt8] ∈ ps ∧ err = .invalidNumber ['.']) ∧
    (.number ['.'.toUInt8] ∉ ps → ∃ ts, scan source = .ok ts ∧
      List.Forall₂ Reads (ps.filter (!·.isBlank)) ts ∧
      Lexes source.bytes (ts.map some ++ [none])) := by
  obtain ⟨ps, hps⟩ := exists_cutInto source.bytes
  refine ⟨ps, hps, fun qs => hps.eq, hps.flatMap_bytes, fun err => ?_, hps.exists_tokens⟩
  by_cases hpoint : .number ['.'.toUInt8] ∈ ps
  · rw [scan, hps.scanFrom_eq_error hpoint, Except.error.injEq, and_iff_right hpoint, eq_comm]
  · obtain ⟨ts, hts, _⟩ := hps.exists_tokens hpoint
    rw [scan, hts]
    exact iff_of_false nofun fun h => hpoint h.1

end Token
end StyleCalls.Arith
