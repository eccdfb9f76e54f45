import StyleCalls.Proofs.Engine.Tail
import StyleCalls.Proofs.Nesting.Depth

/-! Expansion as a recursion over nested calls. A call is its name, the expansion of its arguments
and a parenthesis, and behind that parenthesis the text goes on. As long as neither the text nor
what calls turn into has quotes, escapes or parentheses to upset the count, the engine does the
same from right to left. -/

namespace StyleCalls
variable {σ : Type}

namespace Engine
open Text Pattern

/-- Expands the calls of a text from left to right, and for each of them those in its arguments
first. A call that is never closed is left, and the text goes on behind its parenthesis. Where
functions keep something in mind they run in the order of the engine: what stands further right
runs before, and a call after those in its arguments. -/
def expandNested (e : Engine σ) (host : Host σ) (p : Pattern) (b : Option Char) (t : Text)
    (s : Setting σ) : Text × Setting σ :=
  match t with
  | [] => ([], s)
  | c :: t =>
    match p.accepted? b (c :: t) with
    | none =>
      let (out, s) := expandNested e host p (some c) t s
      (c :: out, s)
    | some m =>
      match _h : matching? 0 ((c :: t).drop m.length) with
      | none =>
        let (out, s) := expandNested e host p (some '(') ((c :: t).drop m.length) s
        (m.head ++ out, s)
      | some (args, after) =>
        let (out, s) := expandNested e host p (some ')') after s
        let (args, s) := expandNested e host p none args s
        let (value, s) := e.answer host m.name args s
        (m.lead ++ (value.getD (m.name ++ '(' :: (args ++ [')'])) ++ out), s)
termination_by t.length
decreasing_by
  · simp
  · simp only [List.length_drop, List.length_cons, Match.length]
    omega
  · have hlength := congrArg List.length (matching?_eq_some_iff.1 _h).1
    simp only [List.length_drop, List.length_cons, List.length_append, Match.length] at hlength ⊢
    omega
  · have hlength := congrArg List.length (matching?_eq_some_iff.1 _h).1
    simp only [List.length_drop, List.length_cons, List.length_append, Match.length] at hlength ⊢
    omega

section expandNested
variable {e : Engine σ} {host : Host σ} {p : Pattern} {b : Option Char}

theorem expandNested_nil (e : Engine σ) (host : Host σ) (p : Pattern) (b : Option Char)
    (s : Setting σ) : e.expandNested host p b [] s = ([], s) := by
  rw [expandNested]

theorem expandNested_pass {c : Char} {t : Text} (h : p.accepted? b (c :: t) = none)
    (s : Setting σ) : e.expandNested host p b (c :: t) s =
      (c :: (e.expandNested host p (some c) t s).1, (e.expandNested host p (some c) t s).2) := by
  rw [expandNested, h]

theorem exists_head_append_eq_cons (m : Match) (rest : Text) :
    ∃ c t, m.head ++ rest = c :: t ∧ (c :: t).drop m.length = rest := by
  obtain ⟨c, w, hw⟩ : ∃ c w, m.head = c :: w :=
    List.exists_cons_of_ne_nil (by simp [Match.head])
  refine ⟨c, w ++ rest, by rw [hw]; rfl, ?_⟩
  rw [← List.cons_append, ← hw, ← m.length_head, List.drop_left]

theorem expandNested_open {m : Match} {rest : Text}
    (h : p.accepted? b (m.head ++ rest) = some m) (hr : matching? 0 rest = none) (s : Setting σ) :
    e.expandNested host p b (m.head ++ rest) s =
      (m.head ++ (e.expandNested host p (some '(') rest s).1,
        (e.expandNested host p (some '(') rest s).2) := by
  obtain ⟨c, t, hct, hdrop⟩ := exists_head_append_eq_cons m rest
  rw [hct] at h ⊢
  rw [expandNested, h]
  dsimp only
  split
  · rw [hdrop]
  · next hm =>
    rw [hdrop, hr] at hm
    exact absurd hm (by simp)

theorem expandNested_closed {m : Match} {args after : Text}
    (h : p.accepted? b (m.head ++ (args ++ ')' :: after)) = some m)
    (hargs : depth? 0 args = some 0) (s : Setting σ) :
    e.expandNested host p b (m.head ++ (args ++ ')' :: after)) s =
      let r := e.expandNested host p (some ')') after s
      let a := e.expandNested host p none args r.2
      let v := e.answer host m.name a.1 a.2
      (m.lead ++ (v.1.getD (m.name ++ '(' :: (a.1 ++ [')'])) ++ r.1), v.2) := by
  have hr : matching? 0 (args ++ ')' :: after) = some (args, after) :=
    matching?_eq_some_iff.2 ⟨rfl, hargs⟩
  obtain ⟨c, t, hct, hdrop⟩ := exists_head_append_eq_cons m (args ++ ')' :: after)
  rw [hct] at h ⊢
  rw [expandNested, h]
  dsimp only
  split
  · next hm =>
    rw [hdrop, hr] at hm
    exact absurd hm (by simp)
  · next args' after' hm =>
    rw [hdrop, hr] at hm
    obtain ⟨rfl, rfl⟩ := Prod.mk.inj (Option.some.inj hm)
    rfl

theorem expandNested_congr {b' : Option Char} (h : isBoundary b = isBoundary b') (t : Text)
    (s : Setting σ) : e.expandNested host p b t s = e.expandNested host p b' t s := by
  cases t with
  | nil => rw [expandNested, expandNested]
  | cons c t => rw [expandNested, expandNested, accepted?_congr p _ h]

end expandNested

@[elab_as_elim]
theorem nest_induction (p : Pattern) {motive : Option Char → Text → Prop}
    (nil : ∀ b, motive b [])
    (pass : ∀ b c t, p.accepted? b (c :: t) = none → motive (some c) t → motive b (c :: t))
    (unclosed : ∀ b m rest, p.accepted? b (m.head ++ rest) = some m → matching? 0 rest = none →
      motive (some '(') rest → motive b (m.head ++ rest))
    (closed : ∀ b m args after, p.accepted? b (m.head ++ (args ++ ')' :: after)) = some m →
      depth? 0 args = some 0 → motive none args → motive (some ')') after →
      motive b (m.head ++ (args ++ ')' :: after)))
    (b : Option Char) (t : Text) : motive b t := by
  -- on the length, since a call takes several characters at once
  obtain ⟨n, hn⟩ : ∃ n, t.length ≤ n := ⟨_, Nat.le_refl _⟩
  induction n generalizing b t with
  | zero =>
    rw [List.length_eq_zero_iff.1 (Nat.le_zero.1 hn)]
    exact nil b
  | succ n ih =>
    cases t with
    | nil => exact nil b
    | cons c t =>
      cases h : p.accepted? b (c :: t) with
      | none => exact pass b c t h (ih _ _ (Nat.le_of_succ_le_succ hn))
      | some m =>
        obtain ⟨rest, hrest⟩ := exists_eq_head_append (match?_of_accepted? h)
        rw [hrest] at h hn ⊢
        rw [List.length_append, m.length_head, Match.length] at hn
        cases hr : matching? 0 rest with
        | none => exact unclosed b m rest h hr (ih _ _ (by omega))
        | some q =>
          obtain ⟨args, after⟩ := q
          obtain ⟨rfl, hargs⟩ := matching?_eq_some_iff.1 hr
          rw [List.length_append, List.length_cons] at hn
          exact closed b m args after h hargs (ih _ _ (by omega)) (ih _ _ (by omega))

/-! What calls turn into -/

/-- No function of the registry answers with a parenthesis, a quotation mark or a backslash. -/
def PlainAnswers (e : Engine σ) : Prop :=
  ∀ entry ∈ e.registry.entries.entries, ∀ host args s,
    Nesting.Plain (entry.2.invoke host args s).1

theorem plain_of_answer {e : Engine σ} (he : e.PlainAnswers) {host : Host σ}
    {name args value : Text} {s : Setting σ} (h : (e.answer host name args s).1 = some value) :
    Nesting.Plain value := by
  unfold answer at h
  cases hf : e.registry.resolve name e.config.ignoreCase with
  | some f =>
    obtain ⟨entry, hentry, rfl⟩ := exists_mem_of_resolve hf
    simp only [hf, Option.some_inj] at h
    exact h ▸ he entry hentry host args.trim (s.enter name)
  | none =>
    cases hu : e.config.unresolved with
    | remove =>
      simp only [hf, hu, Option.some_inj] at h
      simp [Nesting.Plain, ← h]
    | keep => simp [hf, hu] at h

theorem depth?_lead_append (m : Match) (depth : Nat) (t : Text) :
    depth? depth (m.lead ++ t) = depth? depth t := by
  have hlead : depth? depth m.lead = some depth := by
    unfold Match.lead
    split <;> exact depth?_of_notMem depth (by decide) (by decide)
  rw [depth?_append, hlead, Option.bind_some]

section
variable {p : Pattern} (hp : p.NoParens) {b : Option Char} {m : Match} {rest : Text}
  (h : p.accepted? b (m.head ++ rest) = some m)
include hp h

theorem depth?_name_append (depth : Nat) (t : Text) :
    depth? depth (m.name ++ '(' :: t) = depth? (depth + 1) t := by
  obtain ⟨ho, hc⟩ := notMem_name_of_match? hp (match?_of_accepted? h)
  have hopen : rise? depth '(' = some (depth + 1) := rfl
  rw [depth?_append, depth?_of_notMem depth ho hc, Option.bind_some, depth?_cons, hopen,
    Option.bind_some]

theorem depth?_head_append (depth : Nat) (t : Text) :
    depth? depth (m.head ++ t) = depth? (depth + 1) t := by
  rw [Match.head_append, depth?_lead_append, depth?_name_append hp h]

end

section
variable {e : Engine σ} (he : e.PlainAnswers) {p : Pattern} (hp : p.NoParens)
include he hp

theorem depth?_replacement {b : Option Char} {m : Match} {rest : Text}
    (h : p.accepted? b (m.head ++ rest) = some m) {args : Text} (hargs : depth? 0 args = some 0)
    (host : Host σ) (s : Setting σ) (depth : Nat) :
    depth? depth ((e.answer host m.name args s).1.getD (m.name ++ '(' :: (args ++ [')']))) =
      some depth := by
  cases hv : (e.answer host m.name args s).1 with
  | some value =>
    have hplain := plain_of_answer he hv
    exact depth?_of_notMem depth (hplain.notMem (by decide)) (hplain.notMem (by decide))
  | none =>
    rw [Option.getD_none, depth?_name_append hp h, depth?_append_close hargs]
    rfl

theorem depth?_expandNested (host : Host σ) (b : Option Char) (t : Text) (s : Setting σ)
    (depth : Nat) : depth? depth (e.expandNested host p b t s).1 = depth? depth t := by
  induction b, t using nest_induction p generalizing s depth with
  | nil b => rw [expandNested_nil]
  | pass b c t h ih =>
    rw [expandNested_pass h, depth?_cons, depth?_cons]
    simp only [ih]
  | unclosed b m rest h hr ih =>
    rw [expandNested_open h hr, depth?_head_append hp h, depth?_head_append hp h, ih]
  | closed b m args after h hargs iha ihr =>
    rw [expandNested_closed h hargs]
    dsimp only
    rw [depth?_lead_append, depth?_append,
      depth?_replacement he hp h (by rw [iha, hargs]), Option.bind_some, ihr]
    -- so the output counts like the text behind the call, and so does the text itself
    rw [depth?_head_append hp h, depth?_append_close hargs]

end

/-- In a text that closes all it opens no call reaches beyond a parenthesis that follows. -/
theorem expandNested_append_close (e : Engine σ) {p : Pattern} (hp : p.NoParens) (host : Host σ)
    (b : Option Char) {t : Text} {depth : Nat} (h : depth? depth t = some 0) (rest : Text)
    (s : Setting σ) : e.expandNested host p b (t ++ ')' :: rest) s =
      let r := e.expandNested host p (some ')') rest s
      let a := e.expandNested host p b t r.2
      (a.1 ++ ')' :: r.1, a.2) := by
  dsimp only
  induction b, t using nest_induction p generalizing s depth with
  | nil b =>
    have hnone : p.accepted? b (')' :: rest) = none :=
      (accepted?_append_close hp b [] rest).trans (accepted?_eq_none_of_match? b p.match?_nil)
    rw [List.nil_append, expandNested_pass hnone, expandNested_nil]
    rfl
  | pass b c t hc ih =>
    have hc' : p.accepted? b (c :: (t ++ ')' :: rest)) = none :=
      (accepted?_append_close hp b (c :: t) rest).trans hc
    rw [depth?_cons] at h
    obtain ⟨k, _, hk⟩ := Option.bind_eq_some_iff.1 h
    rw [List.cons_append, expandNested_pass hc', expandNested_pass hc, ih hk]
    rfl
  | unclosed b m u hm hr ih =>
    -- the parenthesis of this call would be left open
    obtain ⟨k, hk⟩ := matching?_eq_none_iff.1 hr
    have hadd := depth?_add hk (depth + 1)
    rw [Nat.zero_add, ← depth?_head_append hp hm, h] at hadd
    exact absurd (Option.some.inj hadd) (by omega)
  | closed b m args after hm hargs iha ihr =>
    rw [depth?_head_append hp hm, depth?_append_close hargs] at h
    have hm' : p.accepted? b (m.head ++ (args ++ ')' :: (after ++ ')' :: rest))) = some m :=
      accepted?_head_append hp hm _
    have hassoc : m.head ++ (args ++ ')' :: after) ++ ')' :: rest =
        m.head ++ (args ++ ')' :: (after ++ ')' :: rest)) := by simp
    rw [hassoc, expandNested_closed hm' hargs, expandNested_closed hm hargs]
    dsimp only
    rw [ihr h, List.append_assoc, List.append_assoc]

section
variable {e : Engine σ} (he : e.PlainAnswers) {p : Pattern}
include he

theorem unquoted_expandNested (host : Host σ) (b : Option Char) {t : Text} (ht : t.Unquoted)
    (s : Setting σ) : (e.expandNested host p b t s).1.Unquoted := by
  induction b, t using nest_induction p generalizing s with
  | nil b =>
    rw [expandNested_nil]
    exact ht
  | pass b c t h ih =>
    rw [expandNested_pass h]
    obtain ⟨hc, ht⟩ := unquoted_cons.1 ht
    exact unquoted_cons.2 ⟨hc, ih ht s⟩
  | unclosed b m rest h hr ih =>
    rw [expandNested_open h hr]
    obtain ⟨hm, hrest⟩ := unquoted_append.1 ht
    exact unquoted_append.2 ⟨hm, ih hrest s⟩
  | closed b m args after h hargs iha ihr =>
    rw [expandNested_closed h hargs]
    rw [Match.head_append, unquoted_append, unquoted_append, unquoted_cons, unquoted_append,
      unquoted_cons] at ht
    obtain ⟨hlead, hname, hopen, ha, hclose, hafter⟩ := ht
    refine unquoted_append.2 ⟨hlead, unquoted_append.2 ⟨?_, ihr hafter s⟩⟩
    generalize e.expandNested host p (some ')') after s = r
    cases hv : (e.answer host m.name (e.expandNested host p none args r.2).1
        (e.expandNested host p none args r.2).2).1 with
    | some value =>
      have hplain := plain_of_answer he hv
      intro c hc
      exact ⟨fun heq => hplain c hc (by rw [heq]; decide),
        fun heq => hplain c hc (by rw [heq]; decide), fun heq => hplain c hc (by rw [heq]; decide)⟩
    | none =>
      rw [Option.getD_none, unquoted_append, unquoted_cons, unquoted_append, unquoted_cons]
      exact ⟨hname, hopen, iha ha r.2, hclose, by simp [Unquoted]⟩

theorem expandFrom_eq_expandNested (hp : p.NoParens) (host : Host σ) (b : Option Char) {t : Text}
    (ht : t.Unquoted) (s : Setting σ) :
    e.expandFrom host p b t s = e.expandNested host p b t s := by
  induction b, t using p.scan_induction generalizing s with
  | nil b => rw [expandFrom_nil, expandNested_nil]
  | pass b c t h ih => rw [expandFrom_pass e host h, expandNested_pass h, ih (unquoted_cons.1 ht).2]
  | site b m rest h ih =>
    have hrest : rest.Unquoted := (unquoted_append.1 ht).2
    have hname : '(' ∉ m.name := (notMem_name_of_match? hp (match?_of_accepted? h)).1
    -- the parenthesis of the call is looked for in what the rest has turned into
    have hclose : Nesting.inGroup.close? (e.expandNested host p (some '(') rest s).1 =
        matching? 0 (e.expandNested host p (some '(') rest s).1 :=
      close?_eq_matching? (unquoted_expandNested he host (some '(') hrest s) 0
    rw [expandFrom_head_append e host h]
    dsimp only
    rw [ih hrest, expandSite_name_append e host hname, hclose]
    cases hr : matching? 0 rest with
    | none =>
      have hopen : matching? 0 (e.expandNested host p (some '(') rest s).1 = none := by
        rw [matching?_eq_none_iff, depth?_expandNested he hp]
        exact matching?_eq_none_iff.1 hr
      rw [hopen, expandNested_open h hr, Match.head_append]
    | some q =>
      obtain ⟨args, after⟩ := q
      obtain ⟨rfl, hargs⟩ := matching?_eq_some_iff.1 hr
      have hboundary : isBoundary (some '(') = isBoundary none := by decide
      have hsplit := e.expandNested_append_close hp host (some '(') hargs after s
      dsimp only at hsplit
      rw [expandNested_congr hboundary args] at hsplit
      have hmatch : matching? 0 (e.expandNested host p (some '(') (args ++ ')' :: after) s).1 =
          some ((e.expandNested host p none args (e.expandNested host p (some ')') after s).2).1,
            (e.expandNested host p (some ')') after s).1) := by
        rw [matching?_eq_some_iff, hsplit, depth?_expandNested he hp]
        exact ⟨rfl, hargs⟩
      -- both sides are now one answer to the same arguments, between the same texts
      rw [hmatch, expandNested_closed h hargs, hsplit]
      dsimp only
      rcases (e.answer host m.name _ _) with ⟨_ | value, s'⟩
      · simp
      · rfl

end

/-- Where functions answer plainly, expanding the sites from right to left, each time looking for
the parenthesis in a text that has changed already, is the recursion over nested calls. -/
theorem apply_eq_expandNested {e : Engine σ} (h : e.InStep) {p : Pattern}
    (hp : Pattern.ofNames? e.registry.patternNames = some p)
    (hparens : ∀ n ∈ e.registry.patternNames, '(' ∉ n ∧ ')' ∉ n) (he : e.PlainAnswers)
    (host : Host σ) {t : Text} (ht : t.Unquoted) (s : Setting σ) :
    e.apply host t s = (.ok (e.expandNested host p none t s).1, if '(' ∈ t then e.refresh else e,
      (e.expandNested host p none t s).2) := by
  have hnested := expandFrom_eq_expandNested he (noParens_of_ofNames? hp hparens) host none ht s
  rw [h.apply_eq hp, hnested]

/-- Counts its arguments under one name and repeats them without parentheses under another. -/
def plainSample : Engine Unit where
  registry :=
    { entries :=
        { entries :=
            [("n".toList, .parsedArgs fun _ args s => (List.replicate args.length 'I', s)),
              ("+".toList, .raw fun _ args s => ('+' :: args.filter (· ∉ Nesting.marks), s))]
          nodup_keys := by decide }
      retired := ["old".toList] }
  config := { unresolved := .keep }

theorem plainAnswers_plainSample : plainSample.PlainAnswers := by
  intro entry hentry host args s c hc
  simp only [plainSample, List.mem_cons, List.not_mem_nil, or_false] at hentry
  rcases hentry with rfl | rfl
  · rw [List.eq_of_mem_replicate hc]
    decide
  · rcases List.mem_cons.1 hc with rfl | hc
    · decide
    · simpa using (List.mem_filter.1 hc).2

theorem plainSample_apply :
    let t := "N(1) n( +(a,b), old(+(c)) ) n(+(d)".toList
    (plainSample.apply {} t ⟨none, {}, ()⟩).1 = .ok "N(1) III n(+d".toList ∧
      (plainSample.expandNested {} ⟨["n".toList, "old".toList], ["+".toList]⟩ none t
        ⟨none, {}, ()⟩).1 = "N(1) III n(+d".toList := by
  intro t
  -- the call in capitals finds no function, the last one no parenthesis
  have happly : (plainSample.apply {} t ⟨none, {}, ()⟩).1 = .ok "N(1) III n(+d".toList := by
    rfl
  have hnested := apply_eq_expandNested (inStep_of_compiled_eq_none (e := plainSample) rfl)
    (p := ⟨["n".toList, "old".toList], ["+".toList]⟩) (by rfl) (by decide)
    plainAnswers_plainSample {} (t := t) (by decide) ⟨none, {}, ()⟩
  rw [hnested] at happly
  refine ⟨?_, Except.ok.inj happly⟩
  rw [hnested]
  exact happly

end Engine
end StyleCalls
