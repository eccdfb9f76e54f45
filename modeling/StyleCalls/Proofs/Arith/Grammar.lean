import StyleCalls.Arith.Expr

/-! The grammar of expressions. The automaton takes for an expression just what the grammar derives,
and the grammar derives no two expressions from the same tokens. -/

namespace StyleCalls.Arith

inductive Phrase where
  | sum
  | product
  | signed
  | primary

/-- The tokens form a phrase that means the expression. -/
inductive Derives : Phrase → List Token → Expr → Prop where
  | ofProduct {ts e} : Derives .product ts e → Derives .sum ts e
  | add {ts us l r} : Derives .sum ts l → Derives .product us r →
      Derives .sum (ts ++ .plus :: us) (.binary .add l r)
  | sub {ts us l r} : Derives .sum ts l → Derives .product us r →
      Derives .sum (ts ++ .minus :: us) (.binary .sub l r)
  | ofSigned {ts e} : Derives .signed ts e → Derives .product ts e
  | mul {ts us l r} : Derives .product ts l → Derives .signed us r →
      Derives .product (ts ++ .star :: us) (.binary .mul l r)
  | div {ts us l r} : Derives .product ts l → Derives .signed us r →
      Derives .product (ts ++ .slash :: us) (.binary .div l r)
  | minus {ts e} : Derives .signed ts e → Derives .signed (.minus :: ts) (.neg e)
  | plus {ts e} : Derives .signed ts e → Derives .signed (.plus :: ts) e
  | ofPrimary {ts e} : Derives .primary ts e → Derives .signed ts e
  | number (x : Double) : Derives .primary [.number x] (.num x)
  | group {ts e} : Derives .sum ts e → Derives .primary (.leftParen :: (ts ++ [.rightParen])) e

theorem Derives.toSum {p : Phrase} {ts : List Token} {e : Expr} (h : Derives p ts e) :
    Derives .sum ts e :=
  match p with
  | .sum => h
  | .product => ofProduct h
  | .signed => ofProduct (ofSigned h)
  | .primary => ofProduct (ofSigned (ofPrimary h))

/-! Frames -/

namespace Frame

/-- What becomes of an operand in its place: its signs and the product it belongs to. -/
def apply (f : Frame) (e : Expr) : Expr := f.product.apply (Nat.repeat Expr.neg f.negations e)

def negate (f : Frame) : Frame := { f with negations := f.negations + 1 }

theorem repeat_neg_neg (n : Nat) (e : Expr) :
    Nat.repeat Expr.neg n e.neg = (Nat.repeat Expr.neg n e).neg := by
  induction n with
  | zero => rfl
  | succ n ih => exact congrArg Expr.neg ih

theorem apply_negate (f : Frame) (e : Expr) : f.negate.apply e = f.apply e.neg := by
  rw [apply, apply, repeat_neg_neg]
  rfl

end Frame

/-! What is derived is read -/

theorem bind_eq_ok_iff {α β : Type} {x : Except Error α} {f : α → Except Error β} {b : β} :
    x.bind f = .ok b ↔ ∃ a, x = .ok a ∧ f a = .ok b := by
  cases x with
  | error err => exact iff_of_false nofun nofun
  | ok a => exact ⟨fun h => ⟨a, rfl, h⟩, fun ⟨_, ha, h⟩ => Except.ok.inj ha ▸ h⟩

namespace ParseState

theorem complete_eq (f : Frame) (outer : List Frame) (e : Expr) :
    complete f outer e = term f.sum (f.apply e) outer := rfl

def run (s : ParseState) (ts : List Token) : Except Error ParseState := ts.foldlM step s

theorem run_cons (s : ParseState) (t : Token) (ts : List Token) :
    s.run (t :: ts) = (s.step t).bind (·.run ts) := List.foldlM_cons

theorem run_append (s : ParseState) (ts us : List Token) :
    s.run (ts ++ us) = (s.run ts).bind (·.run us) := List.foldlM_append

theorem run_append_of_ok {s s' : ParseState} {ts : List Token} (h : s.run ts = .ok s')
    (us : List Token) : s.run (ts ++ us) = s'.run us := by
  rw [run_append, h]
  rfl

/-- What a phrase does to the state before it. -/
def Takes (ts : List Token) (e : Expr) : Phrase → Prop
  | .sum => ∀ outer, ∃ s t, (operand .empty outer).run ts = .ok (term s t outer) ∧ s.apply t = e
  | .product => ∀ s outer, (operand ⟨s, none, 0⟩ outer).run ts = .ok (term s e outer)
  | .signed => ∀ f outer, (operand f outer).run ts = .ok (complete f outer e)
  | .primary => ∀ f outer, (operand f outer).run ts = .ok (complete f outer e)

theorem takes_of_derives {p : Phrase} {ts : List Token} {e : Expr} (h : Derives p ts e) :
    Takes ts e p := by
  induction h with
  | ofProduct _ ih => exact fun outer => ⟨none, _, ih none outer, rfl⟩
  | add _ _ ihl ihr =>
    intro outer
    obtain ⟨s, t, hrun, rfl⟩ := ihl outer
    exact ⟨_, _, (run_append_of_ok hrun _).trans (ihr _ outer), rfl⟩
  | sub _ _ ihl ihr =>
    intro outer
    obtain ⟨s, t, hrun, rfl⟩ := ihl outer
    exact ⟨_, _, (run_append_of_ok hrun _).trans (ihr _ outer), rfl⟩
  | ofSigned _ ih => exact fun s outer => ih ⟨s, none, 0⟩ outer
  | mul _ _ ihl ihr =>
    exact fun s outer => (run_append_of_ok (ihl s outer) _).trans (ihr ⟨s, some _, 0⟩ outer)
  | div _ _ ihl ihr =>
    exact fun s outer => (run_append_of_ok (ihl s outer) _).trans (ihr ⟨s, some _, 0⟩ outer)
  | minus _ ih =>
    intro f outer
    refine (ih f.negate outer).trans ?_
    rw [complete_eq, complete_eq, f.apply_negate]
    rfl
  | plus _ ih => exact ih
  | ofPrimary _ ih => exact ih
  | number x => exact fun f outer => rfl
  | group _ ih =>
    intro f outer
    obtain ⟨s, t, hrun, rfl⟩ := ih (f :: outer)
    exact run_append_of_ok hrun [.rightParen]

end ParseState

/-! What is read is derived -/

/-- Before a phrase of kind `q` the tokens begin one of kind `p`, which means what `f` makes of the
other. -/
def Leads (p q : Phrase) (ts : List Token) (f : Expr → Expr) : Prop :=
  ∀ us e, Derives q us e → Derives p (ts ++ us) (f e)

/-- The tokens of a frame stand before a product and then before a signed operand. -/
def Frame.Holds (f : Frame) (ts : List Token) : Prop :=
  ∃ us vs, ts = us ++ vs ∧ Leads .sum .product us f.sum.apply ∧ Leads .product .signed vs f.apply

theorem Frame.holds_empty : Frame.empty.Holds [] :=
  ⟨[], [], rfl, fun _ _ => .ofProduct, fun _ _ => .ofSigned⟩

theorem Frame.Holds.negate {f : Frame} {ts : List Token} (h : f.Holds ts) :
    f.negate.Holds (ts ++ [.minus]) := by
  obtain ⟨us, vs, rfl, hsum, hproduct⟩ := h
  refine ⟨us, vs ++ [.minus], List.append_assoc .., hsum, fun ws e he => ?_⟩
  rw [f.apply_negate, List.append_assoc]
  exact hproduct (.minus :: ws) e.neg (.minus he)

theorem Frame.Holds.plus {f : Frame} {ts : List Token} (h : f.Holds ts) :
    f.Holds (ts ++ [.plus]) := by
  obtain ⟨us, vs, rfl, hsum, hproduct⟩ := h
  refine ⟨us, vs ++ [.plus], List.append_assoc .., hsum, fun ws e he => ?_⟩
  rw [List.append_assoc]
  exact hproduct (.plus :: ws) e (.plus he)

/-- The tokens before a group under way: each frame and the parenthesis after it. -/
inductive Encloses : List Frame → List Token → Prop where
  | nil : Encloses [] []
  | cons {f outer ts us} : Encloses outer ts → f.Holds us →
      Encloses (f :: outer) (ts ++ us ++ [.leftParen])

namespace ParseState

/-- The tokens that a state stands for. -/
inductive Holds : ParseState → List Token → Prop where
  | operand {f outer ts us} : Encloses outer ts → f.Holds us → Holds (operand f outer) (ts ++ us)
  | term {s e outer ts us vs} : Encloses outer ts → Leads .sum .product us s.apply →
      Derives .product vs e → Holds (term s e outer) (ts ++ (us ++ vs))

theorem holds_start : start.Holds [] := .operand .nil Frame.holds_empty

theorem Holds.complete {f : Frame} {outer : List Frame} {ts us vs : List Token} {e : Expr}
    (houter : Encloses outer ts) (hf : f.Holds us) (he : Derives .primary vs e) :
    (complete f outer e).Holds (ts ++ us ++ vs) := by
  obtain ⟨ss, ps, rfl, hsum, hproduct⟩ := hf
  have hterm := Holds.term houter hsum (hproduct vs e (.ofPrimary he))
  rw [complete_eq]
  simpa only [List.append_assoc] using hterm

theorem Holds.step_operand {f : Frame} {outer : List Frame} {ts us : List Token}
    (houter : Encloses outer ts) (hf : f.Holds us) {t : Token} {s : ParseState}
    (hstep : (ParseState.operand f outer).step t = .ok s) : s.Holds (ts ++ us ++ [t]) := by
  cases t <;> simp only [step, reduceCtorEq, Except.ok.injEq] at hstep <;> subst hstep
  case number x => exact .complete houter hf (.number x)
  case plus =>
    rw [List.append_assoc]
    exact .operand houter hf.plus
  case minus =>
    rw [List.append_assoc]
    exact .operand houter hf.negate
  case leftParen =>
    have hopen := Holds.operand (.cons houter hf) Frame.holds_empty
    rwa [List.append_nil] at hopen

theorem Holds.step_term {sum : Pending} {e : Expr} {outer : List Frame} {ts us vs : List Token}
    (houter : Encloses outer ts) (hsum : Leads .sum .product us sum.apply)
    (he : Derives .product vs e) {t : Token} {s : ParseState}
    (hstep : (ParseState.term sum e outer).step t = .ok s) :
    s.Holds (ts ++ (us ++ vs ++ [t])) := by
  have hsummand {op : Op} (h : ∀ {ws r}, Derives .product ws r →
      Derives .sum (us ++ vs ++ t :: ws) (.binary op (sum.apply e) r)) :
      Frame.Holds ⟨some (sum.apply e, op), none, 0⟩ (us ++ vs ++ [t]) := by
    refine ⟨us ++ vs ++ [t], [], (List.append_nil _).symm, fun ws r hr => ?_, fun _ _ => .ofSigned⟩
    rw [List.append_assoc (us ++ vs)]
    exact h hr
  have hfactor {op : Op} (h : ∀ {ws r}, Derives .signed ws r →
      Derives .product (vs ++ t :: ws) (.binary op e r)) :
      Frame.Holds ⟨sum, some (e, op), 0⟩ (us ++ vs ++ [t]) := by
    refine ⟨us, vs ++ [t], List.append_assoc .., hsum, fun ws r hr => ?_⟩
    rw [List.append_assoc]
    exact h hr
  cases t with
  | plus =>
    obtain rfl := Except.ok.inj hstep
    exact .operand houter (hsummand (.add (hsum vs e he)))
  | minus =>
    obtain rfl := Except.ok.inj hstep
    exact .operand houter (hsummand (.sub (hsum vs e he)))
  | star =>
    obtain rfl := Except.ok.inj hstep
    exact .operand houter (hfactor (.mul he))
  | slash =>
    obtain rfl := Except.ok.inj hstep
    exact .operand houter (hfactor (.div he))
  | rightParen =>
    cases houter with
    | nil => exact nomatch hstep
    | @cons f outer ts fs houter hf =>
      obtain rfl := Except.ok.inj hstep
      have hgroup := Holds.complete houter hf (.group (hsum vs e he))
      simpa only [List.append_assoc, List.cons_append, List.nil_append] using hgroup
  | number x => exact nomatch hstep
  | leftParen => exact nomatch hstep
  | unknown b => exact nomatch hstep

theorem Holds.step {s s' : ParseState} {ts : List Token} {t : Token} (h : s.Holds ts)
    (hstep : s.step t = .ok s') : s'.Holds (ts ++ [t]) := by
  cases h with
  | operand houter hf => exact step_operand houter hf hstep
  | term houter hsum he =>
    rw [List.append_assoc]
    exact step_term houter hsum he hstep

theorem Holds.run {s s' : ParseState} {ts us : List Token} (h : s.Holds ts)
    (hrun : s.run us = .ok s') : s'.Holds (ts ++ us) := by
  induction us generalizing s ts with
  | nil =>
    obtain rfl := Except.ok.inj hrun
    rwa [List.append_nil]
  | cons t us ih =>
    obtain ⟨s₁, hstep, hrest⟩ := bind_eq_ok_iff.1 ((run_cons s t us).symm.trans hrun)
    have hus := ih (h.step hstep) hrest
    rwa [List.append_assoc] at hus

theorem Holds.finish {s : ParseState} {ts : List Token} {e : Expr} (h : s.Holds ts)
    (hfinish : s.finish = .ok e) : Derives .sum ts e := by
  cases h with
  | operand houter hf => exact nomatch hfinish
  | @term sum t outer ts us vs houter hsum he =>
    cases houter with
    | nil =>
      obtain rfl := Except.ok.inj hfinish
      exact hsum vs t he
    | cons houter hf => exact nomatch hfinish

end ParseState

namespace Expr
open ParseState (start)

theorem parse_eq (source : Text) : parse source = (Token.scan source).bind ofTokens := rfl

theorem ofTokens_eq (ts : List Token) : ofTokens ts = (start.run ts).bind ParseState.finish := rfl

theorem ofTokens_eq_ok_iff {ts : List Token} {e : Expr} :
    ofTokens ts = .ok e ↔ Derives .sum ts e := by
  rw [ofTokens_eq, bind_eq_ok_iff]
  constructor
  · rintro ⟨s, hrun, hfinish⟩
    exact (ParseState.holds_start.run hrun).finish hfinish
  · intro h
    obtain ⟨s, t, hrun, rfl⟩ := ParseState.takes_of_derives h []
    exact ⟨_, hrun, rfl⟩

/-- A source is read as an expression just if its tokens derive it, and no tokens derive two. -/
theorem parse_iff_derives (source : Text) :
    (∀ e, parse source = .ok e ↔ ∃ ts, Token.scan source = .ok ts ∧ Derives .sum ts e) ∧
      ∀ p ts e e', Derives p ts e → Derives p ts e' → e = e' := by
  constructor
  · intro e
    simp only [parse_eq, bind_eq_ok_iff, ofTokens_eq_ok_iff]
  · intro p ts e e' h h'
    have he := ofTokens_eq_ok_iff.2 h.toSum
    have he' := ofTokens_eq_ok_iff.2 h'.toSum
    exact Except.ok.inj (he.symm.trans he')

theorem signedSample_parse :
    let ts : List Token :=
      [.minus, .leftParen, .number 1, .plus, .number 2, .rightParen, .star, .plus, .number 3]
    let e : Expr := .binary .mul (.neg (.binary .add (.num 1) (.num 2))) (.num 3)
    parse "-(1 + 2)*+3".toList = .ok e ∧ ∀ e', Derives .sum ts e' → e' = e := by
  intro ts e
  have hgroup := Derives.group (.add (Derives.number 1).toSum (.ofSigned (.ofPrimary (.number 2))))
  have hproduct := Derives.mul (.ofSigned (.minus (.ofPrimary hgroup)))
    (.plus (.ofPrimary (.number 3)))
  have hsum : Derives .sum ts e := .ofProduct hproduct
  obtain ⟨hparse, hunique⟩ := parse_iff_derives "-(1 + 2)*+3".toList
  exact ⟨(hparse e).2 ⟨ts, rfl, hsum⟩, fun e' h => hunique .sum ts e' e h hsum⟩

end Expr
end StyleCalls.Arith
