import StyleCalls.Proofs.Engine.Invocation

/-! Texts that are one call, or one call inside another. Which function runs is decided by the
spelling alone, but which text it is given depends on where its parenthesis closes, and that is
looked for when the calls inside have been expanded. -/

namespace StyleCalls
variable {σ : Type}

def Function.IgnoresContext (f : Function σ) : Prop :=
  ∀ host args s context, (f.invoke host args { s with context := context }).1 =
    (f.invoke host args s).1

namespace Engine
open Text Pattern

theorem exists_ofNames?_of_get? {r : Registry σ} {name : Text} {f : Function σ}
    (h : r.get? name = some f) (hne : name ≠ []) :
    name ∈ r.patternNames ∧ ∃ p, Pattern.ofNames? r.patternNames = some p := by
  have hcontains : r.entries.contains name = true := Option.isSome_iff_exists.2 ⟨f, h⟩
  have hmem : name ∈ r.patternNames :=
    List.mem_append_left _ (Table.contains_iff_mem_keys.1 hcontains)
  exact ⟨hmem, _, ofNames?_eq_some_iff.2 ⟨⟨name, hmem, hne⟩, rfl⟩⟩

section
variable {e : Engine σ} {p : Pattern} {b : Option Char} {isWord : Bool} {w rest args after : Text}
  {f : Function σ} (haccepted : p.accepted? b (w ++ '(' :: rest) = some ⟨isWord, false, w⟩)
  (hw : '(' ∉ w) (hf : e.registry.get? w = some f) (hsites : p.sitesFrom (some '(') 0 0 rest = [])
  (hclose : Nesting.inGroup.close? rest = some (args, after))
include haccepted hw hf hsites hclose

theorem expandFrom_of_registered (host : Host σ) (s : Setting σ) :
    e.expandFrom host p b (w ++ '(' :: rest) s =
      ((f.invoke host args.trim (s.enter w)).1 ++ after,
        (f.invoke host args.trim (s.enter w)).2) := by
  rw [e.expandFrom_name_append host haccepted]
  dsimp only
  rw [e.expandFrom_of_sitesFrom_eq_nil host hsites, expandSite_name_append e host hw, hclose]
  dsimp only
  rw [answer_of_get? hf, Option.elim_some]

theorem invocationsFrom_of_registered (host : Host σ) (s : Setting σ) :
    e.invocationsFrom host p b (w ++ '(' :: rest) s = [⟨w, args.trim⟩] := by
  rw [e.invocationsFrom_name_append host haccepted, invocationsFrom, hsites,
    e.expandFrom_of_sitesFrom_eq_nil host hsites, e.invocation?_name_append hw, hclose,
    Option.bind_some, resolve_of_get? hf]
  rfl

end

/-- A call of a registered name with no call inside is the run of its function. -/
theorem apply_of_registered {e : Engine σ} (h : e.InStep)
    (hparens : ∀ n ∈ e.registry.patternNames, '(' ∉ n ∧ ')' ∉ n) {f a : Text} {fn : Function σ}
    (hf : e.registry.get? f = some fn) (hne : f ≠ [])
    (hshadow : ¬Shadowed e.registry.patternNames f) (hclose : Nesting.Enclosable a)
    (ha : CallFree e.registry.patternNames a) (host : Host σ) (s : Setting σ) :
    let t := f ++ '(' :: (a ++ [')'])
    e.apply host t s = (.ok (fn.invoke host a.trim (s.enter f)).1, e.refresh,
      (fn.invoke host a.trim (s.enter f)).2) ∧
    (fn.IgnoresContext → (e.apply host t s).1 = .ok (fn.invoke host a.trim s).1) := by
  intro t
  obtain ⟨hmem, p, hp⟩ := exists_ofNames?_of_get? hf hne
  obtain ⟨isWord, haccepted⟩ :=
    exists_accepted?_append_paren hp (fun n hn => (hparens n hn).1) hmem hne hshadow (a ++ [')'])
  have hsites : p.sitesFrom (some '(') 0 0 (a ++ [')']) = [] := by
    rw [sitesFrom_append_close (noParens_of_ofNames? hp hparens),
      sitesFrom_eq_nil_of_callFree hp ha]
    rfl
  have happly : e.apply host t s = (.ok (fn.invoke host a.trim (s.enter f)).1, e.refresh,
      (fn.invoke host a.trim (s.enter f)).2) := by
    have hmemt : '(' ∈ t := List.mem_append_right _ (List.mem_cons_self ..)
    have hexpand := expandFrom_of_registered haccepted (hparens f hmem).1 hf hsites
      (Nesting.enclosable_iff.1 hclose) host s
    rw [h.apply_eq hp, if_pos hmemt, hexpand, List.append_nil]
  refine ⟨happly, fun hignores => ?_⟩
  rw [happly]
  exact congrArg Except.ok (hignores host a.trim s _)

def joinSample : Engine Unit where
  registry :=
    { entries :=
        { entries :=
            [("join".toList, .parsedArgs fun _ args s => (args.flatMap (· ++ ['|']), s))]
          nodup_keys := by decide } }

theorem joinSample_apply : (joinSample.apply {} "join(a (b, c), ')')".toList ⟨none, {}, ()⟩).1 =
    .ok "a (b, c)|')'|".toList := by
  have hfree : CallFree joinSample.registry.patternNames "a (b, c), ')'".toList := by
    intro n hn _ u w rest hcut hfold
    obtain rfl : n = "join".toList := List.mem_singleton.1 hn
    rw [← List.append_assoc] at hcut
    have hlength : w.length = 4 := by simpa using (congrArg List.length hfold).symm
    -- of the one parenthesis in the text only two characters come before
    rcases append_paren_cases (v := "a ".toList) (r := "b, c), ')'".toList) (by decide) hcut with
      ⟨hw, _⟩ | ⟨_, _, hrest⟩
    · have hshort := congrArg List.length hw
      rw [List.length_append, hlength] at hshort
      exact absurd hshort (Nat.ne_of_gt (Nat.le_add_left ..))
    · have hmem : '(' ∈ "b, c), ')'".toList := hrest ▸ by simp
      exact absurd hmem (by decide)
  have hshadow : ¬Shadowed joinSample.registry.patternNames "join".toList := by
    rintro ⟨w, hw, _⟩
    exact absurd (List.cons.inj hw).1 (by decide)
  have happly := (apply_of_registered (inStep_of_compiled_eq_none (e := joinSample) rfl)
    (by decide) rfl (by decide) hshadow (by decide) hfree {} ⟨none, {}, ()⟩).2
    fun _ _ _ _ => rfl
  exact happly

def hyphenSample : Engine Unit where
  registry :=
    { entries :=
        { entries :=
            [("-g".toList, .raw fun _ _ s => ("F".toList, s)),
              ("g".toList, .raw fun _ _ s => ("G".toList, s))]
          nodup_keys := by decide } }

/-- Not every registered name is called by its call: behind a hyphen the word is called. -/
theorem not_forall_apply_eq_invoke :
    ¬∀ (e : Engine Unit) (f a : Text) (fn : Function Unit) (host : Host Unit) (s : Setting Unit),
      e.InStep → (∀ n ∈ e.registry.patternNames, '(' ∉ n ∧ ')' ∉ n) →
      e.registry.get? f = some fn → f ≠ [] → fn.IgnoresContext → Nesting.Enclosable a →
      CallFree e.registry.patternNames a →
      (e.apply host (f ++ '(' :: (a ++ [')'])) s).1 = .ok (fn.invoke host a.trim s).1 := by
  intro h
  have happly := h hyphenSample "-g".toList "x".toList _ {} ⟨none, {}, ()⟩
    (inStep_of_compiled_eq_none rfl) (by decide) rfl (by decide) (fun _ _ _ _ => rfl) (by decide)
    (callFree_of_notMem (by decide))
  -- the hyphen is taken for a prefix of the word
  have hword : (hyphenSample.apply {} "-g(x)".toList ⟨none, {}, ()⟩).1 = .ok "-G".toList := rfl
  have heq := Except.ok.inj (hword.symm.trans happly)
  exact absurd heq (by decide)

def nestedText (inner outer x : Text) : Text := outer ++ '(' :: (inner ++ '(' :: (x ++ [')', ')']))

/-- Two registered words, one to be called inside the other, with plain arguments. -/
structure NestedCall (e : Engine σ) (inner outer x : Text) (fi fo : Function σ) : Prop where
  inStep : e.InStep
  inner_get : e.registry.get? inner = some fi
  outer_get : e.registry.get? outer = some fo
  inner_word : isIdent inner = true ∧ '(' ∉ inner
  outer_word : isIdent outer = true ∧ '(' ∉ outer
  plain : Nesting.Plain x

variable {e : Engine σ} {inner outer x : Text} {fi fo : Function σ}

/-- The inner function runs first. What it returns stands in the text when the outer turn comes. -/
theorem apply_nested (h : NestedCall e inner outer x fi fo)
    (hfirst : Foremost e.registry.patternNames inner outer) (host : Host σ) (s : Setting σ) :
    let r := fi.invoke host x.trim (s.enter inner)
    let turn := e.expandSite host ⟨outer, 0⟩ (outer ++ '(' :: (r.1 ++ [')']), r.2)
    e.apply host (nestedText inner outer x) s = (.ok turn.1, e.refresh, turn.2) ∧
      e.applyInvocations host (nestedText inner outer x) s = ⟨inner, x.trim⟩ ::
        (e.invocation? ⟨outer, 0⟩ (outer ++ '(' :: (r.1 ++ [')']))).toList := by
  intro r turn
  have hne {w : Text} (hw : isIdent w = true) : w ≠ [] := by
    rintro rfl
    exact absurd hw (by decide)
  obtain ⟨houterMem, p, hp⟩ := exists_ofNames?_of_get? h.outer_get (hne h.outer_word.1)
  have hinnerMem := (exists_ofNames?_of_get? h.inner_get (hne h.inner_word.1)).1
  have hy : '(' ∉ x ++ [')', ')'] := by
    rw [List.mem_append, not_or]
    exact ⟨h.plain.notMem (by decide), by decide⟩
  have houter :=
    accepted?_nested hp houterMem h.outer_word.1 h.inner_word.2 h.outer_word.2 hy hfirst
  have hinner : p.accepted? (some '(') (inner ++ '(' :: (x ++ [')', ')'])) =
      some ⟨true, false, inner⟩ :=
    accepted?_of_notMem ((mem_idents_iff hp).2 ⟨hinnerMem, h.inner_word.1⟩) h.inner_word hy
      (by decide)
  have hsites : p.sitesFrom (some '(') 0 0 (x ++ [')', ')']) = [] :=
    p.sitesFrom_eq_nil_of_notMem _ _ hy
  have hclose : Nesting.inGroup.close? (x ++ [')', ')']) = some (x, [')']) :=
    Nesting.inGroup_close?_of_plain h.plain [')']
  have hexpand :=
    expandFrom_of_registered hinner h.inner_word.2 h.inner_get hsites hclose host s
  have hruns :=
    invocationsFrom_of_registered hinner h.inner_word.2 h.inner_get hsites hclose host s
  have hmem : '(' ∈ nestedText inner outer x := List.mem_append_right _ (List.mem_cons_self ..)
  constructor
  · rw [h.inStep.apply_eq hp, if_pos hmem, nestedText, e.expandFrom_name_append host houter,
      hexpand]
  · rw [h.inStep.applyInvocations_eq hp, nestedText, e.invocationsFrom_name_append host houter,
      hruns, hexpand]
    rfl

/-- What a call inside another returns is text like any other: the outer function gets all of it if
and only if the parenthesis behind it is the one that closes. -/
theorem apply_nested_iff (h : NestedCall e inner outer x fi fo)
    (hfirst : Foremost e.registry.patternNames inner outer) (host : Host σ) (s : Setting σ) :
    let r := fi.invoke host x.trim (s.enter inner)
    let v := fo.invoke host r.1.trim (r.2.enter outer)
    Nesting.Enclosable r.1 ↔
      e.applyInvocations host (nestedText inner outer x) s =
        [⟨inner, x.trim⟩, ⟨outer, r.1.trim⟩] ∧
      e.apply host (nestedText inner outer x) s = (.ok v.1, e.refresh, v.2) := by
  intro r v
  obtain ⟨happly, hruns⟩ := apply_nested h hfirst host s
  rw [Nesting.enclosable_iff, happly, hruns, e.invocation?_name_append h.outer_word.2,
    expandSite_name_append e host h.outer_word.2, resolve_of_get? h.outer_get]
  constructor
  · intro hc
    rw [hc]
    dsimp only
    rw [answer_of_get? h.outer_get, Option.elim_some, List.append_nil]
    exact ⟨rfl, rfl⟩
  · rintro ⟨hrun, hvalue⟩
    cases hc : Nesting.inGroup.close? (r.1 ++ [')']) with
    | none => simp [r, hc] at hrun
    | some q =>
      obtain ⟨args, after⟩ := q
      rw [hc] at hrun hvalue
      dsimp only at hvalue
      have hargs : args.trim = r.1.trim := by simpa using hrun
      rw [answer_of_get? h.outer_get, Option.elim_some, hargs] at hvalue
      -- the value alone is the output, so nothing stands behind the call
      have hafter : after = [] := by simpa [r, v] using hvalue
      subst hafter
      have happend := Nesting.eq_append_of_close? hc
      rw [(List.append_left_inj _).1 happend]

/-- An inner function that always answers the same, inside an outer one that puts its argument in
angle brackets, with one more name registered first. -/
def nestedSample (first value : String) : Engine Unit where
  registry :=
    { entries := Table.insertAll ∅
        [(first.toList, .raw fun _ _ s => ("Z".toList, s)),
          ("inner".toList, .raw fun _ _ s => (value.toList, s)),
          ("outer".toList, .raw fun _ args s => ('<' :: (args ++ ['>']), s))] }

theorem nestedCall_nestedSample (first value : String)
    (hinner : (nestedSample first value).registry.get? "inner".toList =
      some (.raw fun _ _ s => (value.toList, s)))
    (houter : (nestedSample first value).registry.get? "outer".toList =
      some (.raw fun _ args s => ('<' :: (args ++ ['>']), s))) :
    NestedCall (nestedSample first value) "inner".toList "outer".toList " 1 ".toList
      (.raw fun _ _ s => (value.toList, s)) (.raw fun _ args s => ('<' :: (args ++ ['>']), s)) where
  inStep := inStep_of_compiled_eq_none rfl
  inner_get := hinner
  outer_get := houter
  inner_word := by decide
  outer_word := by decide
  plain := by decide

theorem nestedSample_apply :
    let e := nestedSample "inner(inner" " (a) "
    e.applyInvocations {} "outer(inner( 1 ))".toList ⟨none, {}, ()⟩ =
        [⟨"inner".toList, "1".toList⟩, ⟨"outer".toList, "(a)".toList⟩] ∧
      (e.apply {} "outer(inner( 1 ))".toList ⟨none, {}, ()⟩).1 = .ok "<(a)>".toList := by
  intro e
  have hnested := (apply_nested_iff (nestedCall_nestedSample "inner(inner" " (a) " rfl rfl)
    (by decide +kernel) {} ⟨none, {}, ()⟩).1 (by decide)
  exact ⟨hnested.1, congrArg Prod.fst hnested.2⟩

/-- The outer function runs once, on all that the inner one returns, and answers for both. -/
def OuterRunsOnce (e : Engine σ) (host : Host σ) (inner outer x : Text) (fi fo : Function σ)
    (s : Setting σ) : Prop :=
  let r := fi.invoke host x.trim (s.enter inner)
  let v := fo.invoke host r.1.trim (r.2.enter outer)
  (e.applyInvocations host (nestedText inner outer x) s).filter (·.name = outer) =
      [⟨outer, r.1.trim⟩] ∧
    (e.apply host (nestedText inner outer x) s).1 = .ok v.1

/-- What is returned may close the outer call early, and a name with a parenthesis in it may be
recognised in place of both. Ruling out one of the two is not enough. -/
theorem not_forall_outerRunsOnce :
    (¬∀ (e : Engine Unit) (inner outer x : Text) (fi fo : Function Unit) (host : Host Unit)
        (s : Setting Unit), NestedCall e inner outer x fi fo → inner ≠ outer →
      ')' ∉ inner ++ outer → Foremost e.registry.patternNames inner outer →
      e.OuterRunsOnce host inner outer x fi fo s) ∧
    ¬∀ (e : Engine Unit) (inner outer x : Text) (fi fo : Function Unit) (host : Host Unit)
        (s : Setting Unit), NestedCall e inner outer x fi fo → inner ≠ outer →
      ')' ∉ inner ++ outer →
      Nesting.Enclosable (fi.invoke host x.trim (s.enter inner)).1 →
      e.OuterRunsOnce host inner outer x fi fo s := by
  constructor
  · intro h
    have honce := (h _ _ _ _ _ _ {} ⟨none, {}, ()⟩ (nestedCall_nestedSample "first" ")" rfl rfl)
      (by decide) (by decide) (by decide +kernel)).2
    have hearly : ((nestedSample "first" ")").apply {} "outer(inner( 1 ))".toList
        ⟨none, {}, ()⟩).1 = .ok "<>)".toList := rfl
    have heq := Except.ok.inj (hearly.symm.trans honce)
    exact absurd heq (by decide)
  · intro h
    have honce := (h _ _ _ _ _ _ {} ⟨none, {}, ()⟩
      (nestedCall_nestedSample "outer(inner" "m" rfl rfl) (by decide) (by decide) (by decide)).2
    have hother : ((nestedSample "outer(inner" "m").apply {} "outer(inner( 1 ))".toList
        ⟨none, {}, ()⟩).1 = .ok "Z".toList := rfl
    have heq := Except.ok.inj (hother.symm.trans honce)
    exact absurd heq (by decide)

end Engine
end StyleCalls
