import StyleCalls.Proofs.Query.References
import StyleCalls.Proofs.Rule.Ancestors

/-! What a query answers: the value that the rule it is aimed at has for the property, as far as
there is one, and else the fallback. An empty value counts as none where there is a fallback. -/

namespace StyleCalls.Query
variable {σ : Type}

/-- What a target reads as. Plain names are taken as they stand. -/
def spelled (host : Host σ) (target : Text) : Text :=
  if isPlainName target then target else host.normalize target

/-- The rule that a target is aimed at: one next to the current rule, the ancestor of it that has no
parent, or the rule filed under a selector. -/
inductive Denotes (host : Host σ) (s : Setting σ) (target : Text) : RuleId → Prop where
  | parent {current id} : (spelled host target).asciiLower = "parent".toList →
      s.rule? = some current → s.rules.parent? current = some id → Denotes host s target id
  | previous {current id} : (spelled host target).asciiLower = "previous".toList →
      s.rule? = some current → s.rules.previous? current = some id → Denotes host s target id
  | next {current id} : (spelled host target).asciiLower = "next".toList →
      s.rule? = some current → s.rules.next? current = some id → Denotes host s target id
  | top {current id} : (spelled host target).asciiLower = "top".toList →
      s.rule? = some current → s.rules.Ancestor current id → s.rules.parent? id = none →
      Denotes host s target id
  | reference {id} : (spelled host target).asciiLower ∉ words →
      host.references.get? (spelled host target) = some id → Denotes host s target id

/-- The rule that a target is aimed at is there, and it has this value once it is processed and
expanded. -/
def Finds (host : Host σ) (s : Setting σ) (target property value : Text) : Prop :=
  ∃ id r, Denotes host s target id ∧ s.rules.get? id = some r ∧
    (r.process.expand .processed property).value? .processed property = some value

theorem notMem_words_iff {t : Text} :
    t ∉ words ↔ t ≠ "parent".toList ∧ t ≠ "previous".toList ∧ t ≠ "next".toList ∧
      t ≠ "top".toList := by
  simp [words]

section
variable {host : Host σ} {s : Setting σ} {target property : Text} {id : RuleId}

theorem Denotes.target?_eq (h : Denotes host s target id) (hacyclic : s.rules.Acyclic) :
    target? host s target = some id := by
  unfold target?
  rw [← spelled]
  cases h with
  | parent hword hcurrent hid => simp [hword, hcurrent, hid]
  | previous hword hcurrent hid => simp [hword, hcurrent, hid]
  | next hword hcurrent hid => simp [hword, hcurrent, hid]
  | top hword hcurrent hup hroot =>
    have htop := hacyclic.top?_eq_some_iff.2 ⟨hup, hroot⟩
    simp [hword, hcurrent, htop]
  | reference hword hid =>
    obtain ⟨hparent, hprevious, hnext, htop⟩ := notMem_words_iff.1 hword
    dsimp only
    rw [if_neg hparent, if_neg hprevious, if_neg hnext, if_neg htop, hid]

theorem denotes_of_target?_eq (h : target? host s target = some id) (hacyclic : s.rules.Acyclic) :
    Denotes host s target id := by
  have hbind {f : RuleId → Option RuleId} (hf : s.rule?.bind f = some id) :
      ∃ current, s.rule? = some current ∧ f current = some id := Option.bind_eq_some_iff.1 hf
  unfold target? at h
  rw [← spelled] at h
  dsimp only at h
  split_ifs at h with hparent hprevious hnext htop
  · obtain ⟨current, hcurrent, hid⟩ := hbind h
    exact .parent hparent hcurrent hid
  · obtain ⟨current, hcurrent, hid⟩ := hbind h
    exact .previous hprevious hcurrent hid
  · obtain ⟨current, hcurrent, hid⟩ := hbind h
    exact .next hnext hcurrent hid
  · obtain ⟨current, hcurrent, hid⟩ := hbind h
    obtain ⟨hup, hroot⟩ := hacyclic.top?_eq_some_iff.1 hid
    exact .top htop hcurrent hup hroot
  · exact .reference (notMem_words_iff.2 ⟨hparent, hprevious, hnext, htop⟩) h

/-- The value that a query finds. -/
def found? (host : Host σ) (s : Setting σ) (target property : Text) : Option Text := do
  let r ← s.rules.get? (← target? host s target)
  (r.process.expand .processed property).value? .processed property

theorem found?_eq_some_iff (hacyclic : s.rules.Acyclic) {value : Text} :
    found? host s target property = some value ↔ Finds host s target property value := by
  unfold found?
  constructor
  · intro h
    obtain ⟨id, hid, h⟩ := Option.bind_eq_some_iff.1 h
    obtain ⟨r, hr, hvalue⟩ := Option.bind_eq_some_iff.1 h
    exact ⟨id, r, denotes_of_target?_eq hid hacyclic, hr, hvalue⟩
  · rintro ⟨id, r, hid, hr, hvalue⟩
    simp [hid.target?_eq hacyclic, hr, hvalue]

theorem read_process_fst (s : Setting σ) (id : RuleId) (property : Text) :
    (read { s with rules := s.rules.modify id Rule.process } id .processed property).1 =
      (s.rules.get? id).bind fun r =>
        (r.process.expand .processed property).value? .processed property := by
  have hprocess := s.rules.get?_modify id id Rule.process
  rw [read_fst]
  dsimp only
  rw [hprocess, Option.bind_map]
  refine congrArg _ (funext fun r => ?_)
  rw [Rule.value?_expand, if_pos ⟨rfl, rfl⟩]
  simp

theorem run_fst {input current : Text} {args : List Text} (hproperty : s.property? = some current)
    (hsplit : Arguments.split .commas input = target :: args) :
    (run host input s).1 =
      let value := (found? host s target (propertyOf args.head? current)).getD []
      if value.isEmpty then args[1]?.getD [] else value := by
  unfold run found?
  rw [hproperty, hsplit]
  dsimp only
  cases target? host s target with
  | none => rfl
  | some id =>
    have hread := read_process_fst s id (propertyOf args.head? current)
    dsimp only [Option.bind_eq_bind, Option.bind_some]
    rw [hread]

end

/-- A query answers the value it finds, but for an empty one in whose place there is a fallback; and
the fallback, or nothing, where it finds none. -/
theorem run_finds_or_falls_back (host : Host σ) (s : Setting σ) (hacyclic : s.rules.Acyclic)
    {input current target : Text} {args : List Text} (hproperty : s.property? = some current)
    (hsplit : Arguments.split .commas input = target :: args) :
    let property := propertyOf args.head? current
    let fallback? := args[1]?
    (∀ value, Finds host s target property value →
      (value ≠ [] ∨ fallback? = none → (run host input s).1 = value) ∧
      ∀ fallback, value = [] → fallback? = some fallback → (run host input s).1 = fallback) ∧
    ((¬∃ value, Finds host s target property value) →
      (run host input s).1 = fallback?.getD []) := by
  intro property fallback?
  have hrun : (run host input s).1 =
      if ((found? host s target property).getD []).isEmpty then fallback?.getD []
      else (found? host s target property).getD [] := run_fst hproperty hsplit
  refine ⟨fun value hfinds => ?_, fun hnone => ?_⟩
  · rw [hrun, (found?_eq_some_iff hacyclic).2 hfinds, Option.getD_some]
    constructor
    · intro h
      cases value with
      | nil => rw [h.resolve_left (fun hne => hne rfl)]; rfl
      | cons c value => rfl
    · rintro fallback rfl hfallback
      rw [hfallback]
      rfl
  · have hfound : found? host s target property = none :=
      Option.eq_none_iff_forall_ne_some.2 fun value hvalue =>
        hnone ⟨value, (found?_eq_some_iff hacyclic).1 hvalue⟩
    rw [hrun, hfound]
    rfl

theorem topSample_run :
    let start : Setting Unit := ⟨some { property := some "color".toList, rule := some ⟨2⟩ }, {}, ()⟩
    let made := (((start.create ".root".toList).2.create ".parent".toList).2.create ".a".toList).2
    let actions : List Rules.Action := [.setParent ⟨1⟩ ⟨0⟩, .setParent ⟨2⟩ ⟨1⟩,
      .declare ⟨0⟩ "margin".toList "1px 2px".toList, .declare ⟨0⟩ "content".toList []]
    let s := actions.foldl Setting.act made
    let host : Host Unit := {}
    (run host "TOP, margin-Left, 0".toList s).1 = "2px".toList ∧
      (run host "top, content, none".toList s).1 = "none".toList ∧
      (run host "top, default, red".toList s).1 = "red".toList := by
  intro start made actions s host
  have hacyclic : s.rules.Acyclic := Rules.acyclic_of_index_lt (by decide)
  have hparent : s.rules.parent? ⟨2⟩ = some ⟨1⟩ := by decide
  have hgrandparent : s.rules.parent? ⟨1⟩ = some ⟨0⟩ := by decide
  have hup : s.rules.Ancestor ⟨2⟩ ⟨0⟩ := .tail (.single hparent) hgrandparent
  have htop {target : Text} (h : (spelled host target).asciiLower = "top".toList) :
      Denotes host s target ⟨0⟩ := .top h rfl hup (by decide)
  have hrun (input : Text) {current target : Text} {args : List Text}
      (hproperty : s.property? = some current)
      (hsplit : Arguments.split .commas input = target :: args) :=
    run_finds_or_falls_back host s hacyclic hproperty hsplit
  refine ⟨?_, ?_, ?_⟩
  · exact ((hrun "TOP, margin-Left, 0".toList rfl rfl).1 _
      ⟨⟨0⟩, _, htop (by decide), rfl, by decide⟩).1 (.inl (by decide))
  · exact ((hrun "top, content, none".toList rfl rfl).1 _
      ⟨⟨0⟩, _, htop (by decide), rfl, by decide⟩).2 _ rfl rfl
  · refine (hrun "top, default, red".toList rfl rfl).2 ?_
    rintro ⟨value, hfinds⟩
    have hnone : found? host s "top".toList "color".toList = none := by decide
    have hsome := (found?_eq_some_iff hacyclic).2 hfinds
    exact absurd (hnone.symm.trans hsome) (Option.some_ne_none _).symm

/-- An empty value of the rule that was asked for gives way to the fallback. -/
theorem not_forall_run_eq_found : ¬∀ (host : Host Unit) (s : Setting Unit), s.rules.Acyclic →
    ∀ (input current target value : Text) (args : List Text), s.property? = some current →
      Arguments.split .commas input = target :: args →
      Finds host s target (propertyOf args.head? current) value → (run host input s).1 = value := by
  intro h
  let start : Setting Unit := ⟨some { property := some "content".toList }, {}, ()⟩
  let s := (start.create ".a".toList).2.act (.declare ⟨0⟩ "content".toList [])
  let host : Host Unit := Host.addReference {} ".a".toList ⟨0⟩
  have hrun := h host s (Rules.acyclic_of_index_lt (by decide)) ".a, content, x".toList
    "content".toList ".a".toList [] ["content".toList, "x".toList] rfl (by decide)
    ⟨⟨0⟩, _, .reference (by decide) rfl, rfl, by decide⟩
  exact absurd hrun (by decide)

end StyleCalls.Query
