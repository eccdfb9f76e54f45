import StyleCalls.Proofs.Arguments.Split
import StyleCalls.Proofs.Rule.Run
import StyleCalls.Proofs.Selector.Ordinary

/-! References are filed under selectors in normal form. A target that is no word of its own is looked
up in normal form too, even where it is taken as it stands. -/

namespace StyleCalls
variable {σ : Type}

namespace Host

/-- What is done with the references. A selector is put in normal form, a key is taken as it is. -/
inductive Filing where
  | add (selector : Text) (rule : RuleId)
  | set (key : Text) (rule : RuleId)
  | unset (key : Text)
deriving DecidableEq

def file (host : Host σ) : Filing → Host σ
  | .add selector rule => host.addReference selector rule
  | .set key rule => { host with references := host.references.insert key rule }
  | .unset key => { host with references := host.references.erase key }

/-- The key that a filing is about, and the rule that is under it from then on. -/
def Filing.entry (normalize : Text → Text) : Filing → Text × Option RuleId
  | add selector rule => (normalize selector, some rule)
  | set key rule => (key, some rule)
  | unset key => (key, none)

/-- The rule last put under a key, unless the key has been taken out since. -/
def filed? (normalize : Text → Text) (filings : List Filing) (key : Text) : Option RuleId :=
  (Table.last? (filings.map (Filing.entry normalize)) key).getD none

theorem normalize_file (host : Host σ) (f : Filing) : (host.file f).normalize = host.normalize := by
  cases f <;> rfl

theorem get?_file (host : Host σ) (f : Filing) (key : Text) :
    (host.file f).references.get? key =
      if key = (f.entry host.normalize).1 then (f.entry host.normalize).2
      else host.references.get? key := by
  cases f with
  | add selector rule => exact Table.get?_insert ..
  | set k rule => exact Table.get?_insert ..
  | unset k => exact Table.get?_erase ..

theorem get?_foldl_file (host : Host σ) (filings : List Filing) (key : Text) :
    (filings.foldl file host).references.get? key =
      (Table.last? (filings.map (Filing.entry host.normalize)) key).getD
        (host.references.get? key) := by
  induction filings generalizing host with
  | nil => rfl
  | cons f filings ih =>
    rw [List.foldl_cons, ih, normalize_file, get?_file, List.map_cons, Table.last?_cons]
    cases Table.last? (filings.map (Filing.entry host.normalize)) key with
    | some found => rfl
    | none =>
      rw [Option.none_or]
      split <;> rfl

theorem normalize_foldl_file (host : Host σ) (filings : List Filing) :
    (filings.foldl file host).normalize = host.normalize := by
  induction filings generalizing host with
  | nil => rfl
  | cons f filings ih => rw [List.foldl_cons, ih, normalize_file]

end Host

namespace Query

/-- The targets that are not selectors, in any ASCII case. -/
def words : List Text := ["parent", "previous", "next", "top"].map String.toList

theorem isOrdinary_of_isAlphanum {c : Char} (h : c.isAlphanum = true) :
    Selector.isOrdinary c = true :=
  Unicode.forall_isAscii (P := fun c => c.isAlphanum = true → Selector.isOrdinary c = true)
    (by decide +kernel) (Unicode.isAscii_of_isAlphanum h) h

theorem isOrdinary_of_isPlainName {t : Text} (h : isPlainName t = true) :
    ∀ c ∈ t, Selector.isOrdinary c = true := by
  have hstem : ∀ c ∈ (Text.after? ['-'] t).getD t, Selector.isOrdinary c = true := by
    unfold isPlainName at h
    split at h
    · exact Bool.noConfusion h
    · next first rest heq =>
      simp only [Bool.and_eq_true, Bool.or_eq_true, List.all_eq_true, decide_eq_true_eq] at h
      rw [heq, List.forall_mem_cons]
      constructor
      · rcases h.1 with hfirst | rfl
        · exact isOrdinary_of_isAlphanum (Bool.or_eq_true_iff.2 (.inl hfirst))
        · decide
      · intro c hc
        rcases h.2 c hc with (halnum | rfl) | rfl
        · exact isOrdinary_of_isAlphanum halnum
        · decide
        · decide
  cases hafter : Text.after? ['-'] t with
  | none => rwa [hafter] at hstem
  | some rest =>
    rw [Text.after?_eq_some_iff.1 hafter, List.singleton_append, List.forall_mem_cons]
    rw [hafter] at hstem
    exact ⟨by decide, hstem⟩

/-- Where a target is taken as it stands, its normal form is no different. -/
theorem target?_of_notMem_words {host : Host σ} (hnormalize : host.normalize = Selector.normalize)
    (st : Setting σ) {s : Text} (htrimmed : s.Trimmed)
    (hword : ∀ w ∈ words, s.eqIgnoringAsciiCase w = false) :
    target? host st s = host.references.get? (Selector.normalize s) := by
  have hnormal : (if isPlainName s then s else host.normalize s) = Selector.normalize s := by
    split
    · next hplain => exact (Selector.normalize_of_isOrdinary (isOrdinary_of_isPlainName hplain)).symm
    · rw [hnormalize]
  have hne {w : Text} (hw : w ∈ words) : (Selector.normalize s).asciiLower ≠ w := by
    intro heq
    have hall : ∀ w ∈ words, w.asciiLower = w ∧ w.all Selector.isOrdinary = true := by decide
    obtain ⟨hlower, hordinary⟩ := hall w hw
    rw [List.all_eq_true] at hordinary
    have hself : Selector.normalize s = s := by
      rw [Selector.normalize_eq_trim, htrimmed.trim_eq_self]
      intro c hc
      exact Selector.isOrdinary_of_toLower (hordinary _ (heq ▸ List.mem_map_of_mem hc))
    have hsame : s.eqIgnoringAsciiCase w = true := by
      rw [Text.eqIgnoringAsciiCase, hlower, ← heq, hself, decide_eq_true rfl]
    exact Bool.noConfusion ((hword w hw).symm.trans hsame)
  unfold target?
  rw [hnormal]
  simp only [if_neg (hne (w := "parent".toList) (by decide)),
    if_neg (hne (w := "previous".toList) (by decide)),
    if_neg (hne (w := "next".toList) (by decide)), if_neg (hne (w := "top".toList) (by decide))]

theorem run_of_notMem_words {host : Host σ} (hnormalize : host.normalize = Selector.normalize)
    (st : Setting σ) {s property : Text} (hsplit : Arguments.split .commas s = [s])
    (hword : ∀ w ∈ words, s.eqIgnoringAsciiCase w = false)
    (hproperty : st.property? = some property) :
    run host s st =
      match host.references.get? (Selector.normalize s) with
      | some id =>
        let reading := read { st with rules := st.rules.modify id Rule.process } id .processed property
        (reading.1.getD [], reading.2)
      | none => ([], st) := by
  have htrimmed : s.Trimmed :=
    Arguments.trimmed_of_mem_split (hsplit ▸ List.mem_singleton_self s)
  -- there is no third argument to stand in for an empty value
  have hkeep (value : Text) : (if value.isEmpty then [] else value) = value := by
    cases value <;> rfl
  unfold run
  rw [hproperty, hsplit]
  dsimp only
  rw [target?_of_notMem_words hnormalize st htrimmed hword]
  cases host.references.get? (Selector.normalize s) with
  | none => rfl
  | some id => exact Prod.ext (hkeep _) rfl

/-- A target by itself reads the rule last filed under its normal form, and no rule if none is
filed there any more. -/
theorem run_reads_filed (hooks : Hooks σ) (colors : ColorModel) (filings : List Host.Filing)
    (st : Setting σ) {s property : Text} (hsplit : Arguments.split .commas s = [s])
    (hword : ∀ w ∈ words, s.eqIgnoringAsciiCase w = false)
    (hproperty : st.property? = some property) :
    let host := filings.foldl Host.file { hooks, colors }
    let filed? := Host.filed? Selector.normalize filings (Selector.normalize s)
    let reading (id : RuleId) :=
      read { st with rules := st.rules.modify id Rule.process } id .processed property
    (∀ id, filed? = some id → run host s st = ((reading id).1.getD [], (reading id).2)) ∧
    (filed? = none → run host s st = ([], st)) ∧
    ∀ s' id, Selector.normalize s' = Selector.normalize s →
      run (host.addReference s' id) s st = ((reading id).1.getD [], (reading id).2) := by
  intro host filed? reading
  have hnormalize : host.normalize = Selector.normalize := Host.normalize_foldl_file ..
  have hget : host.references.get? (Selector.normalize s) = filed? := Host.get?_foldl_file ..
  have hrun := run_of_notMem_words hnormalize st hsplit hword hproperty
  rw [hget] at hrun
  refine ⟨fun id hid => ?_, fun hnone => ?_, fun s' id hs' => ?_⟩
  · rw [hrun, hid]
  · rw [hrun, hnone]
  · have hadded : (host.addReference s' id).references.get? (Selector.normalize s) = some id := by
      refine (Table.get?_insert ..).trans (if_pos ?_)
      rw [hnormalize, hs']
    have hlater : (host.addReference s' id).normalize = Selector.normalize := hnormalize
    rw [run_of_notMem_words hlater st hsplit hword hproperty, hadded]

theorem childSample_run :
    let start : Setting Unit := ⟨some { property := some "color".toList }, {}, ()⟩
    let old := (start.create "ul > li".toList).1
    let new := ((start.create "ul > li".toList).2.create "ul>li".toList).1
    let st := [.declare old "color".toList "tan".toList, .declare new "color".toList "red".toList].foldl
      Setting.act ((start.create "ul > li".toList).2.create "ul>li".toList).2
    let filings : List Host.Filing := [.add "ul > li".toList old, .set ".x".toList old,
      .add "ul>li ".toList new, .unset ".x".toList]
    let host : Host Unit := filings.foldl Host.file { hooks := {}, colors := Color.css }
    (run host "ul  >li".toList st).1 = "red".toList ∧ run host ".x".toList st = ([], st) ∧
      (run (host.addReference "ul  > li".toList old) "ul >li".toList st).1 = "tan".toList := by
  intro start old new st filings host
  have hproperty : st.property? = some "color".toList := rfl
  have hnewer := run_reads_filed {} Color.css filings st (s := "ul  >li".toList)
    (by decide) (by decide) hproperty
  have hgone := run_reads_filed {} Color.css filings st (s := ".x".toList)
    (by decide) (by decide) hproperty
  have hlater := run_reads_filed {} Color.css filings st (s := "ul >li".toList)
    (by decide) (by decide) hproperty
  refine ⟨?_, hgone.2.1 (by decide), ?_⟩
  · exact (congrArg Prod.fst (hnewer.1 new (by decide))).trans (by decide)
  · exact (congrArg Prod.fst (hlater.2.2 "ul  > li".toList old (by decide))).trans (by decide)

end Query
end StyleCalls
