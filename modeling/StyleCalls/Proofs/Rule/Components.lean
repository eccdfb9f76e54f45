import StyleCalls.Proofs.Arguments.Refinement
import StyleCalls.Proofs.Rule.Value
import StyleCalls.Proofs.Text.Pieces

/-! The components of a shorthand value against its pieces. A component may have blanks in
parentheses or quotes. A shorthand value is cut at those too, and its longhands get what is then in
their place. -/

namespace StyleCalls

namespace Arguments
open Text

theorem flatMap_kept {f : Text → List Text} (htrim : ∀ p : Text, f p.trim = f p) (hnil : f [] = [])
    (ps : List Text) : (kept ps).flatMap f = ps.flatMap f := by
  induction ps with
  | nil => rfl
  | cons p ps ih =>
    by_cases hp : p.Blank
    · rw [kept_cons_of_blank hp, ih, List.flatMap_cons, ← htrim, trim_eq_nil_iff.2 hp, hnil,
        List.nil_append]
    · rw [kept_cons_of_not_blank hp, List.flatMap_cons, List.flatMap_cons, ih, htrim]

end Arguments

namespace BoxProperty
open Text

/-- Whether a component ends before `c`. -/
def parts (s : Nesting) (c : Char) : Bool := s.bare && s.depth = 0 && Unicode.isBlank c

/-- The text between the blanks outside parentheses and quotes, as it stands. -/
def spans (s : Nesting) : Text → List Text
  | [] => [[]]
  | c :: t =>
    if parts s c then [] :: spans s t
    else match spans (s.step c) t with
      | [] => [[c]]
      | p :: ps => (c :: p) :: ps

def components (value : Text) : List Text := Arguments.kept (spans .outside value)

/-- The component for a side. A side that has none takes that of the side across, and where there is
but one component all sides take it. -/
def component? (components : List Text) : Side → Option Text
  | .top => components[0]?
  | .right => components[1]?.or components[0]?
  | .bottom => components[2]?.or components[0]?
  | .left => components[3]?.or (components[1]?.or components[0]?)

theorem spans_cons_of_parts {s : Nesting} {c : Char} (h : parts s c = true) (t : Text) :
    spans s (c :: t) = [] :: spans s t := by
  rw [spans, if_pos h]

theorem exists_spans_cons {s : Nesting} {c : Char} (h : parts s c = false) (t : Text) :
    ∃ p ps, spans (s.step c) t = p :: ps ∧ spans s (c :: t) = (c :: p) :: ps := by
  have hne : spans (s.step c) t ≠ [] := by
    cases t with
    | nil => exact List.cons_ne_nil _ _
    | cons e t =>
      rw [spans]
      split
      · exact List.cons_ne_nil _ _
      · split <;> exact List.cons_ne_nil _ _
  obtain ⟨p, ps, hspans⟩ := List.exists_cons_of_ne_nil hne
  refine ⟨p, ps, hspans, ?_⟩
  rw [spans, if_neg (Bool.eq_false_iff.1 h), hspans]

theorem spans_eq_stretches {s : Nesting} {t : Text} (h : Delimiters.commas.Whole s t) :
    spans s t = Delimiters.commasAndBlanks.stretches s t := by
  induction t generalizing s with
  | nil => rfl
  | cons c t ih =>
    obtain ⟨hc, ht⟩ := Delimiters.whole_cons.1 h
    have hcuts : Delimiters.commasAndBlanks.cuts s c = parts s c := by
      have hor : Delimiters.commasAndBlanks.cuts s c = (Delimiters.commas.cuts s c || parts s c) :=
        Bool.and_or_distrib_left ..
      rw [hor, hc, Bool.false_or]
    by_cases hparts : parts s c = true
    · obtain rfl : s = .outside := Delimiters.eq_outside_of_cuts (hcuts.trans hparts)
      rw [Delimiters.outside_step_of_holds (Delimiters.holds_of_cuts (hcuts.trans hparts))] at ht
      rw [spans_cons_of_parts hparts, Delimiters.stretches, if_pos (hcuts.trans hparts), ih ht]
    · rw [Bool.not_eq_true] at hparts
      obtain ⟨p, ps, hspans, hcons⟩ := exists_spans_cons hparts t
      rw [hcons, Delimiters.stretches_cons_of_not_cuts (hcuts.trans hparts), ← ih ht, hspans]
      rfl

theorem components_eq_split {value : Text} (h : Delimiters.commas.Whole .outside value) :
    components value = Arguments.split .commasAndBlanks value := by
  rw [components, spans_eq_stretches h, Arguments.split_eq_kept]

theorem splitOnP_eq_flatMap_spans (s : Nesting) (t : Text) :
    t.splitOnP Unicode.isBlank = (spans s t).flatMap (List.splitOnP Unicode.isBlank) := by
  induction t generalizing s with
  | nil => rfl
  | cons c t ih =>
    rw [List.splitOnP_cons_eq_if_modifyHead]
    by_cases hparts : parts s c = true
    · rw [spans_cons_of_parts hparts, if_pos (Bool.and_eq_true_iff.1 hparts).2, List.flatMap_cons,
        ih s]
      rfl
    · obtain ⟨p, ps, hspans, hcons⟩ := exists_spans_cons (Bool.eq_false_iff.2 hparts) t
      rw [ih (s.step c), hspans, hcons, List.flatMap_cons, List.flatMap_cons,
        List.splitOnP_cons_eq_if_modifyHead]
      obtain ⟨q, qs, hq⟩ := List.exists_cons_of_ne_nil (List.splitOnP_ne_nil Unicode.isBlank p)
      rw [hq]
      split <;> rfl

theorem pieces_eq_flatMap_components (value : Text) :
    pieces Unicode.isBlank value = (components value).flatMap (pieces Unicode.isBlank) := by
  rw [components, Arguments.flatMap_kept pieces_trim rfl, pieces, splitAll_eq_splitOnP,
    splitOnP_eq_flatMap_spans .outside value, List.filter_flatMap]
  simp only [← splitAll_eq_splitOnP]
  rfl

theorem flatMap_pieces_of_unbroken {cs : List Text} (hne : [] ∉ cs)
    (h : ∀ c ∈ cs, ∀ x ∈ c, Unicode.isBlank x = false) :
    cs.flatMap (pieces Unicode.isBlank) = cs := by
  induction cs with
  | nil => rfl
  | cons c cs ih =>
    obtain ⟨hc, hcs⟩ := List.forall_mem_cons.1 h
    rw [List.mem_cons, not_or] at hne
    rw [List.flatMap_cons, pieces_eq_singleton (Ne.symm hne.1) hc, ih hne.2 hcs,
      List.singleton_append]

theorem valueFor?_eq (side : Side) (value : Text) :
    valueFor? side value =
      if (pieces Unicode.isBlank value).length ≤ 4 then
        component? (pieces Unicode.isBlank value) side
      else none := by
  unfold valueFor?
  rcases pieces Unicode.isBlank value with _ | ⟨a, _ | ⟨b, _ | ⟨c, _ | ⟨d, _ | ⟨e, rest⟩⟩⟩⟩⟩ <;>
    cases side <;> simp [component?]

theorem mem_of_component?_eq_some {cs : List Text} {side : Side} {c : Text}
    (h : component? cs side = some c) : c ∈ cs := by
  cases side <;> simp only [component?, Option.or_eq_some_iff] at h
  · exact List.mem_of_getElem? h
  · rcases h with h | ⟨_, h⟩ <;> exact List.mem_of_getElem? h
  · rcases h with h | ⟨_, h⟩ <;> exact List.mem_of_getElem? h
  · rcases h with h | ⟨_, h | ⟨_, h⟩⟩ <;> exact List.mem_of_getElem? h

theorem exists_component? {cs : List Text} (h : cs ≠ []) (side : Side) :
    ∃ c, component? cs side = some c := by
  obtain ⟨c, cs, rfl⟩ := List.exists_cons_of_ne_nil h
  rw [← Option.isSome_iff_exists]
  cases side <;> simp [component?]

end BoxProperty

namespace Rule
open BoxProperty

theorem value?_expand_of_absent {r : Rule} {view : View} {b : BoxProperty} {side : Side} {p : Text}
    (hp : p.eqIgnoringAsciiCase (b.longhand side) = true) (habsent : r.value? view p = none) :
    (r.expand view p).value? view p = (r.value? view b.shorthand).bind (valueFor? side) := by
  rw [value?_expand, if_pos ⟨rfl, rfl⟩, shown?, habsent, Option.none_or, derived?,
    ofLonghand?_eq_some_iff.2 hp]
  rfl

/-- A longhand without a value of its own gets the component for its side of a shorthand value cut
at all its blanks. That is the component of the value itself as long as no component has blanks in
it, and never if it has blanks in it. -/
theorem value?_expand_longhand {r : Rule} {view : View} {b : BoxProperty} {side : Side}
    {p value : Text} (hvalue : r.value? view b.shorthand = some value)
    (hlength : 1 ≤ (components value).length ∧ (components value).length ≤ 4)
    (hp : p.eqIgnoringAsciiCase (b.longhand side) = true) (habsent : r.value? view p = none) :
    let read := (r.expand view p).value? view p
    let pieces := (components value).flatMap (Text.pieces Unicode.isBlank)
    ∃ c, component? (components value) side = some c ∧
      (read = some c ↔ pieces.length ≤ 4 ∧ component? pieces side = some c) ∧
      ((∀ d ∈ components value, ∀ x ∈ d, Unicode.isBlank x = false) → read = some c) ∧
      ((∃ x ∈ c, Unicode.isBlank x = true) → read ≠ some c) ∧
      (Delimiters.commas.Whole .outside value →
        components value = Arguments.split .commasAndBlanks value) := by
  intro read pieces
  have hread : read = if pieces.length ≤ 4 then component? pieces side else none := by
    have hpieces := pieces_eq_flatMap_components value
    refine (value?_expand_of_absent hp habsent).trans ?_
    rw [hvalue, Option.bind_some, valueFor?_eq, hpieces]
  have hne : components value ≠ [] := List.ne_nil_of_length_pos hlength.1
  obtain ⟨c, hc⟩ := exists_component? hne side
  refine ⟨c, hc, ?_, fun hunbroken => ?_, ?_, components_eq_split⟩
  · rw [hread, Option.ite_none_right_eq_some]
  · have hnil : [] ∉ components value := fun hmem => (Arguments.mem_kept.1 hmem).1 rfl
    have hsame : pieces = components value := flatMap_pieces_of_unbroken hnil hunbroken
    rw [hread, hsame, if_pos hlength.2, hc]
  · rintro ⟨x, hx, hblank⟩ heq
    rw [hread, Option.ite_none_right_eq_some] at heq
    obtain ⟨d, _, hcd⟩ := List.mem_flatMap.1 (mem_of_component?_eq_some heq.2)
    exact ne_false_of_eq_true hblank (Text.not_separates_of_mem_pieces hcd x hx)

theorem bracketedSample_value? :
    let r := Rule.declare { selector := ".a".toList } "padding".toList
      " calc(1px+2px)\t'a,b' 3px".toList
    let r' := Rule.declare { selector := ".a".toList } "border-color".toList "red rgb(1 2 3)".toList
    (r.expand .declared "Padding-Left".toList).value? .declared "Padding-Left".toList =
        some "'a,b'".toList ∧
      (r'.expand .declared "border-left-color".toList).value? .declared "border-left-color".toList ≠
        some "rgb(1 2 3)".toList := by
  intro r r'
  constructor
  · have hvalue : r.value? .declared padding.shorthand =
        some " calc(1px+2px)\t'a,b' 3px".toList := rfl
    have hp : Text.eqIgnoringAsciiCase "Padding-Left".toList (padding.longhand .left) = true := by
      decide
    obtain ⟨c, hc, _, hread, _⟩ := value?_expand_longhand hvalue (by decide) hp (by decide)
    have hleft : some c = some "'a,b'".toList := hc.symm.trans (by decide)
    have hunbroken : (components " calc(1px+2px)\t'a,b' 3px".toList).all
        (·.all (!Unicode.isBlank ·)) = true := by decide
    exact (hread (by simpa using hunbroken)).trans hleft
  · have hvalue : r'.value? .declared borderColor.shorthand = some "red rgb(1 2 3)".toList := rfl
    have hp : Text.eqIgnoringAsciiCase "border-left-color".toList (borderColor.longhand .left) =
        true := by decide
    obtain ⟨c, hc, _, _, hread, _⟩ := value?_expand_longhand hvalue (by decide) hp (by decide)
    obtain rfl : c = "rgb(1 2 3)".toList := Option.some.inj (hc.symm.trans (by decide))
    exact hread ⟨' ', by decide, rfl⟩

/-- The blanks of a color function cut it apart. -/
theorem not_forall_read_component : ¬∀ (r : Rule) (view : View) (b : BoxProperty) (side : Side)
    (p value : Text), r.value? view b.shorthand = some value →
      1 ≤ (components value).length ∧ (components value).length ≤ 4 →
      p.eqIgnoringAsciiCase (b.longhand side) = true → r.value? view p = none →
      (r.expand view p).value? view p = component? (components value) side := by
  intro h
  let r : Rule := Rule.declare { selector := ".a".toList } "border-color".toList
    "rgb(1 2 3) red".toList
  have hread := h r .declared .borderColor .top "border-top-color".toList "rgb(1 2 3) red".toList
    rfl (by decide) (by decide) (by decide)
  exact absurd hread (by decide)

end Rule
end StyleCalls
