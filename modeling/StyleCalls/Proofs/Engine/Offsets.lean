import StyleCalls.Proofs.Engine.Tail

/-! Expansion by byte offsets. Here texts are cut at offsets and searched byte by byte, and a cut
outside the text or inside a character has no result. No such cut is ever made, for the text up to
the parenthesis of a site is still the original one when the turn comes to that site. -/

namespace StyleCalls
variable {σ : Type}

namespace Text

/-- The text between two byte offsets, if it can be cut at both and they are in order. -/
def slice? (start stop : Nat) (t : Text) : Option Text := do
  let (upTo, _) ← splitAt? stop t
  let (_, piece) ← splitAt? start upTo
  return piece

/-- The text with `value` in place of what stands between two byte offsets. -/
def splice? (start stop : Nat) (value t : Text) : Option Text := do
  let before ← slice? 0 start t
  let _ ← slice? start stop t
  let after ← slice? stop (size t) t
  return before ++ value ++ after

theorem slice?_append (u v w : Text) :
    slice? (size u) (size (u ++ v)) (u ++ (v ++ w)) = some v := by
  have hstop : splitAt? (size (u ++ v)) (u ++ (v ++ w)) = some (u ++ v, w) := by
    rw [← List.append_assoc]
    exact splitAt?_size_append ..
  have hstart : splitAt? (size u) (u ++ v) = some (u, v) := splitAt?_size_append ..
  simp only [slice?, hstop, hstart, Option.bind_eq_bind, Option.bind_some]
  rfl

theorem slice?_left (u v : Text) : slice? 0 (size u) (u ++ v) = some u := slice?_append [] u v

theorem slice?_right (u v : Text) : slice? (size u) (size (u ++ v)) (u ++ v) = some v := by
  have h := slice?_append u v []
  rwa [List.append_nil] at h

theorem splice?_append (u v w value : Text) :
    splice? (size u) (size (u ++ v)) value (u ++ (v ++ w)) = some (u ++ value ++ w) := by
  have hafter : slice? (size (u ++ v)) (size (u ++ (v ++ w))) (u ++ (v ++ w)) = some w := by
    rw [← List.append_assoc]
    exact slice?_right ..
  simp only [splice?, slice?_left, slice?_append, hafter, Option.bind_eq_bind, Option.bind_some]
  rfl

end Text

namespace Engine
open Text

/-- Expands one call by byte offsets. There is no result where a cut fails; a call without
parentheses or with parentheses that are never closed is passed over. -/
def expandSite? (e : Engine σ) (host : Host σ) (site : Site) (state : Text × Setting σ) :
    Option (Text × Setting σ) := do
  let (t, s) := state
  let tail ← slice? site.offset (size t) t
  if '(' ∈ tail then
    let start := site.offset + size (tail.takeWhile (· ≠ '('))
    match closingByte? t start with
    | none => return (t, s)
    | some stop =>
      let args ← slice? (start + 1) stop t
      match e.answer host site.name args s with
      | (some value, s) => return (← splice? site.offset (stop + 1) value t, s)
      | (none, s) => return (t, s)
  else return (t, s)

theorem expandSite?_append (e : Engine σ) (host : Host σ) {site : Site} {u : Text}
    (h : size u = site.offset) (v : Text) (s : Setting σ) :
    e.expandSite? host site (u ++ v, s) = some (e.expandSite host site (u ++ v, s)) := by
  rw [expandSite_eq, expandSite?, ← h]
  simp only [slice?_right, Option.bind_eq_bind, Option.bind_some]
  by_cases hv : '(' ∈ v
  · -- all offsets are those of the pieces `u`, `w`, the arguments and what follows them
    obtain ⟨w, inner, rfl, hw⟩ := List.eq_append_cons_of_mem hv
    have hstart : size u + size w = size (u ++ w) := (size_append u w).symm
    have hclose : closingByte? (u ++ (w ++ '(' :: inner)) (size (u ++ w)) =
        (Nesting.inGroup.close? inner).map fun p => size (u ++ (w ++ '(' :: p.1)) := by
      rw [← List.append_assoc, closingByte?_append, Nesting.outside_close?_paren, Option.map_map]
      simp only [Function.comp_def, List.append_assoc]
    rw [if_pos hv, takeWhile_append_paren hw, hstart, hclose, Call.at?_append_paren u hw]
    cases hinner : Nesting.inGroup.close? inner with
    | none => rfl
    | some p =>
      obtain ⟨args, after⟩ := p
      obtain rfl : inner = args ++ ')' :: after := Nesting.eq_append_of_close? hinner
      have hsize : '('.utf8Size = 1 ∧ ')'.utf8Size = 1 := by decide
      have hargs : slice? (size (u ++ w) + 1) (size (u ++ (w ++ '(' :: args)))
          (u ++ (w ++ '(' :: (args ++ ')' :: after))) = some args := by
        have hslice := slice?_append (u ++ (w ++ ['('])) args (')' :: after)
        simpa [size_append, size, hsize, Nat.add_assoc] using hslice
      have hsplice (value : Text) : splice? (size u) (size (u ++ (w ++ '(' :: args)) + 1) value
          (u ++ (w ++ '(' :: (args ++ ')' :: after))) = some (u ++ value ++ after) := by
        have hspan := splice?_append u (w ++ '(' :: (args ++ [')'])) after value
        simpa [size_append, size, hsize, Nat.add_assoc] using hspan
      simp only [Option.map_some, hargs, Option.bind_some]
      rcases e.answer host site.name args s with ⟨_ | value, s⟩
      · rfl
      · simp only [hsplice, Option.bind_some]
        rfl
  · rw [if_neg hv, Call.at?_of_notMem u hv]
    rfl

/-- When the turn comes to a site of the original text, the text has not changed up to the
parenthesis that ended the match. The offset of the site is a place to cut at, a parenthesis
follows it, and no cut made in expanding it fails. -/
theorem site_intact_at_its_turn (e : Engine σ) (host : Host σ) (p : Pattern) (t : Text)
    (s : Setting σ) {left right : List Site} {site : Site}
    (h : p.findAll t = left ++ site :: right) :
    let state := e.expandSites host right t s
    (∃ before rest rest', t = before ++ (site.name ++ '(' :: rest) ∧
      state.1 = before ++ (site.name ++ '(' :: rest') ∧
      splitAt? site.offset state.1 = some (before, site.name ++ '(' :: rest')) ∧
    e.expandSite? host site state = some (e.expandSite host site state) := by
  intro state
  obtain ⟨before, rest, rfl, hoffset, hright⟩ := Pattern.exists_of_sitesFrom_eq_append h
  rw [Nat.zero_add] at hoffset hright
  -- the sites still to the right lie behind the parenthesis, so their expansion keeps what is here
  have hstate : state.1 =
      before ++ (site.name ++ '(' :: (e.expandFrom host p (some '(') rest s).1) := by
    have hshift := e.expandSites_shift host (p.sitesFrom (some '(') 0 0 rest)
      (before ++ (site.name ++ ['('])) rest s
    have hrest : before ++ (site.name ++ '(' :: rest) = before ++ (site.name ++ ['(']) ++ rest := by
      simp
    rw [← Pattern.sitesFrom_eq_map_shift, ← hright] at hshift
    simp only [state, hrest, hshift, expandFrom]
    simp
  refine ⟨⟨before, rest, _, rfl, hstate, ?_⟩, ?_⟩
  · rw [hstate, hoffset]
    exact splitAt?_size_append ..
  · have hpair : state = (before ++ (site.name ++ '(' :: (e.expandFrom host p (some '(') rest s).1),
        state.2) := Prod.ext hstate rfl
    rw [hpair]
    exact e.expandSite?_append host hoffset.symm _ _

/-- Every call turns into the same text, with parentheses, a quotation mark, an escape and a
character of more than one byte. -/
def unevenSample : Engine Unit where
  registry :=
    { entries :=
        { entries := ["f".toList, "g".toList].map fun n =>
            (n, .raw fun _ _ s => ("))é\\(\"".toList, s))
          nodup_keys := by decide } }

theorem unevenSample_intact :
    let t := "ß -f(1) g(f(2), 3)".toList
    let state := unevenSample.expandSites {} [⟨"f".toList, 11⟩] t ⟨none, {}, ()⟩
    state.1 = "ß -f(1) g())é\\(\", 3)".toList ∧
      splitAt? 9 state.1 = some ("ß -f(1) ".toList, "g())é\\(\", 3)".toList) ∧
      unevenSample.expandSite? {} ⟨"g".toList, 9⟩ state =
        some (unevenSample.expandSite {} ⟨"g".toList, 9⟩ state) := by
  intro t state
  have hsites : Pattern.findAll ⟨["f".toList, "g".toList], []⟩ t =
      [⟨"f".toList, 4⟩] ++ ⟨"g".toList, 9⟩ :: [⟨"f".toList, 11⟩] := by rfl
  exact ⟨rfl, rfl, (site_intact_at_its_turn unevenSample {} _ t ⟨none, {}, ()⟩ hsites).2⟩

end Engine
end StyleCalls
