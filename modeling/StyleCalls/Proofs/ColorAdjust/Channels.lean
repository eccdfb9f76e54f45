import StyleCalls.Builtin.Basic
import StyleCalls.Proofs.Arguments.Refinement
import StyleCalls.Proofs.Color.Delta

/-! The functions that move one channel of a color. Each of them is the function for all channels
with zeros for the others, and text behind the offset does not come in anywhere, even where the offset
leaves a quote or a parenthesis open and takes that text to itself. -/

namespace StyleCalls

namespace Text

theorem trim_sublist (t : Text) : t.trim.Sublist t :=
  (List.rdropWhile_prefix Unicode.isBlank _).sublist.trans (List.dropWhile_sublist _)

end Text

namespace Delimiters
open Nesting
variable {d : Delimiters} {s : Nesting} {t p q : Text} {ps : List Text}

theorem exists_stretches_eq_cons (d : Delimiters) (s : Nesting) (t : Text) :
    ∃ p ps, d.stretches s t = p :: ps := List.exists_cons_of_ne_nil (stretches_ne_nil d s t)

theorem stretches_cons_cases (d : Delimiters) (s : Nesting) (c : Char) (t : Text) :
    d.stretches s (c :: t) = [] :: d.stretches s t ∨
      ∃ p ps, d.stretches (s.step c) t = p :: ps ∧ d.stretches s (c :: t) = (c :: p) :: ps := by
  by_cases hcuts : d.cuts s c = true
  · exact .inl (by rw [stretches, if_pos hcuts])
  · obtain ⟨p, ps, hps⟩ := exists_stretches_eq_cons d (s.step c) t
    refine .inr ⟨p, ps, hps, ?_⟩
    rw [stretches_cons_of_not_cuts (Bool.eq_false_iff.2 hcuts), hps, List.modifyHead_cons]

theorem sublist_of_mem_stretches (h : p ∈ d.stretches s t) : p.Sublist t := by
  induction t generalizing s p with
  | nil =>
    rw [List.mem_singleton.1 h]
  | cons c t ih =>
    rcases stretches_cons_cases d s c t with hcut | ⟨q, qs, hqs, hcons⟩
    · rw [hcut] at h
      rcases List.mem_cons.1 h with rfl | h
      · exact List.nil_sublist _
      · exact (ih h).cons c
    · rw [hcons] at h
      rcases List.mem_cons.1 h with rfl | h
      · exact (ih (hqs ▸ List.mem_cons_self ..)).cons_cons c
      · exact (ih (hqs ▸ List.mem_cons_of_mem q h)).cons c

/-- A stretch behind a cut is shorter than the text. -/
theorem length_lt_of_stretches_eq_cons (h : d.stretches s t = p :: ps) (hq : q ∈ ps) :
    q.length < t.length := by
  induction t generalizing s p with
  | nil =>
    obtain rfl := (List.cons.inj h).2
    exact absurd hq List.not_mem_nil
  | cons c t ih =>
    rw [List.length_cons]
    rcases stretches_cons_cases d s c t with hcut | ⟨r, rs, hrs, hcons⟩
    · obtain rfl := (List.cons.inj (hcut.symm.trans h)).2
      exact Nat.lt_succ_of_le (sublist_of_mem_stretches hq).length_le
    · obtain rfl := (List.cons.inj (hcons.symm.trans h)).2
      exact (ih hrs).trans (Nat.lt_succ_self _)

theorem mem_head?_of_stretches_eq_cons (h : d.stretches s t = p :: ps) :
    ∀ c ∈ p.head?, c ∈ t.head? := by
  intro c hc
  cases t with
  | nil =>
    obtain rfl := (List.cons.inj h).1
    exact hc
  | cons b t =>
    rcases stretches_cons_cases d s b t with hcut | ⟨r, rs, _, hcons⟩
    · obtain rfl := (List.cons.inj (hcut.symm.trans h)).1
      exact absurd hc (Option.not_mem_none c)
    · obtain rfl := (List.cons.inj (hcons.symm.trans h)).1
      exact hc

end Delimiters

namespace Arguments
open Delimiters Nesting Text
variable {d : Delimiters} {a b : Text}

/-- Two arguments with a space between them. If the space were no cut, what follows it would have to
hold the whole second argument behind a later cut. -/
theorem outside_run_of_split (h : split .commasAndBlanks (a ++ ' ' :: b) = [a, b]) :
    outside.run a = outside := by
  have ha : Single .commasAndBlanks a := single_of_mem_split (h ▸ List.mem_cons_self ..)
  by_contra hrun
  have hcuts : commasAndBlanks.cuts (outside.run a) ' ' = false :=
    Bool.eq_false_iff.2 fun hcuts => hrun (eq_outside_of_cuts hcuts)
  obtain ⟨p, ps, hps⟩ :=
    exists_stretches_eq_cons commasAndBlanks ((outside.run a).step ' ') b
  have hblank : ¬(a ++ ' ' :: p).Blank := fun hall => ha.not_blank (List.forall_mem_append.1 hall).1
  rw [split_eq_kept, stretches_append_of_whole ha.whole, stretches_cons_of_not_cuts hcuts, hps,
    List.modifyHead_cons, List.modifyHead_cons, kept_cons_of_not_blank hblank] at h
  have hkept : b ∈ kept ps := by
    rw [(List.cons.inj h).2]
    exact List.mem_singleton_self b
  obtain ⟨_, q, hq, hb⟩ := mem_kept.1 hkept
  have hle : b.length ≤ q.length := hb ▸ (trim_sublist q).length_le
  exact absurd (length_lt_of_stretches_eq_cons hps hq) (Nat.not_lt.2 hle)

/-- An argument keeps its number whatever follows, be that other arguments or a part of this one. -/
theorem exists_split_append_eq_cons (h : Single .commasAndBlanks a) {rest : Text}
    (hrest : ∀ c ∈ rest.head?, isBreak c = true) :
    ∃ a' others, split .commasAndBlanks (a ++ rest) = a' :: others ∧
      Delta.parse a' = Delta.parse a ∧ ∀ other ∈ others, ∀ c ∈ other, c ∈ rest := by
  obtain ⟨p, ps, hps⟩ := exists_stretches_eq_cons commasAndBlanks (outside.run a) rest
  have hblank : ¬(a ++ p).Blank := fun hall => h.not_blank (List.forall_mem_append.1 hall).1
  refine ⟨(a ++ p).trim, kept ps, ?_, ?_, fun other hother c hc => ?_⟩
  · rw [split_eq_kept, stretches_append_of_whole h.whole, hps, List.modifyHead_cons,
      kept_cons_of_not_blank hblank]
  · have hstops : Decimal.StopsNumber p := Delta.stopsNumber_of_isBreak fun c hc =>
      hrest c (mem_head?_of_stretches_eq_cons hps c hc)
    rw [Delta.parse_trim, Delta.parse_append h.not_blank hstops]
  · obtain ⟨_, q, hq, rfl⟩ := mem_kept.1 hother
    have hsub : q.Sublist rest := sublist_of_mem_stretches (hps ▸ List.mem_cons_of_mem p hq)
    exact hsub.subset ((trim_sublist q).subset hc)

end Arguments

namespace ColorAdjust
open Arguments Nesting
variable {σ : Type}

theorem readArgs_singleton {channel : Channel} {input color : Text} {args : List Text}
    (hsplit : split .commasAndBlanks input = color :: args) :
    readArgs [channel] input = (color, channel.set {} (Delta.parse (args.headD []))) := by
  unfold readArgs
  rw [hsplit]
  cases args with
  | nil => cases channel <;> rfl
  | cons a args => rfl

def allChannels : List Channel := [.hue, .saturation, .lightness, .alpha]

theorem readArgs_allChannels {input color : Text} {args : List Text}
    (hsplit : split .commasAndBlanks input = color :: args) :
    readArgs allChannels input = (color, ⟨Delta.parse (args.getD 0 []), Delta.parse (args.getD 1 []),
      Delta.parse (args.getD 2 []), Delta.parse (args.getD 3 [])⟩) := by
  unfold readArgs
  rw [hsplit]
  rcases args with _ | ⟨h, _ | ⟨s, _ | ⟨l, _ | ⟨a, args⟩⟩⟩⟩ <;> rfl

/-- As many zeros, a space before each. -/
def zeros (n : Nat) : Text := (List.replicate n " 0".toList).flatten

theorem mem_zeros {n : Nat} {c : Char} (h : c ∈ zeros n) : c = '0' ∨ c = ' ' := by
  obtain ⟨w, hw, hc⟩ := List.mem_flatten.1 h
  rw [List.eq_of_mem_replicate hw] at hc
  simpa [or_comm] using hc

theorem isBreak_head?_zeros (n : Nat) : ∀ c ∈ (zeros n).head?, isBreak c = true := by
  cases n with
  | zero => exact nofun
  | succ n =>
    intro c hc
    obtain rfl : ' ' = c := Option.some.inj hc
    decide

theorem trimmed_zero : Text.Trimmed ['0'] := by
  have hzero : Unicode.isBlank '0' = false := by decide
  exact ⟨fun _ hc => Option.some.inj hc ▸ hzero, fun _ hc => Option.some.inj hc ▸ hzero⟩

theorem single_zero : Arguments.Single .commasAndBlanks ['0'] where
  ne_nil := List.cons_ne_nil _ _
  trimmed := trimmed_zero
  whole := Delimiters.whole_cons.2 ⟨by decide, Delimiters.whole_nil⟩

theorem split_append_zeros {a : Text} (h : Arguments.Single .commasAndBlanks a)
    (hrun : outside.run a = outside) (n : Nat) (t : Text) :
    split .commasAndBlanks (a ++ (zeros n ++ ' ' :: t)) =
      a :: (List.replicate n ['0'] ++ split .commasAndBlanks t) := by
  induction n generalizing a with
  | zero => exact split_append_cons h hrun rfl t
  | succ n ih =>
    have hcut := split_append_cons h hrun (c := ' ') rfl (['0'] ++ (zeros n ++ ' ' :: t))
    rw [ih single_zero rfl] at hcut
    exact hcut

theorem parse_zero : Delta.parse ['0'] = 0 := Delta.parse_zeros (by simp)

section
variable {color offset : Text}
  (h : split .commasAndBlanks (color ++ ' ' :: offset) = [color, offset])
include h

/-- Zeros before the offset, and anything behind it. -/
theorem exists_split_padded (n : Nat) {rest : Text} (hrest : ∀ c ∈ rest.head?, isBreak c = true) :
    ∃ offset' others, split .commasAndBlanks (color ++ (zeros n ++ ' ' :: (offset ++ rest))) =
        color :: (List.replicate n ['0'] ++ offset' :: others) ∧
      Delta.parse offset' = Delta.parse offset ∧ ∀ other ∈ others, ∀ c ∈ other, c ∈ rest := by
  have hcolor : Arguments.Single .commasAndBlanks color :=
    single_of_mem_split (h ▸ List.mem_cons_self ..)
  have hmem : offset ∈ split .commasAndBlanks (color ++ ' ' :: offset) := by
    rw [h]
    simp
  have hoffset : Arguments.Single .commasAndBlanks offset := single_of_mem_split hmem
  obtain ⟨offset', others, hsplit, hparse, hothers⟩ := exists_split_append_eq_cons hoffset hrest
  refine ⟨offset', others, ?_, hparse, hothers⟩
  rw [split_append_zeros hcolor (outside_run_of_split h), hsplit]

theorem readArgs_of_rest (channel : Channel) {rest : Text}
    (hrest : ∀ c ∈ rest.head?, isBreak c = true) :
    readArgs [channel] (color ++ ' ' :: (offset ++ rest)) =
      (color, channel.set {} (Delta.parse offset)) := by
  obtain ⟨offset', others, hsplit, hparse, _⟩ := exists_split_padded h 0 hrest
  simp only [zeros, List.replicate_zero, List.flatten_nil, List.nil_append] at hsplit
  rw [readArgs_singleton hsplit, ← hparse]
  rfl

/-- The place of a channel among the arguments of the function for all channels. -/
def Channel.place : Channel → Nat
  | hue => 0
  | saturation => 1
  | lightness => 2
  | alpha => 3

theorem readArgs_padded (channel : Channel) :
    readArgs allChannels (color ++ (zeros channel.place ++
        ' ' :: (offset ++ zeros (3 - channel.place)))) =
      (color, channel.set {} (Delta.parse offset)) := by
  obtain ⟨offset', others, hsplit, hparse, hothers⟩ :=
    exists_split_padded h channel.place (isBreak_head?_zeros (3 - channel.place))
  have hnone (i : Nat) : Delta.parse (others[i]?.getD []) = 0 := by
    cases hother : others[i]? with
    | none => rfl
    | some other =>
      exact Delta.parse_zeros fun c hc =>
        mem_zeros (hothers other (List.mem_of_getElem? hother) c hc)
  rw [readArgs_allChannels hsplit, ← hparse]
  cases channel <;> simp [Channel.place, Channel.set, List.replicate, parse_zero, hnone]

end

/-- The functions that move one channel, each with its channel. -/
def oneChannel : List (Builtin × Channel) := [
  (.hAdjust, .hue), (.sAdjust, .saturation), (.lAdjust, .lightness), (.aAdjust, .alpha)]

theorem run_oneChannel {e : Builtin × Channel} (he : e ∈ oneChannel) (host : Host σ) (input : Text)
    (s : Setting σ) : e.1.run host input s = run [e.2] host input s := by
  simp only [oneChannel, List.mem_cons, List.not_mem_nil, or_false] at he
  rcases he with rfl | rfl | rfl | rfl <;> rfl

/-- Moving one channel is moving all of them, the others by nothing. Behind the offset any text may
follow: the color, the other channels and even the offset are the same without it. -/
theorem run_oneChannel_eq_run_hslaAdjust (host : Host σ) (s : Setting σ) {color offset : Text}
    (h : split .commasAndBlanks (color ++ ' ' :: offset) = [color, offset]) :
    (Builtin.hAdjust.run host (color ++ ' ' :: offset) s =
        Builtin.hslaAdjust.run host (color ++ (' ' :: (offset ++ " 0 0 0".toList))) s ∧
      Builtin.sAdjust.run host (color ++ ' ' :: offset) s =
        Builtin.hslaAdjust.run host (color ++ (" 0 ".toList ++ (offset ++ " 0 0".toList))) s ∧
      Builtin.lAdjust.run host (color ++ ' ' :: offset) s =
        Builtin.hslaAdjust.run host (color ++ (" 0 0 ".toList ++ (offset ++ " 0".toList))) s ∧
      Builtin.aAdjust.run host (color ++ ' ' :: offset) s =
        Builtin.hslaAdjust.run host (color ++ (" 0 0 0 ".toList ++ offset)) s) ∧
    ∀ e ∈ oneChannel, ∀ rest, (∀ c ∈ rest.head?, isBreak c = true) →
      e.1.run host (color ++ ' ' :: (offset ++ rest)) s =
        adjust host color (e.2.set {} (Delta.parse offset)) s := by
  have hone (channel : Channel) {rest : Text} (hrest : ∀ c ∈ rest.head?, isBreak c = true) :
      run [channel] host (color ++ ' ' :: (offset ++ rest)) s =
        adjust host color (channel.set {} (Delta.parse offset)) s := by
    rw [run, readArgs_of_rest h channel hrest]
  have hall (channel : Channel) :
      run [channel] host (color ++ ' ' :: offset) s =
        run allChannels host (color ++ (zeros channel.place ++
          ' ' :: (offset ++ zeros (3 - channel.place)))) s := by
    have hbare : run [channel] host (color ++ ' ' :: (offset ++ [])) s = _ := hone channel nofun
    rw [List.append_nil] at hbare
    rw [hbare, run, readArgs_padded h channel]
  refine ⟨⟨hall .hue, hall .saturation, hall .lightness, ?_⟩, fun e he rest hrest => ?_⟩
  · have halpha := hall .alpha
    rw [show zeros (3 - Channel.alpha.place) = [] from rfl, List.append_nil] at halpha
    exact halpha
  · rw [run_oneChannel he, hone e.2 hrest]

/-- The offset leaves a parenthesis and a quote open. -/
theorem openSample_run :
    let host : Host Unit := {}
    let s : Setting Unit := ⟨none, {}, ()⟩
    Builtin.sAdjust.run host "rgb(255, 0 0) -50('".toList s =
        Builtin.hslaAdjust.run host "rgb(255, 0 0) 0 -50(' 0 0".toList s ∧
      (Builtin.hAdjust.run host "rgb(255, 0 0) 120(', 9 9".toList s).1 = "#00ff00".toList := by
  intro host s
  have hsplit {color offset : Text}
      (h : split .commasAndBlanks (color ++ ' ' :: offset) = [color, offset]) :=
    run_oneChannel_eq_run_hslaAdjust host s h
  have hsaturation := @hsplit "rgb(255, 0 0)".toList "-50('".toList (by decide)
  have hhue := @hsplit "rgb(255, 0 0)".toList "120('".toList (by decide)
  refine ⟨hsaturation.1.2.1, ?_⟩
  have hrest := hhue.2 (.hAdjust, .hue) (List.mem_cons_self ..) ", 9 9".toList
    fun _ hc => Option.some.inj hc ▸ rfl
  have htext : "rgb(255, 0 0) 120(', 9 9".toList =
      "rgb(255, 0 0)".toList ++ ' ' :: ("120('".toList ++ ", 9 9".toList) := by decide
  rw [htext, hrest]
  decide +kernel

end ColorAdjust
end StyleCalls
