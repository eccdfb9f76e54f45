import Mathlib.Data.List.Perm.Basic
import StyleCalls.Builtin.ColorAdjust

/-! The way of a color past the subscribers. In whatever order they came, those before the
adjustment take over one payload from one another, and those after it another one. Subscribers that
note what they find, and do as before, show that each of them runs once. What they find is what is
lent, for as long as none of them leads the payload away from it. -/

namespace StyleCalls
variable {σ : Type}

/-- What the subscriber at a place in the order of subscription finds when it runs. -/
structure Notice where
  place : Nat
  hook : Hook
  color : Text
  deltas : Deltas
deriving DecidableEq

def Payload.notice (q : Payload) (place : Nat) : Notice :=
  ⟨place, q.hook, q.seenColor, q.seenDeltas⟩

namespace Handler

/-! Handlers that note what they find -/

/-- The handler made to note what it finds, under a place. -/
def noting (place : Nat) (handler : Handler σ) : Handler (σ × List Notice) where
  run q m :=
    let (q', memory) := handler.run q m.1
    (q', memory, m.2 ++ [q.notice place])
  reaches q m := handler.reaches q m.1

/-- What handlers at given places find, each in what the one before it leaves. -/
def notes : List (Nat × Handler σ) → Payload × σ → List Notice
  | [], _ => []
  | (place, handler) :: handlers, p => p.1.notice place :: notes handlers (handler.run p.1 p.2)

theorem passOn_noting (handlers : List (Nat × Handler σ)) (p : Payload × σ)
    (record : List Notice) :
    passOn (handlers.map fun h => h.2.noting h.1) (p.1, p.2, record) =
      ((passOn (handlers.map Prod.snd) p).1, (passOn (handlers.map Prod.snd) p).2,
        record ++ notes handlers p) := by
  induction handlers generalizing p record with
  | nil => exact congrArg (fun r => (p.1, p.2, r)) (List.append_nil record).symm
  | cons h handlers ih =>
    have hrest := ih (h.2.run p.1 p.2) (record ++ [p.1.notice h.1])
    rw [List.append_assoc] at hrest
    exact hrest

theorem map_place_notes (handlers : List (Nat × Handler σ)) (p : Payload × σ) :
    (notes handlers p).map Notice.place = handlers.map Prod.fst := by
  induction handlers generalizing p with
  | nil => rfl
  | cons h handlers ih =>
    rw [notes, List.map_cons, List.map_cons, ih]
    rfl

theorem getElem?_notes (handlers : List (Nat × Handler σ)) (p : Payload × σ) (i : Nat) :
    (notes handlers p)[i]? = handlers[i]?.map fun h =>
      (passOn ((handlers.map Prod.snd).take i) p).1.notice h.1 := by
  induction handlers generalizing p i with
  | nil => rfl
  | cons h handlers ih =>
    cases i with
    | zero => rfl
    | succ i => exact ih (h.2.run p.1 p.2) i

/-! Handlers that leave the payload as it was raised -/

/-- Whatever is lent, the payload still has its variant and leads to it afterwards. -/
def Steady (handler : Handler σ) : Prop :=
  ∀ hook color d memory, ∃ color' d',
    (handler.run (.raise hook color d) memory).1 = .raise hook color' d'

theorem steady_before (f : Text × Deltas → σ → (Text × Deltas) × σ) :
    (Subscriber.before f).handler.Steady
  | .before, color, d, memory => ⟨(f (color, d) memory).1.1, (f (color, d) memory).1.2, rfl⟩
  | .after, color, d, _ => ⟨color, d, rfl⟩

theorem steady_after (f : Deltas → Text → σ → Text × σ) : (Subscriber.after f).handler.Steady
  | .before, color, d, _ => ⟨color, d, rfl⟩
  | .after, color, d, memory => ⟨(f d color memory).1, d, rfl⟩

theorem exists_passOn_raise {handlers : List (Handler σ)} (hsteady : ∀ h ∈ handlers, h.Steady)
    (hook : Hook) (color : Text) (d : Deltas) (memory : σ) : ∃ color' d',
      (passOn handlers (.raise hook color d, memory)).1 = .raise hook color' d' := by
  induction handlers generalizing color d memory with
  | nil => exact ⟨color, d, rfl⟩
  | cons handler handlers ih =>
    rw [List.forall_mem_cons] at hsteady
    -- what the first one leaves is as if it were raised for the others
    obtain ⟨color', d', hrun⟩ := hsteady.1 hook color d memory
    have hrest := ih hsteady.2 color' d' (handler.run (.raise hook color d) memory).2
    rwa [← hrun] at hrest

/-- What steady handlers leave shows what is lent. -/
theorem seen_passOn_raise {handlers : List (Handler σ)} (hsteady : ∀ h ∈ handlers, h.Steady)
    (hook : Hook) (color : Text) (d : Deltas) (memory : σ) :
    let q := (passOn handlers (.raise hook color d, memory)).1
    (q.hook, q.seenColor, q.seenDeltas) = (hook, q.color, q.deltas) := by
  obtain ⟨color', d', hq⟩ := exists_passOn_raise hsteady hook color d memory
  rw [hq]
  rfl

/-- After the adjustment the offsets that are lent stay as they are. -/
theorem deltas_passOn_after (handlers : List (Handler σ)) (color : Text) (d : Deltas) (memory : σ) :
    (passOn handlers (.raise .after color d, memory)).1.deltas = d :=
  ((reaches_passOn handlers _).readOnly (.inl rfl)).1

end Handler

namespace Subscriber
open Handler

/-- Those of the handlers that belong to a hook. -/
def handlersOf (hook : Hook) (subs : List (Subscriber σ)) : List (Handler σ) :=
  (subs.filter fun sub => sub.hook = hook).map handler

def placesOf (hook : Hook) (subs : List (Subscriber σ)) : List Nat :=
  (subs.zipIdx.filter fun e => e.1.hook = hook).map Prod.snd

/-- The subscribers made to note what they find, each under its place. -/
def noting (subs : List (Subscriber σ)) : List (Subscriber (σ × List Notice)) :=
  subs.zipIdx.map fun e => ⟨e.1.hook, e.1.handler.noting e.2⟩

/-- The handlers of a hook, each with its place. -/
def placed (hook : Hook) (subs : List (Subscriber σ)) : List (Nat × Handler σ) :=
  (subs.zipIdx.filter fun e => e.1.hook = hook).map fun e => (e.2, e.1.handler)

theorem map_snd_placed (hook : Hook) (subs : List (Subscriber σ)) :
    (placed hook subs).map Prod.snd = handlersOf hook subs := by
  have hsubs : subs.filter (fun sub => sub.hook = hook) =
      (subs.zipIdx.filter fun e => e.1.hook = hook).map Prod.fst := by
    conv_lhs => rw [← List.zipIdx_map_fst 0 subs, List.filter_map]
    rfl
  rw [handlersOf, hsubs, placed, List.map_map, List.map_map]
  rfl

theorem map_fst_placed (hook : Hook) (subs : List (Subscriber σ)) :
    (placed hook subs).map Prod.fst = placesOf hook subs := List.map_map

theorem handlersOf_append (hook : Hook) (subs subs' : List (Subscriber σ)) :
    handlersOf hook (subs ++ subs') = handlersOf hook subs ++ handlersOf hook subs' := by
  rw [handlersOf, List.filter_append, List.map_append]
  rfl

/-- Noting changes nothing about which handlers belong to a hook. -/
theorem handlersOf_noting (hook : Hook) (subs : List (Subscriber σ)) :
    handlersOf hook (noting subs) = (placed hook subs).map fun h => h.2.noting h.1 := by
  rw [handlersOf, noting, List.filter_map, List.map_map, placed, List.map_map]
  rfl

theorem passOn_handlersOf_noting (hook : Hook) (subs : List (Subscriber σ)) (p : Payload × σ)
    (record : List Notice) :
    passOn (handlersOf hook (noting subs)) (p.1, p.2, record) =
      ((passOn (handlersOf hook subs) p).1, (passOn (handlersOf hook subs) p).2,
        record ++ notes (placed hook subs) p) := by
  rw [handlersOf_noting, passOn_noting, map_snd_placed]

theorem exists_notice_of_getElem?_notes {hook : Hook} {subs : List (Subscriber σ)} {p : Payload × σ}
    {i : Nat} {notice : Notice} (hi : (notes (placed hook subs) p)[i]? = some notice) :
    ∃ place, (passOn ((handlersOf hook subs).take i) p).1.notice place = notice := by
  rw [getElem?_notes, map_snd_placed] at hi
  obtain ⟨h, _, hnotice⟩ := Option.map_eq_some_iff.1 hi
  exact ⟨h.1, hnotice⟩

/-- Each place is that of a subscriber of one hook or the other. -/
theorem perm_placesOf (subs : List (Subscriber σ)) :
    (placesOf .before subs ++ placesOf .after subs).Perm (List.range subs.length) := by
  have hafter : placesOf .after subs =
      (subs.zipIdx.filter fun e => !decide (e.1.hook = .before)).map Prod.snd := by
    refine congrArg _ (List.filter_congr fun e _ => ?_)
    cases e.1.hook <;> rfl
  have hperm := (List.filter_append_perm (fun e => decide (e.1.hook = .before)) subs.zipIdx).map
    Prod.snd
  rwa [List.map_append, List.zipIdx_map_snd, ← List.range_eq_range', ← hafter] at hperm

end Subscriber

namespace Hooks
open Subscriber Handler

def ofSubscribers (subs : List (Subscriber σ)) : Hooks σ := subs.foldl subscribe {}

theorem handlers_subscribe (hooks : Hooks σ) (sub : Subscriber σ) (hook : Hook) :
    (hooks.subscribe sub).handlers hook = hooks.handlers hook ++ handlersOf hook [sub] := by
  obtain ⟨own, handler⟩ := sub
  cases own <;> cases hook <;> simp [subscribe, handlers, handlersOf]

theorem handlers_foldl_subscribe (subs : List (Subscriber σ)) (hooks : Hooks σ) (hook : Hook) :
    (subs.foldl subscribe hooks).handlers hook = hooks.handlers hook ++ handlersOf hook subs := by
  induction subs generalizing hooks with
  | nil => exact (List.append_nil _).symm
  | cons sub subs ih =>
    rw [List.foldl_cons, ih, handlers_subscribe, List.append_assoc, ← handlersOf_append]
    rfl

theorem emit_ofSubscribers (subs : List (Subscriber σ)) (q : Payload) (memory : σ) :
    (ofSubscribers subs).emit q memory = passOn (handlersOf q.hook subs) (q, memory) := by
  rw [emit, ofSubscribers, handlers_foldl_subscribe]
  cases q.hook <;> rfl

end Hooks

/-- The same surroundings with other subscribers, which may keep other things in mind. -/
def Host.withHooks {τ : Type} (host : Host σ) (hooks : Hooks τ) : Host τ :=
  ⟨host.references, hooks, host.colors, host.normalize⟩

namespace ColorAdjust
open Subscriber Handler

def withNotices (s : Setting σ) (record : List Notice) : Setting (σ × List Notice) :=
  ⟨s.context, s.rules, (s.memory, record)⟩

theorem adjust_eq_passOn {τ : Type} (host : Host τ) (subs : List (Subscriber σ)) (color : Text)
    (d : Deltas) (s : Setting σ) :
    adjust (host.withHooks (.ofSubscribers subs)) color d s =
      let left := passOn (handlersOf .before subs) (.raise .before color d, s.memory)
      let adjusted := if host.colors.test left.1.color then
        host.colors.adjust left.1.color left.1.deltas else []
      let answer := passOn (handlersOf .after subs) (.raise .after adjusted left.1.deltas, left.2)
      (answer.1.color, { s with memory := answer.2 }) := by
  simp only [adjust, Host.withHooks, Hooks.runBefore, Hooks.runAfter, Hooks.emit_ofSubscribers]
  rfl

/-- The color and its offsets are lent to the subscribers before the adjustment alone, then what is
made of what they leave is lent to those after it, with the offsets. Each one runs once, in its turn
among those of its hook, and finds what the payload shows when it comes to it. As long as the
payload is left as it was raised, that is what is lent, with all of those after the adjustment
finding the offsets that the others left. -/
theorem adjust_ofSubscribers (host : Host σ) (subs : List (Subscriber σ)) (color : Text)
    (d : Deltas) (s : Setting σ) :
    let before := handlersOf .before subs
    let after := handlersOf .after subs
    let start : Payload × σ := (.raise .before color d, s.memory)
    let left := passOn before start
    let adjusted := if host.colors.test left.1.color then
      host.colors.adjust left.1.color left.1.deltas else []
    let middle : Payload × σ := (.raise .after adjusted left.1.deltas, left.2)
    let answer := passOn after middle
    adjust (host.withHooks (.ofSubscribers subs)) color d s =
        (answer.1.color, { s with memory := answer.2 }) ∧
      ∀ record : List Notice, ∃ first second : List Notice,
        adjust (host.withHooks (.ofSubscribers (noting subs))) color d (withNotices s record) =
          (answer.1.color, withNotices { s with memory := answer.2 } (record ++ first ++ second)) ∧
        first.map Notice.place = placesOf .before subs ∧
        second.map Notice.place = placesOf .after subs ∧
        ((first ++ second).map Notice.place).Perm (List.range subs.length) ∧
        (∀ i notice, first[i]? = some notice →
          let q := (passOn (before.take i) start).1
          (notice.hook, notice.color, notice.deltas) = (q.hook, q.seenColor, q.seenDeltas) ∧
          ((∀ h ∈ before.take i, h.Steady) →
            (notice.hook, notice.color, notice.deltas) = (.before, q.color, q.deltas))) ∧
        ∀ i notice, second[i]? = some notice →
          let q := (passOn (after.take i) middle).1
          (notice.hook, notice.color, notice.deltas) =
            (q.hook, q.seenColor, q.deltasAt.read left.1.deltas) ∧
          ((∀ h ∈ after.take i, h.Steady) →
            (notice.hook, notice.color, notice.deltas) = (.after, q.color, left.1.deltas)) := by
  intro before after start left adjusted middle answer
  refine ⟨adjust_eq_passOn host subs color d s, fun record => ?_⟩
  let first := notes (placed .before subs) start
  let second := notes (placed .after subs) middle
  have hfirst : first.map Notice.place = placesOf .before subs :=
    (map_place_notes _ start).trans (map_fst_placed .before subs)
  have hsecond : second.map Notice.place = placesOf .after subs :=
    (map_place_notes _ middle).trans (map_fst_placed .after subs)
  refine ⟨first, second, ?_, hfirst, hsecond, ?_, fun i notice hi => ?_, fun i notice hi => ?_⟩
  · -- those after the adjustment go on with the record that those before it leave
    have hleft := passOn_handlersOf_noting .before subs start record
    have hanswer := passOn_handlersOf_noting .after subs middle (record ++ first)
    rw [adjust_eq_passOn]
    dsimp only [withNotices]
    rw [hleft, hanswer]
  · rw [List.map_append, hfirst, hsecond]
    exact perm_placesOf subs
  · intro q
    obtain ⟨place, rfl⟩ := exists_notice_of_getElem?_notes hi
    exact ⟨rfl, fun hsteady => seen_passOn_raise hsteady ..⟩
  · intro q
    -- nobody can write the offsets any more, so reading them is reading what the others left
    have hdeltas : q.deltas = left.1.deltas := deltas_passOn_after ..
    obtain ⟨place, rfl⟩ := exists_notice_of_getElem?_notes hi
    rw [← hdeltas]
    exact ⟨rfl, fun hsteady => seen_passOn_raise hsteady ..⟩

/-- Four subscribers that count their runs. The first and the third come after the adjustment. -/
def interleaved : List (Subscriber Nat) := [
  .after fun _ color n => ('<' :: color, n + 1),
  .before fun p n => (("red".toList, p.2), n + 1),
  .after fun d color n => (color ++ d.h.text, n + 1),
  .before fun p n => ((p.1, { p.2 with h := 120 }), n + 1)]

theorem steady_of_mem_interleaved (hook : Hook) : ∀ h ∈ handlersOf hook interleaved, h.Steady := by
  cases hook with
  | before =>
    exact List.forall_mem_cons.2 ⟨steady_before _, List.forall_mem_singleton.2 (steady_before _)⟩
  | after =>
    exact List.forall_mem_cons.2 ⟨steady_after _, List.forall_mem_singleton.2 (steady_after _)⟩

theorem interleavedSample_adjust :
    let host : Host Nat := {}
    let s : Setting Nat := ⟨none, {}, 0⟩
    (adjust (host.withHooks (.ofSubscribers interleaved)) "brand".toList {} s).1 =
        "<#00ff00120".toList ∧
      ∃ first second : List Notice,
        (adjust (host.withHooks (.ofSubscribers (noting interleaved))) "brand".toList {}
          (withNotices s [])).2.memory = (4, first ++ second) ∧
        first.map Notice.place = [1, 3] ∧ second.map Notice.place = [0, 2] ∧
        (∀ notice : Notice, first[1]? = some notice → notice.color = "red".toList) ∧
        ∀ (i : Nat) (notice : Notice), second[i]? = some notice →
          notice.deltas = { h := 120 } := by
  intro host s
  obtain ⟨hadjust, hnotes⟩ := adjust_ofSubscribers host interleaved "brand".toList {} s
  obtain ⟨first, second, hnoting, hbefore, hafter, -, hfirst, hsecond⟩ := hnotes []
  have hsteady (hook : Hook) (i : Nat) : ∀ h ∈ (handlersOf hook interleaved).take i, h.Steady :=
    fun h hmem => steady_of_mem_interleaved hook h (List.mem_of_mem_take hmem)
  constructor
  · rw [hadjust]
    decide +kernel
  · refine ⟨first, second, ?_, hbefore, hafter, fun notice hi => ?_, fun i notice hi => ?_⟩
    · rw [hnoting]
      rfl
    · exact congrArg (fun seen => seen.2.1) ((hfirst 1 notice hi).2 (hsteady .before 1))
    · exact congrArg (fun seen => seen.2.2) ((hsecond i notice hi).2 (hsteady .after i))

/-- Leads the payload to offsets of its own. -/
def misleading (d : Deltas) : Handler σ where
  run q memory := ({ q with deltasAt := .own d }, memory)
  reaches _ _ :=
    have hown := Referent.own_ne_lent d
    ⟨fun h => ⟨rfl, h⟩, fun _ => hown, fun _ => ⟨rfl, .inr hown⟩⟩

/-- Two subscribers after the adjustment. The second writes the hue that it finds behind the
color. -/
def misled : List (Subscriber Unit) := [
  ⟨.after, misleading {}⟩,
  .after fun d color memory => (color ++ d.h.text, memory)]

/-- A subscriber after the adjustment may find other offsets than those that the subscribers before
it left. -/
theorem not_forall_notice_deltas : ¬∀ (subs : List (Subscriber Unit)) (color : Text) (d : Deltas),
    let host : Host Unit := {}
    let s : Setting Unit := ⟨none, {}, ()⟩
    let left := passOn (handlersOf .before subs) (.raise .before color d, s.memory)
    ∀ notice ∈ (adjust (host.withHooks (.ofSubscribers (noting subs))) color d
        (withNotices s [])).2.memory.2,
      notice.place ∈ placesOf .after subs → notice.deltas = left.1.deltas := by
  intro h
  let notice : Notice := ⟨1, .after, "#00ff00".toList, {}⟩
  have hdeltas : notice.deltas = { h := 120 } :=
    h misled "red".toList { h := 120 } notice (by decide +kernel) (by decide)
  exact absurd hdeltas (by decide)

example :
    (adjust (({} : Host Unit).withHooks (.ofSubscribers misled)) "red".toList { h := 120 }
      ⟨none, {}, ()⟩).1 = "#00ff000".toList := by decide +kernel

end ColorAdjust
end StyleCalls
